import Mathlib.Data.List.DropRight
import Orion68.Lib.CStrings
import Orion68.Lib.MaximalRuns
import Orion68.Shell.Vfs

namespace Orion68.DecodeCmd

open CStrings MaximalRuns
open Shell (text)

abbrev Str := List UInt8

def MAXARGS : ℕ := 40

def isspace (c : UInt8) : Bool := c = 0x20

section Tokenizer

/-- The buffer of the line, where in it `ptr` stands, and the arguments so far. -/
structure State where
  linebuffer : List UInt8
  ptr : ℕ
  args : List ℕ

def State.char (s : State) : UInt8 := s.linebuffer.getD s.ptr 0

/-- `while (c(*ptr)) ptr++;`, for a condition that fails at the null byte. -/
def State.skip (c : UInt8 → Bool) (s : State) : State :=
  { s with ptr := s.ptr + ((stringAt 0 s.linebuffer s.ptr).takeWhile c).length }

/-- `*ptr = 0; ptr++;` -/
def State.eraseChar (s : State) : State := { s with linebuffer := s.linebuffer.set s.ptr 0, ptr := s.ptr + 1 }

/-- `while (isspace(*ptr)) { *ptr = 0; ptr++; }`, within `n` rounds. -/
def State.erase : ℕ → State → State
  | 0, s => s
  | n + 1, s => if isspace s.char then erase n s.eraseChar else s

/-- `args[numargs++] = ptr;`, and on to the end of the word. -/
def State.word (s : State) : State := { s with args := s.args ++ [s.ptr] }.skip fun c => !isspace c

/-- The body of the loop behind the test for the end of the string. -/
def State.argument (s : State) : State :=
  let s := s.skip isspace
  if isspace s.char then s
  else
    let s := s.word
    if s.char = 0 then s else s.erase s.linebuffer.length

/-- What `process_command` is called with. -/
structure Call where
  argv : List (Option ℕ)
  argc : ℕ
  memory : List UInt8

/-- The loop of `execute_cmd`; `none` when it has not been left after `n` rounds. -/
def tokenLoop : ℕ → State → Option Call
  | 0, _ => none
  | n + 1, s =>
      let s := if s.args.length = MAXARGS then { s with linebuffer := s.linebuffer.set s.ptr 0 } else s
      if s.char = 0 then some ⟨s.args.map some ++ [none], s.args.length, s.linebuffer⟩ else tokenLoop n s.argument

end Tokenizer

section Commands

/-- The disk as the command line sees it: whether a drive can be changed to, whether a file can be
opened, and the bytes it begins with, `none` if they cannot be read. -/
structure Disk where
  chdrive : Str → Bool
  opens : Str → Bool
  header : Str → Option Str

inductive Event
  | chdrive (drive : Str)
  | driveNotFound (drive : Str)
  | ran (name : String) (args : List Str)
  | requires (min max : ℕ)
  | opened (file : Str)
  | loadElf (argv : List Str) (file : Str)
  | unknownFormat
  | cannotRead
  | unknownCommand

def Call.str (c : Call) (i : ℕ) : Str := (c.argv.getD i none).elim [] (stringAt 0 c.memory)

def Call.strings (c : Call) : List Str := (List.range c.argc).map c.str

/-- `argv[0][1]` -/
def Call.second (c : Call) : UInt8 := (c.argv.getD 0 none).elim 0 fun p => c.memory.getD (p + 1) 0

def lower (c : UInt8) : UInt8 := if 0x41 ≤ c ∧ c ≤ 0x5A then c + 32 else c

def strcasecmp : Str → Str → ℤ
  | a :: s, b :: t => if lower a ≠ lower b then (lower a).toInt8.toInt - (lower b).toInt8.toInt else strcasecmp s t
  | s, t => (s.headD 0).toInt8.toInt - (t.headD 0).toInt8.toInt

/-- `g_cmd_table`: the names with the numbers of arguments. -/
def gCmdTable : List (String × ℕ × ℕ) :=
  [("cat", 1, 1), ("cd", 1, 1), ("cp", 2, 2), ("dump", 2, 2), ("exit", 0, 0), ("help", 0, 0), ("ideinit", 0, 0),
    ("idemode", 1, 0), ("loadmem", 1, 2), ("ls", 0, 1), ("mkdir", 1, 1), ("mv", 2, 2), ("rm", 1, 1), ("rmdir", 1, 1),
    ("run", 1, 1), ("save", 2, 2), ("asave", 2, 2), ("shst", 0, 0), ("time", 0, 6), ("uptime", 0, 0),
    ("writemem", 2, 0), ("writemem1", 2, 0)]

/-- `none`: it returns 0, and nothing has happened. -/
def processCommandBuiltin (d : Disk) (c : Call) : Option (List Event) :=
  if c.argc = 1 ∧ c.second = 0x3A then
    some (.chdrive (c.str 0) :: if d.chdrive (c.str 0) then [] else [.driveNotFound (c.str 0)])
  else
    match gCmdTable.find? fun cmd => strcasecmp (c.str 0) (text cmd.1) = 0 with
    | none => none
    | some (name, min, max) =>
        if min ≤ c.argc - 1 ∧ (max = 0 ∨ c.argc - 1 ≤ max) then some [.ran name c.strings.tail]
        else some [.requires min max]

def FF_MAX_LFN : ℕ := 255

/-- The names that `open_executable_file` tries, one after the other. -/
def executableNames (filename : Str) : List Str :=
  filename :: (([".elf", ".bat"].map text).filter fun e => filename.length + e.length < FF_MAX_LFN).map fun e =>
    filename ++ e ++ text "\n"

def gElfHeaderBytes : Str := [0x7F, 0x45, 0x4C, 0x46]

def processCommandExecutable (d : Disk) (c : Call) : List Event × Bool :=
  let names := executableNames (c.str 0)
  match names.find? d.opens with
  | none => (names.map .opened, false)
  | some file =>
      let tried := (names.takeWhile fun n => !d.opens n) ++ [file]
      let seen :=
        match d.header file with
        | none => Event.cannotRead
        | some bytes => if bytes.take 4 = gElfHeaderBytes then .loadElf c.strings file else .unknownFormat
      (tried.map .opened ++ [seen], true)

def processCommand (d : Disk) (c : Call) : List Event :=
  if 0 < c.argc then
    match processCommandBuiltin d c with
    | some events => events
    | none =>
        let r := processCommandExecutable d c
        if r.2 then r.1 else r.1 ++ [.unknownCommand]
  else []

def executeCmd (linebuffer : List UInt8) : Option Call := tokenLoop (MAXARGS + 1) ⟨linebuffer, 0, []⟩

end Commands

section Rounds

variable {s : State} {strs : List Str} {rest : Str} {n p k : ℕ}

/-- The arguments so far, and what is left of the line. -/
structure Ready (s : State) (strs : List Str) (rest : Str) : Prop where
  rest : stringAt 0 s.linebuffer s.ptr = rest
  strings : s.args.map (stringAt 0 s.linebuffer) = strs
  ended : ∀ p ∈ s.args, p + (stringAt 0 s.linebuffer p).length ≤ s.ptr

theorem char_eq (h : stringAt 0 s.linebuffer s.ptr = rest) : s.char = rest.headD 0 := by
  have hchar := getD_stringAt_of_le (Nat.zero_le (stringAt 0 s.linebuffer s.ptr).length)
  rw [h] at hchar
  rw [State.char, ← Nat.add_zero s.ptr, hchar]
  cases rest <;> rfl

theorem headD_ne_zero (h : stringAt 0 s.linebuffer s.ptr = rest) (hne : rest ≠ []) : rest.headD 0 ≠ 0 := by
  intro hzero
  have hmem : (0 : UInt8) ∈ rest := by
    cases rest with
    | nil => exact absurd rfl hne
    | cons c rest => exact List.mem_cons.mpr (.inl hzero.symm)
  rw [← h] at hmem
  exact notMem_upTo 0 _ hmem

theorem skip_rest (c : UInt8 → Bool) (h : stringAt 0 s.linebuffer s.ptr = rest) :
    stringAt 0 (s.skip c).linebuffer (s.skip c).ptr = rest.dropWhile c := by
  have hle := (List.takeWhile_prefix c (l := stringAt 0 s.linebuffer s.ptr)).length_le
  rw [State.skip, stringAt_add hle, drop_takeWhile, h]

theorem eraseChar_rest {c : UInt8} (h : stringAt 0 s.linebuffer s.ptr = c :: rest) :
    stringAt 0 s.eraseChar.linebuffer s.eraseChar.ptr = rest := by
  have hone : 1 ≤ (stringAt 0 s.linebuffer s.ptr).length := by
    rw [h]
    exact Nat.succ_pos _
  rw [State.eraseChar, stringAt_set_of_lt (Nat.lt_succ_self s.ptr), stringAt_add hone, h]
  rfl

theorem erase_spec (h : stringAt 0 s.linebuffer s.ptr = rest) (hn : rest.length ≤ n) :
    (s.erase n).args = s.args ∧ stringAt 0 (s.erase n).linebuffer (s.erase n).ptr = rest.dropWhile isspace ∧
      s.ptr ≤ (s.erase n).ptr ∧
      ∀ p, p + (stringAt 0 s.linebuffer p).length ≤ s.ptr →
        stringAt 0 (s.erase n).linebuffer p = stringAt 0 s.linebuffer p := by
  induction n generalizing s rest with
  | zero =>
      rw [List.eq_nil_of_length_eq_zero (Nat.le_zero.mp hn)] at h ⊢
      exact ⟨rfl, h, Nat.le_refl _, fun _ _ => rfl⟩
  | succ n ih =>
      rw [State.erase, char_eq h]
      cases rest with
      | nil => exact ⟨rfl, h, Nat.le_refl _, fun _ _ => rfl⟩
      | cons c rest =>
          rw [List.headD_cons]
          cases hc : isspace c with
          | false =>
              rw [if_neg Bool.false_ne_true, List.dropWhile_cons_of_neg (by rw [hc]; exact Bool.false_ne_true)]
              exact ⟨rfl, h, Nat.le_refl _, fun _ _ => rfl⟩
          | true =>
              rw [if_pos rfl, List.dropWhile_cons_of_pos hc]
              obtain ⟨hargs, hrest, hptr, hkept⟩ := ih (eraseChar_rest h) (Nat.le_of_succ_le_succ hn)
              refine ⟨hargs, hrest, Nat.le_trans (Nat.le_succ _) hptr, fun p hp => ?_⟩
              have hset : stringAt 0 s.eraseChar.linebuffer p = stringAt 0 s.linebuffer p := stringAt_set_of_end_le hp
              rw [hkept p (by rw [hset]; exact Nat.le_succ_of_le hp), hset]

theorem erase_string (h : stringAt 0 s.linebuffer s.ptr = rest) (hn : rest.length ≤ n)
    (hhead : isspace (rest.headD 0) = true) (hk : k ≤ (stringAt 0 s.linebuffer p).length) (hp : p + k = s.ptr) :
    stringAt 0 (s.erase n).linebuffer p = (stringAt 0 s.linebuffer p).take k := by
  cases rest with
  | nil => cases hhead
  | cons c rest =>
      cases n with
      | zero => exact absurd hn (Nat.not_succ_le_zero _)
      | succ n =>
          rw [State.erase, char_eq h, if_pos hhead]
          have hset : stringAt 0 s.eraseChar.linebuffer p = (stringAt 0 s.linebuffer p).take k :=
            (congrArg (fun q => stringAt 0 (s.linebuffer.set q 0) p) hp.symm).trans (stringAt_set_end hk)
          have hend : p + (stringAt 0 s.eraseChar.linebuffer p).length ≤ s.eraseChar.ptr := by
            rw [hset, List.length_take_of_le hk, hp]
            exact Nat.le_succ _
          rw [(erase_spec (eraseChar_rest h) (Nat.le_of_succ_le_succ hn)).2.2.2 p hend, hset]

theorem word_rest (h : stringAt 0 s.linebuffer s.ptr = rest) :
    stringAt 0 s.word.linebuffer s.word.ptr = rest.dropWhile fun c => !isspace c :=
  skip_rest (s := { s with args := s.args ++ [s.ptr] }) _ h

theorem word_ptr (h : stringAt 0 s.linebuffer s.ptr = rest) :
    s.word.ptr = s.ptr + (rest.takeWhile fun c => !isspace c).length := by
  rw [← h]
  rfl

theorem ready_word (h : Ready s strs rest) (hend : (rest.dropWhile fun c => !isspace c) = []) :
    Ready s.word (strs ++ [rest]) [] := by
  have hall : (rest.takeWhile fun c => !isspace c) = rest := by
    conv_rhs => rw [← List.takeWhile_append_dropWhile (p := fun c => !isspace c) (l := rest), hend, List.append_nil]
  have hptr := word_ptr h.rest
  rw [hall] at hptr
  constructor
  · rw [word_rest h.rest, hend]
  · change (s.args ++ [s.ptr]).map (stringAt 0 s.linebuffer) = _
    rw [List.map_append, h.strings, List.map_singleton, h.rest]
  · intro p hp
    rw [hptr]
    rcases List.mem_append.mp hp with hp | hp
    · exact Nat.le_trans (h.ended p hp) (Nat.le_add_right _ _)
    · rw [List.mem_singleton.mp hp]
      exact Nat.le_of_eq (congrArg (s.ptr + ·.length) h.rest)

theorem ready_word_erase (h : Ready s strs rest) (hn : rest.length ≤ n)
    (hhead : isspace ((rest.dropWhile fun c => !isspace c).headD 0) = true) :
    Ready (s.word.erase n) (strs ++ [rest.takeWhile fun c => !isspace c])
      ((rest.dropWhile fun c => !isspace c).dropWhile isspace) := by
  have hle : (rest.takeWhile fun c => !isspace c).length ≤ (stringAt 0 s.linebuffer s.ptr).length := by
    rw [h.rest]
    exact (List.takeWhile_prefix _).length_le
  have hptr := word_ptr h.rest
  have hrest := word_rest h.rest
  have hlen := Nat.le_trans (List.dropWhile_suffix fun c => !isspace c).length_le hn
  obtain ⟨hargs, hafter, hmono, hkept⟩ := erase_spec hrest hlen
  have hold : ∀ p ∈ s.args, stringAt 0 (s.word.erase n).linebuffer p = stringAt 0 s.linebuffer p :=
    fun p hp => hkept p (Nat.le_trans (h.ended p hp) (hptr ▸ Nat.le_add_right _ _))
  have hnew : stringAt 0 (s.word.erase n).linebuffer s.ptr = rest.takeWhile fun c => !isspace c := by
    rw [erase_string (p := s.ptr) hrest hlen hhead hle hptr.symm]
    change (stringAt 0 s.linebuffer s.ptr).take _ = _
    rw [h.rest]
    exact (List.prefix_iff_eq_take.mp (List.takeWhile_prefix _)).symm
  constructor
  · exact hafter
  · rw [hargs]
    change (s.args ++ [s.ptr]).map _ = _
    rw [List.map_append, List.map_singleton, hnew, List.map_congr_left hold, h.strings]
  · intro p hp
    rw [hargs] at hp
    rcases List.mem_append.mp hp with hp | hp
    · rw [hold p hp]
      exact Nat.le_trans (h.ended p hp) (Nat.le_trans (hptr ▸ Nat.le_add_right _ _) hmono)
    · rw [List.mem_singleton.mp hp, hnew, ← hptr]
      exact hmono

theorem ready_skip (h : Ready s strs rest) : Ready (s.skip isspace) strs (rest.dropWhile isspace) where
  rest := skip_rest isspace h.rest
  strings := h.strings
  ended p hp := Nat.le_trans (h.ended p hp) (Nat.le_add_right _ _)

theorem length_stringAt_le (m : Str) (p : ℕ) : (stringAt 0 m p).length ≤ m.length :=
  Nat.le_trans (List.takeWhile_prefix _).length_le (List.length_drop ▸ Nat.sub_le _ _)

theorem argument_ready (h : Ready s strs rest) (hword : rest.dropWhile isspace ≠ []) :
    Ready s.argument (strs ++ [(rest.dropWhile isspace).takeWhile fun c => !isspace c])
      (((rest.dropWhile isspace).dropWhile fun c => !isspace c).dropWhile isspace) := by
  have h₁ := ready_skip h
  have hfirst := List.head?_dropWhile_not isspace rest
  rw [State.argument]
  generalize s.skip isspace = s₁ at h₁ ⊢
  generalize rest.dropWhile isspace = rest₁ at h₁ hfirst hword ⊢
  have hchar : isspace s₁.char = false := by
    rw [char_eq h₁.rest]
    cases rest₁ with
    | nil => exact absurd rfl hword
    | cons c rest₁ => exact hfirst
  dsimp only
  rw [hchar, if_neg Bool.false_ne_true, char_eq (word_rest h₁.rest)]
  have hbehind := List.head?_dropWhile_not (fun c => !isspace c) rest₁
  cases hd : rest₁.dropWhile fun c => !isspace c with
  | nil =>
      have hall : (rest₁.takeWhile fun c => !isspace c) = rest₁ := by
        conv_rhs => rw [← List.takeWhile_append_dropWhile (p := fun c => !isspace c) (l := rest₁), hd, List.append_nil]
      rw [hall]
      exact ready_word h₁ hd
  | cons d rest₂ =>
      rw [hd] at hbehind
      have hne : d ≠ 0 := by
        rintro rfl
        cases hbehind
      rw [List.headD_cons, if_neg hne, ← hd]
      apply ready_word_erase h₁
      · rw [← h₁.rest]
        exact length_stringAt_le s₁.linebuffer s₁.ptr
      · rw [hd]
        exact Bool.not_eq_eq_eq_not.mp hbehind

end Rounds

section Calls

variable {s : State} {strs : List Str} {rest : Str} {n : ℕ}

/-- The maximal runs of characters that are not blanks. -/
def words (line : Str) : List Str := runs (fun c => !isspace c) line

/-- The arguments are these strings, with a null pointer behind them. -/
structure Call.Passes (c : Call) (strs : List Str) : Prop where
  argv : c.argv.map (Option.map (stringAt 0 c.memory)) = strs.map some ++ [none]
  argc : c.argc = strs.length

theorem words_of_blank (h : rest.dropWhile isspace = []) : words rest = [] := by
  rw [words, ← runs_dropWhile (q := isspace) (fun c hc => by rw [hc]; rfl), h]
  rfl

theorem words_eq (h : rest.dropWhile isspace ≠ []) :
    words rest = ((rest.dropWhile isspace).takeWhile fun c => !isspace c) ::
      words (((rest.dropWhile isspace).dropWhile fun c => !isspace c).dropWhile isspace) := by
  have hblank : ∀ c, isspace c = true → (!isspace c) = false := fun c hc => by rw [hc]; rfl
  have hfirst := List.head?_dropWhile_not isspace rest
  rw [words, words, ← runs_dropWhile hblank rest]
  rw [runs_dropWhile hblank ((rest.dropWhile isspace).dropWhile _)]
  cases hd : rest.dropWhile isspace with
  | nil => exact absurd hd h
  | cons c rest₁ =>
      rw [hd] at hfirst
      have hc : (!isspace c) = true := by rw [hfirst]; rfl
      exact runs_of_head (p := fun c => !isspace c) hc rest₁

theorem passes_of_ready (h : Ready s strs rest) :
    Call.Passes ⟨s.args.map some ++ [none], s.args.length, s.linebuffer⟩ strs where
  argv := by
    rw [List.map_append, List.map_map, ← h.strings, List.map_map]
    rfl
  argc := by rw [← h.strings, List.length_map]

theorem ready_limit (h : Ready s strs rest) : Ready { s with linebuffer := s.linebuffer.set s.ptr 0 } strs [] where
  rest := by
    have hset := stringAt_set_end (z := 0) (m := s.linebuffer) (p := s.ptr) (Nat.zero_le _)
    rwa [List.take_zero] at hset
  strings := by
    rw [← h.strings]
    exact List.map_congr_left fun p hp => stringAt_set_of_end_le (h.ended p hp)
  ended p hp := by
    rw [stringAt_set_of_end_le (h.ended p hp)]
    exact h.ended p hp

theorem length_strings (h : Ready s strs rest) : s.args.length = strs.length := by rw [← h.strings, List.length_map]

theorem tokenLoop_passes (h : Ready s strs rest) (hrest : rest = [] ∨ rest.dropWhile isspace ≠ [])
    (hlen : strs.length ≤ MAXARGS) (hn : MAXARGS - strs.length < n) :
    ∃ c, tokenLoop n s = some c ∧ c.Passes (strs ++ (words rest).take (MAXARGS - strs.length)) := by
  induction n generalizing s strs rest with
  | zero => exact absurd hn (Nat.not_lt_zero _)
  | succ n ih =>
      rw [tokenLoop, length_strings h]
      rcases Nat.eq_or_lt_of_le hlen with heq | hlt
      · have h' := ready_limit h
        rw [if_pos heq, char_eq h'.rest, heq, Nat.sub_self, List.take_zero, List.append_nil]
        exact ⟨_, rfl, passes_of_ready h'⟩
      · rw [if_neg (Nat.ne_of_lt hlt), char_eq h.rest]
        rcases hrest with rfl | hword
        · rw [words_of_blank rfl, List.take_nil, List.append_nil]
          exact ⟨_, rfl, passes_of_ready h⟩
        · have hne : rest.headD 0 ≠ 0 := by
            apply headD_ne_zero h.rest
            rintro rfl
            exact hword rfl
          rw [if_neg hne]
          have hnext := argument_ready h hword
          have hlen' : (strs ++ [(rest.dropWhile isspace).takeWhile fun c => !isspace c]).length = strs.length + 1 := by
            rw [List.length_append, List.length_singleton]
          have hwords := words_eq hword
          generalize ((rest.dropWhile isspace).dropWhile fun c => !isspace c) = rest₁ at hnext hwords
          have hrest : rest₁.dropWhile isspace = [] ∨ (rest₁.dropWhile isspace).dropWhile isspace ≠ [] := by
            rw [List.dropWhile_idempotent]
            exact em _
          obtain ⟨c, hc, hpass⟩ := ih hnext hrest (by omega) (by omega)
          refine ⟨c, hc, ?_⟩
          rw [hlen', List.append_assoc] at hpass
          have hsub : MAXARGS - strs.length = MAXARGS - (strs.length + 1) + 1 := by omega
          rw [hwords, hsub, List.take_succ_cons]
          exact hpass

theorem ready_start (linebuffer : Str) : Ready ⟨linebuffer, 0, []⟩ [] (stringAt 0 linebuffer 0) where
  rest := rfl
  strings := rfl
  ended := List.forall_mem_nil _

/-- What the line is passed as, and that nothing is run when it has no word. -/
structure Correct (linebuffer : Str) (c : Call) : Prop where
  passes : c.Passes ((words (stringAt 0 linebuffer 0)).take MAXARGS)
  quiet : words (stringAt 0 linebuffer 0) = [] → ∀ d, processCommand d c = []

theorem blank_line (hne : rest ≠ []) (hblank : ∀ c ∈ rest, isspace c = true) (h : Ready s [] rest) :
    ∃ c, tokenLoop (MAXARGS + 1) s = some c ∧ c.argc = 1 := by
  have hargs : s.args = [] := List.map_eq_nil_iff.mp h.strings
  have hnil : rest.dropWhile isspace = [] := List.dropWhile_eq_nil_iff.mpr hblank
  have hskip := (ready_skip h).rest
  rw [hnil] at hskip
  have hword : stringAt 0 (s.skip isspace).word.linebuffer (s.skip isspace).word.ptr = [] := word_rest hskip
  have hround : s.argument = (s.skip isspace).word := by
    rw [State.argument]
    dsimp only
    rw [char_eq hskip, List.headD_nil, if_neg (by decide), char_eq hword, List.headD_nil, if_pos rfl]
  have hlimit : s.args.length ≠ MAXARGS := by rw [hargs]; exact Nat.zero_ne_add_one 39
  have hlimit' : (s.skip isspace).word.args.length ≠ MAXARGS := by
    change (s.args ++ [_]).length ≠ MAXARGS
    rw [hargs]
    exact Nat.ne_of_lt (Nat.succ_lt_succ (Nat.succ_pos 38))
  rw [tokenLoop, if_neg hlimit, char_eq h.rest, if_neg (headD_ne_zero h.rest hne), hround]
  change ∃ c, tokenLoop (39 + 1) _ = some c ∧ _
  rw [tokenLoop, if_neg hlimit', char_eq hword]
  refine ⟨_, rfl, ?_⟩
  change (s.args ++ [_]).length = 1
  rw [hargs]
  rfl

end Calls

/-- A line is passed as its words exactly when it is empty or has a word. -/
theorem executeCmd_correct_iff (linebuffer : Str) :
    (∃ c, executeCmd linebuffer = some c ∧ Correct linebuffer c) ↔
      stringAt 0 linebuffer 0 = [] ∨ ∃ c ∈ stringAt 0 linebuffer 0, isspace c = false := by
  have hstart := ready_start linebuffer
  generalize hline : stringAt 0 linebuffer 0 = line at hstart
  constructor
  · rintro ⟨c, hc, hcorrect⟩
    by_contra hcon
    rw [not_or, not_exists] at hcon
    have hblank : ∀ c ∈ line, isspace c = true :=
      fun c hmem => Bool.not_eq_false _ ▸ fun hfalse => hcon.2 c ⟨hmem, hfalse⟩
    obtain ⟨c', hc', hone⟩ := blank_line hcon.1 hblank hstart
    rw [executeCmd, hc'] at hc
    cases hc
    have hpasses := hcorrect.passes.argc
    rw [hline, words_of_blank (List.dropWhile_eq_nil_iff.mpr hblank), hone] at hpasses
    cases hpasses
  · intro h
    have hrest : line = [] ∨ line.dropWhile isspace ≠ [] := by
      refine h.imp_right fun ⟨c, hmem, hc⟩ hnil => ?_
      rw [List.dropWhile_eq_nil_iff.mp hnil c hmem] at hc
      cases hc
    obtain ⟨c, hc, hpasses⟩ := tokenLoop_passes (n := MAXARGS + 1) hstart hrest (Nat.zero_le _) (Nat.lt_succ_self _)
    rw [List.nil_append] at hpasses
    refine ⟨c, hc, by rw [hline]; exact hpasses, fun hnone d => ?_⟩
    rw [hline] at hnone
    have hargc := hpasses.argc
    rw [hnone, List.take_nil] at hargc
    rw [processCommand, hargc]
    rfl

/-- A line of one blank. -/
theorem blank_passed : executeCmd [0x20, 0] = some ⟨[some 1, none], 1, [0x20, 0]⟩ ∧
    ¬∃ c, executeCmd [0x20, 0] = some c ∧ Correct [0x20, 0] c := by
  have hcall : executeCmd [0x20, 0] = some ⟨[some 1, none], 1, [0x20, 0]⟩ := rfl
  refine ⟨hcall, ?_⟩
  rintro ⟨c, hc, hcorrect⟩
  cases hcall.symm.trans hc
  have hargc := hcorrect.passes.argc
  rw [words_of_blank rfl] at hargc
  cases hargc

end Orion68.DecodeCmd
