import Orion68.Basic.LineStore
import Mathlib.Data.List.DropRight

namespace Orion68.BasicDirect

open Buffers Copies Slices TinyBasicPlus BasicLines BasicEntering BasicLineStore

section Source

def word : List Char → List UInt8
  | [] => []
  | [c] => [UInt8.ofNat (c.toNat + 0x80)]
  | c :: w => UInt8.ofNat c.toNat :: word w

/-- The last character of a keyword has 0x80 added to it. -/
def keywords : List UInt8 :=
  [['L', 'I', 'S', 'T'], ['L', 'O', 'A', 'D'], ['N', 'E', 'W'], ['R', 'U', 'N'], ['S', 'A', 'V', 'E'],
    ['N', 'E', 'X', 'T'], ['L', 'E', 'T'], ['I', 'F'], ['G', 'O', 'T', 'O', 'X', 'Y'], ['G', 'O', 'T', 'O'],
    ['G', 'O', 'S', 'U', 'B'], ['R', 'E', 'T', 'U', 'R', 'N'], ['R', 'E', 'M'], ['F', 'O', 'R'],
    ['I', 'N', 'P', 'U', 'T'], ['P', 'R', 'I', 'N', 'T'], ['P', 'O', 'K', 'E'], ['S', 'T', 'O', 'P'],
    ['B', 'Y', 'E'], ['F', 'I', 'L', 'E', 'S'], ['M', 'E', 'M'], ['?'], [Char.ofNat 39],
    ['A', 'W', 'R', 'I', 'T', 'E'], ['D', 'W', 'R', 'I', 'T', 'E'], ['D', 'E', 'L', 'A', 'Y'], ['E', 'N', 'D'],
    ['R', 'S', 'E', 'E', 'D'], ['C', 'H', 'A', 'I', 'N'], ['W', 'H', 'I', 'L', 'E'], ['W', 'E', 'N', 'D'],
    ['H', 'E', 'X'], ['H', 'E', 'X', 'P', 'E', 'E', 'K'], ['C', 'L', 'S'], ['I', 'N', 'C'],
    ['C', 'O', 'L', 'O', 'R'], ['H', 'O', 'M', 'E'], ['L', 'I', 'N', 'E'], ['V', 'L', 'I', 'N', 'E'],
    ['H', 'L', 'I', 'N', 'E'], ['C', 'I', 'R', 'C', 'L', 'E'], ['H', 'C', 'I', 'R', 'C', 'L', 'E'],
    ['F', 'C', 'I', 'R', 'C', 'L', 'E'], ['F', 'H', 'C', 'I', 'R', 'C', 'L', 'E'], ['R', 'R', 'E', 'C', 'T'],
    ['F', 'R', 'R', 'E', 'C', 'T'], ['F', 'R', 'E', 'C', 'T'], ['D', 'A', 'T', 'E']].flatMap word ++ [0]

abbrev kwLoad : Nat := 1
abbrev kwNew : Nat := 2
abbrev kwRem : Nat := 12
abbrev kwQuote : Nat := 22

/-- The rest of the table, the characters of its keyword that have matched (none once one has not), and
`table_index`. -/
def scantableFrom : List UInt8 → Option Nat → Nat → List UInt8 → Nat × List UInt8
  | [], _, tableIndex, t => (tableIndex, t)
  | c :: table, some i, tableIndex, t =>
      if c = 0 then (tableIndex, t)
      else if t.getD i 0 = c then scantableFrom table (some (i + 1)) tableIndex t
      else if (t.getD i 0).toNat + 0x80 = c.toNat then (tableIndex, ignoreBlanks (t.drop (i + 1)))
      else if c < 0x80 then scantableFrom table none tableIndex t
      else scantableFrom table (some 0) (tableIndex + 1) (ignoreBlanks t)
  | c :: table, none, tableIndex, t =>
      if c < 0x80 then scantableFrom table none tableIndex t
      else scantableFrom table (some 0) (tableIndex + 1) (ignoreBlanks t)

def scantable (table t : List UInt8) : Nat × List UInt8 := scantableFrom table (some 0) 0 t

/-- A name without quotes ends at a blank. -/
def goesOn (delim c : UInt8) : Bool := c ≠ NL ∧ c ≠ 0 ∧ c ≠ 58 ∧ c ≠ delim

def getFilename (maxLen : Nat) (t : List UInt8) : List UInt8 × List UInt8 :=
  let t := ignoreBlanks t
  let hasQuotes := t.headD 0 = DQUOTE ∨ t.headD 0 = SQUOTE
  let delim := if hasQuotes then t.headD 0 else SPACE
  let t := if hasQuotes then t.tail else t
  let rest := t.dropWhile (goesOn delim)
  ((t.takeWhile (goesOn delim)).take (maxLen - 1), if hasQuotes ∧ rest.headD 0 = delim then rest.tail else rest)

/-- Where `loop` goes on after a statement; `statement` is one that is not followed here. -/
inductive Next
  | prompt
  | qwhat
  | execline (currentLine : Nat)
  | interperateAtTxtpos (txtpos : Nat)
  | statement (tableIndex txtpos : Nat)
  deriving DecidableEq

/-- There is a `current_line` also at the prompt that follows an error in a program. -/
def execnextline (currentLine : Option Nat) (m : Program) : Next :=
  match currentLine with
  | none => .prompt
  | some line => .execline (line + (m (line + 2)).toNat)

def runNextStatement (currentLine : Option Nat) (txtpos : Nat) (m : Program) : Next :=
  let t := ignoreBlanks ((text m txtpos).dropWhile (· = 58))
  if t.head? = some NL then execnextline currentLine m else .interperateAtTxtpos (position t)

/-- `file_read`, when the service gives what it asks for of the file, and the new `program_end`. -/
def fileRead (file : List UInt8) (s : Store) : Store :=
  let bytes := file.take (basicRamSize - 1)
  ⟨place 0 bytes s.program, bytes.length⟩

/-- The file goes over the memory that `txtpos` is in. -/
def load (files : List UInt8 → List UInt8) (currentLine : Option Nat) (t : List UInt8) (s : Store) : Next × Store :=
  let (filename, t) := getFilename 32 t
  if filename = [] then (.qwhat, { s with programEnd := 0 })
  else
    let s := fileRead (files filename) s
    (runNextStatement currentLine (position t) s.program, s)

/-- When no break is asked for. -/
def interperateAtTxtpos (files : List UInt8 → List UInt8) (currentLine : Option Nat) (txtpos : Nat) (s : Store) :
    Next × Store :=
  let (tableIndex, t) := scantable keywords (text s.program txtpos)
  if tableIndex = kwLoad then load files currentLine t s
  else if tableIndex = kwNew then
    if t.head? = some NL then (.prompt, { s with programEnd := 0 }) else (.qwhat, s)
  else if tableIndex = kwRem ∨ tableIndex = kwQuote then (execnextline currentLine s.program, s)
  else (.statement tableIndex (position t), s)

def statements (files : List UInt8 → List UInt8) (currentLine : Option Nat) :
    Nat → Nat → Store → Option (Next × Store)
  | 0, _, _ => none
  | fuel + 1, txtpos, s =>
      match interperateAtTxtpos files currentLine txtpos s with
      | (.interperateAtTxtpos txtpos, s) => statements files currentLine fuel txtpos s
      | (next, s) => some (next, s)

/-- `direct`, on the line that was typed: it still stands behind the program. -/
def direct (files : List UInt8 → List UInt8) (currentLine : Option Nat) (fuel : Nat) (s : Store) :
    Option (Next × Store) :=
  let txtpos := s.programEnd + 2
  if s.program txtpos = NL then some (.prompt, s) else statements files currentLine fuel txtpos s

end Source

variable {s : Store} {m : Program} {l name keys r t : List UInt8} {p : Nat} {files : List UInt8 → List UInt8}
  {currentLine : Option Nat}

section Scanning

theorem scantable_load (t : List UInt8) : scantable keywords ([76, 79, 65, 68] ++ t) = (kwLoad, ignoreBlanks t) := rfl

theorem scantable_new (t : List UInt8) : scantable keywords ([78, 69, 87] ++ t) = (kwNew, ignoreBlanks t) := rfl

theorem ignoreBlanks_idem (t : List UInt8) : ignoreBlanks (ignoreBlanks t) = ignoreBlanks t :=
  List.dropWhile_idempotent _ _

theorem getFilename_ignoreBlanks (n : Nat) (t : List UInt8) : getFilename n (ignoreBlanks t) = getFilename n t := by
  rw [getFilename, ignoreBlanks_idem]
  rfl

theorem span_line (delim : UInt8) (l r : List UInt8) :
    (l ++ NL :: r).takeWhile (goesOn delim) = l.takeWhile (goesOn delim) ∧
      (l ++ NL :: r).dropWhile (goesOn delim) = l.dropWhile (goesOn delim) ++ NL :: r := by
  have hNL : goesOn delim NL = false := decide_eq_false fun h => h.1 rfl
  induction l with
  | nil => simp [hNL]
  | cons c l ih =>
      rw [List.cons_append, List.takeWhile_cons, List.takeWhile_cons, List.dropWhile_cons, List.dropWhile_cons]
      split
      · exact ⟨congrArg _ ih.1, ih.2⟩
      · exact ⟨rfl, rfl⟩

theorem getFilename_line (n : Nat) (l : List UInt8) :
    ∃ name t, ∀ r, getFilename n (l ++ NL :: r) = (name, t ++ NL :: r) := by
  simp only [getFilename, ignoreBlanks_append]
  generalize ignoreBlanks l = l
  cases l with
  | nil => exact ⟨[], [], fun r => by simp [NL, DQUOTE, SQUOTE, goesOn]⟩
  | cons delim l =>
      simp only [List.cons_append, List.headD_cons, List.tail_cons]
      by_cases hq : delim = DQUOTE ∨ delim = SQUOTE
      · have hne : NL ≠ delim := by rcases hq with rfl | rfl <;> decide
        have htake := fun r => (span_line delim l r).1
        have hdrop := fun r => (span_line delim l r).2
        simp only [hq, if_true, true_and, htake, hdrop]
        cases l.dropWhile (goesOn delim) with
        | nil => exact ⟨_, [], fun r => by rw [List.nil_append, List.headD_cons, if_neg hne]⟩
        | cons c t =>
            refine ⟨(l.takeWhile (goesOn delim)).take (n - 1), if c = delim then t else c :: t, fun r => ?_⟩
            rw [List.cons_append, List.headD_cons, List.tail_cons]
            split <;> rfl
      · have htake := fun r => (span_line SPACE (delim :: l) r).1
        have hdrop := fun r => (span_line SPACE (delim :: l) r).2
        simp only [List.cons_append] at htake hdrop
        simp only [hq, if_false, false_and, htake, hdrop]
        exact ⟨_, _, fun r => rfl⟩

end Scanning

section Loading

theorem runNextStatement_line_end (h : m p = NL) (hp : p < basicRamSize) :
    runNextStatement currentLine p m = execnextline currentLine m := by
  have htext : text m p = [NL] ++ text m (p + 1) := text_of_holds (l := [NL]) ⟨h, trivial⟩ (Nat.succ_le_of_lt hp)
  rw [runNextStatement, htext]
  rfl

theorem runNextStatement_goes_on {c : UInt8} (h : m p = c) (hp : p < basicRamSize) (hcolon : c ≠ 58)
    (hblank : isBlank c = false) (hNL : c ≠ NL) : runNextStatement currentLine p m = .interperateAtTxtpos p := by
  have htext : text m p = [c] ++ text m (p + 1) := text_of_holds (l := [c]) ⟨h, trivial⟩ (Nat.succ_le_of_lt hp)
  have hcolon' : ¬ (fun x : UInt8 => decide (x = 58)) c = true := by simpa using hcolon
  have hblank' : ¬ isBlank c = true := by simp [hblank]
  have hpos : position (c :: text m (p + 1)) = p := by
    rw [position, List.length_cons, length_text]
    omega
  rw [runNextStatement, htext, List.singleton_append,
    List.dropWhile_cons_of_neg (p := fun x : UInt8 => decide (x = 58)) hcolon', ignoreBlanks,
    List.dropWhile_cons_of_neg hblank', hpos]
  simp only [List.head?_cons, Option.some.injEq, if_neg hNL]

/-- A line that says `LOAD`, the name of a file and nothing behind it. -/
def Loads (l name : List UInt8) : Prop :=
  ∃ t, toUppercase 0 l = [76, 79, 65, 68] ++ t ∧ getFilename 32 (t ++ [NL]) = (name, [NL]) ∧ name ≠ []

theorem Loads.getFilename_eq (h : Loads l name) (r : List UInt8) :
    ∃ t, scantable keywords (toUppercase 0 l ++ NL :: r) = (kwLoad, t) ∧ getFilename 32 t = (name, NL :: r) := by
  obtain ⟨t, hl, hname, -⟩ := h
  obtain ⟨name', t', hline⟩ := getFilename_line 32 t
  have hend := (hline []).symm.trans hname
  obtain rfl := congrArg Prod.fst hend
  obtain rfl : t' = [] := List.append_left_eq_self.mp (congrArg Prod.snd hend)
  refine ⟨ignoreBlanks (t ++ NL :: r), ?_, ?_⟩
  · rw [hl, List.append_assoc, scantable_load]
  · rw [getFilename_ignoreBlanks, hline]
    rfl

theorem Loads.number (h : Loads l name) : (numbered (toUppercase 0 l)).1 = 0 := by
  obtain ⟨t, hl, -⟩ := h
  rw [hl]
  rfl

/-- `LOAD` reads the file and goes on at the end of the line, in the memory that the file has been read into. -/
theorem interperateAtTxtpos_load (hl : Holds s.program p (toUppercase 0 l ++ [NL])) (h : Loads l name)
    (hp : p + l.length < basicRamSize) :
    interperateAtTxtpos files currentLine p s =
      (runNextStatement currentLine (p + l.length) (fileRead (files name) s).program, fileRead (files name) s) := by
  have hlen : (toUppercase 0 l ++ [NL]).length = l.length + 1 := by simp
  have htext := text_of_holds hl (by rw [hlen]; omega)
  have hrest := length_text s.program (p + (toUppercase 0 l ++ [NL]).length)
  rw [List.append_assoc, List.singleton_append] at htext
  generalize text s.program (p + (toUppercase 0 l ++ [NL]).length) = r at htext hrest
  obtain ⟨t, hscan, hname⟩ := h.getFilename_eq r
  have hpos : position (NL :: r) = p + l.length := by
    rw [position, List.length_cons, hrest, hlen]
    omega
  obtain ⟨-, -, -, hne⟩ := h
  rw [interperateAtTxtpos, htext, hscan]
  simp only [if_true, load, hname, if_neg hne, hpos]

theorem direct_eq (hl : Holds s.program (s.programEnd + 2) (toUppercase 0 l ++ [NL])) (h : Loads l name)
    (hroom : s.programEnd + 2 + l.length < basicRamSize) (fuel : Nat) :
    direct files currentLine (fuel + 1) s =
      match runNextStatement currentLine (s.programEnd + 2 + l.length) (fileRead (files name) s).program with
      | .interperateAtTxtpos txtpos => statements files currentLine fuel txtpos (fileRead (files name) s)
      | next => some (next, fileRead (files name) s) := by
  have hfirst : s.program (s.programEnd + 2) ≠ NL := by
    obtain ⟨t, ht, -⟩ := h
    rw [ht] at hl
    rw [hl.1]
    decide
  rw [direct, if_neg hfirst, statements, interperateAtTxtpos_load hl h hroom]
  cases runNextStatement currentLine (s.programEnd + 2 + l.length) (fileRead (files name) s).program <;> rfl

/-- As long as the file ends before the line does, nothing is left to interpret. -/
theorem direct_load (hl : Holds s.program (s.programEnd + 2) (toUppercase 0 l ++ [NL])) (h : Loads l name)
    (hroom : s.programEnd + 2 + l.length < basicRamSize) (hfile : (files name).length ≤ s.programEnd + 2 + l.length)
    (fuel : Nat) : direct files currentLine (fuel + 1) s =
      some (execnextline currentLine (fileRead (files name) s).program, fileRead (files name) s) := by
  have hend : (fileRead (files name) s).program (s.programEnd + 2 + l.length) = NL := by
    rw [← length_toUppercase 0 l] at hfile ⊢
    change place 0 ((files name).take (basicRamSize - 1)) s.program _ = NL
    rw [place_of_le (by rw [List.length_take]; omega)]
    exact (holds_append.mp hl).2.1
  rw [direct_eq hl h hroom, runNextStatement_line_end hend hroom]
  cases currentLine <;> rfl

variable (currentLine) in
/-- Otherwise the file itself is interpreted, from where the line ended, when a statement can begin there. -/
theorem direct_load_goes_on {c : UInt8} (hl : Holds s.program (s.programEnd + 2) (toUppercase 0 l ++ [NL]))
    (h : Loads l name) (hroom : s.programEnd + 2 + l.length < basicRamSize - 1)
    (hfile : (files name)[s.programEnd + 2 + l.length]? = some c) (hcolon : c ≠ 58) (hblank : isBlank c = false)
    (hNL : c ≠ NL) (fuel : Nat) :
    direct files currentLine (fuel + 1) s =
      statements files currentLine fuel (s.programEnd + 2 + l.length) (fileRead (files name) s) := by
  obtain ⟨hlt, hget⟩ := List.getElem?_eq_some_iff.mp hfile
  have hc : (fileRead (files name) s).program (s.programEnd + 2 + l.length) = c := by
    have hplace := holds_iff.mp (holds_place 0 ((files name).take (basicRamSize - 1)) s.program)
      (s.programEnd + 2 + l.length) (by rw [List.length_take]; omega)
    rw [Nat.zero_add, List.getElem_take, hget] at hplace
    exact hplace
  rw [direct_eq hl h (by omega), runNextStatement_goes_on hc (by omega) hcolon hblank hNL]

end Loading

section Typing

/-- One round of `loop`, where a line without a number is interpreted; nothing is left to do after ESC. -/
def loopRound (files : List UInt8 → List UInt8) (currentLine : Option Nat) (fuel : Nat) (keys : List UInt8)
    (s : Store) : Option (Next × Store) :=
  (typeLine (keys ++ [CR]) s).bind fun
    | (none, _) => none
    | (some .direct, s) => direct files currentLine fuel s
    | (some .qhow, s) => some (.prompt, s)
    | (some .prompt, s) => some (.prompt, s)

theorem typeLine_direct (hkeys : Typeable (variablesBegin - 4 - s.programEnd) [] keys)
    (hfit : s.programEnd + 2 * (edit keys).length + 4 ≤ variablesBegin) (h0 : (lineOf keys).1 = 0) :
    ∃ u, typeLine (keys ++ [CR]) s = some (some .direct, u) ∧ u.programEnd = s.programEnd ∧
      Holds u.program (u.programEnd + 2) (toUppercase 0 (edit keys) ++ [NL]) := by
  obtain ⟨-, hplain⟩ := hkeys.edit (Nat.zero_le _) (List.forall_mem_nil _)
  have hNL : NL ∉ edit keys := fun hmem => (hplain NL hmem).1 rfl
  obtain ⟨out, m', hget, hm, -⟩ := getlnFrom_spec (r := []) (m := s.program) (e := s.programEnd) (by omega) hkeys
    (Nat.zero_le _) trivial
  replace hm : Holds m' (s.programEnd + 2) (edit keys ++ [NL]) := hm
  have hget' : getln 62 (keys ++ [CR]) s = some (false, [], 62 :: out, m') := congrArg (Option.map _) hget
  obtain ⟨r, -, henter⟩ := enterLine_eq (s := { s with program := m' }) hm hNL
    (by change s.programEnd + (edit keys).length + 4 ≤ _; omega)
  rw [lineOf] at h0
  simp only [h0, if_true] at henter
  refine ⟨moveToEnd (edit keys).length (toUppercaseBuffer (edit keys).length { s with program := m' }), ?_, rfl, ?_⟩
  · rw [typeLine, hget', Option.bind_some]
    simp only [Bool.false_eq_true, if_false, henter]
    rfl
  · refine (holds_toUppercaseBuffer (s := { s with program := m' }) hm).congr fun x hx hxl => ?_
    rw [List.length_append, length_toUppercase, List.length_singleton] at hxl
    rw [moveToEnd_eq (s := toUppercaseBuffer _ { s with program := m' })
      (by change s.programEnd + (edit keys).length + 4 ≤ _; omega)]
    change x < s.programEnd + 2 + ((edit keys).length + 1) at hxl
    exact moved_outside (by omega)

/-- `LOAD` comes back with the file in memory, when the file ends before the line does that was typed behind the
program before: to the prompt, when there is no `current_line`. -/
theorem loopRound_load (hkeys : Typeable (variablesBegin - 4 - s.programEnd) [] keys)
    (hfit : s.programEnd + 2 * (edit keys).length + 4 ≤ variablesBegin) (h : Loads (edit keys) name)
    (hfile : (files name).length ≤ s.programEnd + 2 + (edit keys).length) (fuel : Nat) :
    ∃ u, loopRound files currentLine (fuel + 1) keys s =
      some (execnextline currentLine (fileRead (files name) u).program, fileRead (files name) u) := by
  have hram : variablesBegin ≤ basicRamSize := by decide
  obtain ⟨u, htype, hend, hline⟩ := typeLine_direct hkeys hfit h.number
  refine ⟨u, ?_⟩
  rw [loopRound, htype, Option.bind_some]
  exact direct_load hline h (by rw [hend]; omega) (by rw [hend]; exact hfile) fuel

/-- `load a`, as it is typed. -/
def loadA : List UInt8 := [108, 111, 97, 100, 32, 97]

theorem loads_loadA : Loads (edit loadA) [65] := ⟨[32, 65], by decide, by decide, by decide⟩

/-- There is one file, `A`. -/
def fileA (file name : List UInt8) : List UInt8 := if name = [65] then file else []

/-- `10 REM: NEW` in a file. -/
def remNew : List UInt8 := record (10, [82, 69, 77, 58, 32, 78, 69, 87])

/-- In an empty memory this file goes over the line `LOAD A`: `NEW` stands where the line ended, and the program
is gone. -/
theorem load_erases (m : Program) :
    ∃ u, loopRound (fileA remNew) none 2 loadA ⟨m, 0⟩ = some (.prompt, u) ∧ u.programEnd = 0 := by
  have hkeys : Typeable (variablesBegin - 4 - 0) [] loadA := by decide
  obtain ⟨u, htype, hend, hline⟩ := typeLine_direct (s := ⟨m, 0⟩) hkeys
    (by change 0 + 2 * (edit loadA).length + 4 ≤ variablesBegin; decide) loads_loadA.number
  replace hend : u.programEnd = 0 := hend
  have hlen : u.programEnd + 2 + (edit loadA).length = 8 := by rw [hend]; decide
  have hfileA : fileA remNew [65] = remNew := if_pos rfl
  have hbyte : (fileA remNew [65])[u.programEnd + 2 + (edit loadA).length]? = some 78 := by rw [hlen]; decide
  have hgoes := direct_load_goes_on none hline loads_loadA (by rw [hlen]; decide) hbyte (by decide) (by decide)
    (by decide) 1
  rw [hlen, hfileA] at hgoes
  generalize hs : fileRead remNew u = s at hgoes
  have hfile : Holds s.program 0 (remNew.take 8 ++ ([78, 69, 87] ++ [NL])) := hs ▸ holds_place 0 remNew u.program
  have htext := text_of_holds (holds_append.mp hfile).2 (by decide)
  have hnew : interperateAtTxtpos (fileA remNew) none 8 s = (.prompt, { s with programEnd := 0 }) := by
    rw [interperateAtTxtpos, show (8 : Nat) = 0 + (remNew.take 8).length by decide, htext, List.append_assoc,
      scantable_new]
    rfl
  refine ⟨{ s with programEnd := 0 }, ?_, rfl⟩
  rw [loopRound, htype, Option.bind_some]
  change direct _ none 2 u = _
  rw [hgoes, statements, hnew]

end Typing

end Orion68.BasicDirect
