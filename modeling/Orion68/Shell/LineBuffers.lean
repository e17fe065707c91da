import Orion68.Lib.CStrings
import Orion68.Shell.Dispatch

namespace Orion68.LineBuffers

open CStrings Libc FatFs Shell RedirectionOrder Dispatch

section Locals

inductive Store
  | lineCopy (i : ℕ)
  | argsCopy (i : ℕ)
  | buf (i : ℕ)
deriving DecidableEq

def Store.Inside : Store → Prop
  | .lineCopy i => i < 256
  | .argsCopy i | .buf i => i < 16

/-- The locals of `execute_line`. `lineCopy` has what lies behind the array too, the pointers are
offsets in it, and the entries of `argsCopy` that are not defined are `none`. -/
structure Locals where
  lineCopy : List UInt8
  argsCopy : ℕ → Option ℕ
  argc : ℕ
  stores : List Store

namespace Locals

/-- `strcpy(line_copy, line)`. -/
def copied (line stale : List UInt8) : Locals :=
  ⟨line ++ 0 :: stale, fun _ => none, 0, (List.range (line.length + 1)).map .lineCopy⟩

def untouched (stale : List UInt8) : Locals := ⟨stale, fun _ => none, 0, []⟩

def str (l : Locals) (p : ℕ) : List UInt8 := stringAt 0 l.lineCopy p

/-- `*p = '\0'`. -/
def cut (p : ℕ) (l : Locals) : Locals :=
  { l with lineCopy := l.lineCopy.set p 0, stores := l.stores ++ [.lineCopy p] }

def setArg (k : ℕ) (p : Option ℕ) (l : Locals) : Locals :=
  { l with argsCopy := Function.update l.argsCopy k p, stores := l.stores ++ [.argsCopy k] }

/-- `args_copy[argc_copy++] = p`. -/
def push (p : ℕ) (l : Locals) : Locals := { l.setArg l.argc (some p) with argc := l.argc + 1 }

/-- `strstr(line_copy, t)`. -/
def find (t : List UInt8) (l : Locals) : Option ℕ := (strstr (l.str 0) t).map fun r => r.1.length

def skipBlanks (p : ℕ) (l : Locals) : ℕ := p + ((l.str p).takeWhile (· = space)).length

/-- The blanks up to `p + k` are taken off, but not what stands at `p`. -/
def trimEnd (p : ℕ) : ℕ → Locals → Locals
  | 0, l => l
  | k + 1, l => if l.lineCopy.getD (p + (k + 1)) 0 = space then trimEnd p k (l.cut (p + (k + 1))) else l

def fileName (p : ℕ) (l : Locals) : ℕ × Locals :=
  let file := l.skipBlanks p
  (file, l.trimEnd file ((l.str file).length - 1))

def outputRedirect (l : Locals) : Option (ℕ × UInt32) × Locals :=
  match l.find (text ">>") with
  | some p =>
      let r := (l.cut p).fileName (p + 2)
      (some (r.1, oWronly ||| oAppend), r.2)
  | none =>
      match l.find (text ">") with
      | some p =>
          if l.lineCopy.getD (p + 1) 0 ≠ 0x3E then
            let r := (l.cut p).fileName (p + 1)
            (some (r.1, oWronly ||| oTrunc), r.2)
          else (none, l)
      | none => (none, l)

/-- The place of the redirection, which is cut off when the file has been opened, and the file. -/
def inputRedirect (l : Locals) : Option (ℕ × ℕ) × Locals :=
  match l.find (text "<") with
  | some p =>
      if l.lineCopy.getD (p + 1) 0 ≠ 0x3C then
        let r := l.fileName (p + 1)
        (some (p, r.1), r.2)
      else (none, l)
  | none => (none, l)

def strtok (p : ℕ) (l : Locals) : Option (ℕ × ℕ) × Locals :=
  let n := ((l.str p).takeWhile (· ∉ [space])).length
  if l.str p = [] then (none, l)
  else if n < (l.str p).length then (some (p, p + n + 1), l.cut (p + n))
  else (some (p, p + n), l)

/-- The loop over the tokens, with room for `n` more; the next token is looked for in any case. -/
def tokenLoop : ℕ → Option (ℕ × ℕ) → Locals → Locals
  | 0, _, l => l
  | _ + 1, none, l => l
  | n + 1, some (token, rest), l =>
      let r := (l.push token).strtok rest
      tokenLoop n r.1 r.2

def strings (l : Locals) : List Path := (List.range l.argc).map fun k => (l.argsCopy k).elim [] l.str

end Locals

inductive Callee
  | command (c : Command)
  | loader

structure Call where
  callee : Callee
  argc : ℕ
  argv : ℕ → Option ℕ
  lineCopy : List UInt8

def Locals.call (callee : Callee) (l : Locals) : Call := ⟨callee, l.argc, l.argsCopy, l.lineCopy⟩

/-- `sprintf(buf, "%s*", args_copy[0])`, and the call of `loader_pic` if there is such a file. -/
def externalStage (i : Input) (s : Vfs) (l : Locals) : Locals × List Call :=
  let name := l.strings.headD []
  let l := { l with stores := l.stores ++ (List.range (name.length + 2)).map .buf }
  if (fileExists i s).1 then
    let l := l.setArg 1 (l.argsCopy 0)
    let l := { l with argc := l.argc + 1 }
    (l, [l.call .loader])
  else (l, [])

def commandStage (i : Input) (s : Vfs) (l : Locals) : Locals × List Call :=
  match builtin (l.strings.headD []) with
  | none => externalStage i s l
  | some c =>
      match c.func i l.strings s with
      | none => (l, [l.call (.command c)])
      | some r =>
          if r.1 ≠ 0 ∧ r.1 ≠ cmdExitShell then
            let x := externalStage i r.2 l
            (x.1, l.call (.command c) :: x.2)
          else (l, [l.call (.command c)])

def tokenStage (i : Input) (input : Option Fd) (output : Option (ℕ × UInt32)) (s : Vfs) (l : Locals) :
    Locals × List Call :=
  let r := l.strtok (l.skipBlanks 0)
  let l := Locals.tokenLoop 16 r.1 r.2
  if l.argc = 0 then (l, [])
  else
    match redirected input (output.map fun o => (l.str o.1, o.2)) s with
    | none => (l, [])
    | some s => commandStage i s l

/-- What `execute_line` does with its local arrays, and its calls of commands and of the loader. -/
def buffers (i : Input) (s : Vfs) : Locals × List Call :=
  let line := aparada i.line
  if line = [] ∨ line.head? = some 0x23 then (.untouched i.stale, [])
  else
    let l := Locals.copied line i.stale
    if (l.find (text "<<")).isSome then (l, [])
    else
      let o := l.outputRedirect
      let n := o.2.inputRedirect
      match n.1 with
      | none => tokenStage i none o.1 s n.2
      | some (p, file) =>
          let r := vfsOpen (n.2.str file) oRdonly s
          match r.1 with
          | none => (n.2, [])
          | some fd => tokenStage i (some fd) o.1 r.2 (n.2.cut p)

end Locals

section Changes

variable {l l' l'' : Locals} {lo hi p q k : ℕ}

/-- Between the two, what is stored to the line lies from `lo` to before `hi`. -/
structure Within (lo hi : ℕ) (l l' : Locals) : Prop where
  before : ∀ q, q + (l.str q).length ≤ lo → l'.str q = l.str q
  head : ∀ q k, q + k ≤ lo → k ≤ (l.str q).length → k ≤ (l'.str q).length ∧ (l'.str q).take k = (l.str q).take k
  behind : ∀ q, hi ≤ q → l'.str q = l.str q
  length : l'.lineCopy.length = l.lineCopy.length
  stores : ∃ new, l'.stores = l.stores ++ new ∧
    ∀ st ∈ new, (∃ i, st = .lineCopy i ∧ i < hi) ∨ ∃ i, st = .argsCopy i ∧ i < 16

theorem Within.refl (lo hi : ℕ) (l : Locals) : Within lo hi l l :=
  ⟨fun _ _ => rfl, fun _ _ _ hk => ⟨hk, rfl⟩, fun _ _ => rfl, rfl, [], (List.append_nil _).symm, by simp⟩

theorem Within.trans (h : Within lo hi l l') (h' : Within lo hi l' l'') : Within lo hi l l'' := by
  obtain ⟨new, hnew, hall⟩ := h.stores
  obtain ⟨new', hnew', hall'⟩ := h'.stores
  refine ⟨?_, ?_, fun q hq => (h'.behind q hq).trans (h.behind q hq), h'.length.trans h.length, new ++ new', ?_, ?_⟩
  · intro q hq
    have heq := h.before q hq
    rw [← heq] at hq
    exact (h'.before q hq).trans heq
  · intro q k hq hk
    obtain ⟨hk', htake⟩ := h.head q k hq hk
    obtain ⟨hk'', htake'⟩ := h'.head q k hq hk'
    exact ⟨hk'', htake'.trans htake⟩
  · rw [hnew', hnew, List.append_assoc]
  · intro st hst
    rcases List.mem_append.mp hst with hst | hst
    · exact hall st hst
    · exact hall' st hst

theorem Within.mono {lo' hi' : ℕ} (h : Within lo hi l l') (hlo : lo' ≤ lo) (hhi : hi ≤ hi') : Within lo' hi' l l' := by
  obtain ⟨new, hnew, hall⟩ := h.stores
  refine ⟨fun q hq => h.before q (by omega), fun q k hq => h.head q k (by omega), fun q hq => h.behind q (by omega),
    h.length, new, hnew, ?_⟩
  intro st hst
  rcases hall st hst with ⟨i, hi, hlt⟩ | harg
  · exact .inl ⟨i, hi, by omega⟩
  · exact .inr harg

theorem str_cut_of_lt (h : p < q) : (l.cut p).str q = l.str q := stringAt_set_of_lt h

theorem str_cut_end (h : k ≤ (l.str q).length) : (l.cut (q + k)).str q = (l.str q).take k := stringAt_set_end h

theorem str_cut_of_ge (h : q + (l.str q).length ≤ p) : (l.cut p).str q = l.str q := by
  rcases Nat.eq_or_lt_of_le h with rfl | hlt
  · rw [str_cut_end (Nat.le_refl _), List.take_length]
  · exact stringAt_set_of_gt hlt

theorem cut_within (hlo : lo ≤ p) (hhi : p < hi) : Within lo hi l (l.cut p) := by
  refine ⟨fun q hq => str_cut_of_ge (by omega), ?_, fun q hq => str_cut_of_lt (by omega), List.length_set,
    [.lineCopy p], rfl, ?_⟩
  · intro q k hq hk
    rcases Nat.le_total (q + (l.str q).length) p with hge | hle
    · rw [str_cut_of_ge hge]
      exact ⟨hk, rfl⟩
    · obtain ⟨j, rfl⟩ := Nat.exists_eq_add_of_le (Nat.le_trans (Nat.le_add_right q k) (Nat.le_trans hq hlo))
      rw [str_cut_end (by omega), List.length_take, List.take_take]
      exact ⟨by omega, by rw [Nat.min_eq_left (by omega)]⟩
  · intro st hst
    rw [List.mem_singleton.mp hst]
    exact .inl ⟨p, rfl, hhi⟩

def Inside (l : Locals) : Prop := ∀ st ∈ l.stores, st.Inside

theorem Within.inside_iff (h : Within lo hi l l') (hhi : hi ≤ 256) : Inside l' ↔ Inside l := by
  obtain ⟨new, hnew, hall⟩ := h.stores
  rw [Inside, hnew, List.forall_mem_append]
  apply and_iff_left
  intro st hst
  rcases hall st hst with ⟨i, rfl, hlt⟩ | ⟨i, rfl, hlt⟩
  · exact Nat.lt_of_lt_of_le hlt hhi
  · exact hlt

end Changes

section Trimming

variable {l l' : Locals} {p k : ℕ}

/-- Blanks at the end are taken off, but not the first byte. -/
def trimLast : List UInt8 → List UInt8
  | [] => []
  | c :: s => c :: s.rdropWhile (· = space)

theorem trimmed_eq (s : List UInt8) : trimmed s = trimLast (s.dropWhile (· = space)) := by
  rw [trimmed]
  cases s.dropWhile (· = space) <;> rfl

theorem trimLast_concat_blank {s : List UInt8} (hne : s ≠ []) : trimLast (s ++ [space]) = trimLast s := by
  obtain ⟨c, s, rfl⟩ := List.exists_cons_of_ne_nil hne
  rw [List.cons_append, trimLast, trimLast, List.rdropWhile_concat_pos _ _ _ (by decide)]

theorem trimLast_concat_of_ne {s : List UInt8} {c : UInt8} (hc : c ≠ space) : trimLast (s ++ [c]) = s ++ [c] := by
  cases s with
  | nil => rfl
  | cons a s =>
      rw [List.cons_append, trimLast, List.rdropWhile_concat_neg _ _ _ (by simpa using hc)]

theorem length_trimLast_le (s : List UInt8) : (trimLast s).length ≤ s.length := by
  cases s with
  | nil => exact Nat.le_refl _
  | cons c s => exact Nat.succ_le_succ (List.rdropWhile_prefix _ s).length_le

theorem argsCopy_trimEnd (p k : ℕ) (l : Locals) :
    (l.trimEnd p k).argsCopy = l.argsCopy ∧ (l.trimEnd p k).argc = l.argc := by
  induction k generalizing l with
  | zero => exact ⟨rfl, rfl⟩
  | succ k ih =>
      rw [Locals.trimEnd]
      split
      · exact ih _
      · exact ⟨rfl, rfl⟩

theorem inside_cut : Inside (l.cut p) ↔ Inside l ∧ p < 256 := by
  constructor
  · intro h
    exact ⟨fun st hst => h st (List.mem_append_left _ hst), h _ (List.mem_append_right _ (List.mem_singleton_self _))⟩
  · rintro ⟨h, hp⟩ st hst
    rcases List.mem_append.mp hst with hst | hst
    · exact h st hst
    · rw [List.mem_singleton.mp hst]
      exact hp

theorem trimEnd_spec (hk : (l.str p).length - 1 = k) :
    (l.trimEnd p k).str p = trimLast (l.str p) ∧ Within (p + 1) (p + (l.str p).length) l (l.trimEnd p k) ∧
      (Inside (l.trimEnd p k) ↔ Inside l ∧ (trimLast (l.str p) = l.str p ∨ p + (l.str p).length ≤ 256)) := by
  induction k generalizing l with
  | zero =>
      have hshort : trimLast (l.str p) = l.str p := by
        cases hs : l.str p with
        | nil => rfl
        | cons c s =>
            rw [hs, List.length_cons, Nat.add_sub_cancel] at hk
            rw [List.eq_nil_of_length_eq_zero hk]
            rfl
      exact ⟨hshort.symm, .refl _ _ l, (and_iff_left (.inl hshort)).symm⟩
  | succ k ih =>
      obtain hnil | ⟨s, c, hs⟩ := (l.str p).eq_nil_or_concat'
      · rw [hnil] at hk
        cases hk
      · have hlen : s.length = k + 1 := by
          rw [hs, List.length_append, List.length_singleton] at hk
          exact hk
        have hlast : l.lineCopy.getD (p + (k + 1)) 0 = c := by
          have hlt : k + 1 < (l.str p).length := by
            rw [hs, List.length_append, hlen]
            exact Nat.lt_succ_self _
          have hget : (l.str p)[k + 1]? = some c := by rw [hs, ← hlen, List.getElem?_concat_length]
          rw [getD_stringAt hlt]
          exact Option.some.inj ((List.getElem?_eq_getElem hlt).symm.trans hget)
        rw [Locals.trimEnd, hlast]
        by_cases hc : c = space
        · subst hc
          have hcut : (l.cut (p + (k + 1))).str p = s := by
            rw [str_cut_end (by rw [hs, List.length_append, hlen]; exact Nat.le_succ _), hs, ← hlen, List.take_left]
          have hne : s ≠ [] := List.ne_nil_of_length_eq_add_one hlen
          have hshorter : ¬ trimLast s = s ++ [space] := by
            intro heq
            have hle := length_trimLast_le s
            rw [heq, List.length_append] at hle
            exact absurd hle (Nat.not_succ_le_self _)
          obtain ⟨hstr, hwithin, hinside⟩ := ih (l := l.cut (p + (k + 1))) (by rw [hcut, hlen]; rfl)
          rw [hcut] at hstr hwithin hinside
          rw [if_pos rfl, hs, trimLast_concat_blank hne]
          refine ⟨hstr, ?_, ?_⟩
          · rw [List.length_append, List.length_singleton, hlen] at *
            exact (cut_within (by omega) (by omega)).trans (hwithin.mono (Nat.le_refl _) (by omega))
          · rw [hinside, inside_cut, List.length_append, List.length_singleton, hlen, or_iff_right hshorter, and_assoc]
            apply and_congr_right
            intro _
            constructor
            · rintro ⟨hlt, -⟩
              omega
            · intro hle
              exact ⟨by omega, .inr (by omega)⟩
        · rw [if_neg hc, hs, trimLast_concat_of_ne hc]
          exact ⟨rfl, .refl _ _ l, (and_iff_left (.inl rfl)).symm⟩

end Trimming

section Redirections

variable {l : Locals} {p k : ℕ} {stale : List UInt8}

theorem str_skipBlanks (l : Locals) (p : ℕ) :
    l.str (l.skipBlanks p) = (l.str p).dropWhile (· = space) ∧
      l.skipBlanks p + (l.str (l.skipBlanks p)).length = p + (l.str p).length := by
  have hle : ((l.str p).takeWhile (· = space)).length ≤ (l.str p).length := (List.takeWhile_prefix _).length_le
  have hstr : l.str (l.skipBlanks p) = (l.str p).drop ((l.str p).takeWhile (· = space)).length := stringAt_add hle
  refine ⟨hstr.trans (drop_takeWhile _ _), ?_⟩
  rw [hstr, List.length_drop, Locals.skipBlanks]
  omega

/-- Nothing but blanks stands behind a string, or there is room for it. -/
def TrimInside (p : ℕ) (s : List UInt8) : Prop := trimmed s = s.dropWhile (· = space) ∨ p + s.length ≤ 256

theorem fileName_spec (l : Locals) (p : ℕ) :
    (l.fileName p).2.str (l.fileName p).1 = trimmed (l.str p) ∧ p ≤ (l.fileName p).1 ∧
      Within p (p + (l.str p).length) l (l.fileName p).2 ∧
      (Inside (l.fileName p).2 ↔ Inside l ∧ TrimInside p (l.str p)) := by
  obtain ⟨hfile, hend⟩ := str_skipBlanks l p
  obtain ⟨hstr, hwithin, hinside⟩ := trimEnd_spec (l := l) (p := l.skipBlanks p) rfl
  have hle : p ≤ l.skipBlanks p := Nat.le_add_right _ _
  refine ⟨hstr.trans ?_, hle, hwithin.mono (Nat.le_succ_of_le hle) (Nat.le_of_eq hend), hinside.trans ?_⟩
  · rw [hfile, ← trimmed_eq]
  · rw [hend, hfile, ← trimmed_eq, TrimInside]

theorem argsCopy_fileName (l : Locals) (p : ℕ) :
    (l.fileName p).2.argsCopy = l.argsCopy ∧ (l.fileName p).2.argc = l.argc := argsCopy_trimEnd _ _ l

theorem found_spec {t b f : List UInt8} (h : strstr (l.str 0) t = some (b, f)) :
    (l.str 0).length = b.length + f.length ∧ (l.str 0).take b.length = b ∧ 0 < f.length ∧
      (∀ k ≤ f.length, l.str (b.length + k) = f.drop k) ∧ (l.lineCopy.getD (b.length + 1) 0 = f.tail.headD 0) := by
  obtain ⟨hs, hne⟩ := strstr_some h
  have hpos : 0 < f.length := List.length_pos_of_ne_nil hne
  have hlen : (l.str 0).length = b.length + f.length := by rw [hs, List.length_append]
  refine ⟨hlen, ?_, hpos, ?_, ?_⟩
  · rw [hs, List.take_left]
  · intro k hk
    have hat : l.str (0 + (b.length + k)) = (l.str 0).drop (b.length + k) := stringAt_add (by rw [← Locals.str, hlen]; omega)
    rw [Nat.zero_add, hs, List.drop_length_add_append] at hat
    exact hat
  · have hnext := getD_stringAt_of_le (z := (0 : UInt8)) (m := l.lineCopy) (p := 0) (k := b.length + 1)
      (by rw [← Locals.str, hlen]; omega)
    rw [Nat.zero_add, ← Locals.str, hs] at hnext
    rw [hnext]
    cases f with
    | nil => exact absurd rfl hne
    | cons c f => cases f <;> simp [List.getD]

/-- The file of a redirection, behind the place where the line is cut off. -/
structure Named (q : ℕ) (b : List UInt8) (l : Locals) (r : ℕ × Locals) : Prop where
  file : r.2.str r.1 = trimmed (l.str q)
  line : r.2.str 0 = b
  behind : b.length ≤ r.1
  length : r.2.lineCopy.length = l.lineCopy.length
  args : r.2.argsCopy = l.argsCopy ∧ r.2.argc = l.argc
  inside : Inside r.2 ↔ (Inside l ∧ b.length < 256) ∧ TrimInside q (l.str q)

theorem cut_fileName {t b f : List UInt8} {q : ℕ} (h : strstr (l.str 0) t = some (b, f)) (hq : b.length < q) :
    Named q b l ((l.cut b.length).fileName q) := by
  obtain ⟨hlen, htake, -⟩ := found_spec h
  have hcut : (l.cut (0 + b.length)).str 0 = b := (str_cut_end (by omega)).trans htake
  rw [Nat.zero_add] at hcut
  have hq' : (l.cut b.length).str q = l.str q := str_cut_of_lt hq
  obtain ⟨hfile, hle, hwithin, hinside⟩ := fileName_spec (l.cut b.length) q
  rw [hq'] at hfile hwithin hinside
  refine ⟨hfile, ?_, Nat.le_trans (Nat.le_of_lt hq) hle, hwithin.length.trans List.length_set, argsCopy_fileName _ _, ?_⟩
  · rw [hwithin.before 0 (by rw [hcut]; omega), hcut]
  · rw [hinside, inside_cut]

/-- What an earlier line has left behind the end of a line whose last byte is its first `>`. -/
def StaleInside (stale line : List UInt8) : Prop :=
  ∀ b c, strstr line (text ">>") = some (b, [c]) → TrimInside (line.length + 1) (cString stale)

structure OutputTaken (stale : List UInt8) (l : Locals) (r : Option (ℕ × UInt32) × Locals) : Prop where
  output : (r.1.map fun o => (r.2.str o.1, o.2)) = (parseOutput stale (l.str 0)).1
  line : r.2.str 0 = (parseOutput stale (l.str 0)).2
  shorter : (r.2.str 0).length ≤ (l.str 0).length
  behind : ∀ o ∈ r.1, (r.2.str 0).length ≤ o.1
  length : r.2.lineCopy.length = l.lineCopy.length
  args : r.2.argsCopy = l.argsCopy ∧ r.2.argc = l.argc
  inside : Inside r.2 ↔ StaleInside stale (l.str 0)

theorem Named.outputTaken {q : ℕ} {b : List UInt8} {r : ℕ × Locals} {flags : UInt32} (h : Named q b l r)
    (hl : Inside l) (hlt : b.length < 256) (hle : b.length ≤ (l.str 0).length)
    (hparse : parseOutput stale (l.str 0) = (some (trimmed (l.str q), flags), b))
    (hinside : TrimInside q (l.str q) ↔ StaleInside stale (l.str 0)) :
    OutputTaken stale l (some (r.1, flags), r.2) := by
  refine ⟨?_, ?_, ?_, ?_, h.length, h.args, ?_⟩
  · rw [hparse, Option.map_some, h.file]
  · rw [hparse, h.line]
  · rw [h.line]
    exact hle
  · rintro _ ⟨⟩
    rw [h.line]
    exact h.behind
  · rw [h.inside, and_iff_right ⟨hl, hlt⟩, hinside]

theorem OutputTaken.none (hl : Inside l) (hparse : parseOutput stale (l.str 0) = (none, l.str 0))
    (hinside : StaleInside stale (l.str 0)) : OutputTaken stale l (.none, l) := by
  refine ⟨?_, ?_, Nat.le_refl _, fun o ho => (nomatch ho), rfl, ⟨rfl, rfl⟩, iff_of_true hl hinside⟩
  · rw [hparse]
    rfl
  · rw [hparse]

theorem outputRedirect_spec (hl : Inside l) (hlen : (l.str 0).length ≤ 255)
    (hstale : l.str ((l.str 0).length + 1) = cString stale) : OutputTaken stale l l.outputRedirect := by
  rw [Locals.outputRedirect, Locals.find, Locals.find]
  cases happend : strstr (l.str 0) (text ">>") with
  | some r =>
      obtain ⟨b, f⟩ := r
      obtain ⟨hend, -, hpos, hstr, -⟩ := found_spec happend
      have hnamed : Named (b.length + 2) b l ((l.cut b.length).fileName (b.length + 2)) :=
        cut_fileName happend (by omega)
      -- two bytes on: within the line, or behind its end
      have hafter : l.str (b.length + 2) = afterTwo stale f := by
        rcases f with _ | ⟨c, _ | ⟨d, f⟩⟩
        · cases hpos
        · rw [hend, List.length_singleton] at hstale
          exact hstale
        · exact hstr 2 (Nat.le_add_left _ _)
      apply hnamed.outputTaken hl (by omega) (by omega)
      · rw [parseOutput, happend, hafter]
      · rw [StaleInside, happend, hafter]
        rcases f with _ | ⟨c, _ | ⟨d, f⟩⟩
        · cases hpos
        · constructor
          · rintro hin _ _ ⟨⟩
            rw [hend]
            exact hin
          · intro hin
            have hone := hin b c rfl
            rw [hend] at hone
            exact hone
        · refine iff_of_true (.inr ?_) fun _ _ he => by cases he
          rw [List.length_cons, List.length_cons] at hend
          rw [afterTwo]
          omega
  | none =>
      have hnone : StaleInside stale (l.str 0) := by
        intro b c hone
        rw [happend] at hone
        cases hone
      cases hout : strstr (l.str 0) (text ">") with
      | none =>
          apply OutputTaken.none hl _ hnone
          rw [parseOutput, happend, hout]
      | some r =>
          obtain ⟨b, f⟩ := r
          obtain ⟨hend, -, hpos, hstr, hnext⟩ := found_spec hout
          dsimp only [Option.map_none, Option.map_some]
          rw [hnext]
          have hhead : f.tail.headD 0 ≠ 0x3E ↔ f.tail.head? ≠ some 0x3E := by
            cases f.tail with
            | nil => simp
            | cons c f => simp
          by_cases hne : f.tail.headD 0 ≠ 0x3E
          · have hnamed : Named (b.length + 1) b l ((l.cut b.length).fileName (b.length + 1)) :=
              cut_fileName hout (Nat.lt_succ_self _)
            have hafter : l.str (b.length + 1) = f.tail := by rw [hstr 1 hpos, List.drop_one]
            rw [if_pos hne]
            apply hnamed.outputTaken hl (by omega) (by omega)
            · rw [parseOutput, happend, hout]
              dsimp only
              rw [if_pos (hhead.mp hne), hafter]
            · refine iff_of_true (.inr ?_) hnone
              rw [hafter, List.length_tail]
              omega
          · rw [if_neg hne]
            apply OutputTaken.none hl _ hnone
            rw [parseOutput, happend, hout]
            dsimp only
            rw [if_neg fun h => hne (hhead.mpr h)]

/-- The line after the input redirection, if the file is opened. -/
def afterInput (r : Option (ℕ × ℕ) × Locals) : Locals := r.1.elim r.2 fun x => r.2.cut x.1

structure InputTaken (l : Locals) (r : Option (ℕ × ℕ) × Locals) : Prop where
  input : (r.1.map fun x => r.2.str x.2) = (parseInput (l.str 0)).1
  line : (afterInput r).str 0 = (parseInput (l.str 0)).2
  shorter : ((afterInput r).str 0).length ≤ (l.str 0).length
  within : Within 0 (l.str 0).length l r.2
  args : r.2.argsCopy = l.argsCopy ∧ r.2.argc = l.argc
  within_after : Within 0 (l.str 0).length l (afterInput r)
  args_after : (afterInput r).argsCopy = l.argsCopy ∧ (afterInput r).argc = l.argc

theorem InputTaken.none (hparse : parseInput (l.str 0) = (none, l.str 0)) : InputTaken l (.none, l) := by
  refine ⟨?_, ?_, Nat.le_refl _, .refl _ _ l, ⟨rfl, rfl⟩, .refl _ _ l, ⟨rfl, rfl⟩⟩
  · rw [hparse]
    rfl
  · rw [hparse]
    rfl

theorem inputRedirect_spec (l : Locals) : InputTaken l l.inputRedirect := by
  rw [Locals.inputRedirect, Locals.find]
  cases hin : strstr (l.str 0) (text "<") with
  | none =>
      apply InputTaken.none
      rw [parseInput, hin]
  | some r =>
      obtain ⟨b, f⟩ := r
      obtain ⟨hend, htake, hpos, hstr, hnext⟩ := found_spec hin
      dsimp only [Option.map_some]
      rw [hnext]
      have hhead : f.tail.headD 0 ≠ 0x3C ↔ f.tail.head? ≠ some 0x3C := by
        cases f.tail with
        | nil => simp
        | cons c f => simp
      by_cases hne : f.tail.headD 0 ≠ 0x3C
      · have hparse : parseInput (l.str 0) = (some (trimmed f.tail), b) := by
          rw [parseInput, hin]
          dsimp only
          rw [if_pos (hhead.mp hne)]
        obtain ⟨hfile, hle, hwithin, -⟩ := fileName_spec l (b.length + 1)
        rw [hstr 1 hpos, List.drop_one] at hfile hwithin
        have hhi : b.length + 1 + f.tail.length = (l.str 0).length := by
          rw [List.length_tail]
          omega
        rw [hhi] at hwithin
        have hargs := argsCopy_fileName l (b.length + 1)
        -- what stands before the redirection is still there
        obtain ⟨hlong, hkept⟩ := hwithin.head 0 b.length (by omega) (by omega)
        have hline : ((l.fileName (b.length + 1)).2.cut b.length).str 0 = b := by
          have hcut := str_cut_end (q := 0) hlong
          rw [Nat.zero_add, hkept, htake] at hcut
          exact hcut
        have hwithin := hwithin.mono (Nat.zero_le _) (Nat.le_refl _)
        rw [if_pos hne]
        refine ⟨?_, ?_, ?_, hwithin, hargs, hwithin.trans (cut_within (Nat.zero_le _) (by omega)), hargs⟩
        · rw [hparse, Option.map_some, hfile]
        · rw [hparse]
          exact hline
        · rw [afterInput, Option.elim_some, hline]
          omega
      · rw [if_neg hne]
        apply InputTaken.none
        rw [parseInput, hin]
        dsimp only
        rw [if_neg fun h => hne (hhead.mpr h)]

end Redirections

end Orion68.LineBuffers
