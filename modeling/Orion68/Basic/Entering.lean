import Orion68.Basic.Lines
import Mathlib.Data.List.TakeWhile

namespace Orion68.BasicEntering

open Buffers Copies Slices SortedMaps TinyBasicPlus BasicLines

variable {s : Store} {m : Program} {L : Listing} {l r t : List UInt8} {n p q : Nat}

section Scanning

theorem ignoreBlanks_suffix (l : List UInt8) : ignoreBlanks l <:+ l := List.dropWhile_suffix _

theorem head_ignoreBlanks (l : List UInt8) : ∀ c ∈ (ignoreBlanks l).head?, isBlank c = false := by
  intro c hc
  have h := List.head?_dropWhile_not isBlank l
  rw [← ignoreBlanks, hc] at h
  exact h

theorem ignoreBlanks_append (l r : List UInt8) : ignoreBlanks (l ++ NL :: r) = ignoreBlanks l ++ NL :: r := by
  induction l with
  | nil => rfl
  | cons c l ih =>
      rw [ignoreBlanks, ignoreBlanks, List.cons_append, List.dropWhile_cons, List.dropWhile_cons]
      split
      · exact ih
      · rfl

theorem testnumFrom_append (num : Nat) (l r : List UInt8) :
    testnumFrom num (l ++ NL :: r) = ((testnumFrom num l).1, (testnumFrom num l).2 ++ NL :: r) := by
  induction l generalizing num with
  | nil => rfl
  | cons c l ih =>
      rw [List.cons_append, testnumFrom, testnumFrom]
      split
      · split
        · rfl
        · exact ih _
      · rfl

theorem testnumFrom_suffix (num : Nat) (l : List UInt8) : (testnumFrom num l).2 <:+ l := by
  induction l generalizing num with
  | nil => exact List.suffix_rfl
  | cons c l ih =>
      rw [testnumFrom]
      split
      · split
        · exact List.suffix_rfl
        · exact (ih _).trans (List.suffix_cons c l)
      · exact List.suffix_rfl

theorem testnumFrom_lt (num : Nat) (l : List UInt8) (h : num < 65530) :
    (testnumFrom num l).1 = 0xffff ∨ (testnumFrom num l).1 < 65530 := by
  induction l generalizing num with
  | nil => exact .inr h
  | cons c l ih =>
      rw [testnumFrom]
      split
      next hc =>
        split
        next => exact .inl rfl
        next hlt =>
          refine ih _ ?_
          have : c.toNat ≤ 57 := by
            simp only [isDigit, decide_eq_true_eq] at hc
            exact UInt8.le_iff_toNat_le.mp hc.2
          omega
      next => exact .inr h

theorem testnumFrom_consumed (num : Nat) (l : List UInt8) :
    ∃ d, d ++ (testnumFrom num l).2 = l ∧ ∀ c ∈ d, isDigit c = true := by
  induction l generalizing num with
  | nil => exact ⟨[], rfl, List.forall_mem_nil _⟩
  | cons c l ih =>
      rw [testnumFrom]
      split
      next hc =>
        split
        · exact ⟨[], rfl, List.forall_mem_nil _⟩
        · obtain ⟨d, hd, hdig⟩ := ih (num * 10 + (c.toNat - 48))
          exact ⟨c :: d, congrArg _ hd, List.forall_mem_cons.mpr ⟨hc, hdig⟩⟩
      next => exact ⟨[], rfl, List.forall_mem_nil _⟩

theorem length_testnum_lt (l : List UInt8) (h : (testnum l).1 ≠ 0) : (testnum l).2.length < l.length := by
  have hblank := (ignoreBlanks_suffix l).length_le
  rw [testnum] at h ⊢
  cases hl : ignoreBlanks l with
  | nil =>
      rw [hl] at h
      exact absurd rfl h
  | cons c t =>
      rw [hl] at h hblank
      rw [testnumFrom] at h ⊢
      split at h
      next hc =>
        have hsuf := (testnumFrom_suffix (0 * 10 + (c.toNat - 48)) t).length_le
        rw [if_pos hc, if_neg (by decide)]
        simp only [List.length_cons] at hblank
        omega
      next => exact absurd rfl h

/-- The number that a line starts with, and the text after it. -/
def numbered (l : List UInt8) : Nat × List UInt8 := ((testnum l).1, ignoreBlanks (testnum l).2)

theorem ignoreBlanks_consumed (l : List UInt8) : ∃ d, d ++ ignoreBlanks l = l ∧ ∀ c ∈ d, isBlank c = true :=
  ⟨l.takeWhile isBlank, List.takeWhile_append_dropWhile, fun _ hc => List.mem_takeWhile_imp hc⟩

theorem numbered_consumed (l : List UInt8) :
    ∃ d, d ++ (numbered l).2 = l ∧ ∀ c ∈ d, isDigit c = true ∨ isBlank c = true := by
  obtain ⟨d₁, h₁, hd₁⟩ := ignoreBlanks_consumed l
  obtain ⟨d₂, h₂, hd₂⟩ := testnumFrom_consumed 0 (ignoreBlanks l)
  obtain ⟨d₃, h₃, hd₃⟩ := ignoreBlanks_consumed (testnum l).2
  refine ⟨d₁ ++ (d₂ ++ d₃), ?_, fun c hc => ?_⟩
  · rw [List.append_assoc, List.append_assoc, numbered, h₃, testnum, h₂, h₁]
  · rcases List.mem_append.mp hc with hc | hc
    · exact .inr (hd₁ c hc)
    · rcases List.mem_append.mp hc with hc | hc
      · exact .inl (hd₂ c hc)
      · exact .inr (hd₃ c hc)

theorem testnum_append (l r : List UInt8) :
    (testnum (l ++ NL :: r)).1 = (numbered l).1 ∧ ignoreBlanks (testnum (l ++ NL :: r)).2 = (numbered l).2 ++ NL :: r := by
  rw [testnum, ignoreBlanks_append, testnumFrom_append]
  exact ⟨rfl, ignoreBlanks_append _ r⟩

@[simp] theorem length_toUppercase (quote : UInt8) (l : List UInt8) : (toUppercase quote l).length = l.length := by
  induction l generalizing quote with
  | nil => rfl
  | cons c l ih =>
      rw [toUppercase]
      split_ifs <;> simp [ih]

theorem upper_letter {c : UInt8} (h : 97 ≤ c ∧ c ≤ 122) : 65 ≤ (c + 65 - 97).toNat ∧ (c + 65 - 97).toNat ≤ 90 := by
  have hle : 97 ≤ c.toNat := UInt8.le_iff_toNat_le.mp h.1
  have hge : c.toNat ≤ 122 := UInt8.le_iff_toNat_le.mp h.2
  rw [UInt8.toNat_sub, UInt8.toNat_add]
  change 65 ≤ (2 ^ 8 - 97 + (c.toNat + 65) % 2 ^ 8) % 2 ^ 8 ∧ (2 ^ 8 - 97 + (c.toNat + 65) % 2 ^ 8) % 2 ^ 8 ≤ 90
  omega

theorem upper_letter_ne {c : UInt8} (h : 97 ≤ c ∧ c ≤ 122) {a : UInt8} (ha : a.toNat < 65) : c + 65 - 97 ≠ a := by
  rintro rfl
  exact absurd (upper_letter h).1 (Nat.not_le.mpr ha)

theorem toUppercase_plain (quote : UInt8) (h : ∀ c ∈ l, Plain c) : ∀ c ∈ toUppercase quote l, Plain c := by
  induction l generalizing quote with
  | nil => exact h
  | cons c l ih =>
      obtain ⟨hc, hl⟩ := List.forall_mem_cons.mp h
      rw [toUppercase]
      split_ifs with h₁ h₂ h₃
      · exact List.forall_mem_cons.mpr ⟨hc, ih _ hl⟩
      · exact List.forall_mem_cons.mpr ⟨hc, ih _ hl⟩
      · exact List.forall_mem_cons.mpr ⟨⟨upper_letter_ne h₃.2 (by decide), upper_letter_ne h₃.2 (by decide),
          upper_letter_ne h₃.2 (by decide), upper_letter_ne h₃.2 (by decide)⟩, ih _ hl⟩
      · exact List.forall_mem_cons.mpr ⟨hc, ih _ hl⟩

theorem toUppercase_idem (quote : UInt8) (l : List UInt8) :
    toUppercase quote (toUppercase quote l) = toUppercase quote l := by
  induction l generalizing quote with
  | nil => rfl
  | cons c l ih =>
      rw [toUppercase]
      split_ifs with h₁ h₂ h₃
      · rw [toUppercase, if_pos h₁, ih]
      · rw [toUppercase, if_neg h₁, if_pos h₂, ih]
      · have hq : c + 65 - 97 ≠ quote := h₃.1 ▸ upper_letter_ne h₃.2 (by decide)
        have hne : ¬ (c + 65 - 97 = DQUOTE ∨ c + 65 - 97 = SQUOTE) :=
          not_or.mpr ⟨upper_letter_ne h₃.2 (by decide), upper_letter_ne h₃.2 (by decide)⟩
        have hup : ¬ (quote = 0 ∧ 97 ≤ c + 65 - 97 ∧ c + 65 - 97 ≤ 122) := by
          rintro ⟨-, hle, -⟩
          have hle' : 97 ≤ (c + 65 - 97).toNat := UInt8.le_iff_toNat_le.mp hle
          have := (upper_letter h₃.2).2
          omega
        rw [toUppercase, if_neg hq, if_neg hne, if_neg hup, ih]
      · rw [toUppercase, if_neg h₁, if_neg h₂, if_neg h₃, ih]

theorem toUppercase_append {d : List UInt8} (hd : ∀ c ∈ d, isDigit c = true ∨ isBlank c = true) (l : List UInt8) :
    toUppercase 0 (d ++ l) = d ++ toUppercase 0 l := by
  induction d with
  | nil => rfl
  | cons c d ih =>
      obtain ⟨hc, hd⟩ := List.forall_mem_cons.mp hd
      have hsmall : c ≠ 0 ∧ ¬ (c = DQUOTE ∨ c = SQUOTE) ∧ ¬ ((0 : UInt8) = 0 ∧ 97 ≤ c ∧ c ≤ 122) := by
        rcases hc with hc | hc
        · simp only [isDigit, decide_eq_true_eq, UInt8.le_iff_toNat_le] at hc
          change 48 ≤ c.toNat ∧ c.toNat ≤ 57 at hc
          refine ⟨?_, not_or.mpr ⟨?_, ?_⟩, ?_⟩
          · rintro rfl
            exact absurd hc.1 (by decide)
          · rintro rfl
            exact absurd hc.1 (by decide)
          · rintro rfl
            exact absurd hc.1 (by decide)
          · rintro ⟨-, hle, -⟩
            have hle' : 97 ≤ c.toNat := UInt8.le_iff_toNat_le.mp hle
            omega
        · simp only [isBlank, decide_eq_true_eq] at hc
          rcases hc with rfl | rfl <;> decide
      rw [List.cons_append, toUppercase, if_neg hsmall.1, if_neg hsmall.2.1, if_neg hsmall.2.2, ih hd]
      rfl

end Scanning

section Texts

theorem text_of_holds (h : Holds m p l) (hlen : p + l.length ≤ basicRamSize) :
    text m p = l ++ text m (p + l.length) := by
  obtain ⟨k, hk⟩ := Nat.exists_eq_add_of_le hlen
  have hk' : basicRamSize - p = l.length + k := by omega
  rw [text, hk', slice_add, h.slice_eq, text, show basicRamSize - (p + l.length) = k by omega]

theorem length_text (m : Program) (p : Nat) : (text m p).length = basicRamSize - p := length_slice

theorem idxOf_append (h : NL ∉ l) (r : List UInt8) : (l ++ NL :: r).idxOf? NL = some l.length := by
  induction l with
  | nil => simp [List.idxOf?_cons]
  | cons c l ih =>
      obtain ⟨hc, hl⟩ := not_or.mp (mt List.mem_cons.mpr h)
      have hne : (c == NL) = false := by simpa using Ne.symm hc
      rw [List.cons_append, List.idxOf?_cons, hne, ih hl]
      rfl

end Texts

section Headers

theorem holds_record {m' : Program} (hm : ∀ x, q + 3 ≤ x → m' x = m x)
    (hhead : Holds m' q [UInt8.ofNat (n / 256), UInt8.ofNat n, UInt8.ofNat (lineSize t)])
    (htext : Holds m (q + 3) (t ++ NL :: padding t)) : Holds m' q (record (n, t)) := by
  have htext' : Holds m' (q + 3) (t ++ NL :: padding t) := htext.congr fun x hx _ => hm x hx
  exact ⟨hhead.1, hhead.2.1, hhead.2.2.1, htext'⟩

theorem addHeader_spec (hm : Holds m p (t ++ [NL])) (hp : p + t.length + 1 = variablesBegin) (ht : NL ∉ t)
    (hlen : t.length ≤ 250) (hpos : position (t ++ NL :: r) = p) :
    ∃ q m', addHeader n (t ++ NL :: r) m = some (q, lineSize t, m') ∧ q + lineSize t = variablesBegin ∧
      Holds m' q (record (n, t)) ∧ ∀ x, x < q → m' x = m x := by
  have hvb : variablesBegin = 65412 := rfl
  have hstores : ∀ (q : Nat) (a b c : UInt8) (m : Program),
      Holds (Function.update (Function.update (Function.update m q a) (q + 1) b) (q + 2) c) q [a, b, c] ∧
        ∀ x, x < q ∨ q + 3 ≤ x →
          Function.update (Function.update (Function.update m q a) (q + 1) b) (q + 2) c x = m x := by
    intro q a b c m
    refine ⟨⟨?_, ?_, ?_, trivial⟩, fun x hx => ?_⟩
    · rw [Function.update_of_ne (by omega), Function.update_of_ne (by omega), Function.update_self]
    · rw [Function.update_of_ne (by omega), Function.update_self]
    · exact Function.update_self _ _ _
    · rw [Function.update_of_ne (by omega), Function.update_of_ne (by omega), Function.update_of_ne (by omega)]
  rw [addHeader, idxOf_append ht, Option.bind_some, if_pos (by omega), hpos]
  by_cases heven : t.length % 2 = 0
  · have hpad : padding t = [] := if_pos heven
    have hsize : lineSize t = t.length + 4 := by rw [lineSize, hpad]; rfl
    have halign : ¬ alignDown (p - 3) ≠ p - 3 := by
      rw [alignDown]
      omega
    have hmod : (t.length + 1 + 3) % 256 = lineSize t := by omega
    obtain ⟨hhead, hkeep⟩ := hstores (p - 3) (UInt8.ofNat (n / 256)) (UInt8.ofNat n) (UInt8.ofNat (lineSize t)) m
    simp only [if_neg halign, hmod]
    refine ⟨p - 3, _, rfl, by omega, holds_record (fun x hx => hkeep x (.inr hx)) hhead ?_,
      fun x hx => hkeep x (.inl hx)⟩
    rw [hpad, Nat.sub_add_cancel (by omega)]
    exact hm
  · have hpad : padding t = [NL] := if_neg heven
    have hsize : lineSize t = t.length + 5 := by rw [lineSize, hpad]; rfl
    have halign : alignDown (p - 3) ≠ p - 3 := by
      rw [alignDown]
      omega
    have hmod : ((t.length + 1 + 3) % 256 + 1) % 256 = lineSize t := by omega
    have hp3 : p - 3 - 1 + 3 = p - 1 := by omega
    have hp4 : p - 3 - 1 + 4 = p := by omega
    have hcount : lineSize t - 1 - 3 = t.length + 1 := by omega
    have hup : Upward (p - 1) p ((t.length + 1) * 1) := .inl (Nat.sub_le p 1)
    simp only [if_pos halign, hmod, hp3, hp4, hcount, ascending_eq hup, Nat.mul_one]
    obtain ⟨hhead, hkeep⟩ := hstores (p - 3 - 1) (UInt8.ofNat (n / 256)) (UInt8.ofNat n) (UInt8.ofNat (lineSize t))
      (moved (p - 1) p (t.length + 1) m)
    refine ⟨p - 3 - 1, _, rfl, by omega, holds_record (fun x hx => hkeep x (.inr hx)) hhead ?_, fun x hx => ?_⟩
    · have hlen' : (t ++ [NL]).length = t.length + 1 := by simp
      have hmoved := hm.moved (p := p - 1)
      have hlast : m (p + t.length) = NL := (holds_append.mp hm).2.1
      rw [hlen'] at hmoved
      rw [hp3, hpad, ← List.singleton_append, ← List.append_assoc, holds_append, hlen']
      refine ⟨hmoved, ?_, trivial⟩
      rw [moved_outside (by omega), ← hlast]
      congr 1
      omega
    · rw [hkeep x (.inl hx)]
      exact moved_outside (by omega)

end Headers

section Entries

/-- What becomes of the program when a line is entered that starts with a number. -/
def enterListing (e : Line) (L : Listing) : Listing :=
  if e.1 = 0 ∨ e.1 = 0xffff then L else if e.2 = [] then remove e.1 L else enter e.1 e.2 L

def entryOf (e : Line) : Entry := if e.1 = 0 then .direct else if e.1 = 0xffff then .qhow else .prompt

def Fits (e : Line) (L : Listing) : Prop :=
  e.1 = 0 ∨ e.1 = 0xffff ∨ e.2.length ≤ 250 ∧ (encode (enterListing e L)).length + 4 ≤ variablesBegin

instance (e : Line) (L : Listing) : Decidable (Fits e L) := inferInstanceAs (Decidable (_ ∨ _))

theorem holds_toUppercaseBuffer (hl : Holds s.program (s.programEnd + 2) (l ++ [NL])) :
    Holds (toUppercaseBuffer l.length s).program (s.programEnd + 2) (toUppercase 0 l ++ [NL]) := by
  obtain ⟨hline, hend⟩ := holds_append.mp hl
  rw [toUppercaseBuffer, hline.slice_eq, holds_append]
  refine ⟨holds_place _ _ _, ?_⟩
  rw [length_toUppercase]
  exact hend.congr fun x hx _ => place_of_le (by rw [length_toUppercase]; exact hx)

theorem moveToEnd_eq (hfit : s.programEnd + n + 4 ≤ variablesBegin) :
    (moveToEnd n s).program = moved (variablesBegin - (n + 1)) (s.programEnd + 2) (n + 1) s.program := by
  have hdown : Downward (variablesBegin - (n + 1)) (s.programEnd + 2) ((n + 1) * 1) := .inl (by omega)
  exact (descending_eq hdown _).trans (by rw [Nat.mul_one])

theorem holds_moveToEnd (hl : Holds s.program (s.programEnd + 2) (l ++ [NL]))
    (hfit : s.programEnd + l.length + 4 ≤ variablesBegin) :
    Holds (moveToEnd l.length (toUppercaseBuffer l.length s)).program (variablesBegin - (l.length + 1))
      (toUppercase 0 l ++ [NL]) := by
  have hmoved := (holds_toUppercaseBuffer hl).moved (p := variablesBegin - (l.length + 1))
  have hlen : (toUppercase 0 l ++ [NL]).length = l.length + 1 := by simp
  rw [hlen] at hmoved
  rw [moveToEnd_eq (s := toUppercaseBuffer l.length s) hfit]
  exact hmoved

theorem moveToEnd_spec (h : Represents s L) (hl : Holds s.program (s.programEnd + 2) (l ++ [NL]))
    (hfit : s.programEnd + l.length + 4 ≤ variablesBegin) :
    Represents (moveToEnd l.length (toUppercaseBuffer l.length s)) L ∧
      Holds (moveToEnd l.length (toUppercaseBuffer l.length s)).program (variablesBegin - (l.length + 1))
        (toUppercase 0 l ++ [NL]) := by
  refine ⟨h.congr rfl fun x hx => ?_, holds_moveToEnd hl hfit⟩
  rw [moveToEnd_eq (s := toUppercaseBuffer l.length s) hfit, moved_outside (by omega)]
  exact place_of_lt (by omega)

theorem storeLine_spec (h : Represents s L) (hm : Holds s.program p (t ++ [NL]))
    (hp : p + t.length + 1 = variablesBegin) (hpos : position (t ++ NL :: r) = p) (hn : 0 < n ∧ n < 65530)
    (hplain : ∀ c ∈ t, Plain c) (hstart : ∀ c ∈ t.head?, isBlank c = false) (hupper : toUppercase 0 t = t)
    (hlen : t.length ≤ 250) (hgap : s.programEnd + t.length + 5 ≤ variablesBegin)
    (hroom : (encode (enterListing (n, t) L)).length + 4 ≤ variablesBegin) :
    ∃ s', storeLine n (t ++ NL :: r) s = some s' ∧ Represents s' (enterListing (n, t) L) := by
  have hram : variablesBegin ≤ basicRamSize := by decide
  have hlist : enterListing (n, t) L = if t = [] then remove n L else enter n t L :=
    if_neg (by change ¬ (n = 0 ∨ n = 0xffff); omega)
  have hNL : NL ∉ t := fun hmem => (hplain NL hmem).1 rfl
  obtain ⟨q, m', hhead, hq, hrec, hkeep⟩ := addHeader_spec (n := n) hm hp hNL hlen hpos
  have hpad : lineSize t ≤ t.length + 5 := by
    rw [lineSize, padding]
    split <;> simp
  have hrep : Represents { s with program := m' } L := h.congr rfl fun x hx => hkeep x (by omega)
  obtain ⟨s₂, hdel, hrep₂, hend₂, hkeep₂⟩ := deleteLine_spec hrep n
  have hend₂' : s₂.programEnd ≤ q := Nat.le_trans hend₂ (by change s.programEnd ≤ q; omega)
  have hrec₂ : Holds s₂.program q (record (n, t)) :=
    hrec.congr fun x hx _ => hkeep₂ x (by change s.programEnd ≤ x; omega)
  have htext := holds_text hrec₂
  rw [storeLine, hhead, Option.bind_some]
  simp only [findline_spec hrep (by change s.programEnd ≤ _; omega) n, Option.bind_some, hdel]
  rw [hlist] at hroom ⊢
  cases t with
  | nil =>
      have hfirst : s₂.program (q + 3) = NL := htext.1
      rw [if_pos hfirst, if_pos rfl]
      exact ⟨s₂, rfl, hrep₂⟩
  | cons c t =>
      have hne : c :: t ≠ [] := List.cons_ne_nil c t
      have hfirst : s₂.program (q + 3) ≠ NL := by
        rw [htext.1]
        exact fun hc => hNL (hc ▸ List.mem_cons_self)
      have hproper : Proper (n, c :: t) := ⟨hn, hne, hplain, hstart, hupper, hlen⟩
      have henc : encode (enter n (c :: t) L) = encode (below n L) ++ record (n, c :: t) ++ encode (above n L) := by
        rw [enter, encode_append, encode_cons, List.append_assoc]
      have hholds := hrep₂.holds
      have hends := hrep₂.ends
      have hreclen : (record (n, c :: t)).length = lineSize (c :: t) := length_record (n, c :: t)
      have hsize := hproper.size_lt
      rw [if_neg hne, henc, List.length_append, List.length_append] at hroom
      rw [remove, encode_append, holds_append, Nat.zero_add] at hholds
      rw [remove, encode_append, List.length_append] at hends
      obtain ⟨s₃, hmake, hm₃, hend₃⟩ := makeRoom_spec hholds.1 hholds.2 hrec₂ hends (by omega)
        (by rw [hreclen]; exact Nat.le_of_lt hsize : (record (n, c :: t)).length ≤ 256)
      rw [hreclen] at hmake
      rw [if_neg hne, if_neg hfirst, hmake]
      refine ⟨s₃, rfl, ?_, ?_, h.sorted.enter n (c :: t), fun e he => ?_⟩
      · rw [henc]
        exact hm₃
      · rw [henc]
        exact hend₃
      · rcases mem_enter he with rfl | he
        · exact hproper
        · exact h.proper e he

/-- What becomes of a line depends on its number; the rest of the memory follows the line that was moved. -/
theorem enterLine_eq (hl : Holds s.program (s.programEnd + 2) (l ++ [NL])) (hNL : NL ∉ l)
    (hfit : s.programEnd + l.length + 4 ≤ variablesBegin) :
    ∃ r, r.length = basicRamSize - variablesBegin ∧ enterLine s =
      let s₁ := moveToEnd l.length (toUppercaseBuffer l.length s)
      let e := numbered (toUppercase 0 l)
      if e.1 = 0 then some (.direct, s₁) else if e.1 = 0xffff then some (.qhow, s₁)
      else (storeLine e.1 (e.2 ++ NL :: r) s₁).map fun s => (.prompt, s) := by
  have hram : variablesBegin ≤ basicRamSize := by decide
  have htext := text_of_holds hl (by simp only [List.length_append, List.length_singleton]; omega)
  rw [List.append_assoc, List.singleton_append] at htext
  have hholds := holds_moveToEnd hl hfit
  have hlen : (toUppercase 0 l ++ [NL]).length = l.length + 1 := by simp
  have htext₁ := text_of_holds hholds (by rw [hlen]; omega)
  have hrest := length_text (moveToEnd l.length (toUppercaseBuffer l.length s)).program
    (variablesBegin - (l.length + 1) + (toUppercase 0 l ++ [NL]).length)
  rw [List.append_assoc, List.singleton_append] at htext₁
  generalize text _ (variablesBegin - (l.length + 1) + (toUppercase 0 l ++ [NL]).length) = r at htext₁ hrest
  obtain ⟨hnum, hafter⟩ := testnum_append (toUppercase 0 l) r
  refine ⟨r, by rw [hrest, hlen]; omega, ?_⟩
  rw [enterLine, htext, idxOf_append hNL, Option.bind_some]
  simp only [htext₁, hnum, hafter]

theorem enterLine_spec (h : Represents s L) (hl : Holds s.program (s.programEnd + 2) (l ++ [NL]))
    (hplain : ∀ c ∈ l, Plain c) (hfit : s.programEnd + l.length + 4 ≤ variablesBegin)
    (hroom : Fits (numbered (toUppercase 0 l)) L) :
    ∃ s', enterLine s = some (entryOf (numbered (toUppercase 0 l)), s') ∧
      Represents s' (enterListing (numbered (toUppercase 0 l)) L) := by
  have hram : variablesBegin ≤ basicRamSize := by decide
  have hNL : NL ∉ l := fun hmem => (hplain NL hmem).1 rfl
  obtain ⟨hrep, hholds⟩ := moveToEnd_spec h hl hfit
  obtain ⟨r, hrest, henter⟩ := enterLine_eq hl hNL hfit
  rw [henter]
  have hplain' := toUppercase_plain 0 hplain
  have hupper := toUppercase_idem 0 l
  have hlen : (toUppercase 0 l).length = l.length := length_toUppercase 0 l
  generalize hs₁ : moveToEnd l.length (toUppercaseBuffer l.length s) = s₁ at hrep hholds
  have hend₁ : s₁.programEnd = s.programEnd := by rw [← hs₁]; rfl
  generalize toUppercase 0 l = u at *
  simp only
  obtain ⟨d, hd, hdigits⟩ := numbered_consumed u
  have hstart : ∀ c ∈ (numbered u).2.head?, isBlank c = false := head_ignoreBlanks (testnum u).2
  have hnlt : (numbered u).1 = 0xffff ∨ (numbered u).1 < 65530 := testnumFrom_lt 0 _ (by decide)
  have hshort : (numbered u).1 ≠ 0 → (numbered u).2.length < l.length := fun hne => by
    have hle : (numbered u).2.length ≤ (testnum u).2.length := (ignoreBlanks_suffix (testnum u).2).length_le
    exact hlen ▸ Nat.lt_of_le_of_lt hle (length_testnum_lt u hne)
  generalize hn : (numbered u).1 = n at *
  generalize ht : (numbered u).2 = t at *
  have he : numbered u = (n, t) := Prod.ext hn ht
  rw [he] at hroom ⊢
  by_cases h0 : n = 0
  · rw [if_pos h0, entryOf, if_pos h0, enterListing, if_pos (.inl h0)]
    exact ⟨s₁, rfl, hrep⟩
  by_cases hffff : n = 0xffff
  · rw [if_neg h0, if_pos hffff, entryOf, if_neg h0, if_pos hffff, enterListing, if_pos (.inr hffff)]
    exact ⟨s₁, rfl, hrep⟩
  have hshort' := hshort h0
  have hdlen : d.length + t.length = l.length := by rw [← hlen, ← hd, List.length_append]
  rw [← hd, toUppercase_append hdigits, List.append_cancel_left_eq] at hupper
  rw [← hd, List.append_assoc, holds_append] at hholds
  obtain ⟨hlen250, hsize⟩ := (hroom.resolve_left h0).resolve_left hffff
  obtain ⟨s₂, hstore, hrep₂⟩ := storeLine_spec (r := r) hrep hholds.2 (by omega)
    (by rw [position, List.length_append, List.length_cons]; omega) ⟨Nat.pos_of_ne_zero h0, hnlt.resolve_left hffff⟩
    (fun c hc => hplain' c (hd ▸ List.mem_append_right d hc)) hstart hupper hlen250 (by omega) hsize
  rw [if_neg h0, if_neg hffff, hstore, entryOf, if_neg h0, if_neg hffff]
  exact ⟨s₂, rfl, hrep₂⟩

end Entries

end Orion68.BasicEntering
