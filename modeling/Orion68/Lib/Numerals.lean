import Mathlib.Data.List.TakeWhile
import Mathlib.Data.Nat.Digits.Lemmas

namespace Orion68.Numerals

variable {b v d k : ℕ} {ds : List ℕ}

section Values

/-- The number that digits stand for, read from the first on. -/
def value (b : ℕ) (ds : List ℕ) : ℕ := ds.foldl (fun v d => v * b + d) 0

def readOn (b v : ℕ) (ds : List ℕ) : ℕ := ds.foldl (fun v d => v * b + d) v

theorem readOn_cons (b v d : ℕ) (ds : List ℕ) : readOn b v (d :: ds) = readOn b (v * b + d) ds := rfl

theorem readOn_zero (b : ℕ) (ds : List ℕ) : readOn b 0 ds = value b ds := rfl

theorem readOn_append (b v : ℕ) (ds es : List ℕ) : readOn b v (ds ++ es) = readOn b (readOn b v ds) es :=
  List.foldl_append

theorem le_readOn (hb : 0 < b) (v : ℕ) (ds : List ℕ) : v ≤ readOn b v ds := by
  induction ds generalizing v with
  | nil => exact Nat.le_refl v
  | cons d ds ih =>
      apply Nat.le_trans _ (ih (v * b + d))
      exact (Nat.le_mul_of_pos_right v hb).trans (Nat.le_add_right _ _)

theorem value_concat (b : ℕ) (ds : List ℕ) (d : ℕ) : value b (ds ++ [d]) = value b ds * b + d := by
  rw [value, List.foldl_append]
  rfl

theorem value_eq_ofDigits (b : ℕ) (ds : List ℕ) : value b ds = Nat.ofDigits b ds.reverse := by
  induction ds using List.reverseRecOn with
  | nil => rfl
  | append_singleton ds d ih =>
      rw [value_concat, ih, List.reverse_append, List.reverse_singleton, List.singleton_append, Nat.ofDigits_cons]
      ring

theorem value_cons (b d : ℕ) (ds : List ℕ) : value b (d :: ds) = d * b ^ ds.length + value b ds := by
  rw [value_eq_ofDigits, value_eq_ofDigits, List.reverse_cons, Nat.ofDigits_append, Nat.ofDigits_singleton,
    List.length_reverse]
  ring

theorem lt_of_cutoff {m : ℕ} (hb : 0 < b) (h : m / b < v ∨ v = m / b ∧ m % b < d) : m < v * b + d := by
  have hm := Nat.div_add_mod m b
  rcases h with hlt | ⟨rfl, hlt⟩
  · have hmul := Nat.mul_le_mul_left b (Nat.succ_le_of_lt hlt)
    have hmod := Nat.mod_lt m hb
    rw [Nat.mul_succ, Nat.mul_comm b v] at hmul
    omega
  · rw [Nat.mul_comm]
    omega

theorem cutoff_iff {m : ℕ} (hd : d < b) : m / b < v ∨ v = m / b ∧ m % b < d ↔ m < v * b + d := by
  constructor
  · exact lt_of_cutoff (Nat.zero_lt_of_lt hd)
  · intro h
    have hm := Nat.div_add_mod m b
    rcases Nat.lt_trichotomy v (m / b) with hlt | rfl | hgt
    · have hmul := Nat.mul_le_mul_left b (Nat.succ_le_of_lt hlt)
      rw [Nat.mul_succ, Nat.mul_comm] at hmul
      omega
    · rw [Nat.mul_comm] at h
      exact Or.inr ⟨rfl, by omega⟩
    · exact Or.inl hgt

theorem value_lt (hb : 1 < b) (hds : ∀ d ∈ ds, d < b) : value b ds < b ^ ds.length := by
  rw [value_eq_ofDigits, ← List.length_reverse]
  apply Nat.ofDigits_lt_base_pow_length hb
  intro d hd
  exact hds d (List.mem_reverse.mp hd)

theorem value_mono {a : ℕ} (h : a ≤ b) (ds : List ℕ) : value a ds ≤ value b ds := by
  rw [value_eq_ofDigits, value_eq_ofDigits]
  exact Nat.ofDigits_monotone _ h

theorem value_lt_value {a : ℕ} (h : a < b) (hd : d ≠ 0) (hds : ds ≠ []) : value a (d :: ds) < value b (d :: ds) := by
  rw [value_cons, value_cons]
  apply Nat.add_lt_add_of_lt_of_le
  · apply Nat.mul_lt_mul_of_pos_left _ (Nat.pos_of_ne_zero hd)
    exact Nat.pow_lt_pow_left h (List.length_pos_iff.mpr hds).ne'
  · exact value_mono h.le ds

theorem le_value_cons (hd : d ≠ 0) : b ^ ds.length ≤ value b (d :: ds) := by
  rw [value_cons]
  exact (Nat.le_mul_of_pos_left _ (Nat.pos_of_ne_zero hd)).trans (Nat.le_add_right _ _)

end Values

section Numerals

/-- The digits of a number without leading zeros; those of zero are one. -/
def numeral (b v : ℕ) : List ℕ := if v = 0 then [0] else (Nat.digits b v).reverse

theorem numeral_zero (b : ℕ) : numeral b 0 = [0] := rfl

theorem numeral_of_ne_zero (hv : v ≠ 0) : numeral b v = (Nat.digits b v).reverse := if_neg hv

theorem value_numeral (b v : ℕ) : value b (numeral b v) = v := by
  by_cases hv : v = 0
  · simp [hv, numeral_zero, value]
  · rw [numeral_of_ne_zero hv, value_eq_ofDigits, List.reverse_reverse, Nat.ofDigits_digits]

theorem numeral_lt (hb : 1 < b) : ∀ d ∈ numeral b v, d < b := by
  intro d hd
  by_cases hv : v = 0
  · rw [hv, numeral_zero, List.mem_singleton] at hd
    omega
  · rw [numeral_of_ne_zero hv, List.mem_reverse] at hd
    exact Nat.digits_lt_base hb hd

theorem numeral_ne_nil (b v : ℕ) : numeral b v ≠ [] := by
  by_cases hv : v = 0
  · rw [hv]
    exact List.cons_ne_nil 0 []
  · rw [numeral_of_ne_zero hv, Ne, List.reverse_eq_nil_iff, Nat.digits_eq_nil_iff_eq_zero]
    exact hv

theorem numeral_length_le_iff (hb : 1 < b) (hk : 0 < k) : (numeral b v).length ≤ k ↔ v < b ^ k := by
  by_cases hv : v = 0
  · rw [hv, numeral_zero, List.length_singleton]
    exact iff_of_true hk (Nat.pow_pos (by omega))
  · rw [numeral_of_ne_zero hv, List.length_reverse, Nat.digits_length_le_iff hb]

theorem head?_numeral (b : ℕ) (hv : v ≠ 0) : (numeral b v).head? ≠ some 0 := by
  have hne : Nat.digits b v ≠ [] := Nat.digits_ne_nil_iff_ne_zero.mpr hv
  rw [numeral_of_ne_zero hv, List.head?_reverse, List.getLast?_eq_some_getLast hne]
  intro h
  exact Nat.getLast_digit_ne_zero b hv (Option.some.inj h)

theorem eq_numeral (hb : 1 < b) (hds : ∀ d ∈ ds, d < b) (hhead : ds.head? ≠ some 0) (hv : v ≠ 0)
    (heq : value b ds = v) : ds = numeral b v := by
  have hlast (h : ds.reverse ≠ []) : ds.reverse.getLast h ≠ 0 := by
    intro h0
    apply hhead
    rw [← h0, ← List.getLast?_eq_some_getLast, List.getLast?_reverse]
  have hdigits := Nat.digits_ofDigits b hb ds.reverse (fun d hd => hds d (List.mem_reverse.mp hd)) hlast
  rw [← value_eq_ofDigits, heq] at hdigits
  rw [numeral_of_ne_zero hv, hdigits, List.reverse_reverse]

theorem numeral_of_lt (hb : v < b) : numeral b v = [v] := by
  by_cases hv : v = 0
  · rw [hv]
    rfl
  · rw [numeral_of_ne_zero hv, Nat.digits_of_lt b v hv hb]
    rfl

theorem numeral_of_le (hb : 1 < b) (hle : b ≤ v) : numeral b v = numeral b (v / b) ++ [v % b] := by
  have hv : v ≠ 0 := by omega
  have hdiv : v / b ≠ 0 := (Nat.div_pos hle (by omega)).ne'
  rw [numeral_of_ne_zero hv, numeral_of_ne_zero hdiv, Nat.digits_def' hb (Nat.pos_of_ne_zero hv), List.reverse_cons]

/-- A numeral read in a smaller base, as far as its digits are digits there, stands for less unless it is one of
those digits. -/
theorem value_takeWhile_lt {a : ℕ} (ha : 1 < a) (hab : a < b) (hv : a ≤ v) :
    value a ((numeral b v).takeWhile (· < a)) < v := by
  have hvalue := value_numeral b v
  have hhead := head?_numeral b (v := v) (by omega)
  cases hds : numeral b v with
  | nil => exact absurd hds (numeral_ne_nil b v)
  | cons d ds =>
      rw [hds] at hvalue hhead
      have hd : d ≠ 0 := fun h => hhead (congrArg some h)
      have hprefix : (d :: ds).takeWhile (· < a) <+: d :: ds := List.takeWhile_prefix _
      by_cases hall : (d :: ds).takeWhile (· < a) = d :: ds
      · rw [hall, ← hvalue]
        apply value_lt_value hab hd
        rintro rfl
        have hlt := List.mem_takeWhile_imp (hall.symm ▸ List.mem_cons_self : d ∈ [d].takeWhile (· < a))
        have hone : value b [d] = d := by simp [value]
        rw [hone] at hvalue
        exact absurd (of_decide_eq_true hlt) (by omega)
      · have hlen : ((d :: ds).takeWhile (· < a)).length ≤ ds.length := by
          have hle := hprefix.length_le
          have hne := mt hprefix.eq_of_length hall
          rw [List.length_cons] at hle hne
          omega
        have hsmall : value a ((d :: ds).takeWhile (· < a)) < a ^ ((d :: ds).takeWhile (· < a)).length := by
          apply value_lt ha
          intro e he
          simpa using List.mem_takeWhile_imp he
        calc value a ((d :: ds).takeWhile (· < a)) < a ^ ((d :: ds).takeWhile (· < a)).length := hsmall
          _ ≤ a ^ ds.length := Nat.pow_le_pow_right (by omega) hlen
          _ ≤ b ^ ds.length := Nat.pow_le_pow_left hab.le _
          _ ≤ v := hvalue ▸ le_value_cons hd

end Numerals

section Emission

/-- The digits below the `k`-th, from the first one on that is not zero when none has been given yet. -/
def emit (b v : ℕ) : ℕ → Bool → List ℕ
  | 0, _ => []
  | k + 1, started =>
      if v / b ^ k % b ≠ 0 ∨ started then v / b ^ k % b :: emit b v k true
      else emit b v k started

theorem emit_lt (hb : 1 < b) (k : ℕ) (started : Bool) : ∀ d ∈ emit b v k started, d < b := by
  induction k generalizing started with
  | zero => exact List.forall_mem_nil _
  | succ k ih =>
      rw [emit]
      split
      next =>
        rw [List.forall_mem_cons]
        exact ⟨Nat.mod_lt _ (by omega), ih true⟩
      next => exact ih started

theorem length_emit_true (b v k : ℕ) : (emit b v k true).length = k := by
  induction k with
  | zero => rfl
  | succ k ih => rw [emit, if_pos (Or.inr rfl), List.length_cons, ih]

theorem value_emit (b v k : ℕ) (started : Bool) : value b (emit b v k started) = v % b ^ k := by
  induction k generalizing started with
  | zero => rw [Nat.pow_zero, Nat.mod_one]; rfl
  | succ k ih =>
      rw [emit, Nat.mod_pow_succ]
      split
      next => rw [value_cons, length_emit_true, ih, Nat.mul_comm, Nat.add_comm]
      next h =>
        have h0 : v / b ^ k % b = 0 := by
          by_contra hne
          exact h (Or.inl hne)
        rw [h0, ih, Nat.mul_zero, Nat.add_zero]

theorem head?_emit (b v k : ℕ) : (emit b v k false).head? ≠ some 0 := by
  induction k with
  | zero => simp [emit]
  | succ k ih =>
      rw [emit]
      split
      next h =>
        intro h0
        exact h.resolve_right Bool.false_ne_true (Option.some.inj h0)
      next => exact ih

theorem emit_eq_numeral (hb : 1 < b) (hv : v ≠ 0) (hlt : v < b ^ k) : emit b v k false = numeral b v := by
  apply eq_numeral hb (emit_lt hb k false) (head?_emit b v k) hv
  rw [value_emit, Nat.mod_eq_of_lt hlt]

end Emission

end Orion68.Numerals
