import Mathlib.Data.List.Infix
import Mathlib.Tactic.Common

namespace Orion68.Occurrences

variable {α : Type} {p q : List α → Bool} {l n h t : List α} {i : ℕ}

section Suffixes

/-- Where the first end of a list begins that has a property, the empty end included. -/
def firstSuffix (p : List α → Bool) : List α → Option ℕ
  | [] => if p [] then some 0 else none
  | a :: l => if p (a :: l) then some 0 else (firstSuffix p l).map (· + 1)

theorem firstSuffix_eq_some_iff :
    firstSuffix p l = some i ↔ i ≤ l.length ∧ p (l.drop i) = true ∧ ∀ j < i, p (l.drop j) = false := by
  induction l generalizing i with
  | nil =>
      rw [firstSuffix]
      cases hp : p [] with
      | true =>
          simp only [if_true, Option.some_inj, List.length_nil, Nat.le_zero, List.drop_nil, hp]
          constructor
          · rintro rfl
            exact ⟨rfl, trivial, fun j hj => absurd hj (Nat.not_lt_zero j)⟩
          · rintro ⟨rfl, -⟩
            rfl
      | false => simp [hp]
  | cons a l ih =>
      rw [firstSuffix]
      cases hp : p (a :: l) with
      | true =>
          rw [if_pos rfl, Option.some_inj]
          constructor
          · rintro rfl
            exact ⟨Nat.zero_le _, hp, fun j hj => absurd hj (Nat.not_lt_zero j)⟩
          · rintro ⟨-, -, hall⟩
            cases i with
            | zero => rfl
            | succ i =>
                have h0 := hall 0 (Nat.succ_pos i)
                rw [List.drop_zero, hp] at h0
                exact Bool.noConfusion h0
      | false =>
          rw [if_neg Bool.false_ne_true, Option.map_eq_some_iff]
          constructor
          · rintro ⟨j, hj, rfl⟩
            obtain ⟨hle, hpj, hall⟩ := ih.mp hj
            refine ⟨Nat.succ_le_succ hle, hpj, ?_⟩
            rintro (_ | k) hk
            · exact hp
            · exact hall k (Nat.lt_of_succ_lt_succ hk)
          · rintro ⟨hle, hpi, hall⟩
            cases i with
            | zero =>
                rw [List.drop_zero, hp] at hpi
                exact Bool.noConfusion hpi
            | succ i =>
                exact ⟨i, ih.mpr ⟨Nat.le_of_succ_le_succ hle, hpi, fun j hj => hall (j + 1) (Nat.succ_lt_succ hj)⟩, rfl⟩

theorem firstSuffix_eq_none_iff : firstSuffix p l = none ↔ ∀ t, t <:+ l → p t = false := by
  induction l with
  | nil =>
      rw [firstSuffix]
      simp
  | cons a l ih =>
      rw [firstSuffix]
      split
      next hp => simpa using ⟨a :: l, List.suffix_refl _, hp⟩
      next hp =>
        rw [Option.map_eq_none_iff, ih]
        simp only [List.suffix_cons_iff, forall_eq_or_imp]
        exact (and_iff_right (Bool.eq_false_iff.mpr hp)).symm

end Suffixes

section Occurrences

variable [DecidableEq α]

/-- Where a list stands for the first time in another one. -/
def occurrence (n h : List α) : Option ℕ := firstSuffix (fun s => decide (n <+: s)) h

theorem occurrence_eq_some_iff :
    occurrence n h = some i ↔ i ≤ h.length ∧ n <+: h.drop i ∧ ∀ j < i, ¬n <+: h.drop j := by
  rw [occurrence, firstSuffix_eq_some_iff]
  simp only [decide_eq_true_eq, decide_eq_false_iff_not]

theorem occurrence_eq_none_iff : occurrence n h = none ↔ ¬n <:+: h := by
  rw [occurrence, firstSuffix_eq_none_iff]
  simp only [decide_eq_false_iff_not]
  constructor
  · intro hall hin
    obtain ⟨t, hpre, hsuf⟩ := List.infix_iff_prefix_suffix.mp hin
    exact hall t hsuf hpre
  · intro hnot t hsuf hpre
    exact hnot (List.infix_iff_prefix_suffix.mpr ⟨t, hpre, hsuf⟩)

theorem occurrence_of_length_lt (hlt : h.length < n.length) : occurrence n h = none :=
  occurrence_eq_none_iff.mpr fun hin => Nat.not_le.mpr hlt hin.length_le

theorem occurrence_of_prefix (hpre : n <+: h) : occurrence n h = some 0 :=
  occurrence_eq_some_iff.mpr ⟨Nat.zero_le _, hpre, fun j hj => absurd hj (Nat.not_lt_zero j)⟩

theorem occurrence_cons_of_not_prefix {a : α} (hnot : ¬n <+: a :: h) :
    occurrence n (a :: h) = (occurrence n h).map (· + 1) := if_neg (by simpa using hnot)

end Occurrences

end Orion68.Occurrences
