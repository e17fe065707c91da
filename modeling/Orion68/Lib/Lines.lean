import Mathlib.Algebra.Order.Group.Unbundled.Int
import Mathlib.Tactic.Linarith
import Mathlib.Tactic.Ring

namespace Orion68.Lines

variable {D d k m : ℕ}

/-- The whole number that is nearest to `k * d / D`, the smaller of two that are as near. -/
def offset (D d k : ℕ) : ℕ := (k * d + (D - 1 - D / 2)) / D

theorem offset_eq_iff (hD : 0 < D) : offset D d k = m ↔ k * d ≤ D / 2 + m * D ∧ D / 2 + m * D < k * d + D := by
  rw [offset, Nat.div_eq_iff hD]
  omega

theorem offset_bounds (hD : 0 < D) :
    k * d ≤ D / 2 + offset D d k * D ∧ D / 2 + offset D d k * D < k * d + D := (offset_eq_iff hD).mp rfl

theorem offset_error (h : d ≤ D) (k : ℕ) :
    k * d ≤ D / 2 + offset D d k * D ∧ D / 2 + offset D d k * D ≤ k * d + D := by
  rcases Nat.eq_zero_or_pos D with rfl | hD
  · rw [Nat.le_zero.mp h]
    omega
  · exact ⟨(offset_bounds hD).1, Nat.le_of_lt (offset_bounds hD).2⟩

theorem offset_zero (D d : ℕ) : offset D d 0 = 0 := by
  rcases Nat.eq_zero_or_pos D with rfl | hD
  · exact Nat.div_zero _
  · rw [offset_eq_iff hD]
    omega

theorem offset_last (h : d ≤ D) : offset D d D = d := by
  rcases Nat.eq_zero_or_pos D with rfl | hD
  · rw [Nat.le_zero.mp h]
    exact Nat.div_zero _
  · rw [offset_eq_iff hD, Nat.mul_comm D d]
    omega

theorem offset_succ (h : d ≤ D) (k : ℕ) :
    offset D d (k + 1) =
      if D / 2 + offset D d k * D < k * d + d then offset D d k + 1 else offset D d k := by
  rcases Nat.eq_zero_or_pos D with rfl | hD
  · rw [Nat.le_zero.mp h, if_neg (by omega)]
    exact (Nat.div_zero _).trans (Nat.div_zero _).symm
  · obtain ⟨hlow, hhigh⟩ := offset_bounds (d := d) (k := k) hD
    rw [offset_eq_iff hD, Nat.succ_mul]
    split
    next hside =>
      rw [Nat.succ_mul]
      omega
    next hside => omega

theorem offset_le (h : d ≤ D) (hk : k ≤ D) : offset D d k ≤ d :=
  (Nat.div_le_div_right (Nat.add_le_add_right (Nat.mul_le_mul_right d hk) _)).trans_eq (offset_last h)

theorem offset_near (h : d ≤ D) (k : ℕ) : 2 * |(offset D d k * D - k * d : ℤ)| ≤ D := by
  rcases Nat.eq_zero_or_pos D with rfl | hD
  · rw [Nat.le_zero.mp h]
    simp
  · obtain ⟨hlow, hhigh⟩ := offset_bounds (d := d) (k := k) hD
    have hcast : (offset D d k * D - k * d : ℤ) = ((offset D d k * D : ℕ) : ℤ) - ((k * d : ℕ) : ℤ) := by push_cast; ring
    rw [hcast]
    rcases abs_cases (((offset D d k * D : ℕ) : ℤ) - ((k * d : ℕ) : ℤ)) with ⟨habs, -⟩ | ⟨habs, -⟩
    · omega
    · omega

end Orion68.Lines
