import Mathlib.Logic.Function.Basic
import Mathlib.Tactic.Common

namespace Orion68.Copies

variable {α : Type} {d s n k w : ℕ} {m : ℕ → α}

/-- `n` cells from `s` on, taken to `d` at once. -/
def moved (d s n : ℕ) (m : ℕ → α) : ℕ → α := fun a => if d ≤ a ∧ a < d + n then m (a - d + s) else m a

/-- A copy that goes up does not write what it has yet to read. -/
def Upward (d s n : ℕ) : Prop := d ≤ s ∨ s + n ≤ d

theorem moved_inside (h : k < n) : moved d s n m (d + k) = m (s + k) := by
  rw [moved, if_pos (by omega), Nat.add_sub_cancel_left, Nat.add_comm]

theorem moved_outside {a : ℕ} (h : ¬ (d ≤ a ∧ a < d + n)) : moved d s n m a = m a := if_neg h

theorem moved_zero (d s : ℕ) (m : ℕ → α) : moved d s 0 m = m := by
  funext a
  exact moved_outside (by omega)

theorem moved_one (d s : ℕ) (m : ℕ → α) : moved d s 1 m = Function.update m d (m s) := by
  funext a
  by_cases ha : a = d
  · subst a
    rw [Function.update_self]
    exact moved_inside (k := 0) Nat.zero_lt_one
  · rw [Function.update_of_ne ha]
    exact moved_outside (by omega)

theorem Upward.left (h : Upward d s (n + k)) : Upward d s n := by
  unfold Upward at *
  omega

theorem Upward.right (h : Upward d s (n + k)) : Upward (d + n) (s + n) k := by
  unfold Upward at *
  omega

theorem moved_append (h : Upward d s (n + k)) : moved (d + n) (s + n) k (moved d s n m) = moved d s (n + k) m := by
  funext a
  unfold Upward at h
  by_cases hright : d + n ≤ a ∧ a < d + n + k
  · obtain ⟨j, rfl⟩ := Nat.exists_eq_add_of_le hright.1
    rw [moved_inside (by omega), moved_outside (by omega), Nat.add_assoc d, moved_inside (by omega),
      Nat.add_assoc]
  · rw [moved_outside hright]
    by_cases hleft : d ≤ a ∧ a < d + n
    · obtain ⟨j, rfl⟩ := Nat.exists_eq_add_of_le hleft.1
      rw [moved_inside (by omega), moved_inside (by omega)]
    · rw [moved_outside hleft, moved_outside (by omega)]

/-- Elements of `w` cells one after the other, each read as a whole before it is written. -/
def ascending (w : ℕ) : ℕ → ℕ → ℕ → (ℕ → α) → ℕ → α
  | 0, _, _, m => m
  | n + 1, d, s, m => ascending w n (d + w) (s + w) (moved d s w m)

theorem ascending_eq (h : Upward d s (n * w)) (m : ℕ → α) : ascending w n d s m = moved d s (n * w) m := by
  induction n generalizing d s m with
  | zero => rw [Nat.zero_mul, moved_zero, ascending]
  | succ n ih =>
      rw [Nat.succ_mul, Nat.add_comm] at h
      rw [ascending, ih h.right, moved_append h, Nat.succ_mul, Nat.add_comm]

/-- A copy that goes down does not either. -/
def Downward (d s n : ℕ) : Prop := s ≤ d ∨ d + n ≤ s

theorem Downward.left (h : Downward d s (n + k)) : Downward d s n := by
  unfold Downward at *
  omega

theorem moved_prepend (h : Downward d s (n + k)) : moved d s n (moved (d + n) (s + n) k m) = moved d s (n + k) m := by
  funext a
  unfold Downward at h
  by_cases hleft : d ≤ a ∧ a < d + n
  · obtain ⟨j, rfl⟩ := Nat.exists_eq_add_of_le hleft.1
    rw [moved_inside (by omega), moved_outside (by omega), moved_inside (by omega)]
  · rw [moved_outside hleft]
    by_cases hright : d + n ≤ a ∧ a < d + n + k
    · obtain ⟨j, rfl⟩ := Nat.exists_eq_add_of_le hright.1
      rw [moved_inside (by omega), Nat.add_assoc d, moved_inside (by omega), Nat.add_assoc]
    · rw [moved_outside hright, moved_outside (by omega)]

/-- The same elements in the other order, the last one first. -/
def descending (w : ℕ) : ℕ → ℕ → ℕ → (ℕ → α) → ℕ → α
  | 0, _, _, m => m
  | n + 1, d, s, m => descending w n d s (moved (d + n * w) (s + n * w) w m)

theorem descending_eq (h : Downward d s (n * w)) (m : ℕ → α) : descending w n d s m = moved d s (n * w) m := by
  induction n generalizing m with
  | zero => rw [Nat.zero_mul, moved_zero, descending]
  | succ n ih =>
      rw [Nat.succ_mul] at h
      rw [descending, ih h.left, moved_prepend h, Nat.succ_mul]

end Orion68.Copies
