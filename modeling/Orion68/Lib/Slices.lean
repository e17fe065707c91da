import Orion68.Lib.Buffers
import Orion68.Lib.Copies

namespace Orion68.Slices

open Buffers Copies

variable {α : Type} {m m' : ℕ → α} {p q n : ℕ} {l k : List α} {a : α}

/-- The cells from `p` on hold the list. -/
def Holds (m : ℕ → α) : ℕ → List α → Prop
  | _, [] => True
  | p, a :: l => m p = a ∧ Holds m (p + 1) l

@[simp] theorem holds_nil : Holds m p [] := trivial

@[simp] theorem holds_cons : Holds m p (a :: l) ↔ m p = a ∧ Holds m (p + 1) l := Iff.rfl

@[simp] theorem holds_append : Holds m p (l ++ k) ↔ Holds m p l ∧ Holds m (p + l.length) k := by
  induction l generalizing p with
  | nil => simp
  | cons a l ih =>
      rw [List.cons_append, holds_cons, holds_cons, ih, and_assoc, List.length_cons, Nat.add_right_comm, Nat.add_assoc]

theorem holds_iff : Holds m p l ↔ ∀ i, (h : i < l.length) → m (p + i) = l[i] := by
  induction l generalizing p with
  | nil => simp
  | cons a l ih =>
      rw [holds_cons, ih]
      constructor
      · rintro ⟨ha, hl⟩ i hi
        cases i with
        | zero => exact ha
        | succ i =>
            have hi' := hl i (Nat.lt_of_succ_lt_succ hi)
            rw [Nat.add_right_comm] at hi'
            exact hi'
      · intro h
        refine ⟨h 0 (Nat.succ_pos _), fun i hi => ?_⟩
        rw [Nat.add_right_comm]
        exact h (i + 1) (Nat.succ_lt_succ hi)

theorem Holds.congr (h : Holds m p l) (he : ∀ x, p ≤ x → x < p + l.length → m' x = m x) : Holds m' p l := by
  rw [holds_iff] at h ⊢
  intro i hi
  rw [he (p + i) (Nat.le_add_right p i) (Nat.add_lt_add_left hi p)]
  exact h i hi

theorem Holds.unique (hl : Holds m p l) (hk : Holds m p k) (hlen : l.length = k.length) : l = k := by
  rw [holds_iff] at hl hk
  apply List.ext_getElem hlen
  intro i hi hi'
  rw [← hl i hi, hk i hi']

theorem Holds.moved (h : Holds m q l) : Holds (moved p q l.length m) p l := by
  rw [holds_iff] at h ⊢
  intro i hi
  rw [moved_inside hi]
  exact h i hi

theorem Holds.moved_apart (h : Holds m p l) {d s : ℕ} (hd : p + l.length ≤ d ∨ d + n ≤ p) :
    Holds (Copies.moved d s n m) p l := by
  refine h.congr fun x hpx hxp => moved_outside ?_
  omega

theorem Holds.update (h : Holds m p l) (hq : q < p ∨ p + l.length ≤ q) : Holds (Function.update m q a) p l := by
  refine h.congr fun x hpx hxp => Function.update_of_ne ?_ _ _
  omega

theorem holds_place (p : ℕ) (l : List α) (m : ℕ → α) : Holds (place p l m) p l :=
  holds_iff.mpr fun _ hi => place_add hi

/-- The `n` cells from `p` on. -/
def slice (m : ℕ → α) (p n : ℕ) : List α := (List.range' p n).map m

@[simp] theorem length_slice : (slice m p n).length = n := by simp [slice]

theorem slice_succ (m : ℕ → α) (p n : ℕ) : slice m p (n + 1) = m p :: slice m (p + 1) n := by
  rw [slice, List.range'_succ, List.map_cons]
  rfl

theorem holds_slice (m : ℕ → α) (p n : ℕ) : Holds m p (slice m p n) := by
  induction n generalizing p with
  | zero => trivial
  | succ n ih => exact slice_succ m p n ▸ ⟨rfl, ih (p + 1)⟩

theorem Holds.slice_eq (h : Holds m p l) : slice m p l.length = l := (holds_slice m p l.length).unique h length_slice

theorem slice_add (m : ℕ → α) (p n i : ℕ) : slice m p (n + i) = slice m p n ++ slice m (p + n) i := by
  rw [slice, slice, slice, ← List.map_append]
  exact congrArg _ (List.range'_append_1).symm

end Orion68.Slices
