import Mathlib.Data.List.Basic
import Mathlib.Data.Nat.ModEq
import Mathlib.Logic.Function.Basic
import Mathlib.Tactic.Common

namespace Orion68.Rings

variable {ι α : Type} {n first : ℕ} {place : ℕ → ι} {buf : ι → α} {x c : α} {xs : List α}

/-- Positions that go round over `n` places. -/
def Round (n : ℕ) (place : ℕ → ι) : Prop := ∀ i j, place i = place j ↔ i ≡ j [MOD n]

/-- The places hold these elements, one after the other from a position on. -/
def Holds (place : ℕ → ι) (first : ℕ) (xs : List α) (buf : ι → α) : Prop :=
  ∀ i x, xs[i]? = some x → buf (place (first + i)) = x

theorem Round.ne (h : Round n place) {i j : ℕ} (hij : i < j) (hn : j < i + n) : place i ≠ place j := by
  intro heq
  obtain ⟨k, rfl⟩ := Nat.exists_eq_add_of_lt hij
  have hdvd : n ∣ k + 1 := Nat.left_modEq_add_iff.mp ((h _ _).mp heq)
  have hle := Nat.le_of_dvd (Nat.succ_pos k) hdvd
  omega

theorem holds_nil : Holds place first [] buf := nofun

theorem Holds.head (h : Holds place first (x :: xs) buf) : buf (place first) = x := h 0 x rfl

theorem Holds.tail (h : Holds place first (x :: xs) buf) : Holds place (first + 1) xs buf := by
  intro i y hy
  rw [Nat.add_right_comm]
  exact h (i + 1) y hy

theorem Holds.push [DecidableEq ι] (h : Holds place first xs buf) (hround : Round n place)
    (hfree : xs.length < n) (c : α) :
    Holds place first (xs ++ [c]) (Function.update buf (place (first + xs.length)) c) := by
  intro i x hx
  by_cases hi : i < xs.length
  · rw [List.getElem?_append_left hi] at hx
    rw [Function.update_of_ne (hround.ne (by omega) (by omega))]
    exact h i x hx
  · rw [List.getElem?_append_right (by omega)] at hx
    obtain ⟨hlt, rfl⟩ := List.getElem?_eq_some_iff.mp hx
    obtain rfl : i = xs.length := by
      rw [List.length_singleton] at hlt
      omega
    rw [Function.update_self, List.getElem_singleton]

/-- Counted back from a position, the places hold these elements, as far as there are places. -/
def Recalls (n : ℕ) (place : ℕ → ι) (next : ℕ) (xs : List α) (buf : ι → α) : Prop :=
  ∀ k x, k < n → xs[k]? = some x → buf (place (next - 1 - k)) = x

theorem recalls_nil : Recalls n place first [] buf := nofun

theorem Recalls.push [DecidableEq ι] (h : Recalls n place xs.length xs buf) (hround : Round n place) (c : α) :
    Recalls n place (c :: xs).length (c :: xs) (Function.update buf (place xs.length) c) := by
  intro k x hk hx
  rw [List.length_cons, Nat.add_sub_cancel]
  cases k with
  | zero =>
      obtain rfl := Option.some.inj hx
      exact Function.update_self ..
  | succ k =>
      rw [List.getElem?_cons_succ] at hx
      obtain ⟨hlt, -⟩ := List.getElem?_eq_some_iff.mp hx
      rw [Function.update_of_ne (hround.ne (by omega) (by omega)), Nat.add_comm k, ← Nat.sub_sub]
      exact h k x (by omega) hx

end Orion68.Rings
