import Mathlib.Data.List.Basic
import Mathlib.Tactic.Common

namespace Orion68.Transducers

variable {σ ι ο : Type}

/-- A machine reads its input one piece at a time, and each piece may make it put out something. -/
def feed (step : ι → σ → σ × Option ο) : List ι → σ → σ × List ο
  | [], s => (s, [])
  | i :: is, s => ((feed step is (step i s).1).1, (step i s).2.toList ++ (feed step is (step i s).1).2)

/-- The machine reads up to its first output; the third component is what it has not read. -/
def poll (step : ι → σ → σ × Option ο) : List ι → σ → σ × Option ο × List ι
  | [], s => (s, none, [])
  | i :: is, s =>
      match step i s with
      | (t, some o) => (t, some o, is)
      | (t, none) => poll step is t

/-- Input arrives behind what has not been read yet, and the machine is polled once after each arrival. -/
def rounds (step : ι → σ → σ × Option ο) : List (List ι) → List ι → σ → List ι × σ × List ο
  | [], queue, s => (queue, s, [])
  | arrival :: arrivals, queue, s =>
      let (t, o, rest) := poll step (queue ++ arrival) s
      let (queue, u, os) := rounds step arrivals rest t
      (queue, u, o.toList ++ os)

variable {step : ι → σ → σ × Option ο}

@[simp] theorem feed_nil (s : σ) : feed step [] s = (s, []) := rfl

theorem feed_cons (i : ι) (is : List ι) (s : σ) :
    feed step (i :: is) s =
      ((feed step is (step i s).1).1, (step i s).2.toList ++ (feed step is (step i s).1).2) := rfl

theorem feed_cons_none {i : ι} {s t : σ} (h : step i s = (t, none)) (is : List ι) :
    feed step (i :: is) s = feed step is t := by
  rw [feed_cons, h]
  rfl

theorem feed_append (is is' : List ι) (s : σ) :
    feed step (is ++ is') s =
      ((feed step is' (feed step is s).1).1, (feed step is s).2 ++ (feed step is' (feed step is s).1).2) := by
  induction is generalizing s with
  | nil => rfl
  | cons i is ih => rw [List.cons_append, feed_cons, feed_cons, ih, List.append_assoc]

theorem feed_append_silent {is : List ι} {s t : σ} (h : feed step is s = (t, [])) (is' : List ι) :
    feed step (is ++ is') s = feed step is' t := by
  rw [feed_append, h]
  rfl

theorem feed_preserves {I : σ → Prop} (hstep : ∀ i s, I s → I (step i s).1) (is : List ι) {s : σ} (hs : I s) :
    I (feed step is s).1 := by
  induction is generalizing s with
  | nil => exact hs
  | cons i is ih => exact ih (hstep i s hs)

variable (step) in
theorem feed_poll (is : List ι) (s : σ) :
    feed step is s = ((feed step (poll step is s).2.2 (poll step is s).1).1,
      (poll step is s).2.1.toList ++ (feed step (poll step is s).2.2 (poll step is s).1).2) := by
  induction is generalizing s with
  | nil => rfl
  | cons i is ih =>
      rw [feed_cons, poll]
      cases hstep : step i s with
      | mk t o =>
          cases o with
          | some o => rfl
          | none =>
              dsimp only [Option.toList_none]
              rw [List.nil_append]
              exact ih t

variable (step) in
/-- Wherever the input is cut, and however much of it a poll leaves behind, the outputs are those of
the whole input. -/
theorem feed_rounds (arrivals : List (List ι)) (queue : List ι) (s : σ) :
    feed step (queue ++ arrivals.flatten) s =
      ((feed step (rounds step arrivals queue s).1 (rounds step arrivals queue s).2.1).1,
        (rounds step arrivals queue s).2.2 ++
          (feed step (rounds step arrivals queue s).1 (rounds step arrivals queue s).2.1).2) := by
  induction arrivals generalizing queue s with
  | nil => rw [List.flatten_nil, List.append_nil, rounds, List.nil_append]
  | cons arrival arrivals ih =>
      have hpoll := feed_poll step (queue ++ arrival) s
      have hrest := ih (poll step (queue ++ arrival) s).2.2 (poll step (queue ++ arrival) s).1
      rw [List.flatten_cons, ← List.append_assoc, feed_append, hpoll, rounds]
      rw [feed_append] at hrest
      dsimp only at hrest ⊢
      rw [Prod.mk.injEq] at hrest
      rw [hrest.1, List.append_assoc, hrest.2, List.append_assoc]

theorem rounds_append (arrivals arrivals' : List (List ι)) (queue : List ι) (s : σ) :
    rounds step (arrivals ++ arrivals') queue s =
      let r := rounds step arrivals queue s
      let r' := rounds step arrivals' r.1 r.2.1
      (r'.1, r'.2.1, r.2.2 ++ r'.2.2) := by
  induction arrivals generalizing queue s with
  | nil => rfl
  | cons arrival arrivals ih =>
      rw [List.cons_append, rounds, rounds]
      dsimp only
      rw [ih, List.append_assoc]

theorem rounds_singletons (is : List ι) (s : σ) :
    rounds step (is.map fun i => [i]) [] s = ([], feed step is s) := by
  induction is generalizing s with
  | nil => rfl
  | cons i is ih =>
      rw [List.map_cons, rounds, List.nil_append, poll, feed_cons]
      cases step i s with
      | mk t o =>
          cases o with
          | some o =>
              dsimp only
              rw [ih]
          | none =>
              dsimp only [poll]
              rw [ih]

variable (step) in
theorem length_poll (is : List ι) (s : σ) (h : is ≠ []) : (poll step is s).2.2.length < is.length := by
  induction is generalizing s with
  | nil => exact absurd rfl h
  | cons i is ih =>
      rw [poll]
      cases hstep : step i s with
      | mk t o =>
          cases o with
          | some o => exact Nat.lt_succ_self _
          | none =>
              dsimp only
              cases is with
              | nil => exact Nat.zero_lt_one
              | cons i' is => exact Nat.lt_succ_of_lt (ih t (List.cons_ne_nil i' is))

theorem rounds_drain (n : ℕ) (queue : List ι) (s : σ) (h : queue.length ≤ n) :
    (rounds step (List.replicate n []) queue s).1 = [] := by
  induction n generalizing queue s with
  | zero => exact List.length_eq_zero_iff.mp (Nat.le_zero.mp h)
  | succ n ih =>
      rw [List.replicate_succ, rounds, List.append_nil]
      apply ih
      by_cases hq : queue = []
      · rw [hq]
        exact Nat.zero_le n
      · have hlt := length_poll step queue s hq
        change (poll step queue s).2.2.length ≤ n
        omega

end Orion68.Transducers
