import Mathlib.Data.List.Basic
import Mathlib.Tactic.Common

namespace Orion68.Files

variable {α : Type}

/-- The contents after `d` has been written at position `k`. -/
def overwrite (k : Nat) (d l : List α) : List α := l.take k ++ d ++ l.drop (k + d.length)

/-- The contents after the end has been moved out to position `n`. -/
def extend (n : Nat) (fresh : Nat → α) (l : List α) : List α :=
  l ++ (List.range (n - l.length)).map fun i => fresh (l.length + i)

variable {k n : Nat} {d l : List α}

theorem length_overwrite (h : k ≤ l.length) : (overwrite k d l).length = max l.length (k + d.length) := by
  simp only [overwrite, List.length_append, List.length_take, List.length_drop]
  omega

theorem length_overwrite_le (k : Nat) (d l : List α) :
    (overwrite k d l).length ≤ max l.length (k + d.length) := by
  simp only [overwrite, List.length_append, List.length_take, List.length_drop]
  omega

@[simp] theorem overwrite_empty : overwrite 0 d [] = d := by
  simp [overwrite]

theorem overwrite_eq_self_iff (h : k ≤ l.length) : overwrite k d l = l ↔ (l.drop k).take d.length = d := by
  have hsplit : l = l.take k ++ ((l.drop k).take d.length ++ l.drop (k + d.length)) := by
    rw [← List.drop_drop, List.take_append_drop, List.take_append_drop]
  constructor
  · intro he
    have hlen : k + d.length ≤ l.length := by
      have hmax := length_overwrite (d := d) h
      rw [he] at hmax
      omega
    rw [overwrite, List.append_assoc] at he
    have hcancel := List.append_cancel_left (he.trans hsplit)
    refine (List.append_inj hcancel ?_).1.symm
    rw [List.length_take, List.length_drop]
    omega
  · intro hd
    rw [hd] at hsplit
    rw [overwrite, List.append_assoc]
    exact hsplit.symm

theorem length_extend (fresh : Nat → α) : (extend n fresh l).length = max l.length n := by
  simp only [extend, List.length_append, List.length_map, List.length_range]
  omega

theorem extend_eq_self_iff (fresh : Nat → α) : extend n fresh l = l ↔ n ≤ l.length := by
  constructor
  · intro he
    have hmax := length_extend (n := n) (l := l) fresh
    rw [he] at hmax
    omega
  · intro hn
    simp [extend, Nat.sub_eq_zero_of_le hn]

end Orion68.Files
