import Mathlib.Data.List.DropRight
import Mathlib.Tactic.Common

namespace Orion68.Libc

/-- `_compare`: it ends with the shorter of the two. -/
def compare : List UInt8 → List UInt8 → Bool
  | a :: s, b :: t => decide (a = b) && compare s t
  | _, _ => true

/-- What stands before the place that is found, and what stands from there on. -/
def strstr : List UInt8 → List UInt8 → Option (List UInt8 × List UInt8)
  | [], _ => none
  | c :: s, t =>
      if compare (c :: s) t then some ([], c :: s)
      else (strstr s t).map fun r => (c :: r.1, r.2)

/-- A token, and where the next call goes on. Delimiters in front of it are not skipped. -/
def strtok (delim : List UInt8) : List UInt8 → Option (List UInt8 × List UInt8)
  | [] => none
  | s => some (s.takeWhile (· ∉ delim), (s.dropWhile (· ∉ delim)).tail)

section Searching

variable {x y : UInt8} {s u : List UInt8}

theorem strstr_some {t b f : List UInt8} (h : strstr s t = some (b, f)) : s = b ++ f ∧ f ≠ [] := by
  induction s generalizing b with
  | nil => cases h
  | cons c s ih =>
      rw [strstr] at h
      split at h
      · cases h
        exact ⟨rfl, List.cons_ne_nil c s⟩
      · obtain ⟨r, hr, he⟩ := Option.map_eq_some_iff.mp h
        cases he
        obtain ⟨hs, hne⟩ := ih hr
        exact ⟨congrArg (c :: ·) hs, hne⟩

theorem strstr_append_of_notMem (h : x ∉ s) (t u : List UInt8) :
    strstr (s ++ u) (x :: t) = (strstr u (x :: t)).map fun r => (s ++ r.1, r.2) := by
  induction s with
  | nil => simp
  | cons a s ih =>
      have hne := List.ne_of_not_mem_cons h
      have hs := List.not_mem_of_not_mem_cons h
      have hcompare : compare (a :: (s ++ u)) (x :: t) = false := by
        rw [compare, decide_eq_false (Ne.symm hne), Bool.false_and]
      rw [List.cons_append, strstr, hcompare, if_neg Bool.false_ne_true, ih hs, Option.map_map]
      rfl

theorem strstr_of_notMem (h : x ∉ s) (t : List UInt8) : strstr s (x :: t) = none := by
  have happend := strstr_append_of_notMem h t []
  rwa [List.append_nil] at happend

theorem strstr_single (h : x ∉ s) (u : List UInt8) : strstr (s ++ x :: u) [x] = some (s, x :: u) := by
  have hcompare : compare (x :: u) [x] = true := by
    rw [compare, decide_eq_true rfl, Bool.true_and]
    cases u <;> rfl
  rw [strstr_append_of_notMem h, strstr, if_pos hcompare, Option.map_some, List.append_nil]

theorem strstr_double (h : x ∉ s) (hy : y ≠ x) (hu : x ∉ u) : strstr (s ++ x :: y :: u) [x, x] = none := by
  have hcompare : compare (x :: y :: u) [x, x] = false := by
    rw [compare, compare, decide_eq_false hy, Bool.false_and, Bool.and_false]
  have hrest : x ∉ y :: u := List.not_mem_cons_of_ne_of_not_mem (Ne.symm hy) hu
  rw [strstr_append_of_notMem h, strstr, hcompare, if_neg Bool.false_ne_true, strstr_of_notMem hrest]
  rfl

end Searching

end Orion68.Libc
