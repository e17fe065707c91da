import Mathlib.Data.List.Perm.Basic
import Mathlib.Data.List.Perm.Subperm
import Mathlib.Tactic.Common

namespace Orion68.RoundRobin

variable {α : Type} [DecidableEq α]

/-- A waiting line served in turns: newcomers go to the end, and so does the one served. -/
inductive Move (α : Type)
  | join (a : α)
  | leave (a : α)
  | serve
  deriving DecidableEq

def Move.apply : Move α → List α → List α
  | .join a, l => l ++ [a]
  | .leave a, l => l.erase a
  | .serve, l => l.tail ++ l.head?.toList

theorem Move.mem_apply {m : Move α} {l : List α} {a : α} (h : a ∈ m.apply l) :
    a ∈ l ∨ m = .join a := by
  cases m with
  | join b => simpa [Move.apply, eq_comm] using h
  | leave b => exact .inl (List.mem_of_mem_erase h)
  | serve =>
      cases l with
      | nil => exact .inl h
      | cons b l => exact .inl (by simpa [Move.apply, or_comm] using h)

def served : Move α → List α → List α
  | .serve, l => l.head?.toList
  | _, _ => []

/-- Those who are served before `a` is. -/
def ahead (a : α) (l : List α) : List α := l.takeWhile (· ≠ a)

theorem ahead_sublist (a : α) (l : List α) : (ahead a l).Sublist l := List.takeWhile_sublist _

theorem ahead_append {a : α} {l : List α} (ha : a ∈ l) (m : List α) :
    ahead a (l ++ m) = ahead a l := by
  induction l with
  | nil => simp at ha
  | cons b l ih =>
      by_cases hb : b = a
      · simp [ahead, hb]
      · have ha' : a ∈ l := by simpa [Ne.symm hb] using ha
        have := ih ha'
        simpa [ahead, hb] using this

theorem ahead_erase (a b : α) (l : List α) (hab : b ≠ a) :
    (ahead a (l.erase b)).Sublist (ahead a l) := by
  induction l with
  | nil => simp
  | cons c l ih =>
      by_cases hc : c = b
      · subst hc
        simp [ahead, hab]
      · by_cases hca : c = a
        · subst hca
          simp [ahead, List.erase_cons_tail, hc]
        · simpa [ahead, List.erase_cons_tail, hc, hca] using ih

/-- While `a` stays in the line and is not the one served, whoever is served was ahead of
`a` and is not any more, and nobody gets ahead of `a`. -/
theorem served_append_ahead {m : Move α} {l : List α} {a : α} (hn : l.Nodup) (ha : a ∈ l)
    (ha' : a ∈ m.apply l) (hs : a ∉ served m l) :
    (served m l ++ ahead a (m.apply l)).Sublist (ahead a l) := by
  cases m with
  | join b => simp [served, Move.apply, ahead_append ha]
  | leave b =>
      have hab : b ≠ a := by
        rintro rfl
        exact hn.not_mem_erase ha'
      simpa [served, Move.apply] using ahead_erase a b l hab
  | serve =>
      cases l with
      | nil => simp at ha
      | cons h l =>
          have hha : h ≠ a := by simpa [served, eq_comm] using hs
          have hal : a ∈ l := by simpa [Ne.symm hha] using ha
          simp only [served, Move.apply, List.head?_cons, Option.toList_some, List.tail_cons,
            ahead_append hal]
          simp [ahead, hha]

end Orion68.RoundRobin
