import Mathlib.Data.List.GetD
import Mathlib.Data.List.TakeWhile
import Mathlib.Tactic.Common

namespace Orion68.CStrings

variable {α : Type} [DecidableEq α] {z x : α} {l m : List α} {p q k n : ℕ}

section Lists

/-- What a list begins with, up to the first `z`. -/
def upTo (z : α) (l : List α) : List α := l.takeWhile (· ≠ z)

theorem upTo_cons_self (l : List α) : upTo z (z :: l) = [] := List.takeWhile_cons_of_neg (by simp)

theorem upTo_cons_of_ne {a : α} (h : a ≠ z) (l : List α) : upTo z (a :: l) = a :: upTo z l :=
  List.takeWhile_cons_of_pos (decide_eq_true h)

theorem upTo_drop (h : k ≤ (upTo z l).length) : upTo z (l.drop k) = (upTo z l).drop k := by
  induction l generalizing k with
  | nil => simp [upTo]
  | cons a l ih =>
      cases k with
      | zero => rfl
      | succ k =>
          by_cases ha : a = z
          · subst ha
            rw [upTo_cons_self] at h
            exact absurd h (Nat.not_succ_le_zero k)
          · rw [upTo_cons_of_ne ha, List.length_cons] at h
            rw [upTo_cons_of_ne ha, List.drop_succ_cons, List.drop_succ_cons]
            exact ih (Nat.le_of_succ_le_succ h)

theorem upTo_set_of_gt (h : (upTo z l).length < k) : upTo z (l.set k x) = upTo z l := by
  induction l generalizing k with
  | nil => rfl
  | cons a l ih =>
      cases k with
      | zero => exact absurd h (Nat.not_lt_zero _)
      | succ k =>
          rw [List.set_cons_succ]
          by_cases ha : a = z
          · subst ha
            rw [upTo_cons_self, upTo_cons_self]
          · rw [upTo_cons_of_ne ha, List.length_cons] at h
            rw [upTo_cons_of_ne ha, upTo_cons_of_ne ha, ih (Nat.lt_of_succ_lt_succ h)]

theorem upTo_set_end (h : k ≤ (upTo z l).length) : upTo z (l.set k z) = (upTo z l).take k := by
  induction l generalizing k with
  | nil => simp [upTo]
  | cons a l ih =>
      cases k with
      | zero => rw [List.set_cons_zero, upTo_cons_self, List.take_zero]
      | succ k =>
          by_cases ha : a = z
          · subst ha
            rw [upTo_cons_self] at h
            exact absurd h (Nat.not_succ_le_zero k)
          · rw [upTo_cons_of_ne ha, List.length_cons] at h
            rw [List.set_cons_succ, upTo_cons_of_ne ha, upTo_cons_of_ne ha, List.take_succ_cons,
              ih (Nat.le_of_succ_le_succ h)]

theorem getElem?_upTo (h : (upTo z l).length < l.length) : l[(upTo z l).length]? = some z := by
  induction l with
  | nil => exact absurd h (Nat.not_lt_zero _)
  | cons a l ih =>
      by_cases ha : a = z
      · subst ha
        rw [upTo_cons_self]
        rfl
      · rw [upTo_cons_of_ne ha, List.length_cons] at h ⊢
        rw [List.getElem?_cons_succ]
        exact ih (Nat.lt_of_succ_lt_succ h)

theorem upTo_append (h : z ∉ l) (m : List α) : upTo z (l ++ z :: m) = l := by
  induction l with
  | nil => exact upTo_cons_self m
  | cons a l ih =>
      rw [List.cons_append, upTo_cons_of_ne (Ne.symm (List.ne_of_not_mem_cons h)),
        ih (List.not_mem_of_not_mem_cons h)]

omit [DecidableEq α] in
theorem drop_takeWhile (f : α → Bool) (l : List α) : l.drop (l.takeWhile f).length = l.dropWhile f := by
  have hdrop : (l.takeWhile f ++ l.dropWhile f).drop (l.takeWhile f).length = l.dropWhile f := List.drop_left
  rwa [List.takeWhile_append_dropWhile] at hdrop

theorem notMem_upTo (z : α) (l : List α) : z ∉ upTo z l := by
  intro h
  have hne := List.mem_takeWhile_imp h
  simp at hne

end Lists

section Strings

def stringAt (z : α) (m : List α) (p : ℕ) : List α := upTo z (m.drop p)

theorem stringAt_add (h : k ≤ (stringAt z m p).length) : stringAt z m (p + k) = (stringAt z m p).drop k := by
  rw [stringAt, ← List.drop_drop]
  exact upTo_drop h

theorem stringAt_set_of_lt (h : q < p) : stringAt z (m.set q x) p = stringAt z m p := by
  rw [stringAt, List.drop_set_of_lt h, stringAt]

theorem stringAt_set_of_gt (h : p + (stringAt z m p).length < q) : stringAt z (m.set q x) p = stringAt z m p := by
  have hle : p ≤ q := Nat.le_of_lt (Nat.lt_of_le_of_lt (Nat.le_add_right _ _) h)
  obtain ⟨j, rfl⟩ := Nat.exists_eq_add_of_le hle
  rw [stringAt, List.drop_set, if_neg (by omega), Nat.add_sub_cancel_left]
  exact upTo_set_of_gt (Nat.lt_of_add_lt_add_left h)

theorem stringAt_set_end (h : k ≤ (stringAt z m p).length) :
    stringAt z (m.set (p + k) z) p = (stringAt z m p).take k := by
  rw [stringAt, List.drop_set, if_neg (by omega), Nat.add_sub_cancel_left]
  exact upTo_set_end h

theorem stringAt_set_of_end_le (h : p + (stringAt z m p).length ≤ q) : stringAt z (m.set q z) p = stringAt z m p := by
  rcases Nat.eq_or_lt_of_le h with rfl | hlt
  · rw [stringAt_set_end (Nat.le_refl _), List.take_length]
  · exact stringAt_set_of_gt hlt

theorem getD_stringAt (h : k < (stringAt z m p).length) (d : α) : m.getD (p + k) d = (stringAt z m p)[k] := by
  have hpre : stringAt z m p <+: m.drop p := List.takeWhile_prefix _
  have hlt : k < (m.drop p).length := Nat.lt_of_lt_of_le h hpre.length_le
  rw [List.length_drop] at hlt
  rw [hpre.getElem h, List.getElem_drop, List.getD_eq_getElem _ _ (by omega)]

theorem getElem?_end (h : p + (stringAt z m p).length < m.length) :
    m[p + (stringAt z m p).length]? = some z := by
  rw [← List.getElem?_drop]
  apply getElem?_upTo
  rw [List.length_drop]
  exact Nat.lt_sub_of_add_lt (Nat.add_comm _ _ ▸ h)

theorem getD_stringAt_of_le (h : k ≤ (stringAt z m p).length) : m.getD (p + k) z = (stringAt z m p).getD k z := by
  rcases Nat.eq_or_lt_of_le h with rfl | hlt
  · rw [List.getD_eq_default _ _ (Nat.le_refl _)]
    rcases Nat.lt_or_ge (p + (stringAt z m p).length) m.length with hin | hout
    · rw [List.getD_eq_getElem?_getD, getElem?_end hin]
      rfl
    · exact List.getD_eq_default _ _ hout
  · rw [getD_stringAt hlt, List.getD_eq_getElem _ _ hlt]

end Strings

end Orion68.CStrings
