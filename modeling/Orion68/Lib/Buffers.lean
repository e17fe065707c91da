import Mathlib.Data.List.GetD
import Mathlib.Logic.Function.Basic
import Mathlib.Tactic.Common

namespace Orion68.Buffers

variable {α : Type} {z a : α} {m : ℕ → α} {s l : List α} {p k : ℕ}

section Places

/-- A list over a buffer, from `p` on. -/
def place (p : ℕ) (l : List α) (m : ℕ → α) : ℕ → α := fun k => if k < p then m k else l.getD (k - p) (m k)

theorem place_of_lt (h : k < p) : place p l m k = m k := if_pos h

theorem place_add (h : k < l.length) : place p l m (p + k) = l[k] := by
  rw [place, if_neg (by omega), Nat.add_sub_cancel_left, List.getD_eq_getElem _ _ h]

theorem place_of_le (h : p + l.length ≤ k) : place p l m k = m k := by
  rw [place, if_neg (by omega), List.getD_eq_default _ _ (by omega)]

theorem place_nil (p : ℕ) (m : ℕ → α) : place p [] m = m := by
  funext k
  exact ite_self (m k)

theorem place_cons (p : ℕ) (a : α) (l : List α) (m : ℕ → α) :
    place p (a :: l) m = place (p + 1) l (Function.update m p a) := by
  funext k
  rcases Nat.lt_trichotomy k p with hlt | rfl | hgt
  · rw [place_of_lt hlt, place_of_lt (by omega), Function.update_of_ne (by omega)]
  · rw [place_of_lt (Nat.lt_succ_self k), Function.update_self, place, if_neg (Nat.lt_irrefl k), Nat.sub_self]
    rfl
  · obtain ⟨j, rfl⟩ := Nat.exists_eq_add_of_lt hgt
    rw [place, place, if_neg (by omega), if_neg (by omega), Function.update_of_ne (by omega)]
    have hj : p + j + 1 - p = j + 1 := by omega
    have hj' : p + j + 1 - (p + 1) = j := by omega
    rw [hj, hj', List.getD_cons_succ]

theorem place_concat (p : ℕ) (l : List α) (a : α) (m : ℕ → α) :
    place p (l ++ [a]) m = Function.update (place p l m) (p + l.length) a := by
  induction l generalizing p m with
  | nil => rw [List.nil_append, place_cons, place_nil, place_nil, List.length_nil, Nat.add_zero]
  | cons b l ih =>
      rw [List.cons_append, place_cons, ih, place_cons, List.length_cons]
      congr 1
      omega

end Places

section Strings

/-- A buffer begins with a string and what ends it. -/
structure Terminated (z : α) (m : ℕ → α) (s : List α) : Prop where
  notMem : z ∉ s
  byte : ∀ k (h : k < s.length), m k = s[k]
  ends : m s.length = z

theorem Terminated.ne (h : Terminated z m s) (hk : k < s.length) : m k ≠ z := by
  rw [h.byte k hk]
  intro hz
  exact h.notMem (hz ▸ List.getElem_mem hk)

theorem terminated_place (h : z ∉ s) (m : ℕ → α) : Terminated z (place 0 (s ++ [z]) m) s where
  notMem := h
  byte k hk := by
    have hlt : k < (s ++ [z]).length := by
      rw [List.length_append]
      omega
    have hplace := place_add (p := 0) (m := m) hlt
    rwa [Nat.zero_add, List.getElem_append_left hk] at hplace
  ends := by
    rw [place_concat, Nat.zero_add, Function.update_self]

theorem Terminated.unique {t : List α} (hs : Terminated z m s) (ht : Terminated z m t) : s = t := by
  have hlen : s.length = t.length := by
    rcases Nat.lt_trichotomy s.length t.length with h | h | h
    · exact absurd hs.ends (ht.ne h)
    · exact h
    · exact absurd ht.ends (hs.ne h)
  apply List.ext_getElem hlen
  intro k hk hk'
  rw [← hs.byte k hk, ← ht.byte k hk']

theorem Terminated.update (h : Terminated z m (s ++ a :: l)) {c : α} (hc : c ≠ z) :
    Terminated z (Function.update m s.length c) (s ++ c :: l) where
  notMem hmem := by
    apply h.notMem
    rcases List.mem_append.mp hmem with hs | hl
    · exact List.mem_append_left _ hs
    · exact List.mem_append_right _ (List.mem_cons_of_mem a ((List.mem_cons.mp hl).resolve_left hc.symm))
  byte k hk := by
    have hlt : k < (s ++ a :: l).length := by simpa using hk
    have hbyte := h.byte k hlt
    rcases Nat.lt_trichotomy k s.length with hless | rfl | hmore
    · rw [Function.update_of_ne (Nat.ne_of_lt hless), hbyte, List.getElem_append_left hless, List.getElem_append_left hless]
    · rw [Function.update_self, List.getElem_append_right (Nat.le_refl _)]
      simp
    · obtain ⟨j, rfl⟩ := Nat.exists_eq_add_of_lt hmore
      have hj : s.length + j + 1 - s.length = j + 1 := by omega
      rw [Function.update_of_ne (Nat.ne_of_gt hmore), hbyte, List.getElem_append_right (by omega),
        List.getElem_append_right (by omega)]
      simp [hj]
  ends := by
    have hends := h.ends
    rw [List.length_append, List.length_cons] at hends ⊢
    rwa [Function.update_of_ne (by omega)]

end Strings

section Reversal

/-- The elements between two places change sides, the outer ones first. -/
def reverse (m : ℕ → α) (j : ℕ) : ℕ → ℕ → α
  | 0 => m
  | i + 1 =>
      if j < i + 1 then reverse (Function.update (Function.update m j (m (i + 1))) (i + 1) (m j)) (j + 1) i
      else m

theorem reverse_apply (m : ℕ → α) (j i k : ℕ) :
    reverse m j i k = if j ≤ k ∧ k ≤ i then m (j + i - k) else m k := by
  induction i generalizing m j with
  | zero =>
      rw [reverse]
      split
      next h =>
        obtain rfl : k = 0 := by omega
        obtain rfl : j = 0 := by omega
        rfl
      next => rfl
  | succ i ih =>
      rw [reverse]
      by_cases hj : j < i + 1
      · rw [if_pos hj, ih]
        by_cases hin : j + 1 ≤ k ∧ k ≤ i
        · rw [if_pos hin, if_pos (by omega), Function.update_of_ne (by omega), Function.update_of_ne (by omega)]
          congr 1
          omega
        · rw [if_neg hin]
          by_cases hlast : k = i + 1
          · rw [hlast, Function.update_self, if_pos (by omega)]
            congr 1
            omega
          · rw [Function.update_of_ne hlast]
            by_cases hfirst : k = j
            · rw [hfirst, Function.update_self, if_pos (by omega)]
              congr 1
              omega
            · rw [Function.update_of_ne hfirst, if_neg (by omega)]
      · rw [if_neg hj]
        split
        next h =>
          congr 1
          omega
        next => rfl

theorem reverse_place (z : α) (l : List α) (m : ℕ → α) :
    reverse (Function.update (place 0 l.reverse m) l.length z) 0 (l.length - 1) = place 0 (l ++ [z]) m := by
  funext k
  rw [reverse_apply, Nat.zero_add, place_concat, Nat.zero_add]
  have hat {i : ℕ} (l : List α) (hi : i < l.length) : place 0 l m i = l[i] := by
    have h := place_add (p := 0) (m := m) hi
    rwa [Nat.zero_add] at h
  rcases Nat.lt_trichotomy k l.length with hlt | rfl | hgt
  · have hback : l.length - 1 - k < l.reverse.length := by
      rw [List.length_reverse]
      omega
    rw [if_pos (by omega), Function.update_of_ne (by omega), Function.update_of_ne (by omega)]
    rw [hat _ hback, hat _ hlt, List.getElem_reverse]
    congr 1
    omega
  · split
    next h =>
      have hnil : l.length - 1 - l.length = l.length := by omega
      rw [hnil, Function.update_self, Function.update_self]
    next => rw [Function.update_self, Function.update_self]
  · rw [if_neg (by omega), Function.update_of_ne (by omega), Function.update_of_ne (by omega),
      place_of_le (by rw [List.length_reverse]; omega), place_of_le (by omega)]

end Reversal

end Orion68.Buffers
