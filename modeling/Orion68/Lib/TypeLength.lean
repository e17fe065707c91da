import Mathlib.Data.List.Basic
import Mathlib.Tactic.Common

namespace Orion68.TypeLength

variable {α : Type} [DecidableEq α]

/-- Sequences of options, each of them a code, a length, and so many values. Two codes stand alone. -/
structure Format (α : Type) where
  pad : α
  stop : α
  size : α → ℕ

variable (F : Format α)

/-- The options up to the code that stops, as far as all their values are there. -/
def options : List α → List (α × List α)
  | [] | [_] => []
  | code :: len :: rest =>
      if code = F.stop then []
      else if code = F.pad then options (len :: rest)
      else if F.size len ≤ rest.length then (code, rest.take (F.size len)) :: options (rest.drop (F.size len))
      else []
  termination_by l => l.length
  decreasing_by
    all_goals simp only [List.length_cons, List.length_drop]
    all_goals omega

/-- The option that is cut off by the end, with what is there of it. -/
def cut : List α → List α
  | [] => []
  | [code] => if code = F.stop ∨ code = F.pad then [] else [code]
  | code :: len :: rest =>
      if code = F.stop then []
      else if code = F.pad then cut (len :: rest)
      else if F.size len ≤ rest.length then cut (rest.drop (F.size len))
      else code :: len :: rest
  termination_by l => l.length
  decreasing_by
    all_goals simp only [List.length_cons, List.length_drop]
    all_goals omega

variable {F} {code len : α} {rest : List α}

@[simp] theorem options_nil : options F [] = [] := by rw [options]

@[simp] theorem cut_nil : cut F [] = [] := by rw [cut]

@[simp] theorem options_stop (rest : List α) : options F (F.stop :: rest) = [] := by
  cases rest with
  | nil => rw [options]
  | cons len rest => rw [options, if_pos rfl]

@[simp] theorem cut_stop (rest : List α) : cut F (F.stop :: rest) = [] := by
  cases rest with
  | nil => rw [cut, if_pos (.inl rfl)]
  | cons len rest => rw [cut, if_pos rfl]

theorem options_pad (h : F.pad ≠ F.stop) (rest : List α) : options F (F.pad :: rest) = options F rest := by
  cases rest with
  | nil => rw [options_nil, options]
  | cons len rest => rw [options, if_neg h, if_pos rfl]

theorem cut_pad (h : F.pad ≠ F.stop) (rest : List α) : cut F (F.pad :: rest) = cut F rest := by
  cases rest with
  | nil => rw [cut_nil, cut, if_pos (.inr rfl)]
  | cons len rest => rw [cut, if_neg h, if_pos rfl]

theorem cut_singleton (hs : code ≠ F.stop) (hp : code ≠ F.pad) : cut F [code] = [code] := by
  rw [cut, if_neg (not_or.mpr ⟨hs, hp⟩)]

theorem options_whole (hs : code ≠ F.stop) (hp : code ≠ F.pad) (h : F.size len ≤ rest.length) :
    options F (code :: len :: rest) = (code, rest.take (F.size len)) :: options F (rest.drop (F.size len)) := by
  rw [options, if_neg hs, if_neg hp, if_pos h]

theorem cut_whole (hs : code ≠ F.stop) (hp : code ≠ F.pad) (h : F.size len ≤ rest.length) :
    cut F (code :: len :: rest) = cut F (rest.drop (F.size len)) := by
  rw [cut, if_neg hs, if_neg hp, if_pos h]

theorem options_short (hs : code ≠ F.stop) (hp : code ≠ F.pad) (h : rest.length < F.size len) :
    options F (code :: len :: rest) = [] := by
  rw [options, if_neg hs, if_neg hp, if_neg (Nat.not_le.mpr h)]

theorem cut_short (hs : code ≠ F.stop) (hp : code ≠ F.pad) (h : rest.length < F.size len) :
    cut F (code :: len :: rest) = code :: len :: rest := by
  rw [cut, if_neg hs, if_neg hp, if_neg (Nat.not_le.mpr h)]

section Encoding

variable (ofSize : ℕ → α)

def encode (os : List (α × List α)) : List α := os.flatMap fun o => o.1 :: ofSize o.2.length :: o.2

structure Encodable (F : Format α) (ofSize : ℕ → α) (o : α × List α) : Prop where
  code_ne_stop : o.1 ≠ F.stop
  code_ne_pad : o.1 ≠ F.pad
  size : F.size (ofSize o.2.length) = o.2.length

variable {ofSize} {os : List (α × List α)}

theorem options_encode (h : ∀ o ∈ os, Encodable F ofSize o) (rest : List α) :
    options F (encode ofSize os ++ rest) = os ++ options F rest := by
  induction os with
  | nil => rfl
  | cons o os ih =>
      obtain ⟨hs, hp, hsize⟩ := h o List.mem_cons_self
      have hrest := ih fun o' ho' => h o' (List.mem_cons_of_mem o ho')
      have hlist : encode ofSize (o :: os) ++ rest =
          o.1 :: ofSize o.2.length :: (o.2 ++ (encode ofSize os ++ rest)) := by
        simp [encode]
      rw [hlist, options_whole hs hp, hsize, List.take_left, List.drop_left, hrest, List.cons_append]
      rw [hsize, List.length_append]
      exact Nat.le_add_right _ _

theorem cut_encode (h : ∀ o ∈ os, Encodable F ofSize o) (rest : List α) :
    cut F (encode ofSize os ++ rest) = cut F rest := by
  induction os with
  | nil => rfl
  | cons o os ih =>
      obtain ⟨hs, hp, hsize⟩ := h o List.mem_cons_self
      have hrest := ih fun o' ho' => h o' (List.mem_cons_of_mem o ho')
      have hlist : encode ofSize (o :: os) ++ rest =
          o.1 :: ofSize o.2.length :: (o.2 ++ (encode ofSize os ++ rest)) := by
        simp [encode]
      rw [hlist, cut_whole hs hp, hsize, List.drop_left, hrest]
      rw [hsize, List.length_append]
      exact Nat.le_add_right _ _

end Encoding

end Orion68.TypeLength
