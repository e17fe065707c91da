import Mathlib.Data.List.Basic
import Mathlib.Tactic.Common

namespace Orion68.Teletype

variable {α : Type} [DecidableEq α]

/-- The line of a terminal around its cursor: the cells on its left, the nearest first, and those from
it on; behind these all are blank. -/
structure Line (α : Type) where
  left : List α
  right : List α

namespace Line

variable (back : α)

/-- The character `back` moves the cursor to the left; any other one is written over a cell. -/
def put (l : Line α) (c : α) : Line α :=
  if c = back then
    match l.left with
    | [] => l
    | a :: left => ⟨left, a :: l.right⟩
  else ⟨c :: l.left, l.right.tail⟩

def puts (l : Line α) (text : List α) : Line α := text.foldl (put back) l

def Shows (blank : α) (text : List α) (l : Line α) : Prop := l.left = text.reverse ∧ ∀ a ∈ l.right, a = blank

variable {back} {blank : α} {l : Line α} {text : List α}

theorem puts_append (l : Line α) (text text' : List α) :
    puts back l (text ++ text') = puts back (puts back l text) text' := List.foldl_append

omit [DecidableEq α] in
theorem shows_empty (blank : α) : Shows blank [] ⟨[], []⟩ := ⟨rfl, nofun⟩

theorem puts_text (h : back ∉ text) (l : Line α) :
    puts back l text = ⟨text.reverse ++ l.left, l.right.drop text.length⟩ := by
  induction text generalizing l with
  | nil => rfl
  | cons c text ih =>
      rw [List.mem_cons, not_or] at h
      change puts back (put back l c) text = _
      rw [ih h.2, put, if_neg (Ne.symm h.1), List.reverse_cons, List.append_assoc, List.length_cons, List.drop_tail]
      rfl

theorem puts_back (left right : List α) :
    puts back ⟨left, right⟩ (List.replicate left.length back) = ⟨[], left.reverse ++ right⟩ := by
  induction left generalizing right with
  | nil => rfl
  | cons a left ih =>
      rw [List.length_cons, List.replicate_succ, List.reverse_cons, List.append_assoc]
      change puts back (put back ⟨a :: left, right⟩ back) _ = _
      rw [put, if_pos rfl]
      exact ih (a :: right)

/-- A text is rubbed out by going back over it, blanking it and going back again; another one takes its
place. -/
theorem shows_redraw (hback : blank ≠ back) {old : List α} (h : Shows blank old l) (htext : back ∉ text) :
    Shows blank text (puts back l (List.replicate old.length back ++ List.replicate old.length blank ++
      List.replicate old.length back ++ text)) := by
  obtain ⟨left, right⟩ := l
  obtain ⟨rfl, hright⟩ : left = old.reverse ∧ ∀ a ∈ right, a = blank := h
  have hgo : puts back ⟨old.reverse, right⟩ (List.replicate old.reverse.length back) =
      ⟨[], old.reverse.reverse ++ right⟩ := puts_back old.reverse right
  have hnot : back ∉ List.replicate old.length blank := by
    rw [List.mem_replicate]
    exact fun h => hback h.2.symm
  have hblank := puts_text hnot ⟨[], old.reverse.reverse ++ right⟩
  have hreturn : puts back ⟨List.replicate old.length blank, right⟩
      (List.replicate (List.replicate old.length blank).length back) =
      ⟨[], (List.replicate old.length blank).reverse ++ right⟩ := puts_back _ right
  rw [List.length_reverse] at hgo
  rw [List.length_replicate] at hreturn
  rw [List.reverse_replicate, List.append_nil, List.length_replicate, List.reverse_reverse, List.drop_left] at hblank
  rw [puts_append, puts_append, puts_append, hgo, List.reverse_reverse, hblank, hreturn, puts_text htext]
  refine ⟨List.append_nil _, fun a ha => ?_⟩
  have hmem := List.mem_of_mem_drop ha
  rw [List.reverse_replicate, List.mem_append, List.mem_replicate] at hmem
  exact hmem.elim (fun h => h.2) (hright a)

theorem shows_rubout (hback : blank ≠ back) {c : α} (h : Shows blank (text ++ [c]) l) :
    Shows blank text (puts back l [back, blank, back]) := by
  obtain ⟨left, right⟩ := l
  obtain ⟨rfl, hright⟩ : left = (text ++ [c]).reverse ∧ ∀ a ∈ right, a = blank := h
  rw [List.reverse_append, List.reverse_singleton, List.singleton_append]
  have hrun : puts back ⟨c :: text.reverse, right⟩ [back, blank, back] = ⟨text.reverse, blank :: right⟩ := by
    simp [puts, put, hback]
  rw [hrun]
  refine ⟨rfl, fun a ha => ?_⟩
  rcases List.mem_cons.mp ha with rfl | ha
  · rfl
  · exact hright a ha

theorem shows_type {c : α} (hc : c ≠ back) (h : Shows blank text l) : Shows blank (text ++ [c]) (put back l c) := by
  rw [put, if_neg hc, Shows, List.reverse_append, h.1]
  exact ⟨rfl, fun a ha => h.2 a (List.mem_of_mem_tail ha)⟩

end Line

end Orion68.Teletype
