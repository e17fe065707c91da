import Mathlib.Tactic.Common

namespace Orion68.TextScreen

/-- A screen of `rows` by `cols` cells with a cursor; the cells outside do not matter. -/
structure Screen (α : Type) (rows cols : Nat) where
  cell : Nat → Nat → α
  row : Nat
  col : Nat
  row_lt : row < rows
  col_lt : col < cols

variable {α : Type} {rows cols : Nat}

namespace Screen

def clear (blank : α) (hrows : 0 < rows) (hcols : 0 < cols) : Screen α rows cols :=
  ⟨fun _ _ => blank, 0, 0, hrows, hcols⟩

def set (s : Screen α rows cols) (row col : Nat) (a : α) : Screen α rows cols :=
  { s with cell := fun r c => if r = row ∧ c = col then a else s.cell r c }

def home (s : Screen α rows cols) : Screen α rows cols := { s with col := 0, col_lt := Nat.zero_lt_of_lt s.col_lt }

/-- To the start of the next row; past the last one all rows move up by one. -/
def newLine (blank : α) (s : Screen α rows cols) : Screen α rows cols :=
  if h : s.row + 1 < rows then { s.home with row := s.row + 1, row_lt := h }
  else { s.home with cell := fun r c => if r + 1 < rows then s.cell (r + 1) c else blank }

/-- To the next cell, which after the last column is the first of the next row. -/
def advance (blank : α) (s : Screen α rows cols) : Screen α rows cols :=
  if h : s.col + 1 < cols then { s with col := s.col + 1, col_lt := h } else s.newLine blank

def put (blank a : α) (s : Screen α rows cols) : Screen α rows cols := (s.set s.row s.col a).advance blank

section Fields

variable {blank : α} {s : Screen α rows cols}

theorem set_cell (row col : Nat) (a : α) (r c : Nat) :
    (s.set row col a).cell r c = if r = row ∧ c = col then a else s.cell r c := rfl

theorem newLine_row : (s.newLine blank).row = if s.row + 1 < rows then s.row + 1 else s.row := by
  rw [newLine]
  split <;> rfl

theorem newLine_col : (s.newLine blank).col = 0 := by
  rw [newLine]
  split <;> rfl

theorem newLine_cell (r c : Nat) : (s.newLine blank).cell r c =
    if s.row + 1 < rows then s.cell r c else if r + 1 < rows then s.cell (r + 1) c else blank := by
  rw [newLine]
  split <;> rfl

theorem advance_of_lt (h : s.col + 1 < cols) : s.advance blank = { s with col := s.col + 1, col_lt := h } := dif_pos h

theorem advance_of_not_lt (h : ¬ s.col + 1 < cols) : s.advance blank = s.newLine blank := dif_neg h

end Fields

/-- Every cell satisfies `P`, and there is nothing below the cursor. -/
structure Holds (P : α → Prop) (blank : α) (s : Screen α rows cols) : Prop where
  cells : ∀ r c, P (s.cell r c)
  below : ∀ r c, s.row < r → s.cell r c = blank

variable {P : α → Prop} {blank : α} {s : Screen α rows cols}

theorem holds_clear (hblank : P blank) (hrows : 0 < rows) (hcols : 0 < cols) :
    Holds P blank (clear blank hrows hcols) :=
  ⟨fun _ _ => hblank, fun _ _ _ => rfl⟩

theorem Holds.home (h : Holds P blank s) : Holds P blank s.home := ⟨h.cells, h.below⟩

theorem Holds.set (h : Holds P blank s) {row col : Nat} (hrow : row ≤ s.row) {a : α} (ha : P a) :
    Holds P blank (s.set row col a) := by
  refine ⟨?_, ?_⟩
  · intro r c
    dsimp only [Screen.set]
    split
    · exact ha
    · exact h.cells r c
  · intro r c hr
    have hne : ¬ (r = row ∧ c = col) := by
      rintro ⟨rfl, -⟩
      exact absurd hrow (Nat.not_le.mpr hr)
    dsimp only [Screen.set]
    rw [if_neg hne]
    exact h.below r c hr

theorem Holds.newLine (h : Holds P blank s) : Holds P blank (s.newLine blank) := by
  rw [Screen.newLine]
  split
  · exact ⟨h.cells, fun r c hr => h.below r c (Nat.lt_of_succ_lt hr)⟩
  next hlast =>
    have hblank : P blank := by
      have hcell := h.cells (s.row + 1) 0
      rwa [h.below (s.row + 1) 0 (Nat.lt_succ_self _)] at hcell
    refine ⟨?_, ?_⟩
    · intro r c
      dsimp only [Screen.home]
      split
      · exact h.cells (r + 1) c
      · exact hblank
    · intro r c hr
      have hr' : s.row < r := hr
      have hout : ¬ r + 1 < rows := by omega
      exact if_neg hout

theorem Holds.advance (h : Holds P blank s) : Holds P blank (s.advance blank) := by
  rw [Screen.advance]
  split
  · exact ⟨h.cells, h.below⟩
  · exact h.newLine

theorem Holds.put (h : Holds P blank s) {a : α} (ha : P a) : Holds P blank (s.put blank a) :=
  (h.set (Nat.le_refl s.row) ha).advance

theorem set_self {row col : Nat} {a : α} (h : s.cell row col = a) : s.set row col a = s := by
  have hcell : (s.set row col a).cell = s.cell := by
    funext r c
    dsimp only [Screen.set]
    split
    next heq =>
      rw [heq.1, heq.2, h]
    next => rfl
  cases s
  rw [set, Screen.mk.injEq]
  exact ⟨hcell, rfl, rfl⟩

end Screen

end Orion68.TextScreen
