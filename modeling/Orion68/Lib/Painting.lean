import Mathlib.Data.Set.Basic
import Mathlib.Tactic.Common

namespace Orion68.Painting

variable {σ ι κ β : Type} {S T : Set ι} {c : κ} {m m' m'' : ι → κ}

/-- From `m` to `m'` the places in `S` get the colour `c`, and no other changes. -/
def Painted (S : Set ι) (c : κ) (m m' : ι → κ) : Prop := ∀ i, (i ∈ S → m' i = c) ∧ (i ∉ S → m' i = m i)

theorem Painted.refl (c : κ) (m : ι → κ) : Painted ∅ c m m := fun _ => ⟨nofun, fun _ => rfl⟩

theorem Painted.trans (h : Painted S c m m') (h' : Painted T c m' m'') : Painted (S ∪ T) c m m'' := by
  intro i
  constructor
  · intro hi
    by_cases hT : i ∈ T
    · exact (h' i).1 hT
    · rw [(h' i).2 hT]
      exact (h i).1 (hi.resolve_right hT)
  · intro hi
    rw [Set.mem_union, not_or] at hi
    rw [(h' i).2 hi.2, (h i).2 hi.1]

theorem Painted.congr (h : Painted S c m m') (hST : ∀ i, i ∈ S ↔ i ∈ T) : Painted T c m m' := Set.ext hST ▸ h

theorem Painted.unique (h : Painted S c m m') (h' : Painted S c m m'') : m' = m'' := by
  funext i
  by_cases hi : i ∈ S
  · rw [(h i).1 hi, (h' i).1 hi]
  · rw [(h i).2 hi, (h' i).2 hi]

theorem painted_foldl {v : σ → ι → κ} {g : σ → β → σ} {A : β → Set ι} {l : List β}
    (h : ∀ s b, b ∈ l → Painted (A b) c (v s) (v (g s b))) (s : σ) :
    Painted {i | ∃ b ∈ l, i ∈ A b} c (v s) (v (l.foldl g s)) := by
  induction l generalizing s with
  | nil => exact (Painted.refl c (v s)).congr (by simp)
  | cons b l ih =>
      have hrest := ih (fun s b hb => h s b (List.mem_cons_of_mem _ hb)) (g s b)
      exact ((h s b List.mem_cons_self).trans hrest).congr (by simp)

/-- Two ways of painting come to the same on every picture exactly when they paint the same places;
each place can have another colour. -/
theorem painted_agree_iff {v : σ → ι → κ} {f g : σ → σ} (hf : ∀ s, Painted S c (v s) (v (f s)))
    (hg : ∀ s, Painted T c (v s) (v (g s))) (hother : ∃ s, ∀ i, v s i ≠ c) :
    (∀ s, v (f s) = v (g s)) ↔ S = T := by
  constructor
  · intro h
    obtain ⟨s, hs⟩ := hother
    ext i
    have hsame := congrFun (h s) i
    constructor
    · intro hi
      by_contra hT
      rw [(hf s i).1 hi, (hg s i).2 hT] at hsame
      exact hs i hsame.symm
    · intro hi
      by_contra hS
      rw [(hg s i).1 hi, (hf s i).2 hS] at hsame
      exact hs i hsame
  · rintro rfl s
    exact (hf s).unique (hg s)

end Orion68.Painting
