import Mathlib.Data.Option.Basic
import Mathlib.Logic.Function.Iterate
import Mathlib.Tactic.Common

namespace Orion68.Loops

variable {σ : Type} {cond : σ → Bool} {body : σ → Option σ}

/-- A `while` loop that is given up after `n` rounds. -/
def whileLoop (cond : σ → Bool) (body : σ → Option σ) : Nat → σ → Option σ
  | 0, _ => none
  | n + 1, s => if cond s then (body s).bind (whileLoop cond body n) else some s

theorem whileLoop_preserves {I : σ → Prop} (hbody : ∀ s t, I s → cond s = true → body s = some t → I t)
    {n : Nat} {s t : σ} (hs : I s) (h : whileLoop cond body n s = some t) : I t ∧ cond t = false := by
  induction n generalizing s with
  | zero => cases h
  | succ n ih =>
      rw [whileLoop] at h
      split at h
      next hc =>
        obtain ⟨u, hu, ht⟩ := Option.bind_eq_some_iff.mp h
        exact ih (hbody s u hs hc hu) ht
      next hc =>
        cases h
        exact ⟨hs, Bool.eq_false_iff.mpr hc⟩

theorem whileLoop_total {I : σ → Prop} (measure : σ → Nat)
    (hbody : ∀ s, I s → cond s = true → ∃ t, body s = some t ∧ I t ∧ measure t < measure s)
    {n : Nat} {s : σ} (hs : I s) (hn : measure s < n) :
    ∃ t, whileLoop cond body n s = some t ∧ I t ∧ cond t = false := by
  induction n generalizing s with
  | zero => exact absurd hn (Nat.not_lt_zero _)
  | succ n ih =>
      rw [whileLoop]
      cases hc : cond s with
      | false => exact ⟨s, rfl, hs, hc⟩
      | true =>
          obtain ⟨t, ht, hI, hlt⟩ := hbody s hs hc
          rw [if_pos rfl, ht]
          exact ih hI (by omega)

theorem whileLoop_map_total {τ : Type} {f : σ → τ} {I : σ → Prop} {P : τ → Prop} (measure : σ → Nat)
    (hbody : ∀ s, I s → cond s = true → ∃ t, body s = some t ∧ I t ∧ measure t < measure s)
    (hend : ∀ s, I s → cond s = false → P (f s)) {n : Nat} {s : σ} (hs : I s) (hn : measure s < n) :
    ∃ t, (whileLoop cond body n s).map f = some t ∧ P t := by
  obtain ⟨u, hu, hI, hc⟩ := whileLoop_total measure hbody hs hn
  exact ⟨f u, congrArg (Option.map f) hu, hend u hI hc⟩

theorem whileLoop_diverges {I : σ → Prop} (hcond : ∀ s, I s → cond s = true)
    (hbody : ∀ s t, I s → body s = some t → I t) (n : Nat) {s : σ} (hs : I s) :
    whileLoop cond body n s = none := by
  induction n generalizing s with
  | zero => rfl
  | succ n ih =>
      rw [whileLoop, if_pos (hcond s hs), Option.bind_eq_none_iff]
      exact fun t ht => ih (hbody s t hs ht)

theorem whileLoop_of_body_none {s : σ} (hc : cond s = true) (hb : body s = none) (n : Nat) :
    whileLoop cond body n s = none := by
  cases n with
  | zero => rfl
  | succ n =>
      rw [whileLoop, if_pos hc, hb]
      rfl

theorem whileLoop_eq_some_iff {f : σ → σ} {n : Nat} {s t : σ} :
    whileLoop cond (fun s => some (f s)) n s = some t ↔
      ∃ k, k < n ∧ t = f^[k] s ∧ cond (f^[k] s) = false ∧ ∀ j, j < k → cond (f^[j] s) = true := by
  induction n generalizing s with
  | zero => simp [whileLoop]
  | succ n ih =>
      rw [whileLoop]
      split
      next hc =>
        rw [Option.bind_some, ih]
        constructor
        · rintro ⟨k, hk, rfl, hend, hall⟩
          refine ⟨k + 1, by omega, rfl, hend, ?_⟩
          rintro (_ | j) hj
          · exact hc
          · exact hall j (by omega)
        · rintro ⟨k, hk, rfl, hend, hall⟩
          cases k with
          | zero => exact absurd hc (Bool.eq_false_iff.mp hend)
          | succ k => exact ⟨k, by omega, rfl, hend, fun j hj => hall (j + 1) (by omega)⟩
      next hc =>
        constructor
        · rintro h
          cases h
          exact ⟨0, Nat.succ_pos n, rfl, Bool.eq_false_iff.mpr hc, fun j hj => absurd hj (Nat.not_lt_zero j)⟩
        · rintro ⟨k, hk, rfl, hend, hall⟩
          cases k with
          | zero => rfl
          | succ k => exact absurd (hall 0 (Nat.succ_pos k)) hc

theorem iterate_preserves {I : σ → Prop} {f : σ → σ} (hf : ∀ s, I s → cond s = true → I (f s)) {s : σ} (hs : I s)
    {k : Nat} (hc : ∀ j, j < k → cond (f^[j] s) = true) : I (f^[k] s) := by
  induction k with
  | zero => exact hs
  | succ k ih =>
      rw [Function.iterate_succ_apply']
      exact hf _ (ih fun j hj => hc j (by omega)) (hc k (by omega))

theorem whileLoop_map {τ : Type} {g : σ → τ} {cond' : τ → Bool} {body' : τ → Option τ}
    (hcond : ∀ s, cond' (g s) = cond s) (hbody : ∀ s, body' (g s) = (body s).map g) (n : Nat) (s : σ) :
    whileLoop cond' body' n (g s) = (whileLoop cond body n s).map g := by
  induction n generalizing s with
  | zero => rfl
  | succ n ih =>
      rw [whileLoop, whileLoop, hcond, hbody]
      split
      · rw [Option.bind_map, Option.map_bind]
        apply congrArg (body s).bind
        funext t
        exact ih t
      · rfl

end Orion68.Loops
