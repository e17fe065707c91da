import Mathlib.Data.Option.Basic
import Mathlib.Tactic.Common

namespace Orion68.Runs

variable {σ ε : Type}

def run (step : ε → σ → Option σ) : List ε → σ → Option σ
  | [], s => some s
  | e :: es, s => (step e s).bind (run step es)

@[simp] theorem run_nil (step : ε → σ → Option σ) (s : σ) : run step [] s = some s := rfl

theorem run_cons (step : ε → σ → Option σ) (e : ε) (es : List ε) (s : σ) :
    run step (e :: es) s = (step e s).bind (run step es) := rfl

theorem run_cons_of_step {step : ε → σ → Option σ} {e : ε} {s t : σ} (h : step e s = some t)
    (es : List ε) : run step (e :: es) s = run step es t := by
  simp [run_cons, h]

theorem run_cons_eq_some {step : ε → σ → Option σ} {e : ε} {es : List ε} {s u : σ} :
    run step (e :: es) s = some u ↔ ∃ t, step e s = some t ∧ run step es t = some u := by
  simp [run_cons, Option.bind_eq_some_iff]

theorem run_append (step : ε → σ → Option σ) (es es' : List ε) (s : σ) :
    run step (es ++ es') s = (run step es s).bind (run step es') := by
  induction es generalizing s with
  | nil => rfl
  | cons e es ih =>
      rw [List.cons_append, run_cons, run_cons]
      cases step e s with
      | none => rfl
      | some t => exact ih t

theorem run_append_of_run {step : ε → σ → Option σ} {es : List ε} {s t : σ} (h : run step es s = some t)
    (es' : List ε) : run step (es ++ es') s = run step es' t := by
  rw [run_append, h]
  rfl

theorem run_some (f : ε → σ → σ) (es : List ε) (s : σ) :
    run (fun e s => some (f e s)) es s = some (es.foldl (fun s e => f e s) s) := by
  induction es generalizing s with
  | nil => rfl
  | cons e es ih => exact ih (f e s)

/-- An invariant that every step returns from and restores makes every run
return, in a state where the invariant holds again. -/
theorem run_total {step : ε → σ → Option σ} {I : σ → Prop}
    (hstep : ∀ e s, I s → ∃ t, step e s = some t ∧ I t) (es : List ε) {s : σ} (hs : I s) :
    ∃ t, run step es s = some t ∧ I t := by
  induction es generalizing s with
  | nil => exact ⟨s, rfl, hs⟩
  | cons e es ih =>
      obtain ⟨t, ht, hI⟩ := hstep e s hs
      obtain ⟨u, hu, hI'⟩ := ih hI
      exact ⟨u, by rw [run_cons_of_step ht, hu], hI'⟩

theorem run_preserves {step : ε → σ → Option σ} {I : σ → Prop}
    (hstep : ∀ e s t, I s → step e s = some t → I t) {es : List ε} {s t : σ} (hs : I s)
    (hr : run step es s = some t) : I t := by
  induction es generalizing s with
  | nil => cases hr; exact hs
  | cons e es ih =>
      obtain ⟨u, hu, ht⟩ := run_cons_eq_some.mp hr
      exact ih (hstep e s u hs hu) ht

/-- What the steps of a run put out, one after the other. -/
def outputs {β : Type} (step : ε → σ → Option σ) (out : ε → σ → List β) : List ε → σ → List β
  | [], _ => []
  | e :: es, s => out e s ++ (step e s).elim [] (outputs step out es)

theorem run_fifo {β : Type} {step : ε → σ → Option σ} {arrive serve : ε → σ → List β}
    {I : σ → List β → Prop}
    (hstep : ∀ e s t q, I s q → step e s = some t →
      ∃ q', I t q' ∧ q ++ arrive e s = serve e s ++ q')
    {es : List ε} {s t : σ} {q : List β} (hs : I s q) (h : run step es s = some t) :
    ∃ q', I t q' ∧ q ++ outputs step arrive es s = outputs step serve es s ++ q' := by
  induction es generalizing s q with
  | nil => cases h; exact ⟨q, hs, by simp [outputs]⟩
  | cons e es ih =>
      obtain ⟨u, hu, ht⟩ := run_cons_eq_some.mp h
      obtain ⟨q₁, h₁, he⟩ := hstep e s u q hs hu
      obtain ⟨q', h', he'⟩ := ih h₁ ht
      refine ⟨q', h', ?_⟩
      simp only [outputs, hu, Option.elim_some]
      rw [← List.append_assoc, he, List.append_assoc, he', List.append_assoc]

/-- Every step of the run meets the condition `C`. -/
def Along (step : ε → σ → Option σ) (C : ε → σ → Prop) : List ε → σ → Prop
  | [], _ => True
  | e :: es, s => C e s ∧ ∀ t, step e s = some t → Along step C es t

/-- Every step of the run returns, and `P` holds in every state it passes through. -/
def Throughout (step : ε → σ → Option σ) (P : σ → Prop) : List ε → σ → Prop
  | [], s => P s
  | e :: es, s => P s ∧ ∃ t, step e s = some t ∧ Throughout step P es t

theorem Throughout.first {step : ε → σ → Option σ} {P : σ → Prop} {es : List ε} {s : σ}
    (h : Throughout step P es s) : P s := by
  cases es with
  | nil => exact h
  | cons e es => exact h.1

theorem Throughout.last {step : ε → σ → Option σ} {P : σ → Prop} {es : List ε} {s t : σ}
    (h : Throughout step P es s) (hr : run step es s = some t) : P t := by
  induction es generalizing s with
  | nil => cases hr; exact h
  | cons e es ih =>
      obtain ⟨u, hu, ht⟩ := run_cons_eq_some.mp hr
      obtain ⟨-, v, hv, hT⟩ := h
      cases hu.symm.trans hv
      exact ih hT ht

theorem throughout_of_along {step : ε → σ → Option σ} {C : ε → σ → Prop} {I P : σ → Prop}
    (hIP : ∀ s, I s → P s) (hgood : ∀ e s, I s → C e s → ∃ t, step e s = some t ∧ I t)
    {es : List ε} {s : σ} (hs : I s) (hA : Along step C es s) : Throughout step P es s := by
  induction es generalizing s with
  | nil => exact hIP s hs
  | cons e es ih =>
      obtain ⟨t, ht, hI⟩ := hgood e s hs hA.1
      exact ⟨hIP s hs, t, ht, ih hI (hA.2 t ht)⟩

/-- If moreover any other step from an `I` state ends outside `P`, then a run stays in `P`
exactly when all its steps meet `C`. -/
theorem throughout_iff_along {step : ε → σ → Option σ} {C : ε → σ → Prop} {I P : σ → Prop}
    (hIP : ∀ s, I s → P s) (hgood : ∀ e s, I s → C e s → ∃ t, step e s = some t ∧ I t)
    (hbad : ∀ e s t, I s → ¬ C e s → step e s = some t → ¬ P t) (es : List ε) {s : σ} (hs : I s) :
    Throughout step P es s ↔ Along step C es s := by
  refine ⟨?_, throughout_of_along hIP hgood hs⟩
  intro h
  induction es generalizing s with
  | nil => trivial
  | cons e es ih =>
      obtain ⟨-, t, ht, hT⟩ := h
      have hC : C e s := by
        by_contra hn
        exact hbad e s t hs hn ht hT.first
      obtain ⟨t', ht', hI⟩ := hgood e s hs hC
      cases ht.symm.trans ht'
      exact ⟨hC, fun u hu => by cases ht.symm.trans hu; exact ih hI hT⟩

theorem along_of_invariant {step : ε → σ → Option σ} {P : ε → σ → Prop} {I : σ → Prop}
    (hstep : ∀ e s, I s → P e s ∧ ∀ t, step e s = some t → I t) (es : List ε) {s : σ} (hs : I s) :
    Along step P es s := by
  induction es generalizing s with
  | nil => trivial
  | cons e es ih =>
      obtain ⟨hP, hI⟩ := hstep e s hs
      exact ⟨hP, fun t ht => ih (hI t ht)⟩

theorem along_append {step : ε → σ → Option σ} {C : ε → σ → Prop} (es es' : List ε) (s : σ) :
    Along step C (es ++ es') s ↔ Along step C es s ∧ ∀ t, run step es s = some t → Along step C es' t := by
  induction es generalizing s with
  | nil => simp [Along]
  | cons e es ih =>
      rw [List.cons_append, Along, Along, run_cons, and_assoc]
      apply and_congr_right
      intro hC
      cases step e s with
      | none => simp
      | some u => simpa using ih u

theorem along_snoc {step : ε → σ → Option σ} {C : ε → σ → Prop} (es : List ε) (e : ε) (s : σ) :
    Along step C (es ++ [e]) s ↔ Along step C es s ∧ ∀ t, run step es s = some t → C e t := by
  simp [along_append, Along]

theorem Along.last_step {step : ε → σ → Option σ} {C : ε → σ → Prop} {es : List ε} {e : ε} {s t : σ}
    (h : Along step C (es ++ [e]) s) (hr : run step es s = some t) : C e t :=
  ((along_snoc es e s).mp h).2 t hr

/-- `P` holds in every state that a run passes through when it holds at its start and after each step. -/
theorem prefixes_iff_along {step : ε → σ → Option σ} {P : σ → Prop} (es : List ε) (s : σ) :
    (∀ es' t, es' <+: es → run step es' s = some t → P t) ↔
      P s ∧ Along step (fun e s => ∀ t, step e s = some t → P t) es s := by
  induction es generalizing s with
  | nil =>
      constructor
      · exact fun h => ⟨h [] s (List.prefix_refl _) rfl, trivial⟩
      · rintro ⟨hs, -⟩ es' t hpre hr
        cases List.prefix_nil.mp hpre
        cases hr
        exact hs
  | cons e es ih =>
      constructor
      · intro h
        refine ⟨h [] s List.nil_prefix rfl, ?_, ?_⟩
        · intro t ht
          exact h [e] t ((List.prefix_cons_inj e).mpr List.nil_prefix) (run_cons_of_step ht [])
        · intro t ht
          refine ((ih t).mp ?_).2
          intro es' u hpre hu
          exact h (e :: es') u ((List.prefix_cons_inj e).mpr hpre) ((run_cons_of_step ht es').trans hu)
      · rintro ⟨hs, hstep, hrest⟩ es' t hpre hr
        cases es' with
        | nil =>
            cases hr
            exact hs
        | cons e' es' =>
            obtain ⟨rfl, hpre'⟩ := List.cons_prefix_cons.mp hpre
            obtain ⟨u, hu, ht⟩ := run_cons_eq_some.mp hr
            exact (ih u).mpr ⟨hstep u hu, hrest u hu⟩ es' t hpre' ht

/-- Two conditions agree along a run when they agree on every step from an `I` state, and the
steps that meet them preserve `I`. -/
theorem along_iff_along {step : ε → σ → Option σ} {P C : ε → σ → Prop} {I : σ → Prop}
    (hkeep : ∀ e s t, I s → C e s → step e s = some t → I t) (hPC : ∀ e s, I s → (P e s ↔ C e s))
    (es : List ε) {s : σ} (hs : I s) : Along step P es s ↔ Along step C es s := by
  induction es generalizing s with
  | nil => exact Iff.rfl
  | cons e es ih =>
      rw [Along, Along, hPC e s hs]
      apply and_congr_right
      intro hC
      apply forall_congr'
      intro t
      apply imp_congr_right
      intro ht
      exact ih (hkeep e s t hs hC ht)

/-- When a run returns, and whether a step meets `P` can be told from its event, the run meets `P`
when its events do. -/
theorem along_iff_forall {step : ε → σ → Option σ} {P : ε → σ → Prop} {Q : ε → Prop} {I : σ → Prop}
    (hkeep : ∀ e s t, I s → Q e → step e s = some t → I t)
    (hPQ : ∀ e s t, I s → step e s = some t → (P e s ↔ Q e)) {es : List ε} {s t : σ} (hs : I s)
    (hr : run step es s = some t) : Along step P es s ↔ ∀ e ∈ es, Q e := by
  induction es generalizing s with
  | nil => simp [Along]
  | cons e es ih =>
      obtain ⟨u, hu, ht⟩ := run_cons_eq_some.mp hr
      rw [Along, hPQ e s u hs hu, List.forall_mem_cons]
      apply and_congr_right
      intro hQ
      have hI := hkeep e s u hs hQ hu
      rw [← ih hI ht]
      exact ⟨fun h => h u hu, fun h v hv => by cases hu.symm.trans hv; exact h⟩

instance Along.decidable {step : ε → σ → Option σ} {C : ε → σ → Prop}
    [∀ e s, Decidable (C e s)] : (es : List ε) → (s : σ) → Decidable (Along step C es s)
  | [], _ => .isTrue trivial
  | e :: es, s =>
      match h : step e s with
      | none => decidable_of_iff (C e s) (by simp [Along, h])
      | some t =>
          have : Decidable (Along step C es t) := Along.decidable es t
          decidable_of_iff (C e s ∧ Along step C es t) (by simp [Along, h])

end Orion68.Runs
