import Mathlib.Tactic.Common

namespace Orion68.Stretches

variable {σ ε : Type} (step : ε → σ → σ) (P : σ → Prop) (Q : ε → Prop)

def steps (es : List ε) (s : σ) : σ := es.foldl (fun s e => step e s) s

theorem steps_append (es es' : List ε) (s : σ) : steps step (es ++ es') s = steps step es' (steps step es s) :=
  List.foldl_append

/-- All events meet `Q`, and all states that they pass through meet `P`. -/
def Steady : List ε → σ → Prop
  | [], s => P s
  | e :: es, s => P s ∧ Q e ∧ Steady es (step e s)

/-- The run ends in a steady stretch, whose first event and state meet `B`. -/
def EndsSteady (B : ε → σ → Prop) (es : List ε) (s : σ) : Prop :=
  ∃ before e mid, es = before ++ e :: mid ∧ B e (steps step before s) ∧
    Steady step P Q (e :: mid) (steps step before s)

variable {step P Q} {B C : ε → σ → Prop} {es : List ε} {e : ε} {s : σ}

theorem Steady.snoc (h : Steady step P Q es s) (he : Q e) (hP : P (step e (steps step es s))) :
    Steady step P Q (es ++ [e]) s := by
  induction es generalizing s with
  | nil => exact ⟨h, he, hP⟩
  | cons e' es ih => exact ⟨h.1, h.2.1, ih h.2.2 hP⟩

theorem Steady.of_mem (h : Steady step P Q es s) (he : e ∈ es) : Q e := by
  induction es generalizing s with
  | nil => cases he
  | cons e' es ih =>
      rcases List.mem_cons.mp he with rfl | he
      · exact h.2.1
      · exact ih h.2.2 he

theorem Steady.before_last (h : Steady step P Q (es ++ [e]) s) : P (steps step es s) := by
  induction es generalizing s with
  | nil => exact h.1
  | cons e' es ih => exact ih h.2.2

theorem EndsSteady.snoc (h : EndsSteady step P Q B es s) (he : Q e) (hP : P (step e (steps step es s))) :
    EndsSteady step P Q B (es ++ [e]) s := by
  obtain ⟨before, e', mid, rfl, hB, hs⟩ := h
  refine ⟨before, e', mid ++ [e], by simp, hB, ?_⟩
  rw [steps_append] at hP
  exact hs.snoc he hP

theorem EndsSteady.last (hs : P (steps step es s)) (he : Q e) (hB : B e (steps step es s))
    (hP : P (step e (steps step es s))) : EndsSteady step P Q B (es ++ [e]) s :=
  ⟨es, e, [], rfl, hB, hs, he, hP⟩

theorem EndsSteady.before_last (h : EndsSteady step P Q B (es ++ [e]) s) :
    P (steps step es s) ∨ B e (steps step es s) := by
  obtain ⟨before, e', mid, hes, hB, hs⟩ := h
  rcases List.eq_nil_or_concat mid with rfl | ⟨mid, f, rfl⟩
  · obtain ⟨rfl, hlast⟩ := List.append_inj' hes rfl
    cases hlast
    exact .inr hB
  · have hes' : es ++ [e] = (before ++ e' :: mid) ++ [f] := by simpa using hes
    obtain ⟨rfl, -⟩ := List.append_inj' hes' rfl
    have hs' : Steady step P Q ((e' :: mid) ++ [f]) (steps step before s) := by simpa using hs
    rw [steps_append]
    exact .inl hs'.before_last

theorem EndsSteady.imp (h : EndsSteady step P Q B es s)
    (hBC : ∀ e mid t, B e t → steps step (e :: mid) t = steps step es s → C e t) :
    EndsSteady step P Q C es s := by
  obtain ⟨before, e, mid, rfl, hB, hs⟩ := h
  exact ⟨before, e, mid, rfl, hBC e mid _ hB (steps_append step before (e :: mid) s).symm, hs⟩

theorem EndsSteady.before_of_not (h : EndsSteady step P Q B es s) {pre post : List ε} (hes : es = pre ++ e :: post)
    (he : ¬ Q e) : ∃ e' mid, B e' (steps step mid (step e (steps step pre s))) := by
  obtain ⟨before, e', mid, rfl, hB, hs⟩ := h
  rcases List.append_eq_append_iff.mp hes.symm with ⟨as, hbefore, has⟩ | ⟨bs, -, hmid⟩
  · cases as with
    | nil =>
        cases has
        exact absurd hs.2.1 he
    | cons a as =>
        obtain ⟨rfl, -⟩ := List.cons.inj has
        refine ⟨e', as, ?_⟩
        rw [hbefore, steps_append] at hB
        exact hB
  · have hmem : e ∈ e' :: mid := by
      rw [hmid]
      exact List.mem_append_right bs List.mem_cons_self
    exact absurd (hs.of_mem hmem) he

end Orion68.Stretches
