import Mathlib.Tactic.Common

namespace Orion68.Threads

variable {π σ : Type}

/-- Left alone at point `p` with memory `s`, a thread comes to a halted point and leaves
memory `t`. -/
inductive Completes (stmt : π → σ → Option (π × σ)) (halted : π → Bool) : π → σ → σ → Prop
  | done {p : π} {s : σ} : halted p = true → Completes stmt halted p s s
  | next {p q : π} {s t u : σ} : halted p = false → stmt p s = some (q, t) →
      Completes stmt halted q t u → Completes stmt halted p s u

variable {stmt : π → σ → Option (π × σ)} {halted : π → Bool}

theorem Completes.eq_of_halted {p : π} {s t : σ} (h : Completes stmt halted p s t)
    (hp : halted p = true) : t = s := by
  cases h with
  | done => rfl
  | next hn => simp [hp] at hn

theorem Completes.rest {p : π} {s u : σ} (h : Completes stmt halted p s u) (hp : halted p = false) :
    ∃ q t, stmt p s = some (q, t) ∧ Completes stmt halted q t u := by
  cases h with
  | done hd => simp [hp] at hd
  | next _ hs hq => exact ⟨_, _, hs, hq⟩

end Orion68.Threads
