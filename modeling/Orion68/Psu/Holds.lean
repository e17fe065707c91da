import Orion68.Lib.Stretches
import Orion68.Psu.Blocks
import Orion68.Psu.Requests

namespace Orion68.PsuHolds

open Runs Stretches Psu Controller PsuSteps PsuPins PsuOff PsuRequests PsuBlocks

def On (s : Controller) : Prop := s.outputState = true

/-- A sample of the rail `i`, if the call takes one, is at least 95% of the nominal voltage. -/
def HighSample (i : Fin 3) : Call → Prop
  | .updateRail j v _ => j = i → High i v
  | _ => True

/-- The call samples the rail `i` when `millis` gives `since`. -/
def SampledAt (i : Fin 3) (since : UInt32) (c : Call) (s : Controller) : Prop :=
  ∃ v d, c = .updateRail i v d ∧ millis (s.clock + d) = since

/-- The call samples the rail `i` at least `hold` milliseconds before `now`. -/
def SampledBefore (i : Fin 3) (hold now : ℕ) (c : Call) (s : Controller) : Prop :=
  ∃ v d, c = .updateRail i v d ∧ s.clock + d + hold ≤ now

/-- At `now` the system has been on, and every sample of the rail `i` high, for `hold` milliseconds
at least: from some sample of the rail on, with no other call in between that tells otherwise. -/
def HeldFor (i : Fin 3) (hold now : ℕ) (cs : List Call) (clock : ℕ) : Prop :=
  EndsSteady Call.exec On (HighSample i) (SampledBefore i hold now) cs (setup clock)

variable {c : Call} {cs : List Call} {s : Controller} {i : Fin 3} {clock : ℕ}

theorem highSample_of_ne (h : ∀ v d, c ≠ .updateRail i v d) : HighSample i c := by
  cases c with
  | updateRail j v d =>
      rintro rfl
      exact absurd rfl (h v d)
  | dbounce | handleCpuFeedback | handleCpuPowerDown | updateAnyRelayIndicator | updateLcd => trivial

theorem highSample_of_high {v : ℚ} {d : ℕ} (hc : c = .updateRail i v d) (hv : High i v) : HighSample i c := by
  subst hc
  exact fun _ => hv

theorem ne_of_pressed (h : Pressed c s) (v : ℚ) (d : ℕ) : c ≠ .updateRail i v d := by
  rintro rfl
  exact h

theorem exec_snoc (cs : List Call) (c : Call) (s : Controller) : execs (cs ++ [c]) s = c.exec (execs cs s) := by
  rw [execs_append]
  rfl

theorem millis_sub {a b : ℕ} {hold : UInt32} (hab : a ≤ b) (h : millis b - millis a ≥ hold) :
    a + hold.toNat ≤ b := by
  have hle : hold.toNat ≤ (millis b - millis a).toNat := UInt32.le_iff_toNat_le.mp h
  rw [millis, millis, ← UInt32.ofNat_sub hab, UInt32.toNat_ofNat'] at hle
  have hmod := Nat.mod_le (b - a) (2 ^ 32)
  omega

theorem heldFor_of_elapsed {since hold : UInt32} {now : ℕ}
    (h : EndsSteady Call.exec On (HighSample i) (SampledAt i since) cs (setup clock))
    (hnow : (execs cs (setup clock)).clock ≤ now) (ht : millis now - since ≥ hold) :
    HeldFor i hold.toNat now cs clock := by
  apply h.imp
  rintro c mid t ⟨v, d, rfl, rfl⟩ hend
  refine ⟨v, d, rfl, ?_⟩
  apply millis_sub _ ht
  have hclock := execs_clock mid ((Call.updateRail i v d).exec t)
  have hlast : execs mid ((Call.updateRail i v d).exec t) = execs cs (setup clock) := hend
  rw [hlast] at hclock
  exact Nat.le_trans hclock hnow

theorem HeldFor.mono {hold hold' now : ℕ} (h : HeldFor i hold now cs clock) (hle : hold' ≤ hold) :
    HeldFor i hold' now cs clock := by
  apply h.imp
  rintro c mid t ⟨v, d, rfl, hbefore⟩ -
  exact ⟨v, d, rfl, by omega⟩

theorem HeldFor.low_before {hold now d : ℕ} {v : ℚ} {pre post : List Call} (h : HeldFor i hold now cs clock)
    (hcs : cs = pre ++ .updateRail i v d :: post) (hv : ¬ High i v) :
    (execs pre (setup clock)).clock + d + hold ≤ now := by
  obtain ⟨c, mid, w, d', rfl, hle⟩ := h.before_of_not hcs (fun hh => hv (hh rfl))
  have hclock := execs_clock mid ((Call.updateRail i v d).exec (execs pre (setup clock)))
  have hsample : ((Call.updateRail i v d).exec (execs pre (setup clock))).clock =
      (execs pre (setup clock)).clock + d := rfl
  have hmid : execs mid ((Call.updateRail i v d).exec (execs pre (setup clock))) =
      steps Call.exec mid ((Call.updateRail i v d).exec (steps Call.exec pre (setup clock))) := rfl
  rw [← hmid] at hle
  omega

theorem update_nominal {v : ℚ} {now : UInt32} {r r' : Rail} (h : Update v now r r') : r'.nominal = r.nominal := by
  cases h <;> rfl

theorem exec_nominal (c : Call) (s : Controller) (i : Fin 3) : ((c.exec s).rails i).nominal = (s.rails i).nominal := by
  have hstep := exec_rail c s i
  generalize (c.exec s).rails i = r at hstep ⊢
  cases hstep with
  | same | reset | cut | mark => rfl
  | update v d hc =>
      cases ho : s.outputState with
      | false => rfl
      | true => exact update_nominal (updateRail_update v _ (s.rails i))

theorem execs_nominal (cs : List Call) (clock : ℕ) (i : Fin 3) :
    ((execs cs (setup clock)).rails i).nominal = nominal i := by
  induction cs using List.reverseRecOn with
  | nil => rfl
  | append_singleton cs c ih => rw [exec_snoc, exec_nominal, ih]

theorem on_of_inFault (h : NoFaultWhileOff s) (hf : inFault (s.rails i) = true) : s.outputState = true := by
  apply Bool.eq_true_of_not_eq_false
  intro ho
  exact Bool.false_ne_true ((h ho i).symm.trans hf)

theorem noFault_of_open {r : Rail} (h : r.relayOn = false) : ¬ inFault r = true := by
  rw [inFault, h, Bool.false_and]
  decide

theorem noFault_of_pwrgOn {r : Rail} (h : r.pwrgOn = true) : ¬ inFault r = true := by
  rw [inFault, h, Bool.not_true, Bool.and_false]
  decide

/-- A recovery that is pending on a rail in fault is a steady stretch since its sample. -/
def Recovering (i : Fin 3) (clock : ℕ) (cs : List Call) : Prop :=
  inFault ((execs cs (setup clock)).rails i) = true → ((execs cs (setup clock)).rails i).pendingRecover = true →
    EndsSteady Call.exec On (HighSample i)
      (SampledAt i ((execs cs (setup clock)).rails i).pendingRecoverSince) cs (setup clock)

theorem recovering_update {v : ℚ} {now : UInt32} {r r' : Rail} (h : Update v now r r') (hf : inFault r' = true)
    (hp : r'.pendingRecover = true) : fraction v r ≥ PCT_ON ∧ inFault r = true ∧
      (r.pendingRecover = true ∧ r'.pendingRecoverSince = r.pendingRecoverSince ∨
        r'.pendingRecoverSince = now) := by
  cases h with
  | low st ho => exact absurd hf (noFault_of_open ho)
  | qualify st ho => exact absurd hf (noFault_of_open ho)
  | wait st ho => exact absurd hf (noFault_of_open ho)
  | close => exact absurd hf (noFault_of_pwrgOn rfl)
  | good st ho hg => exact absurd hf (noFault_of_pwrgOn hg)
  | drop => exact absurd hp Bool.false_ne_true
  | relapse => exact absurd hp Bool.false_ne_true
  | recover st ho hg hfrac => exact ⟨hfrac, hf, .inr rfl⟩
  | hold st ho hg hfrac hp' => exact ⟨hfrac, hf, .inl ⟨hp', rfl⟩⟩
  | restore => exact absurd hf (noFault_of_pwrgOn rfl)

theorem recovering_snoc (h : Recovering i clock cs) : Recovering i clock (cs ++ [c]) := by
  have hoff := execs_noFaultWhileOff cs (setup_noFaultWhileOff clock)
  have hnom := execs_nominal cs clock i
  rw [Recovering, exec_snoc]
  intro hf hp
  have hon' : On (c.exec (execs cs (setup clock))) := on_of_inFault (exec_noFaultWhileOff hoff) hf
  have hstep := exec_rail c (execs cs (setup clock)) i
  generalize (c.exec (execs cs (setup clock))).rails i = r at hstep hf hp ⊢
  cases hstep with
  | same hc => exact (h hf hp).snoc (highSample_of_ne hc) hon'
  | reset => exact absurd hf (noFault_of_open rfl)
  | cut => exact absurd hf (noFault_of_open rfl)
  | mark status hpress ho => exact absurd ((on_of_inFault hoff hf).symm.trans ho) (by decide)
  | update v d hc =>
      cases ho : (execs cs (setup clock)).outputState with
      | false =>
          rw [ho] at hf
          exact absurd ((on_of_inFault hoff hf).symm.trans ho) (by decide)
      | true =>
          rw [ho] at hf hp
          obtain ⟨hfrac, hf', hcases⟩ := recovering_update (updateRail_update v _ _) hf hp
          have hhigh := highSample_of_high hc ((fraction_ge hnom).mp hfrac)
          rcases hcases with ⟨hp', hsince⟩ | hsince
          · rw [hsince]
            exact (h hf' hp').snoc hhigh hon'
          · rw [hsince]
            exact .last ho hhigh ⟨v, d, hc, rfl⟩ hon'

theorem recovering (i : Fin 3) (clock : ℕ) (cs : List Call) : Recovering i clock cs := by
  induction cs using List.reverseRecOn with
  | nil => exact fun hf => absurd hf Bool.false_ne_true
  | append_singleton cs c ih => exact recovering_snoc ih

theorem restore_update {v : ℚ} {now : UInt32} {r r' : Rail} (h : Update v now r r') (ho : r.relayOn = true)
    (hg : r.pwrgOn = false) (hg' : r'.pwrgOn = true) :
    fraction v r ≥ PCT_ON ∧ r.pendingRecover = true ∧ now - r.pendingRecoverSince ≥ RECOVERY_HOLD_MS := by
  cases h with
  | low st ho' => exact absurd (ho.symm.trans ho') (by decide)
  | qualify st ho' => exact absurd (ho.symm.trans ho') (by decide)
  | wait st ho' => exact absurd (ho.symm.trans ho') (by decide)
  | close st ho' => exact absurd (ho.symm.trans ho') (by decide)
  | good st _ hg'' => exact absurd (hg''.symm.trans hg) (by decide)
  | drop => exact absurd hg' Bool.false_ne_true
  | relapse | recover | hold => exact absurd (hg'.symm.trans hg) (by decide)
  | restore st _ _ hfrac hp ht => exact ⟨hfrac, hp, ht⟩

/-- Whatever calls have come before, a sample that drives the power-good pin of a rail `HIGH` while
its relay is closed ends ten seconds of high samples, and every sample that was not high is as old. -/
theorem recovery_held (clock : ℕ) (cs : List Call) (i : Fin 3) (v : ℚ) (d : ℕ)
    (hclosed : ((execs cs (setup clock)).rails i).relayOn = true)
    (hlow : ((execs cs (setup clock)).rails i).pwrgPin = LOW)
    (hhigh : (((Call.updateRail i v d).exec (execs cs (setup clock))).rails i).pwrgPin = HIGH) :
    High i v ∧ HeldFor i 10000 ((execs cs (setup clock)).clock + d) cs clock ∧
      ∀ pre post w d', cs = pre ++ .updateRail i w d' :: post → ¬ High i w →
        (execs pre (setup clock)).clock + d' + 10000 ≤ (execs cs (setup clock)).clock + d := by
  have hpins := execs_allMatch cs (setup_allMatch clock) i
  have hpins' := exec_allMatch (.updateRail i v d) (execs_allMatch cs (setup_allMatch clock)) i
  have hg : ((execs cs (setup clock)).rails i).pwrgOn = false := by
    apply Bool.eq_false_of_not_eq_true
    rw [← hpins.pwrgPin, hlow]
    exact Bool.false_ne_true
  have hf : inFault ((execs cs (setup clock)).rails i) = true := (inFault_iff _).mpr ⟨hclosed, hg⟩
  have hon := on_of_inFault (execs_noFaultWhileOff cs (setup_noFaultWhileOff clock)) hf
  have hg' := hpins'.pwrgPin.mp hhigh
  have hupdate := updateRail_update v (millis ((execs cs (setup clock)).clock + d)) ((execs cs (setup clock)).rails i)
  have hrail : ((Call.updateRail i v d).exec (execs cs (setup clock))).rails i =
      updateRail true v (millis ((execs cs (setup clock)).clock + d)) ((execs cs (setup clock)).rails i) := by
    rw [← hon]
    exact setRail_self
  rw [hrail] at hg'
  obtain ⟨hfrac, hp, ht⟩ := restore_update hupdate hclosed hg hg'
  have hheld : HeldFor i 10000 ((execs cs (setup clock)).clock + d) cs clock :=
    heldFor_of_elapsed (recovering i clock cs hf hp) (Nat.le_add_right _ _) ht
  refine ⟨(fraction_ge (execs_nominal cs clock i)).mp hfrac, hheld, ?_⟩
  intro pre post w d' hcs hw
  exact hheld.low_before hcs hw

/-- The system is switched on, the first rail fails, and its voltage returns. -/
def oneDip : List Call :=
  program [reading LOW HIGH 12 1, reading LOW HIGH 12 100, reading LOW HIGH 12 100, reading LOW HIGH 0 1,
    reading LOW HIGH 0 100, reading LOW HIGH 12 1]

theorem recovery_held_one_dip :
    High 0 12 ∧ HeldFor 0 10000 ((execs oneDip (setup 0)).clock + 10000) oneDip 0 :=
  have h := recovery_held 0 oneDip 0 12 10000 (by decide +kernel) (by decide +kernel) (by decide +kernel)
  ⟨h.1, h.2.1⟩

end Orion68.PsuHolds
