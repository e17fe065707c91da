import Orion68.Psu.Pins

namespace Orion68.PsuOff

open Runs Psu Controller PsuSteps PsuPins

/-- All relays are open, power-good is off everywhere, and so is the relay of the sources. -/
structure AllOff (s : Controller) : Prop where
  relayOn : ∀ i, (s.rails i).relayOn = false
  relayPin : ∀ i, (s.rails i).relayPin = LOW
  pwrgPin : ∀ i, (s.rails i).pwrgPin = LOW
  relayPowerOn : s.relayPowerOn = LOW

def OffMeansOff (s : Controller) : Prop := s.outputState = false → AllOff s

def loopStep (e : Iteration) (s : Controller) : Option Controller := some (loop e s)

/-- A request of the CPU that a handler acts upon finds an even number of rails in fault. -/
def EvenFaults (c : Call) (s : Controller) : Prop := Requested c s → Even (faults s)

/-- Neither handler acts upon an odd number of rails in fault. -/
def EvenCuts (e : Iteration) (s : Controller) : Prop :=
  EvenFaults (.handleCpuFeedback e.feedback) (execs e.sensing s) ∧
    EvenFaults (.handleCpuPowerDown e.powerDown) (execs (e.sensing ++ [.handleCpuFeedback e.feedback]) s)

variable {c : Call} {e : Iteration} {s : Controller} {i : Fin 3}

/-- The system is off after a full reset, or it is on and so is the relay of the sources. -/
structure OnOrReset (s : Controller) : Prop where
  pins : AllMatch s
  off : s.outputState = false →
    s.relayPowerOn = LOW ∧ (s.rails 1).status = .PWRDOWN ∧ ∀ i, (s.rails i).relayOn = false
  on : s.outputState = true → s.relayPowerOn = HIGH

theorem OnOrReset.offMeansOff (h : OnOrReset s) : OffMeansOff s := by
  intro ho
  obtain ⟨hp, -, hrelay⟩ := h.off ho
  have hpwrg (i : Fin 3) : (s.rails i).pwrgOn = false := by
    apply Bool.eq_false_of_not_eq_true
    intro hon
    exact Bool.false_ne_true ((hrelay i).symm.trans ((h.pins i).relayOn_of_pwrgOn hon))
  refine ⟨hrelay, ?_, ?_, hp⟩
  · intro i
    apply Bool.eq_false_of_not_eq_true
    rw [(h.pins i).relayPin, hrelay i]
    exact Bool.false_ne_true
  · intro i
    apply Bool.eq_false_of_not_eq_true
    rw [(h.pins i).pwrgPin, hpwrg i]
    exact Bool.false_ne_true

theorem setup_onOrReset (clock : ℕ) : OnOrReset (setup clock) :=
  ⟨setup_allMatch clock, fun _ => ⟨rfl, rfl, fun _ => rfl⟩, fun h => absurd h Bool.false_ne_true⟩

theorem faults_of_open (h : ∀ i, (s.rails i).relayOn = false) : faults s = 0 := by
  apply faults_eq_zero.mpr
  intro i
  rw [inFault, h i, Bool.false_and]

/-- While the system is off, no call but a press changes whether a relay is closed or the status of its rail. -/
theorem exec_rail_off (ho : s.outputState = false) (hp : ¬ Pressed c s) (hf : inFault (s.rails i) = false) :
    ((c.exec s).rails i).relayOn = (s.rails i).relayOn ∧ ((c.exec s).rails i).status = (s.rails i).status := by
  have hstep := exec_rail c s i
  generalize (c.exec s).rails i = r at hstep ⊢
  cases hstep with
  | same => exact ⟨rfl, rfl⟩
  | update v d hc =>
      rw [updateRail, if_pos ho]
      exact ⟨rfl, rfl⟩
  | reset hp' => exact absurd hp' hp
  | cut status hr hf' => exact absurd (hf'.symm.trans hf) (by decide)
  | mark status hp' => exact absurd hp' hp

theorem exec_pressed_onOrReset (h : OnOrReset s) (hp : Pressed c s) : OnOrReset (c.exec s) := by
  have hpins := exec_allMatch c h.pins
  have hstep := exec_pressed hp
  cases ho : s.outputState with
  | true =>
      rw [if_pos ho] at hstep
      obtain ⟨ho', hpower, hrails⟩ := hstep
      refine ⟨hpins, fun _ => ⟨hpower, ?_, ?_⟩, fun hon => absurd (ho'.symm.trans hon) Bool.false_ne_true⟩
      · rw [hrails]
        rfl
      · intro i
        rw [hrails]
        rfl
  | false =>
      rw [if_neg (by rw [ho]; exact Bool.false_ne_true), if_pos (h.off ho).2.1] at hstep
      exact ⟨hpins, fun hoff => absurd (hoff.symm.trans hstep.1) Bool.false_ne_true, fun _ => hstep.2⟩

theorem exec_onOrReset (h : OnOrReset s) (hc : EvenFaults c s) : OnOrReset (c.exec s) := by
  by_cases hp : Pressed c s
  · exact exec_pressed_onOrReset h hp
  have hflag : (c.exec s).outputState = s.outputState ∧ (c.exec s).relayPowerOn = s.relayPowerOn := by
    by_cases hr : Requested c s
    · obtain ⟨-, -, ho, hpower⟩ := exec_requested hr
      rw [iterate_not_even (hc hr)] at ho
      exact ⟨ho, hpower⟩
    · exact exec_quiet hp hr
  refine ⟨exec_allMatch c h.pins, ?_, ?_⟩
  · intro hoff
    have ho : s.outputState = false := hflag.1.symm.trans hoff
    obtain ⟨hpower, hstatus, hopen⟩ := h.off ho
    have hfault (i : Fin 3) : inFault (s.rails i) = false := by
      rw [inFault, hopen i, Bool.false_and]
    have hrail (i : Fin 3) := exec_rail_off ho hp (hfault i)
    refine ⟨hflag.2.trans hpower, (hrail 1).2.trans hstatus, ?_⟩
    intro i
    exact (hrail i).1.trans (hopen i)
  · intro hon
    exact hflag.2.trans (h.on (hflag.1.symm.trans hon))

/-- The system has been switched off by a request: the relay of the sources is still closed. -/
structure OffWithPower (s : Controller) : Prop where
  off : s.outputState = false
  relayPowerOn : s.relayPowerOn = HIGH
  noFault : ∀ i, inFault (s.rails i) = false

theorem OffWithPower.not_offMeansOff (h : OffWithPower s) : ¬ OffMeansOff s := by
  intro hoff
  exact Bool.false_ne_true ((hoff h.off).relayPowerOn.symm.trans h.relayPowerOn)

theorem exec_requested_noFault (hr : Requested c s) (i : Fin 3) : inFault ((c.exec s).rails i) = false := by
  obtain ⟨status, hrails, -⟩ := exec_requested hr
  rw [hrails i]
  by_cases hf : inFault (s.rails i) = true
  · rw [if_pos hf]
    rfl
  · rw [if_neg hf]
    exact Bool.eq_false_of_not_eq_true hf

theorem exec_noFault_off (ho : s.outputState = false) (h : ∀ i, inFault (s.rails i) = false) (i : Fin 3) :
    inFault ((c.exec s).rails i) = false := by
  have hi := h i
  have hstep := exec_rail c s i
  generalize (c.exec s).rails i = r at hstep ⊢
  cases hstep with
  | same => exact hi
  | update v d hc =>
      rw [updateRail, if_pos ho]
      exact hi
  | reset => rfl
  | cut status hr hf => rfl
  | mark status => exact hi

theorem exec_odd (h : OnOrReset s) (hc : ¬ EvenFaults c s) : OffWithPower (c.exec s) := by
  obtain ⟨hr, hodd⟩ := Classical.not_imp.mp hc
  rw [Nat.not_even_iff_odd] at hodd
  have ho : s.outputState = true := by
    apply Bool.eq_true_of_not_eq_false
    intro hoff
    have hzero := faults_of_open (h.off hoff).2.2
    rw [hzero] at hodd
    exact absurd hodd (by decide)
  obtain ⟨-, -, ho', hpower⟩ := exec_requested hr
  rw [iterate_not_odd hodd, ho] at ho'
  exact ⟨ho', hpower.trans (h.on ho), exec_requested_noFault hr⟩

theorem exec_offWithPower (hp : ¬ Pressed c s) (h : OffWithPower s) : OffWithPower (c.exec s) := by
  have hnoFault := exec_noFault_off (c := c) h.off h.noFault
  by_cases hr : Requested c s
  · obtain ⟨-, -, ho, hpower⟩ := exec_requested hr
    rw [faults_eq_zero.mpr h.noFault] at ho
    exact ⟨ho.trans h.off, hpower.trans h.relayPowerOn, hnoFault⟩
  · obtain ⟨ho, hpower⟩ := exec_quiet hp hr
    exact ⟨ho.trans h.off, hpower.trans h.relayPowerOn, hnoFault⟩

theorem sensing_onOrReset (e : Iteration) (h : OnOrReset s) : OnOrReset (execs e.sensing s) := by
  have h₀ := exec_onOrReset (c := .dbounce e.key) h (fun hr => hr.elim)
  have h₁ := exec_onOrReset (c := .updateRail 0 (e.voltage 0) (e.delay 0)) h₀ (fun hr => hr.elim)
  have h₂ := exec_onOrReset (c := .updateRail 1 (e.voltage 1) (e.delay 1)) h₁ (fun hr => hr.elim)
  exact exec_onOrReset (c := .updateRail 2 (e.voltage 2) (e.delay 2)) h₂ (fun hr => hr.elim)

theorem loop_eq (e : Iteration) (s : Controller) :
    loop e s = Call.exec (.updateLcd e.lcdDelay e.lcdFeedback) (Call.exec .updateAnyRelayIndicator
      (Call.exec (.handleCpuPowerDown e.powerDown)
        (execs (e.sensing ++ [.handleCpuFeedback e.feedback]) s))) := by
  rw [loop, Iteration.calls, execs_append, execs_append]
  rfl

theorem loop_onOrReset (h : OnOrReset s) (hc : EvenCuts e s) : OnOrReset (loop e s) := by
  have hs := sensing_onOrReset e h
  have hfb : OnOrReset (execs (e.sensing ++ [.handleCpuFeedback e.feedback]) s) := by
    rw [execs_append]
    exact exec_onOrReset hs hc.1
  rw [loop_eq]
  apply exec_onOrReset
  · apply exec_onOrReset
    · exact exec_onOrReset hfb hc.2
    · exact fun hr => hr.elim
  · exact fun hr => hr.elim

theorem loop_odd (h : OnOrReset s) (hc : ¬ EvenCuts e s) : OffWithPower (loop e s) := by
  have hs := sensing_onOrReset e h
  have hpd : OffWithPower (Call.exec (.handleCpuPowerDown e.powerDown)
      (execs (e.sensing ++ [.handleCpuFeedback e.feedback]) s)) := by
    by_cases hfb : EvenFaults (.handleCpuFeedback e.feedback) (execs e.sensing s)
    · have hpd : ¬ EvenFaults (.handleCpuPowerDown e.powerDown)
          (execs (e.sensing ++ [.handleCpuFeedback e.feedback]) s) := fun h => hc ⟨hfb, h⟩
      apply exec_odd _ hpd
      rw [execs_append]
      exact exec_onOrReset hs hfb
    · have hodd : OffWithPower (execs (e.sensing ++ [.handleCpuFeedback e.feedback]) s) := by
        rw [execs_append]
        exact exec_odd hs hfb
      exact exec_offWithPower (c := .handleCpuPowerDown e.powerDown) not_false hodd
  have hany := exec_offWithPower (c := .updateAnyRelayIndicator) not_false hpd
  rw [loop_eq]
  exact exec_offWithPower (c := .updateLcd e.lcdDelay e.lcdFeedback) not_false hany

theorem run_loopStep (es : List Iteration) (s : Controller) : run loopStep es s = some (execs (program es) s) := by
  induction es generalizing s with
  | nil => rfl
  | cons e es ih =>
      have hprogram : program (e :: es) = e.calls ++ program es := List.flatMap_cons
      rw [run_cons_of_step rfl, ih, hprogram, execs_append]
      rfl

/-- Off means off at the end of every iteration of a run exactly when no handler ever acts upon an
odd number of rails in fault. -/
theorem off_means_off_iff (clock : ℕ) (es : List Iteration) :
    Throughout loopStep OffMeansOff es (setup clock) ↔ Along loopStep EvenCuts es (setup clock) := by
  apply throughout_iff_along (I := OnOrReset) _ _ _ es (setup_onOrReset clock)
  · exact fun s hs => hs.offMeansOff
  · intro e s hs hc
    exact ⟨loop e s, rfl, loop_onOrReset hs hc⟩
  · intro e s t hs hc ht
    cases ht
    exact (loop_odd hs hc).not_offMeansOff

/-- The levels of the key and of the feedback and the voltage of the first rail, `d` milliseconds
after the last iteration; the other rails are as they should be. -/
def reading (key feedback : Bool) (v : ℚ) (d : ℕ) : Iteration where
  key := ⟨key, d, 0⟩
  voltage := ![v, 5, 5]
  delay _ := 0
  feedback := ⟨feedback, 0, 0⟩
  powerDown := ⟨HIGH, 0, 0⟩
  lcdDelay := 0
  lcdFeedback := ⟨feedback, 0, 0⟩

/-- The system is switched on, the first rail fails, and the CPU asks for the cut. -/
def oneFault : List Iteration :=
  [reading LOW HIGH 12 1, reading LOW HIGH 12 100, reading LOW HIGH 12 100, reading LOW LOW 0 1,
    reading LOW LOW 0 100]

theorem one_fault_leaves_relays : ¬ Throughout loopStep OffMeansOff oneFault (setup 0) := by
  intro h
  have hlast := h.last (run_loopStep oneFault (setup 0))
  have hoff : (execs (program oneFault) (setup 0)).outputState = false := by decide +kernel
  have hrelay : ((execs (program oneFault) (setup 0)).rails 1).relayOn = true := by decide +kernel
  exact Bool.false_ne_true (((hlast hoff).relayOn 1).symm.trans hrelay)

end Orion68.PsuOff
