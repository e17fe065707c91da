import Orion68.Psu.Off

namespace Orion68.PsuRequests

open Psu Controller PsuSteps PsuOff

/-- What a request of the CPU should do: cut every rail in fault, never switch the system on, and
switch it off when a rail has been cut. -/
structure Obeyed (s t : Controller) : Prop where
  noFault : ∀ i, ¬ ((t.rails i).relayOn = true ∧ (t.rails i).pwrgOn = false)
  notOn : s.outputState = false → t.outputState = false
  offIfCut : (∃ i, (s.rails i).relayOn = true ∧ (t.rails i).relayOn = false) → t.outputState = false

variable {c : Call} {s : Controller}

def NoFaultWhileOff (s : Controller) : Prop := s.outputState = false → ∀ i, inFault (s.rails i) = false

theorem exec_noFaultWhileOff (h : NoFaultWhileOff s) : NoFaultWhileOff (c.exec s) := by
  intro hoff
  by_cases ho : s.outputState = false
  · exact exec_noFault_off ho (h ho)
  have hon : s.outputState = true := Bool.eq_true_of_not_eq_false ho
  by_cases hp : Pressed c s
  · have hstep := exec_pressed hp
    rw [if_pos hon] at hstep
    intro i
    rw [hstep.2.2 i]
    rfl
  · by_cases hr : Requested c s
    · exact exec_requested_noFault hr
    · exact absurd ((exec_quiet hp hr).1.symm.trans hoff) ho

theorem execs_noFaultWhileOff (cs : List Call) (h : NoFaultWhileOff s) : NoFaultWhileOff (execs cs s) := by
  induction cs generalizing s with
  | nil => exact h
  | cons c cs ih => exact ih (exec_noFaultWhileOff h)

theorem setup_noFaultWhileOff (clock : ℕ) : NoFaultWhileOff (setup clock) := fun _ _ => rfl

theorem inFault_iff (r : Rail) : inFault r = true ↔ r.relayOn = true ∧ r.pwrgOn = false := by
  rw [inFault, Bool.and_eq_true, Bool.not_eq_true']

theorem exec_cut (hr : Requested c s) {i : Fin 3} (hf : inFault (s.rails i) = true) :
    (s.rails i).relayOn = true ∧ ((c.exec s).rails i).relayOn = false := by
  obtain ⟨status, hrails, -⟩ := exec_requested hr
  rw [hrails i, if_pos hf]
  exact ⟨((inFault_iff _).mp hf).1, rfl⟩

theorem exec_uncut (hr : Requested c s) (hf : ∀ i, inFault (s.rails i) = false) (i : Fin 3) :
    (c.exec s).rails i = s.rails i := by
  obtain ⟨status, hrails, -⟩ := exec_requested hr
  rw [hrails i, if_neg (by rw [hf i]; exact Bool.false_ne_true)]

theorem obeyed_iff_of_noFaultWhileOff (h : NoFaultWhileOff s) (hr : Requested c s) :
    Obeyed s (c.exec s) ↔ faults s ≠ 2 := by
  obtain ⟨-, -, ho, -⟩ := exec_requested hr
  constructor
  · intro hob htwo
    obtain ⟨i, hi⟩ : ∃ i, inFault (s.rails i) = true := by
      by_contra hn
      have hzero := faults_eq_zero.mpr fun i => Bool.eq_false_of_not_eq_true fun hi => hn ⟨i, hi⟩
      omega
    have hon : s.outputState = true := by
      apply Bool.eq_true_of_not_eq_false
      intro hoff
      exact Bool.false_ne_true ((h hoff i).symm.trans hi)
    have hoff := hob.offIfCut ⟨i, exec_cut hr hi⟩
    rw [ho, htwo, iterate_not_even (by decide)] at hoff
    exact Bool.false_ne_true (hoff.symm.trans hon)
  · intro hne
    have hfault : ∀ i, ¬ (((c.exec s).rails i).relayOn = true ∧ ((c.exec s).rails i).pwrgOn = false) := by
      intro i hi
      exact Bool.false_ne_true ((exec_requested_noFault hr i).symm.trans ((inFault_iff _).mpr hi))
    by_cases hzero : faults s = 0
    · rw [hzero] at ho
      have hsame := exec_uncut hr (faults_eq_zero.mp hzero)
      refine ⟨hfault, fun hoff => ho.trans hoff, ?_⟩
      rintro ⟨i, hclosed, hopen⟩
      rw [hsame i, hclosed] at hopen
      cases hopen
    · have hodd : Odd (faults s) := by
        have hle := faults_le (s := s)
        obtain h | h : faults s = 1 ∨ faults s = 3 := by omega
        · rw [h]; decide
        · rw [h]; decide
      have hon : s.outputState = true := by
        apply Bool.eq_true_of_not_eq_false
        intro hoff
        exact hzero (faults_eq_zero.mpr (h hoff))
      have hoff : (c.exec s).outputState = false := by
        rw [ho, iterate_not_odd hodd, hon]
        rfl
      exact ⟨hfault, fun _ => hoff, fun _ => hoff⟩

/-- Whatever calls have come before, from `setup` on. -/
theorem obeyed_iff (clock : ℕ) (cs : List Call) (c : Call) (hr : Requested c (execs cs (setup clock))) :
    Obeyed (execs cs (setup clock)) (c.exec (execs cs (setup clock))) ↔ faults (execs cs (setup clock)) ≠ 2 :=
  obeyed_iff_of_noFaultWhileOff (execs_noFaultWhileOff cs (setup_noFaultWhileOff clock)) hr

/-- The calls of a run up to the request of the CPU; `v` is what has become of the voltages. -/
def untilRequest (v : Fin 3 → ℚ) : List Call :=
  program [reading LOW HIGH 12 1, reading LOW HIGH 12 100, reading LOW HIGH 12 100,
    { reading LOW LOW 12 1 with voltage := v }] ++ Iteration.sensing { reading LOW LOW 12 100 with voltage := v }

theorem feedback_requested (v : Fin 3 → ℚ)
    (h : (readCpuFeedbackFiltered ⟨LOW, 0, 0⟩ (execs (untilRequest v) (setup 0))).cpuFb.stableState = LOW) :
    Requested (.handleCpuFeedback ⟨LOW, 0, 0⟩) (execs (untilRequest v) (setup 0)) := h

theorem one_fault_obeyed : Obeyed (execs (untilRequest ![0, 5, 5]) (setup 0))
    ((Call.handleCpuFeedback ⟨LOW, 0, 0⟩).exec (execs (untilRequest ![0, 5, 5]) (setup 0))) :=
  (obeyed_iff 0 (untilRequest ![0, 5, 5]) _ (feedback_requested _ (by decide +kernel))).mpr (by decide +kernel)

theorem two_faults_stay_on :
    Requested (.handleCpuFeedback ⟨LOW, 0, 0⟩) (execs (untilRequest ![0, 0, 5]) (setup 0)) ∧
    ¬ Obeyed (execs (untilRequest ![0, 0, 5]) (setup 0))
      ((Call.handleCpuFeedback ⟨LOW, 0, 0⟩).exec (execs (untilRequest ![0, 0, 5]) (setup 0))) := by
  refine ⟨feedback_requested _ (by decide +kernel), ?_⟩
  intro h
  have hon : ((Call.handleCpuFeedback ⟨LOW, 0, 0⟩).exec
      (execs (untilRequest ![0, 0, 5]) (setup 0))).outputState = true := by decide +kernel
  have hclosed : ((execs (untilRequest ![0, 0, 5]) (setup 0)).rails 0).relayOn = true := by decide +kernel
  have hopen : (((Call.handleCpuFeedback ⟨LOW, 0, 0⟩).exec
      (execs (untilRequest ![0, 0, 5]) (setup 0))).rails 0).relayOn = false := by decide +kernel
  exact Bool.false_ne_true ((h.offIfCut ⟨0, hclosed, hopen⟩).symm.trans hon)

end Orion68.PsuRequests
