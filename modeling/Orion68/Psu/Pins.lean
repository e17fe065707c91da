import Orion68.Psu.Steps

namespace Orion68.PsuPins

open Psu Controller PsuSteps

/-- The flags and the pins of a rail agree, and power-good is never given with an open relay. -/
structure PinsMatch (r : Rail) : Prop where
  relayOn_of_pwrgOn : r.pwrgOn = true → r.relayOn = true
  relayPin : r.relayPin = HIGH ↔ r.relayOn = true
  pwrgPin : r.pwrgPin = HIGH ↔ r.pwrgOn = true

variable {r : Rail} {s : Controller} {frac v : ℚ} {now : UInt32}

theorem reset_pins (r : Rail) : PinsMatch (resetRailInternalState r) :=
  ⟨fun h => absurd h Bool.false_ne_true, Iff.rfl, Iff.rfl⟩

theorem cut_pins (status : Status) (h : PinsMatch r) (hf : inFault r = true) : PinsMatch (cutRail status r) := by
  obtain ⟨-, hp⟩ : r.relayOn = true ∧ r.pwrgOn = false := by simpa [inFault] using hf
  refine ⟨?_, Iff.rfl, h.pwrgPin⟩
  intro hon
  have hon' : r.pwrgOn = true := hon
  exact absurd (hon'.symm.trans hp) (by decide)

theorem turnOn_pins (frac : ℚ) (now : UInt32) (h : PinsMatch r) : PinsMatch (turnOn frac now r) := by
  unfold turnOn
  split_ifs
  · exact ⟨h.1, h.2, h.3⟩
  · exact ⟨fun _ => rfl, by simp, by simp⟩
  · exact h
  · exact ⟨h.1, h.2, h.3⟩
  · exact h

theorem pwrgOff_pins (frac : ℚ) (now : UInt32) (h : PinsMatch r) : PinsMatch (pwrgOff frac now r) := by
  unfold pwrgOff
  split_ifs
  · exact ⟨h.1, h.2, h.3⟩
  · exact ⟨fun hp => absurd hp Bool.false_ne_true, h.2, by simp⟩
  · exact h
  · exact ⟨h.1, h.2, h.3⟩
  · exact h

theorem recover_pins (frac : ℚ) (now : UInt32) (h : PinsMatch r) : PinsMatch (recover frac now r) := by
  unfold recover
  split_ifs with hr
  · exact ⟨h.1, h.2, h.3⟩
  · exact ⟨fun _ => hr.1, h.2, by simp⟩
  · exact h
  · exact ⟨h.1, h.2, h.3⟩
  · exact h

theorem mark_pins (status : Status) (h : PinsMatch r) : PinsMatch { r with status := status } := ⟨h.1, h.2, h.3⟩

theorem updateStatus_pins (h : PinsMatch r) : PinsMatch (updateStatus r) := by
  unfold updateStatus
  split_ifs
  · exact mark_pins _ h
  · exact mark_pins _ h
  · exact mark_pins _ h
  · exact h

theorem updateRail_pins (outputState : Bool) (v : ℚ) (now : UInt32) (h : PinsMatch r) :
    PinsMatch (updateRail outputState v now r) := by
  have hv : PinsMatch { r with lastVoltage := v } := ⟨h.1, h.2, h.3⟩
  unfold updateRail
  split_ifs
  · exact hv
  · apply updateStatus_pins
    apply recover_pins
    apply pwrgOff_pins
    exact turnOn_pins _ _ hv

def AllMatch (s : Controller) : Prop := ∀ i, PinsMatch (s.rails i)

theorem setup_allMatch (clock : ℕ) : AllMatch (setup clock) := fun _ => ⟨fun h => h, Iff.rfl, Iff.rfl⟩

theorem exec_allMatch (c : Call) (h : AllMatch s) : AllMatch (c.exec s) := by
  intro i
  have hi := h i
  have hstep := exec_rail c s i
  generalize (c.exec s).rails i = r at hstep ⊢
  cases hstep with
  | same => exact hi
  | update v d hc => exact updateRail_pins _ v _ hi
  | reset => exact reset_pins _
  | cut status hr hf => exact cut_pins status hi hf
  | mark status hp => exact mark_pins status hi

theorem resetRail_allMatch (i : Fin 3) (h : AllMatch s) : AllMatch (resetRail i s) := by
  intro j
  by_cases hj : j = i
  · subst j
    rw [resetRail, setRail_self]
    exact reset_pins _
  · rw [resetRail, setRail_of_ne hj]
    exact h j

theorem execs_allMatch (cs : List Call) (h : AllMatch s) : AllMatch (execs cs s) := by
  induction cs generalizing s with
  | nil => exact h
  | cons c cs ih => exact ih (exec_allMatch c h)

/-- The states after each call of `resetRailInternalState` that `dbounce` makes. -/
def resets (e : Reading) (s : Controller) : List Controller :=
  if (readKey e s).2 = true ∧ s.outputState = true then
    resetSteps { (readKey e s).1 with outputState := false }
  else []

/-- The states after each call that a run makes, those inside of `dbounce` included. -/
def trace : List Call → Controller → List Controller
  | [], _ => []
  | c :: cs, s => (match c with | .dbounce e => resets e s | _ => []) ++ c.exec s :: trace cs (c.exec s)

theorem resets_allMatch (e : Reading) (h : AllMatch s) : ∀ t ∈ resets e s, AllMatch t := by
  have h₀ : AllMatch { (readKey e s).1 with outputState := false } := h
  have h₁ := resetRail_allMatch 0 h₀
  have h₂ := resetRail_allMatch 1 h₁
  intro t ht
  unfold resets at ht
  split_ifs at ht with hp
  · rcases List.mem_cons.mp ht with rfl | ht
    · exact h₁
    · rcases List.mem_cons.mp ht with rfl | ht
      · exact h₂
      · rw [List.mem_singleton.mp ht]
        exact resetRail_allMatch 2 h₂
  · cases ht

theorem trace_allMatch (cs : List Call) (h : AllMatch s) : ∀ t ∈ trace cs s, AllMatch t := by
  induction cs generalizing s with
  | nil =>
      intro t ht
      cases ht
  | cons c cs ih =>
      intro t ht
      rcases List.mem_append.mp ht with ht | ht
      · cases c with
        | dbounce e => exact resets_allMatch e h t ht
        | updateRail | handleCpuFeedback | handleCpuPowerDown | updateAnyRelayIndicator | updateLcd => cases ht
      · rcases List.mem_cons.mp ht with rfl | ht
        · exact exec_allMatch c h
        · exact ih (exec_allMatch c h) t ht

/-- Power-good is never signalled for a rail whose relay is open: in every state that a run from
`setup` leaves after a call, the pins of each rail follow its flags. -/
theorem pins_follow_flags (clock : ℕ) (es : List Iteration) :
    ∀ s ∈ trace (program es) (setup clock), ∀ i, PinsMatch (s.rails i) :=
  trace_allMatch (program es) (setup_allMatch clock)

theorem execs_mem_trace {cs : List Call} {k : ℕ} (hk : k < cs.length) (s : Controller) :
    execs (cs.take (k + 1)) s ∈ trace cs s := by
  induction cs generalizing k s with
  | nil => exact absurd hk (Nat.not_lt_zero k)
  | cons c cs ih =>
      refine List.mem_append_right _ (List.mem_cons.mpr ?_)
      cases k with
      | zero => exact .inl rfl
      | succ k => exact .inr (ih (Nat.lt_of_succ_lt_succ hk) (c.exec s))

/-- An iteration with the key up, the first rail at `v`, and the level of CPU_FEEDBACK. -/
def medida (feedback : Bool) (v : ℚ) (d : ℕ) : Iteration :=
  ⟨⟨LOW, d, 0⟩, ![v, 5, 5], fun _ => 0, ⟨feedback, 0, 0⟩, ⟨HIGH, 0, 0⟩, 0, ⟨HIGH, 0, 0⟩⟩

/-- The first rail qualifies, is switched on, fails, and is cut. -/
def ligaECorta : List Iteration :=
  [medida HIGH 12 1, medida HIGH 12 100, medida HIGH 12 100, medida LOW 0 1, medida LOW 0 100]

theorem pins_follow_flags_cut : ∃ ligado cortado,
    ligado ∈ trace (program ligaECorta) (setup 0) ∧ cortado ∈ trace (program ligaECorta) (setup 0) ∧
      (ligado.rails 0).pwrgOn = true ∧ PinsMatch (ligado.rails 0) ∧
      (cortado.rails 0).relayOn = false ∧ (cortado.rails 0).hadFault = true ∧ PinsMatch (cortado.rails 0) := by
  have hon := execs_mem_trace (show 23 < (program ligaECorta).length by decide +kernel) (setup 0)
  have hcut := execs_mem_trace (show 39 < (program ligaECorta).length by decide +kernel) (setup 0)
  exact ⟨_, _, hon, hcut, by decide +kernel, pins_follow_flags 0 ligaECorta _ hon 0, by decide +kernel,
    by decide +kernel, pins_follow_flags 0 ligaECorta _ hcut 0⟩

end Orion68.PsuPins
