import Mathlib.Algebra.Ring.Parity
import Mathlib.Data.Fintype.Basic
import Mathlib.Tactic.FinCases
import Orion68.Psu.Controller

namespace Orion68.PsuSteps

open Runs Psu Controller

def faults (s : Controller) : ℕ := (List.finRange 3).countP fun i => inFault (s.rails i)

variable {c : Call} {s s' : Controller} {i j : Fin 3} {r : Rail} {status : Status}

@[simp] theorem setRail_self : (s.setRail i r).rails i = r := by
  simp [setRail]

@[simp] theorem setRail_of_ne (h : j ≠ i) : (s.setRail i r).rails j = s.rails j := by
  simp [setRail, h]

@[simp] theorem setRail_outputState : (s.setRail i r).outputState = s.outputState := rfl

@[simp] theorem setRail_relayPowerOn : (s.setRail i r).relayPowerOn = s.relayPowerOn := rfl

theorem iterate_not_even {n : ℕ} (h : Even n) (b : Bool) : not^[n] b = b := by
  rw [Bool.involutive_not.iterate_even h, id]

theorem iterate_not_odd {n : ℕ} (h : Odd n) (b : Bool) : not^[n] b = !b := by
  rw [Bool.involutive_not.iterate_odd h]

theorem cutIfInFault_of_inFault (h : inFault (s.rails j) = true) :
    cutIfInFault status s j = { s.setRail j (cutRail status (s.rails j)) with outputState := !s.outputState } :=
  if_pos h

theorem cutIfInFault_of_not (h : ¬ inFault (s.rails j) = true) : cutIfInFault status s j = s := if_neg h

theorem cutIfInFault_rails_of_ne (h : i ≠ j) : (cutIfInFault status s j).rails i = s.rails i := by
  by_cases hf : inFault (s.rails j) = true
  · rw [cutIfInFault_of_inFault hf]
    exact setRail_of_ne h
  · rw [cutIfInFault_of_not hf]

theorem foldl_cutIfInFault (status : Status) {is : List (Fin 3)} (hnd : is.Nodup) (s : Controller) :
    is.foldl (cutIfInFault status) s =
      { s with
        rails := fun i => if i ∈ is ∧ inFault (s.rails i) = true then cutRail status (s.rails i) else s.rails i
        outputState := not^[is.countP fun i => inFault (s.rails i)] s.outputState } := by
  induction is generalizing s with
  | nil => simp
  | cons j is ih =>
      obtain ⟨hj, hnd⟩ := List.nodup_cons.mp hnd
      have hcount : (is.countP fun i => inFault ((cutIfInFault status s j).rails i)) =
          is.countP fun i => inFault (s.rails i) := by
        apply List.countP_congr
        intro i hi
        rw [cutIfInFault_rails_of_ne (ne_of_mem_of_not_mem hi hj)]
      rw [List.foldl_cons, ih hnd, hcount]
      by_cases hf : inFault (s.rails j) = true
      · have hcons : ((j :: is).countP fun i => inFault (s.rails i)) = (is.countP fun i => inFault (s.rails i)) + 1 :=
          List.countP_cons_of_pos hf
        rw [hcons, Function.iterate_succ_apply, cutIfInFault_of_inFault hf]
        congr 1
        funext i
        by_cases hi : i = j
        · subst i
          rw [if_neg (fun h => hj h.1), if_pos ⟨List.mem_cons_self, hf⟩]
          exact setRail_self
        · have hsame := setRail_of_ne (s := s) (r := cutRail status (s.rails j)) hi
          simp only [hsame, List.mem_cons, hi, false_or]
      · have hcons : ((j :: is).countP fun i => inFault (s.rails i)) = is.countP fun i => inFault (s.rails i) :=
          List.countP_cons_of_neg hf
        rw [hcons, cutIfInFault_of_not hf]
        congr 1
        funext i
        by_cases hi : i = j
        · subst i
          rw [if_neg (fun h => hf h.2), if_neg (fun h => hf h.2)]
        · simp only [List.mem_cons, hi, false_or]

theorem cutRails_eq (status : Status) (s : Controller) :
    cutRails status s =
      { s with
        rails := fun i => if inFault (s.rails i) = true then cutRail status (s.rails i) else s.rails i
        outputState := not^[faults s] s.outputState } := by
  have hall : ∀ i : Fin 3, i ∈ [0, 1, 2] := by decide
  rw [cutRails, foldl_cutIfInFault status (by decide)]
  simp only [hall, true_and]
  rfl

theorem cutRails_rails (status : Status) (s : Controller) (i : Fin 3) :
    (cutRails status s).rails i = if inFault (s.rails i) = true then cutRail status (s.rails i) else s.rails i := by
  rw [cutRails_eq]

theorem cutRails_outputState (status : Status) (s : Controller) :
    (cutRails status s).outputState = not^[faults s] s.outputState := by
  rw [cutRails_eq]

theorem cutRails_relayPowerOn (status : Status) (s : Controller) :
    (cutRails status s).relayPowerOn = s.relayPowerOn := by
  rw [cutRails_eq]

@[simp] theorem resetRail_outputState : (resetRail i s).outputState = s.outputState := rfl

theorem resetRail_rails (i : Fin 3) (s : Controller) :
    (resetRail i s).rails = Function.update s.rails i (resetRailInternalState (s.rails i)) := rfl

theorem resetRails_rails (s : Controller) (i : Fin 3) :
    (resetRails s).rails i = resetRailInternalState (s.rails i) := by
  fin_cases i <;> simp [resetRails, resetRail_rails]

/-- A call of `dbounce` that takes the key as pressed. -/
def Pressed : Call → Controller → Prop
  | .dbounce e, s => (readKey e s).2 = true
  | _, _ => False

def Requested : Call → Controller → Prop
  | .handleCpuFeedback e, s => (readCpuFeedbackFiltered e s).cpuFb.stableState = LOW
  | .handleCpuPowerDown e, s => (readCpuPowerDownFiltered e s).cpuPD.stableState = LOW
  | _, _ => False

inductive RailStep (c : Call) (s : Controller) (i : Fin 3) : Rail → Prop
  | same (hc : ∀ v d, c ≠ .updateRail i v d) : RailStep c s i (s.rails i)
  | update (v : ℚ) (d : ℕ) (hc : c = .updateRail i v d) :
      RailStep c s i (updateRail s.outputState v (millis (s.clock + d)) (s.rails i))
  | reset (hp : Pressed c s) (ho : s.outputState = true) : RailStep c s i (resetRailInternalState (s.rails i))
  | cut (status : Status) (hr : Requested c s) (hf : inFault (s.rails i) = true) :
      RailStep c s i (cutRail status (s.rails i))
  | mark (status : Status) (hp : Pressed c s) (ho : s.outputState = false) :
      RailStep c s i { s.rails i with status := status }

theorem cutRails_step (status : Status) (hr : Requested c s) (h : s'.rails = s.rails) :
    RailStep c s i ((cutRails status s').rails i) := by
  rw [cutRails_rails, h]
  by_cases hf : inFault (s.rails i) = true
  · rw [if_pos hf]
    exact .cut status hr hf
  · rw [if_neg hf]
    apply RailStep.same
    rintro v d rfl
    exact hr

theorem toggle_on (hs : s.outputState = true) :
    toggle s = { resetRails { s with outputState := false } with relayPowerOn := LOW } := by
  simp [toggle, hs, resetRails]

theorem toggle_off (hs : s.outputState = false) :
    toggle s = if (s.rails 1).status = .PWRDOWN then
      { setRail 1 { s.rails 1 with status := .PWRUP } { s with outputState := true } with relayPowerOn := HIGH }
      else { s with outputState := true } := by
  simp [toggle, hs]

theorem toggle_clock (s : Controller) : (toggle s).clock = s.clock := by
  cases hs : s.outputState with
  | true =>
      rw [toggle_on hs]
      rfl
  | false =>
      rw [toggle_off hs]
      split <;> rfl

theorem toggle_step (hp : Pressed c s) (ho : s'.outputState = s.outputState) (h : s'.rails = s.rails) :
    RailStep c s i ((toggle s').rails i) := by
  have hc : ∀ v d, c ≠ .updateRail i v d := by
    rintro v d rfl
    exact hp
  cases hs : s'.outputState with
  | true =>
      rw [toggle_on hs]
      have hr := resetRails_rails { s' with outputState := false } i
      rw [hr, h]
      exact .reset hp (ho ▸ hs)
  | false =>
      rw [toggle_off hs]
      by_cases hd : (s'.rails 1).status = .PWRDOWN
      · rw [if_pos hd]
        by_cases hi : i = 1
        · subst i
          rw [setRail_self, h]
          exact .mark .PWRUP hp (ho ▸ hs)
        · rw [setRail_of_ne hi, h]
          exact .same hc
      · rw [if_neg hd, h]
        exact .same hc

theorem exec_rail (c : Call) (s : Controller) (i : Fin 3) : RailStep c s i ((c.exec s).rails i) := by
  cases c with
  | dbounce e =>
      by_cases hp : (readKey e s).2 = true
      · have he : (Call.dbounce e).exec s = toggle (readKey e s).1 := if_pos hp
        rw [he]
        exact toggle_step hp rfl rfl
      · have he : (Call.dbounce e).exec s = (readKey e s).1 := if_neg hp
        rw [he]
        exact .same nofun
  | updateRail j v d =>
      by_cases hj : i = j
      · subst j
        have he : ((Call.updateRail i v d).exec s).rails i =
            updateRail s.outputState v (millis (s.clock + d)) (s.rails i) := setRail_self
        rw [he]
        exact .update v d rfl
      · have he : ((Call.updateRail j v d).exec s).rails i = s.rails i := setRail_of_ne hj
        rw [he]
        apply RailStep.same
        rintro w d' ⟨⟩
        exact hj rfl
  | handleCpuFeedback e =>
      by_cases hl : (readCpuFeedbackFiltered e s).cpuFb.stableState = LOW
      · have he : (Call.handleCpuFeedback e).exec s = cutRails .PWRFAIL (readCpuFeedbackFiltered e s) := if_pos hl
        rw [he]
        exact cutRails_step .PWRFAIL hl rfl
      · have he : (Call.handleCpuFeedback e).exec s = readCpuFeedbackFiltered e s := if_neg hl
        rw [he]
        exact .same nofun
  | handleCpuPowerDown e =>
      by_cases hl : (readCpuPowerDownFiltered e s).cpuPD.stableState = LOW
      · have he : (Call.handleCpuPowerDown e).exec s = cutRails .PWRDOWN (readCpuPowerDownFiltered e s) := if_pos hl
        rw [he]
        exact cutRails_step .PWRDOWN hl rfl
      · have he : (Call.handleCpuPowerDown e).exec s = readCpuPowerDownFiltered e s := if_neg hl
        rw [he]
        exact .same nofun
  | updateAnyRelayIndicator => exact .same nofun
  | updateLcd d e =>
      have he : ((Call.updateLcd d e).exec s).rails = s.rails := by
        simp only [Call.exec, updateLcd]
        split <;> rfl
      rw [he]
      exact .same nofun

/-- A press switches the system on or off: on, it closes the relay of the sources when the second
rail is down; off, it resets the rails and opens it. -/
theorem exec_pressed (h : Pressed c s) :
    if s.outputState = true then
      (c.exec s).outputState = false ∧ (c.exec s).relayPowerOn = LOW ∧
        ∀ i, (c.exec s).rails i = resetRailInternalState (s.rails i)
    else
      (c.exec s).outputState = true ∧
        (c.exec s).relayPowerOn = if (s.rails 1).status = .PWRDOWN then HIGH else s.relayPowerOn := by
  cases c with
  | updateRail | handleCpuFeedback | handleCpuPowerDown | updateAnyRelayIndicator | updateLcd => exact h.elim
  | dbounce e =>
      have he : (Call.dbounce e).exec s = toggle (readKey e s).1 := if_pos h
      rw [he]
      cases hs : s.outputState with
      | true =>
          have hs' : (readKey e s).1.outputState = true := hs
          rw [if_pos rfl, toggle_on hs']
          exact ⟨rfl, rfl, resetRails_rails _⟩
      | false =>
          have hs' : (readKey e s).1.outputState = false := hs
          rw [if_neg (by decide), toggle_off hs']
          by_cases hd : (s.rails 1).status = .PWRDOWN
          · have hd' : ((readKey e s).1.rails 1).status = .PWRDOWN := hd
            rw [if_pos hd', if_pos hd]
            exact ⟨rfl, rfl⟩
          · have hd' : ¬ ((readKey e s).1.rails 1).status = .PWRDOWN := hd
            rw [if_neg hd', if_neg hd]
            exact ⟨rfl, rfl⟩

theorem exec_requested (h : Requested c s) :
    ∃ status, (∀ i, (c.exec s).rails i =
        if inFault (s.rails i) = true then cutRail status (s.rails i) else s.rails i) ∧
      (c.exec s).outputState = not^[faults s] s.outputState ∧ (c.exec s).relayPowerOn = s.relayPowerOn := by
  cases c with
  | updateRail | dbounce | updateAnyRelayIndicator | updateLcd => exact h.elim
  | handleCpuFeedback e =>
      have he : (Call.handleCpuFeedback e).exec s = cutRails .PWRFAIL (readCpuFeedbackFiltered e s) := if_pos h
      rw [he]
      exact ⟨.PWRFAIL, cutRails_rails _ _, cutRails_outputState _ _, cutRails_relayPowerOn _ _⟩
  | handleCpuPowerDown e =>
      have he : (Call.handleCpuPowerDown e).exec s = cutRails .PWRDOWN (readCpuPowerDownFiltered e s) := if_pos h
      rw [he]
      exact ⟨.PWRDOWN, cutRails_rails _ _, cutRails_outputState _ _, cutRails_relayPowerOn _ _⟩

theorem exec_quiet (hp : ¬ Pressed c s) (hr : ¬ Requested c s) :
    (c.exec s).outputState = s.outputState ∧ (c.exec s).relayPowerOn = s.relayPowerOn := by
  cases c with
  | dbounce e =>
      have he : (Call.dbounce e).exec s = (readKey e s).1 := if_neg hp
      rw [he]
      exact ⟨rfl, rfl⟩
  | updateRail | updateAnyRelayIndicator => exact ⟨rfl, rfl⟩
  | handleCpuFeedback e =>
      have he : (Call.handleCpuFeedback e).exec s = readCpuFeedbackFiltered e s := if_neg hr
      rw [he]
      exact ⟨rfl, rfl⟩
  | handleCpuPowerDown e =>
      have he : (Call.handleCpuPowerDown e).exec s = readCpuPowerDownFiltered e s := if_neg hr
      rw [he]
      exact ⟨rfl, rfl⟩
  | updateLcd d e =>
      simp only [Call.exec, updateLcd]
      split <;> exact ⟨rfl, rfl⟩

theorem cutRails_clock (status : Status) (s : Controller) : (cutRails status s).clock = s.clock := by
  rw [cutRails_eq]

theorem dbounce_clock (e : Reading) (s : Controller) : (dbounce e s).clock = s.clock + e.d₀ + e.d₁ := by
  rw [dbounce]
  split
  · rw [toggle_clock]
    rfl
  · rfl

theorem handleCpuFeedback_clock (e : Reading) (s : Controller) :
    (handleCpuFeedback e s).clock = s.clock + e.d₀ + e.d₁ := by
  rw [handleCpuFeedback]
  split
  · rw [cutRails_clock]
    rfl
  · rfl

theorem handleCpuPowerDown_clock (e : Reading) (s : Controller) :
    (handleCpuPowerDown e s).clock = s.clock + e.d₀ + e.d₁ := by
  rw [handleCpuPowerDown]
  split
  · rw [cutRails_clock]
    rfl
  · rfl

theorem updateLcd_clock (d : ℕ) (e : Reading) (s : Controller) : (updateLcd d e s).clock =
    if millis (s.clock + d) - s.lastLcdUpdate ≥ LCD_UPDATE_MS then s.clock + d + e.d₀ + e.d₁ else s.clock + d := by
  rw [updateLcd]
  dsimp only
  split <;> rfl

theorem exec_clock (c : Call) (s : Controller) : s.clock ≤ (c.exec s).clock := by
  cases c with
  | dbounce e =>
      rw [Call.exec, dbounce_clock]
      omega
  | updateRail i v d => exact Nat.le_add_right _ _
  | handleCpuFeedback e =>
      rw [Call.exec, handleCpuFeedback_clock]
      omega
  | handleCpuPowerDown e =>
      rw [Call.exec, handleCpuPowerDown_clock]
      omega
  | updateAnyRelayIndicator => exact Nat.le_refl _
  | updateLcd d e =>
      rw [Call.exec, updateLcd_clock]
      split <;> omega

theorem execs_append (cs cs' : List Call) (s : Controller) : execs (cs ++ cs') s = execs cs' (execs cs s) :=
  List.foldl_append

theorem execs_clock (cs : List Call) (s : Controller) : s.clock ≤ (execs cs s).clock := by
  induction cs generalizing s with
  | nil => exact Nat.le_refl _
  | cons c cs ih => exact Nat.le_trans (exec_clock c s) (ih (c.exec s))

theorem faults_eq_zero : faults s = 0 ↔ ∀ i, inFault (s.rails i) = false := by
  simp [faults, List.countP_eq_zero, Fin.forall_fin_succ]

theorem faults_le : faults s ≤ 3 := List.countP_le_length

end Orion68.PsuSteps
