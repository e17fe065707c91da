import Mathlib.Tactic.Linarith
import Orion68.Psu.Steps

namespace Orion68.PsuBlocks

open Psu Controller PsuSteps

variable {r : Rail} {frac v : ℚ} {now : UInt32} {s : Controller} {c : Call} {i : Fin 3}

/-- A voltage of at least 95% of the nominal one. -/
def High (i : Fin 3) (v : ℚ) : Prop := PCT_ON * nominal i ≤ v

theorem nominal_pos (i : Fin 3) : 0 < nominal i := by
  fin_cases i <;> decide

theorem fraction_ge (h : r.nominal = nominal i) : fraction v r ≥ PCT_ON ↔ High i v := by
  have hpos : 0 < r.nominal := h ▸ nominal_pos i
  rw [fraction, if_pos (ne_of_gt hpos), ge_iff_le, le_div_iff₀ hpos, h, High]

theorem off_lt_on (h : frac < PCT_OFF) : ¬ frac ≥ PCT_ON := by
  unfold PCT_ON PCT_OFF at *
  intro hon
  linarith

/-- What `updateRail` makes of a rail while the system is on, whatever the status it gives it. -/
inductive Update (v : ℚ) (now : UInt32) (r : Rail) : Rail → Prop
  | low (st : Status) (ho : r.relayOn = false) (hf : ¬ fraction v r ≥ PCT_ON) :
      Update v now r { r with pendingOn := false, lastVoltage := v, status := st }
  | qualify (st : Status) (ho : r.relayOn = false) (hf : fraction v r ≥ PCT_ON) (hp : r.pendingOn = false) :
      Update v now r { r with pendingOn := true, pendingSince := now, lastVoltage := v, status := st }
  | wait (st : Status) (ho : r.relayOn = false) (hf : fraction v r ≥ PCT_ON) (hp : r.pendingOn = true) :
      Update v now r { r with lastVoltage := v, status := st }
  | close (st : Status) (ho : r.relayOn = false) (hf : fraction v r ≥ PCT_ON) (hp : r.pendingOn = true)
      (ht : now - r.pendingSince ≥ requiredHold r) :
      Update v now r { r with
        relayOn := true
        pwrgOn := true
        relayPin := HIGH
        pwrgPin := HIGH
        pendingOn := false
        pendingOff := false
        hadFault := false
        lastVoltage := v
        status := st }
  | good (st : Status) (ho : r.relayOn = true) (hg : r.pwrgOn = true) (pendingOff : Bool) (since : UInt32) :
      Update v now r { r with pendingOff := pendingOff, pendingSince := since, lastVoltage := v, status := st }
  | drop (st : Status) (ho : r.relayOn = true) (hg : r.pwrgOn = true) (hf : fraction v r < PCT_OFF) :
      Update v now r { r with
        pwrgOn := false
        pwrgPin := LOW
        pendingOff := false
        pendingRecover := false
        lastVoltage := v
        status := st }
  | relapse (st : Status) (ho : r.relayOn = true) (hg : r.pwrgOn = false) (hf : ¬ fraction v r ≥ PCT_ON) :
      Update v now r { r with pendingRecover := false, lastVoltage := v, status := st }
  | recover (st : Status) (ho : r.relayOn = true) (hg : r.pwrgOn = false) (hf : fraction v r ≥ PCT_ON)
      (hp : r.pendingRecover = false) :
      Update v now r { r with pendingRecover := true, pendingRecoverSince := now, lastVoltage := v, status := st }
  | hold (st : Status) (ho : r.relayOn = true) (hg : r.pwrgOn = false) (hf : fraction v r ≥ PCT_ON)
      (hp : r.pendingRecover = true) : Update v now r { r with lastVoltage := v, status := st }
  | restore (st : Status) (ho : r.relayOn = true) (hg : r.pwrgOn = false) (hf : fraction v r ≥ PCT_ON)
      (hp : r.pendingRecover = true) (ht : now - r.pendingRecoverSince ≥ RECOVERY_HOLD_MS) :
      Update v now r { r with
        pwrgOn := true
        pwrgPin := HIGH
        pendingRecover := false
        lastVoltage := v
        status := st }

theorem updateStatus_eq (r : Rail) : ∃ st, updateStatus r = { r with status := st } := by
  unfold updateStatus
  split_ifs
  · exact ⟨_, rfl⟩
  · exact ⟨_, rfl⟩
  · exact ⟨_, rfl⟩
  · exact ⟨r.status, rfl⟩

theorem turnOn_closed (h : r.relayOn = true) : turnOn frac now r = r := by
  simp [turnOn, h]

theorem turnOn_low (h : r.relayOn = false) (hf : ¬ frac ≥ PCT_ON) :
    turnOn frac now r = { r with pendingOn := false } := by
  simp [turnOn, h, hf]

theorem turnOn_qualify (h : r.relayOn = false) (hf : frac ≥ PCT_ON) (hp : ¬ r.pendingOn = true) :
    turnOn frac now r = { r with pendingOn := true, pendingSince := now } := by
  simp [turnOn, h, hf, hp]

theorem turnOn_wait (h : r.relayOn = false) (hf : frac ≥ PCT_ON) (hp : r.pendingOn = true)
    (ht : ¬ now - r.pendingSince ≥ requiredHold r) : turnOn frac now r = r := by
  simp [turnOn, h, hf, hp, ht]

theorem turnOn_close (h : r.relayOn = false) (hf : frac ≥ PCT_ON) (hp : r.pendingOn = true)
    (ht : now - r.pendingSince ≥ requiredHold r) :
    turnOn frac now r = { r with
      relayOn := true
      pwrgOn := true
      relayPin := HIGH
      pwrgPin := HIGH
      pendingOn := false
      hadFault := false } := by
  simp [turnOn, h, hf, hp, ht]

theorem pwrgOff_idle (h : ¬ (r.relayOn = true ∧ r.pwrgOn = true)) : pwrgOff frac now r = r := if_neg h

theorem pwrgOff_high (h : r.relayOn = true) (hg : r.pwrgOn = true) (hf : ¬ frac < PCT_OFF) :
    pwrgOff frac now r = { r with pendingOff := false } := by
  simp [pwrgOff, h, hg, hf]

theorem pwrgOff_low (now : UInt32) (h : r.relayOn = true) (hg : r.pwrgOn = true) (hf : frac < PCT_OFF) :
    (∃ x t, pwrgOff frac now r = { r with pendingOff := x, pendingSince := t }) ∨
      pwrgOff frac now r = { r with pwrgOn := false, pwrgPin := LOW, pendingOff := false } := by
  unfold pwrgOff
  rw [if_pos ⟨h, hg⟩, if_pos hf]
  split_ifs
  · exact .inl ⟨true, now, rfl⟩
  · exact .inr rfl
  · exact .inl ⟨r.pendingOff, r.pendingSince, rfl⟩

theorem recover_idle (h : ¬ (r.relayOn = true ∧ r.pwrgOn = false)) : recover frac now r = r := if_neg h

theorem recover_low (h : r.relayOn = true) (hg : r.pwrgOn = false) (hf : ¬ frac ≥ PCT_ON) :
    recover frac now r = { r with pendingRecover := false } := by
  simp [recover, h, hg, hf]

def blocks (v : ℚ) (now : UInt32) (r : Rail) : Rail :=
  recover (fraction v r) now (pwrgOff (fraction v r) now (turnOn (fraction v r) now { r with lastVoltage := v }))

theorem updateRail_blocks (v : ℚ) (now : UInt32) (r : Rail) :
    ∃ st, updateRail true v now r = { blocks v now r with status := st } := by
  obtain ⟨st, hst⟩ := updateStatus_eq (blocks v now r)
  exact ⟨st, hst⟩

theorem open_blocks (r' : Rail) (h : r'.relayOn = false)
    (hr : turnOn (fraction v r) now { r with lastVoltage := v } = r') : blocks v now r = r' := by
  rw [blocks, hr, pwrgOff_idle (by simp [h]), recover_idle (by simp [h])]

theorem closed_blocks (h : r.relayOn = true) :
    blocks v now r = recover (fraction v r) now (pwrgOff (fraction v r) now { r with lastVoltage := v }) := by
  rw [blocks, turnOn_closed (by exact h)]

theorem fault_blocks (h : r.relayOn = true) (hg : r.pwrgOn = false) :
    blocks v now r = recover (fraction v r) now { r with lastVoltage := v } := by
  rw [closed_blocks h, pwrgOff_idle (by simp [hg])]

theorem close_blocks (h : r.relayOn = false) (hf : fraction v r ≥ PCT_ON) (hp : r.pendingOn = true)
    (ht : now - r.pendingSince ≥ requiredHold r) :
    blocks v now r = { r with
      relayOn := true
      pwrgOn := true
      relayPin := HIGH
      pwrgPin := HIGH
      pendingOn := false
      pendingOff := false
      hadFault := false
      lastVoltage := v } := by
  rw [blocks, turnOn_close (r := { r with lastVoltage := v }) h hf hp ht,
    pwrgOff_high rfl rfl (fun hlt => off_lt_on hlt hf), recover_idle (by simp)]

theorem updateRail_closes (h : r.relayOn = false) (hf : fraction v r ≥ PCT_ON) (hp : r.pendingOn = true)
    (ht : now - r.pendingSince ≥ requiredHold r) : (updateRail true v now r).relayOn = true := by
  obtain ⟨st, hst⟩ := updateRail_blocks v now r
  rw [hst, close_blocks h hf hp ht]

theorem updateRail_open (h : r.relayOn = false) : Update v now r (updateRail true v now r) := by
  obtain ⟨st, hst⟩ := updateRail_blocks v now r
  rw [hst]
  by_cases hf : fraction v r ≥ PCT_ON
  · by_cases hp : r.pendingOn = true
    · by_cases ht : now - r.pendingSince ≥ requiredHold r
      · rw [close_blocks h hf hp ht]
        exact .close st h hf hp ht
      · rw [open_blocks { r with lastVoltage := v } h (turnOn_wait h hf hp ht)]
        exact .wait st h hf hp
    · rw [open_blocks { r with pendingOn := true, pendingSince := now, lastVoltage := v } h
        (turnOn_qualify (r := { r with lastVoltage := v }) h hf hp)]
      exact .qualify st h hf (Bool.eq_false_of_not_eq_true hp)
  · rw [open_blocks { r with pendingOn := false, lastVoltage := v } h
      (turnOn_low (r := { r with lastVoltage := v }) h hf)]
    exact .low st h hf

theorem updateRail_good (h : r.relayOn = true) (hg : r.pwrgOn = true) : Update v now r (updateRail true v now r) := by
  obtain ⟨st, hst⟩ := updateRail_blocks v now r
  rw [hst, closed_blocks h]
  by_cases hf : fraction v r < PCT_OFF
  · rcases pwrgOff_low (r := { r with lastVoltage := v }) now h hg hf with ⟨x, t, hoff⟩ | hoff
    · rw [hoff, recover_idle (by simp [hg])]
      exact .good st h hg x t
    · rw [hoff, recover_low (r := { r with pwrgOn := false, pwrgPin := LOW, pendingOff := false, lastVoltage := v })
        h rfl (off_lt_on hf)]
      exact .drop st h hg hf
  · rw [pwrgOff_high (r := { r with lastVoltage := v }) h hg hf, recover_idle (by simp [hg])]
    exact .good st h hg false r.pendingSince

theorem updateRail_fault (h : r.relayOn = true) (hg : r.pwrgOn = false) : Update v now r (updateRail true v now r) := by
  obtain ⟨st, hst⟩ := updateRail_blocks v now r
  rw [hst, fault_blocks h hg]
  by_cases hf : fraction v r ≥ PCT_ON
  · by_cases hp : r.pendingRecover = true
    · by_cases ht : now - r.pendingRecoverSince ≥ RECOVERY_HOLD_MS
      · have hr : recover (fraction v r) now { r with lastVoltage := v } =
            { r with pwrgOn := true, pwrgPin := HIGH, pendingRecover := false, lastVoltage := v } := by
          simp [recover, h, hg, hf, hp, ht]
        rw [hr]
        exact .restore st h hg hf hp ht
      · have hr : recover (fraction v r) now { r with lastVoltage := v } = { r with lastVoltage := v } := by
          simp [recover, h, hg, hf, hp, ht]
        rw [hr]
        exact .hold st h hg hf hp
    · have hr : recover (fraction v r) now { r with lastVoltage := v } =
          { r with pendingRecover := true, pendingRecoverSince := now, lastVoltage := v } := by
        simp [recover, h, hg, hf, hp]
      rw [hr]
      exact .recover st h hg hf (Bool.eq_false_of_not_eq_true hp)
  · rw [recover_low (r := { r with lastVoltage := v }) h hg hf]
    exact .relapse st h hg hf

theorem updateRail_update (v : ℚ) (now : UInt32) (r : Rail) : Update v now r (updateRail true v now r) := by
  by_cases h : r.relayOn = true
  · by_cases hg : r.pwrgOn = true
    · exact updateRail_good h hg
    · exact updateRail_fault h (Bool.eq_false_of_not_eq_true hg)
  · exact updateRail_open (Bool.eq_false_of_not_eq_true h)

end Orion68.PsuBlocks
