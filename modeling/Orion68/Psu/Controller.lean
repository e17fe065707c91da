import Mathlib.Algebra.Order.Field.Rat
import Mathlib.Data.Fin.VecNotation
import Orion68.Lib.Runs

namespace Orion68.Psu

abbrev HIGH : Bool := true

abbrev LOW : Bool := false

inductive Status
  | PWRUP
  | PWRFAIL
  | PWRDOWN
  deriving DecidableEq

def PCT_ON : ℚ := 95 / 100

def PCT_OFF : ℚ := 90 / 100

def QUALIFY_MS : UInt32 := 100

def RECOVERY_HOLD_MS : UInt32 := 10000

def LCD_UPDATE_MS : UInt32 := 500

def DEBOUNCE_MS : UInt32 := 100

def CPU_FEEDBACK_DEBOUNCE_MS : UInt32 := 30

def CPU_POWERDOWN_DEBOUNCE_MS : UInt32 := 30

/-- A rail with the levels of its two pins. -/
structure Rail where
  nominal : ℚ
  relayOn : Bool := false
  pwrgOn : Bool := false
  pendingOn : Bool := false
  pendingOff : Bool := false
  pendingSince : UInt32 := 0
  pendingRecover : Bool := false
  pendingRecoverSince : UInt32 := 0
  hadFault : Bool := false
  lastVoltage : ℚ := 0
  status : Status := .PWRDOWN
  relayPin : Bool := LOW
  pwrgPin : Bool := LOW

section Rails

def resetRailInternalState (r : Rail) : Rail :=
  { r with
    relayOn := false
    pwrgOn := false
    pendingOn := false
    pendingOff := false
    pendingRecover := false
    hadFault := false
    status := .PWRDOWN
    relayPin := LOW
    pwrgPin := LOW }

def requiredHold (r : Rail) : UInt32 := if r.hadFault then RECOVERY_HOLD_MS else QUALIFY_MS

def turnOn (frac : ℚ) (now : UInt32) (r : Rail) : Rail :=
  if r.relayOn = false then
    if frac ≥ PCT_ON then
      if r.pendingOn = false then { r with pendingOn := true, pendingSince := now }
      else if now - r.pendingSince ≥ requiredHold r then
        { r with
          relayOn := true
          pwrgOn := true
          relayPin := HIGH
          pwrgPin := HIGH
          pendingOn := false
          hadFault := false }
      else r
    else { r with pendingOn := false }
  else r

def pwrgOff (frac : ℚ) (now : UInt32) (r : Rail) : Rail :=
  if r.relayOn = true ∧ r.pwrgOn = true then
    if frac < PCT_OFF then
      if r.pendingOff = false then { r with pendingOff := true, pendingSince := now }
      else if now - r.pendingSince ≥ QUALIFY_MS then { r with pwrgOn := false, pwrgPin := LOW, pendingOff := false }
      else r
    else { r with pendingOff := false }
  else r

def recover (frac : ℚ) (now : UInt32) (r : Rail) : Rail :=
  if r.relayOn = true ∧ r.pwrgOn = false then
    if frac ≥ PCT_ON then
      if r.pendingRecover = false then { r with pendingRecover := true, pendingRecoverSince := now }
      else if now - r.pendingRecoverSince ≥ RECOVERY_HOLD_MS then
        { r with pwrgOn := true, pwrgPin := HIGH, pendingRecover := false }
      else r
    else { r with pendingRecover := false }
  else r

def updateStatus (r : Rail) : Rail :=
  if r.lastVoltage < 1 then { r with status := .PWRDOWN }
  else if r.lastVoltage > 1 ∧ r.lastVoltage < r.nominal * 90 / 100 then { r with status := .PWRFAIL }
  else if r.lastVoltage > r.nominal * 90 / 100 then { r with status := .PWRUP }
  else r

def fraction (v : ℚ) (r : Rail) : ℚ := if r.nominal ≠ 0 then v / r.nominal else 0

def updateRail (outputState : Bool) (v : ℚ) (now : UInt32) (r : Rail) : Rail :=
  let r := { r with lastVoltage := v }
  if outputState = false then r
  else
    let frac := fraction v r
    updateStatus (recover frac now (pwrgOff frac now (turnOn frac now r)))

/-- The relay is closed and power-good is off: what a CPU request acts upon. -/
def inFault (r : Rail) : Bool := r.relayOn && !r.pwrgOn

def cutRail (status : Status) (r : Rail) : Rail :=
  { r with status := status, relayOn := false, hadFault := true, relayPin := LOW }

end Rails

/-- The variables of the debounce of one input. -/
structure Filter where
  stableState : Bool := HIGH
  lastRaw : Bool := HIGH
  lastChangeTime : UInt32 := 0

namespace Filter

def observe (raw : Bool) (now : UInt32) (f : Filter) : Filter :=
  if raw ≠ f.lastRaw then { f with lastChangeTime := now, lastRaw := raw } else f

def accept (period : UInt32) (raw : Bool) (now : UInt32) (f : Filter) : Filter :=
  if now - f.lastChangeTime ≥ period then { f with stableState := raw } else f

end Filter

/-- The variables of the program, the levels of the pins 5 and 7, and the milliseconds since the start. -/
structure Controller where
  rails : Fin 3 → Rail
  outputState : Bool := false
  key : Filter := {}
  cpuFb : Filter := {}
  cpuPD : Filter := {}
  lastLcdUpdate : UInt32 := 0
  relayPowerOn : Bool := LOW
  anyRelayOn : Bool := LOW
  clock : ℕ

def nominal : Fin 3 → ℚ := ![12, 5, 5]

/-- The state after `setup`, which leaves all outputs `LOW`. -/
def setup (clock : ℕ) : Controller where
  rails i := { nominal := nominal i }
  clock := clock

def millis (clock : ℕ) : UInt32 := UInt32.ofNat clock

/-- A raw level, with the time that passes before each of the two calls of `millis`. -/
structure Reading where
  raw : Bool
  d₀ : ℕ
  d₁ : ℕ

namespace Controller

def setRail (i : Fin 3) (r : Rail) (s : Controller) : Controller :=
  { s with rails := Function.update s.rails i r }

def resetRail (i : Fin 3) (s : Controller) : Controller := s.setRail i (resetRailInternalState (s.rails i))

def resetRails (s : Controller) : Controller := resetRail 2 (resetRail 1 (resetRail 0 s))

def resetSteps (s : Controller) : List Controller := [resetRail 0 s, resetRail 1 (resetRail 0 s), resetRails s]

def updateRailAt (i : Fin 3) (v : ℚ) (d : ℕ) (s : Controller) : Controller :=
  let s := { s with clock := s.clock + d }
  s.setRail i (updateRail s.outputState v (millis s.clock) (s.rails i))

def filtered (period : UInt32) (e : Reading) (clock : ℕ) (f : Filter) : Filter :=
  (f.observe e.raw (millis (clock + e.d₀))).accept period e.raw (millis (clock + e.d₀ + e.d₁))

def readCpuFeedbackFiltered (e : Reading) (s : Controller) : Controller :=
  { s with
    cpuFb := filtered CPU_FEEDBACK_DEBOUNCE_MS e s.clock s.cpuFb
    clock := s.clock + e.d₀ + e.d₁ }

def readCpuPowerDownFiltered (e : Reading) (s : Controller) : Controller :=
  { s with
    cpuPD := filtered CPU_POWERDOWN_DEBOUNCE_MS e s.clock s.cpuPD
    clock := s.clock + e.d₀ + e.d₁ }

/-- One turn of the loop over the rails in both handlers. -/
def cutIfInFault (status : Status) (s : Controller) (i : Fin 3) : Controller :=
  if inFault (s.rails i) = true then
    { s.setRail i (cutRail status (s.rails i)) with outputState := !s.outputState }
  else s

def cutRails (status : Status) (s : Controller) : Controller := [0, 1, 2].foldl (cutIfInFault status) s

def handleCpuFeedback (e : Reading) (s : Controller) : Controller :=
  let s := readCpuFeedbackFiltered e s
  if s.cpuFb.stableState = LOW then cutRails .PWRFAIL s else s

def handleCpuPowerDown (e : Reading) (s : Controller) : Controller :=
  let s := readCpuPowerDownFiltered e s
  if s.cpuPD.stableState = LOW then cutRails .PWRDOWN s else s

def updateAnyRelayIndicator (s : Controller) : Controller :=
  { s with anyRelayOn := (s.rails 0).relayOn || (s.rails 1).relayOn || (s.rails 2).relayOn }

/-- The end of `loop`; `updateLcd` reads the feedback of the CPU once more. -/
def updateLcd (d : ℕ) (e : Reading) (s : Controller) : Controller :=
  let s := { s with clock := s.clock + d }
  if millis s.clock - s.lastLcdUpdate ≥ LCD_UPDATE_MS then
    readCpuFeedbackFiltered e { s with lastLcdUpdate := millis s.clock }
  else s

/-- The debounce of the key, and whether the key has just been pressed. -/
def readKey (e : Reading) (s : Controller) : Controller × Bool :=
  let key := filtered DEBOUNCE_MS e s.clock s.key
  ({ s with key := key, clock := s.clock + e.d₀ + e.d₁ }, s.key.stableState && !key.stableState)

/-- What `dbounce` does when the key has been pressed. -/
def toggle (s : Controller) : Controller :=
  let s := { s with outputState := !s.outputState }
  let s := if s.outputState = false then { resetRails s with relayPowerOn := LOW } else s
  if s.outputState = true ∧ (s.rails 1).status = .PWRDOWN then
    { s.setRail 1 { s.rails 1 with status := .PWRUP } with relayPowerOn := HIGH }
  else s

def dbounce (e : Reading) (s : Controller) : Controller :=
  if (readKey e s).2 = true then toggle (readKey e s).1 else (readKey e s).1

end Controller

open Controller

/-- The calls that `loop` makes. -/
inductive Call
  | dbounce (e : Reading)
  | updateRail (i : Fin 3) (v : ℚ) (d : ℕ)
  | handleCpuFeedback (e : Reading)
  | handleCpuPowerDown (e : Reading)
  | updateAnyRelayIndicator
  | updateLcd (d : ℕ) (e : Reading)

def Call.exec : Call → Controller → Controller
  | .dbounce e => Controller.dbounce e
  | .updateRail i v d => updateRailAt i v d
  | .handleCpuFeedback e => Controller.handleCpuFeedback e
  | .handleCpuPowerDown e => Controller.handleCpuPowerDown e
  | .updateAnyRelayIndicator => Controller.updateAnyRelayIndicator
  | .updateLcd d e => Controller.updateLcd d e

def execs (cs : List Call) (s : Controller) : Controller := cs.foldl (fun s c => c.exec s) s

/-- What one iteration of `loop` reads: a level for each input, a voltage for each rail, and the
time that passes before each call of `millis`. -/
structure Iteration where
  key : Reading
  voltage : Fin 3 → ℚ
  delay : Fin 3 → ℕ
  feedback : Reading
  powerDown : Reading
  lcdDelay : ℕ
  lcdFeedback : Reading

namespace Iteration

/-- The first part of `loop`, up to the handlers of the CPU's requests. -/
def sensing (e : Iteration) : List Call :=
  [.dbounce e.key, .updateRail 0 (e.voltage 0) (e.delay 0), .updateRail 1 (e.voltage 1) (e.delay 1),
    .updateRail 2 (e.voltage 2) (e.delay 2)]

def calls (e : Iteration) : List Call :=
  e.sensing ++ [.handleCpuFeedback e.feedback, .handleCpuPowerDown e.powerDown, .updateAnyRelayIndicator,
    .updateLcd e.lcdDelay e.lcdFeedback]

end Iteration

def loop (e : Iteration) (s : Controller) : Controller := execs e.calls s

def program (es : List Iteration) : List Call := es.flatMap Iteration.calls

end Orion68.Psu
