import Orion68.Lib.TwoWire

namespace Orion68.I2cbb

open Interactions TwoWire

section Primitivas

abbrev Linhas := Prog Wire Wire.Answer

def sclHigh : Linhas Unit := query (Wire.scl true)

def sclLow : Linhas Unit := query (Wire.scl false)

def sdaHigh : Linhas Unit := query (Wire.sda true)

def sdaLow : Linhas Unit := query (Wire.sda false)

def sdaRead : Linhas Bool := query Wire.read

def i2cStart : Linhas Unit := do
  sdaHigh
  sclHigh
  sdaLow
  sclLow

def i2cStop : Linhas Unit := do
  sdaLow
  sclHigh
  sdaHigh

/-- The loop of `i2c_write_byte`, with so many more rounds. -/
def shiftOut : ℕ → Byte → Linhas Unit
  | 0, _ => pure ()
  | n + 1, data => do
      if data &&& 0x80 ≠ 0 then sdaHigh else sdaLow
      sclHigh
      sclLow
      shiftOut n (data <<< 1)

def i2cWriteByte (data : Byte) : Linhas Bool := do
  shiftOut 8 data
  sdaHigh
  sclHigh
  let ack ← sdaRead
  sclLow
  pure ack

/-- The loop of `i2c_read_byte`. -/
def shiftInto : ℕ → Byte → Linhas Byte
  | 0, data => pure data
  | n + 1, data => do
      sclHigh
      let b ← sdaRead
      sclLow
      shiftInto n (if b then data <<< 1 ||| 1 else data <<< 1)

def i2cReadByte (ack : Bool) : Linhas Byte := do
  sdaHigh
  let data ← shiftInto 8 0
  if ack then sdaLow else sdaHigh
  sclHigh
  sclLow
  sdaHigh
  pure data

def primitiva : (o : Order) → Linhas o.Answer
  | .start => i2cStart
  | .stop => i2cStop
  | .write data => i2cWriteByte data
  | .read ack => i2cReadByte ack

end Primitivas

section Driver

abbrev Driver := Prog Order Order.Answer

def start : Driver Unit := query Order.start

def stop : Driver Unit := query Order.stop

def writeByte (data : Byte) : Driver Bool := query (Order.write data)

def readByte (ack : Bool) : Driver Byte := query (Order.read ack)

def ds3231Addr : Byte := 0x68

def eepromAddr : Byte := 0x50

def bcd2bin (val : Byte) : Byte := (val >>> 4) * 10 + (val &&& 0x0F)

def bin2bcd (val : Byte) : Byte := (val / 10) <<< 4 ||| val % 10

structure RtcTime where
  sec : Byte
  min : Byte
  hour : Byte
  mday : Byte
  mon : Byte
  year : Byte
  deriving DecidableEq

/-- The time is left in the caller's structure; without one, nothing is done. -/
def ds3231ReadTime : Option RtcTime → Driver (Byte × Option RtcTime)
  | none => pure (1, none)
  | some t => do
      start
      if ← writeByte (ds3231Addr <<< 1 ||| 0) then
        stop
        return (1, some t)
      let _ ← writeByte 0x00
      start
      let _ ← writeByte (ds3231Addr <<< 1 ||| 1)
      let sec ← readByte true
      let min ← readByte true
      let hour ← readByte true
      let _ ← readByte true
      let mday ← readByte true
      let mon ← readByte true
      let year ← readByte false
      stop
      return (0, some ⟨bcd2bin (sec &&& 0x7F), bcd2bin min, bcd2bin (hour &&& 0x3F), bcd2bin mday,
        bcd2bin (mon &&& 0x1F), bcd2bin year⟩)

def ds3231SetTime : Option RtcTime → Driver Unit
  | none => pure ()
  | some t => do
      start
      if ← writeByte (ds3231Addr <<< 1 ||| 0) then
        stop
        return
      let _ ← writeByte 0x00
      let _ ← writeByte (bin2bcd t.sec)
      let _ ← writeByte (bin2bcd t.min)
      let _ ← writeByte (bin2bcd t.hour)
      let _ ← writeByte 0x01
      let _ ← writeByte (bin2bcd t.mday)
      let _ ← writeByte (bin2bcd t.mon)
      let _ ← writeByte (bin2bcd t.year)
      stop

def eepromWriteByte (addr : BitVec 16) (data : Byte) : Driver Unit := do
  start
  if ← writeByte (eepromAddr <<< 1 ||| 0) then
    stop
    return
  let _ ← writeByte ((addr >>> 8).setWidth 8)
  let _ ← writeByte ((addr &&& 0xFF).setWidth 8)
  let _ ← writeByte data
  stop

def eepromReadByte (addr : BitVec 16) : Driver Byte := do
  start
  if ← writeByte (eepromAddr <<< 1 ||| 0) then
    stop
    return 0xFF
  let _ ← writeByte ((addr >>> 8).setWidth 8)
  let _ ← writeByte ((addr &&& 0xFF).setWidth 8)
  start
  let _ ← writeByte (eepromAddr <<< 1 ||| 1)
  let val ← readByte false
  stop
  return val

def ds3231Probe : Driver Bool := do
  start
  let ack ← writeByte (ds3231Addr <<< 1 ||| 0)
  stop
  return ack = false

/-- What `rtc_init` does once the bus is idle. -/
def detecta : Driver Byte := do
  if !(← ds3231Probe) then
    return 0
  start
  if (← writeByte (ds3231Addr <<< 1 ||| 0)) = false then
    let _ ← writeByte 0x0E
    let _ ← writeByte 0x00
  stop
  return 1

def rtcInit : Linhas Byte := do
  sclHigh
  sdaHigh
  handle primitiva detecta

end Driver

section Chamadas

inductive Chamada
  | ds3231ReadTime (t : Option RtcTime)
  | ds3231SetTime (t : Option RtcTime)
  | ds3231Probe
  | eepromWriteByte (addr : BitVec 16) (data : Byte)
  | eepromReadByte (addr : BitVec 16)

abbrev Chamada.Retorno : Chamada → Type
  | ds3231ReadTime _ => Byte × Option RtcTime
  | ds3231SetTime _ => Unit
  | ds3231Probe => Bool
  | eepromWriteByte _ _ => Unit
  | eepromReadByte _ => Byte

def executa : (c : Chamada) → Driver c.Retorno
  | .ds3231ReadTime t => ds3231ReadTime t
  | .ds3231SetTime t => ds3231SetTime t
  | .ds3231Probe => ds3231Probe
  | .eepromWriteByte addr data => eepromWriteByte addr data
  | .eepromReadByte addr => eepromReadByte addr

/-- Any use of the calls: the next call may depend on what the ones before have returned. -/
abbrev Cliente (α : Type) := Prog Chamada Chamada.Retorno α

/-- `rtc_init`, and then the calls, which may look at what it has found. -/
def sessao {α : Type} (q : Byte → Cliente α) : Linhas α := do
  let achou ← rtcInit
  handle primitiva (handle executa (q achou))

/-- The orders in it, behind the two steps that set the bus idle. -/
def ordens {α : Type} (q : Byte → Cliente α) : Driver α := do
  let achou ← detecta
  handle executa (q achou)

end Chamadas

section Bits

/-- The bits that so many rounds of `i2c_write_byte` put on the data line. -/
def topBits : ℕ → Byte → List Bool
  | 0, _ => []
  | n + 1, data => data.msb :: topBits n (data <<< 1)

theorem topBits_eight (data : Byte) : topBits 8 data = msbFirst data := by
  revert data
  decide +kernel

theorem and_ne_zero_iff_msb (data : Byte) : data &&& 0x80 ≠ 0 ↔ data.msb = true := by
  revert data
  decide +kernel

open Prog

theorem shiftOut_succ (n : ℕ) (data : Byte) : shiftOut (n + 1) data =
    ask (.sda data.msb) fun _ => ask (.scl true) fun _ => ask (.scl false) fun _ => shiftOut n (data <<< 1) := by
  rw [shiftOut]
  cases hb : data.msb with
  | true =>
      rw [if_pos ((and_ne_zero_iff_msb data).mpr hb)]
      rfl
  | false =>
      rw [if_neg (mt (and_ne_zero_iff_msb data).mp (by simp [hb]))]
      rfl

theorem i2cReadByte_eq (ack : Bool) : i2cReadByte ack =
    ask (.sda true) fun _ => shiftInto 8 0 >>= fun data => ask (.sda !ack) fun _ => ask (.scl true) fun _ =>
      ask (.scl false) fun _ => ask (.sda true) fun _ => done data := by
  cases ack <;> rfl

end Bits

section Formato

theorem follows_ds3231ReadTime (t : Option RtcTime) : Follows format (ds3231ReadTime t) .free .free := by
  cases t with
  | none => rfl
  | some t =>
      refine ⟨_, rfl, fun _ => ⟨_, rfl, fun ack => ?_⟩⟩
      cases ack with
      | true => exact ⟨_, rfl, fun _ => rfl⟩
      | false =>
          -- The register number, a START with the address to read from, seven bytes, and the STOP.
          iterate 11 refine ⟨_, rfl, fun _ => ?_⟩
          rfl

theorem follows_ds3231SetTime (t : Option RtcTime) : Follows format (ds3231SetTime t) .free .free := by
  cases t with
  | none => rfl
  | some t =>
      refine ⟨_, rfl, fun _ => ⟨_, rfl, fun ack => ?_⟩⟩
      cases ack with
      | true => exact ⟨_, rfl, fun _ => rfl⟩
      | false =>
          -- The register number, seven bytes, and the STOP.
          iterate 9 refine ⟨_, rfl, fun _ => ?_⟩
          rfl

theorem follows_eepromWriteByte (addr : BitVec 16) (data : Byte) :
    Follows format (eepromWriteByte addr data) .free .free := by
  refine ⟨_, rfl, fun _ => ⟨_, rfl, fun ack => ?_⟩⟩
  cases ack with
  | true => exact ⟨_, rfl, fun _ => rfl⟩
  | false =>
      iterate 4 refine ⟨_, rfl, fun _ => ?_⟩
      rfl

theorem follows_eepromReadByte (addr : BitVec 16) : Follows format (eepromReadByte addr) .free .free := by
  refine ⟨_, rfl, fun _ => ⟨_, rfl, fun ack => ?_⟩⟩
  cases ack with
  | true => exact ⟨_, rfl, fun _ => rfl⟩
  | false =>
      iterate 6 refine ⟨_, rfl, fun _ => ?_⟩
      rfl

theorem follows_ds3231Probe : Follows format ds3231Probe .free .free :=
  ⟨_, rfl, fun _ => ⟨_, rfl, fun _ => ⟨_, rfl, fun _ => rfl⟩⟩⟩

theorem follows_detecta : Follows format detecta .free .free := by
  apply follows_ds3231Probe.bind
  intro achou
  cases achou with
  | false => rfl
  | true =>
      refine ⟨_, rfl, fun _ => ⟨_, rfl, fun ack => ?_⟩⟩
      cases ack with
      | true => exact ⟨_, rfl, fun _ => rfl⟩
      | false => exact ⟨_, rfl, fun _ => ⟨_, rfl, fun _ => ⟨_, rfl, fun _ => rfl⟩⟩⟩

theorem follows_executa (c : Chamada) : Follows format (executa c) .free .free := by
  cases c with
  | ds3231ReadTime t => exact follows_ds3231ReadTime t
  | ds3231SetTime t => exact follows_ds3231SetTime t
  | ds3231Probe => exact follows_ds3231Probe
  | eepromWriteByte addr data => exact follows_eepromWriteByte addr data
  | eepromReadByte addr => exact follows_eepromReadByte addr

theorem follows_cliente {α : Type} (p : Cliente α) : Follows format (handle executa p) .free .free :=
  follows_handle follows_executa p

theorem follows_ordens {α : Type} (q : Byte → Cliente α) : Follows format (ordens q) .free .free :=
  follows_detecta.bind fun achou => follows_cliente (q achou)

end Formato

end Orion68.I2cbb
