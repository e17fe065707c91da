import Orion68.Lib.Loops
import Orion68.Lib.Memory

namespace Orion68.Ata

open Loops Memory

def ATA_CMD_READ_SECTORS : UInt8 := 0x20

def ATA_CMD_WRITE_SECTORS : UInt8 := 0x30

def ATA_CMD_SET_FEATURE : UInt8 := 0xEF

def ATA_ST_BUSY : UInt8 := 0x80

def ATA_ST_DRDY : UInt8 := 0x40

def ATA_ST_DATA_READY : UInt8 := 0x08

def ATA_ST_ERROR : UInt8 := 0x01

section Device

/-- What the device makes of a command for a sector: whether it sets the bit of the error when it
accepts the command, and whether it does when the data has been transferred. -/
structure Outcome where
  refused : Bool
  failed : Bool
  deriving DecidableEq

abbrev Sector := Fin 512 → UInt8

inductive Transfer
  | idle
  | reading
  | writing (lba : ℕ)
  deriving DecidableEq

/-- The device: the task file, the bits of the status, the sectors, and how it behaves. After its
`n`-th activity it is busy for `pause n` readings of the status. -/
structure Drive where
  feature : UInt8
  sectorCount : UInt8
  sectorNum : UInt8
  cylLow : UInt8
  cylHigh : UInt8
  driveHead : UInt8
  eightBit : Bool
  error : Bool
  dataReady : Bool
  busy : ℕ
  transfer : Transfer
  /-- What is still to be read, or has been written so far. -/
  data : List UInt8
  sectors : ℕ → Sector
  commands : ℕ
  outcome : ℕ → Outcome
  activity : ℕ
  pause : ℕ → ℕ

namespace Drive

/-- The 28-bit address in the task file. -/
def lba (d : Drive) : ℕ :=
  (d.driveHead &&& 0x0F).toNat * 2 ^ 24 + d.cylHigh.toNat * 2 ^ 16 + d.cylLow.toNat * 2 ^ 8 + d.sectorNum.toNat

def status (d : Drive) : UInt8 :=
  if d.busy ≠ 0 then ATA_ST_BUSY
  else ATA_ST_DRDY ||| (if d.dataReady then ATA_ST_DATA_READY else 0) ||| (if d.error then ATA_ST_ERROR else 0)

def statusRead (d : Drive) : Drive := { d with busy := d.busy - 1 }

def act (d : Drive) : Drive := { d with busy := d.pause d.activity, activity := d.activity + 1 }

/-- The command for a sector is accepted, or refused with the bit of the error. -/
def accept (transfer : Transfer) (data : List UInt8) (d : Drive) : Drive :=
  let refused := (d.outcome d.commands).refused
  act { d with
    error := refused
    dataReady := !refused
    transfer := if refused then .idle else transfer
    data := if refused then [] else data
    commands := d.commands + 1 }

/-- `none`: a command that is not modelled, or one that the device cannot take now. -/
def writeCommand (command : UInt8) (d : Drive) : Option Drive :=
  if d.busy ≠ 0 ∨ d.transfer ≠ .idle then none
  else if command = ATA_CMD_SET_FEATURE then
    if d.feature = 0x01 then some (act { d with eightBit := true, error := false }) else none
  else if d.driveHead &&& 0x40 = 0 ∨ d.sectorCount ≠ 1 then none
  else if command = ATA_CMD_READ_SECTORS then some (accept .reading (List.ofFn (d.sectors d.lba)) d)
  else if command = ATA_CMD_WRITE_SECTORS then some (accept (.writing d.lba) [] d)
  else none

def finish (d : Drive) : Drive :=
  { d with
    transfer := .idle
    data := []
    dataReady := false
    error := (d.outcome (d.commands - 1)).failed }

def readData (d : Drive) : Option (UInt8 × Drive) :=
  if d.busy ≠ 0 ∨ d.eightBit = false ∨ d.transfer ≠ .reading then none
  else
    match d.data with
    | [] => none
    | [b] => some (b, act (finish d))
    | b :: rest => some (b, act { d with data := rest })

/-- The 512th byte stores the sector, unless it ends in an error. -/
def writeData (b : UInt8) (d : Drive) : Option Drive :=
  match d.transfer with
  | .writing lba =>
      if d.busy ≠ 0 ∨ d.eightBit = false then none
      else
        let d := { d with data := d.data ++ [b] }
        if d.data.length = 512 then
          let d' := finish d
          some (act { d' with
            sectors := if d'.error then d.sectors else Function.update d.sectors lba fun k => d.data.getD k 0 })
        else some (act d)
  | _ => none

end Drive

end Device

open Drive

/-- `ATA_WAIT`; the device is given as many rounds as it stays busy. -/
def ataWait (d : Drive) : Option Drive :=
  whileLoop (fun d => d.status &&& ATA_ST_BUSY ≠ 0) (fun d => some d.statusRead) (d.busy + 1) d

/-- `ATA_WAIT_FOR_DATA`; `none`: the loop does not end. -/
def ataWaitForData (d : Drive) : Option Drive :=
  whileLoop (fun d => d.status &&& ATA_ST_DATA_READY = 0) (fun d => some d.statusRead) (d.busy + 1) d

/-- In the mode of eight bits, `ide_bus_mode` being 0. -/
def go8bitsMode (d : Drive) : Option Drive := do
  let d := { d with feature := 0x01 }
  let d ← d.writeCommand ATA_CMD_SET_FEATURE
  ataWait d

def sectorRegisters (sector : UInt32) (d : Drive) : Drive :=
  { d with
    cylHigh := (sector >>> 16).toUInt8
    cylLow := (sector >>> 8).toUInt8
    sectorNum := sector.toUInt8
    sectorCount := 1 }

/-- The loop of `ata_read_sector`, with `n` more bytes to read. -/
def readBytes (buffer : UInt32) : ℕ → UInt32 → Ram → Drive → Option (Ram × Drive)
  | 0, _, ram, d => some (ram, d)
  | n + 1, i, ram, d => do
      let (b, d) ← d.readData
      let d ← ataWait d
      readBytes buffer n (i + 1) (Function.update ram (buffer + i) b) d

/-- The loop of `ata_write_sector`, with `n` more bytes to write. -/
def writeBytes (buffer : UInt32) (ram : Ram) : ℕ → UInt32 → Drive → Option Drive
  | 0, _, d => some d
  | n + 1, i, d => do
      let d ← ataWait d
      let d ← d.writeData (ram (buffer + i))
      writeBytes buffer ram n (i + 1) d

def ataReadSector (sector buffer : UInt32) (ram : Ram) (d : Drive) : Option (ℕ × Ram × Drive) := do
  let d := { d with driveHead := 0xE0 }
  let d ← go8bitsMode d
  let d ← (sectorRegisters sector d).writeCommand ATA_CMD_READ_SECTORS
  let d ← ataWait d
  if d.status &&& 0x01 ≠ 0 then return (0, ram, d.statusRead)
  let d ← ataWait d.statusRead
  let d ← ataWaitForData d
  let (ram, d) ← readBytes buffer 512 0 ram d
  return (512, ram, d)

/-- What is printed when the device reports an error after the data is left out: nothing else depends on it. -/
def ataWriteSector (sector buffer : UInt32) (ram : Ram) (d : Drive) : Option (ℕ × Drive) := do
  let d ← go8bitsMode d
  let d := { d with driveHead := 0xE0 }
  let d ← (sectorRegisters sector d).writeCommand ATA_CMD_WRITE_SECTORS
  let d ← ataWait d
  if d.status &&& 0x01 ≠ 0 then return (0, d.statusRead)
  let d ← ataWait d.statusRead
  let d ← ataWaitForData d
  let d ← writeBytes buffer ram 512 0 d
  let d ← ataWait d
  return (512, d.statusRead)

inductive DResult
  | RES_OK
  | RES_ERROR
  | RES_PARERR
  deriving DecidableEq

/-- The loop of `disk_read`, with `n` more sectors to read. -/
def readSectors (physicalSector buff : UInt32) : ℕ → UInt32 → Ram → Drive → Option (DResult × Ram × Drive)
  | 0, _, ram, d => some (.RES_OK, ram, d)
  | n + 1, i, ram, d => do
      let (r, ram, d) ← ataReadSector (physicalSector + i) (buff + i * 512) ram d
      if r = 0 then return (.RES_ERROR, ram, d)
      readSectors physicalSector buff n (i + 1) ram d

/-- The loop of `disk_write`, with `n` more sectors to write. -/
def writeSectors (physicalSector buff : UInt32) (ram : Ram) : ℕ → UInt32 → Drive → Option (DResult × Drive)
  | 0, _, d => some (.RES_OK, d)
  | n + 1, i, d => do
      let (r, d) ← ataWriteSector (physicalSector + i) (buff + i * 512) ram d
      if r = 0 then return (.RES_ERROR, d)
      writeSectors physicalSector buff ram n (i + 1) d

/-- `base` is `drives[0].parts[0].base`. -/
def diskRead (base : UInt32) (pdrv : UInt8) (buff sector count : UInt32) (ram : Ram) (d : Drive) :
    Option (DResult × Ram × Drive) :=
  if pdrv ≠ 0 then some (.RES_PARERR, ram, d) else readSectors (base + sector) buff count.toNat 0 ram d

def diskWrite (base : UInt32) (pdrv : UInt8) (buff sector count : UInt32) (ram : Ram) (d : Drive) :
    Option (DResult × Drive) :=
  if pdrv ≠ 0 then some (.RES_PARERR, d) else writeSectors (base + sector) buff ram count.toNat 0 d

end Orion68.Ata
