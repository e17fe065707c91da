import Orion68.Ide.Ata

namespace Orion68.AtaSectors

open Loops Memory Ata Drive

variable {d : Drive} {buffer sector : UInt32} {ram : Ram} {b : UInt8}

/-- The device is not busy and waits for a command. -/
structure Ready (d : Drive) : Prop where
  busy : d.busy = 0
  idle : d.transfer = .idle

/-- A device whose sectors are all zero, with what becomes of the commands. -/
def zeros (outcome : ℕ → Outcome) : Drive where
  feature := 0
  sectorCount := 0
  sectorNum := 0
  cylLow := 0
  cylHigh := 0
  driveHead := 0
  eightBit := false
  error := false
  dataReady := false
  busy := 0
  transfer := .idle
  data := []
  sectors _ _ := 0
  commands := 0
  outcome := outcome
  activity := 0
  pause _ := 0

theorem zeros_ready (outcome : ℕ → Outcome) : Ready (zeros outcome) := ⟨rfl, rfl⟩

def settled (d : Drive) : Drive := { d with busy := 0 }

theorem settled_of_busy (h : d.busy = 0) : settled d = d := by
  cases d
  cases h
  rfl

theorem status_of_busy (h : d.busy ≠ 0) : d.status = ATA_ST_BUSY := if_pos h

theorem status_and_busy (h : d.busy = 0) : d.status &&& ATA_ST_BUSY = 0 := by
  rw [Drive.status, if_neg (not_not_intro h)]
  cases d.dataReady <;> cases d.error <;> decide

theorem status_and_error (h : d.busy = 0) : d.status &&& 0x01 ≠ 0 ↔ d.error = true := by
  rw [Drive.status, if_neg (not_not_intro h)]
  cases d.dataReady <;> cases d.error <;> decide

theorem status_and_dataReady (h : d.busy = 0) : d.status &&& ATA_ST_DATA_READY = 0 ↔ d.dataReady = false := by
  rw [Drive.status, if_neg (not_not_intro h)]
  cases d.dataReady <;> cases d.error <;> decide

theorem ataWait_eq (d : Drive) : ataWait d = some (settled d) := by
  rw [ataWait]
  generalize hn : d.busy = n
  induction n generalizing d with
  | zero =>
      have hleave : decide (d.status &&& ATA_ST_BUSY ≠ 0) = false := by simp [status_and_busy hn]
      rw [whileLoop, hleave, settled_of_busy hn]
      rfl
  | succ n ih =>
      have hstay : decide (d.status &&& ATA_ST_BUSY ≠ 0) = true := by
        rw [status_of_busy (by omega)]
        decide
      rw [whileLoop, hstay]
      exact ih d.statusRead (by simp [statusRead, hn])

theorem ataWaitForData_eq (h : d.busy = 0) (hd : d.dataReady = true) : ataWaitForData d = some d := by
  have hleave : decide (d.status &&& ATA_ST_DATA_READY = 0) = false := by
    simp [status_and_dataReady h, hd]
  rw [ataWaitForData, whileLoop, hleave]
  rfl

theorem statusRead_eq (h : d.busy = 0) : d.statusRead = d := by
  cases d
  cases h
  rfl

theorem go8bitsMode_eq (h : Ready d) :
    go8bitsMode d = some { d with feature := 0x01, eightBit := true, error := false, activity := d.activity + 1 } := by
  have hcmd : writeCommand ATA_CMD_SET_FEATURE { d with feature := 0x01 } =
      some (act { d with feature := 0x01, eightBit := true, error := false }) := by
    simp [writeCommand, h.busy, h.idle]
  simp only [go8bitsMode, hcmd, Option.bind_eq_bind, Option.bind_some, ataWait_eq]
  simp [settled, act, h.busy]

def lbaOf (sector : UInt32) : ℕ := sector.toNat % 2 ^ 24

theorem lba_eq (sector : UInt32) (h : d.driveHead = 0xE0) : (sectorRegisters sector d).lba = lbaOf sector := by
  have hhead : (sectorRegisters sector d).driveHead &&& 0x0F = 0 := by
    rw [sectorRegisters, h]
    decide
  rw [lba, hhead, lbaOf]
  simp only [sectorRegisters, UInt32.toNat_toUInt8, UInt32.toNat_shiftRight]
  change 0 * 2 ^ 24 + sector.toNat >>> 16 % 2 ^ 8 * 2 ^ 16 + sector.toNat >>> 8 % 2 ^ 8 * 2 ^ 8 +
    sector.toNat % 2 ^ 8 = _
  rw [Nat.shiftRight_eq_div_pow, Nat.shiftRight_eq_div_pow]
  omega

section Commands

theorem readCommand_eq (sector : UInt32) (hb : d.busy = 0) (hi : d.transfer = .idle) (hh : d.driveHead = 0xE0) :
    (sectorRegisters sector d).writeCommand ATA_CMD_READ_SECTORS =
      some (accept .reading (List.ofFn (d.sectors (lbaOf sector))) (sectorRegisters sector d)) := by
  have hlba := lba_eq sector hh
  have hmode : ¬ ((sectorRegisters sector d).driveHead &&& 0x40 = 0 ∨ (sectorRegisters sector d).sectorCount ≠ 1) := by
    simp only [sectorRegisters, hh]
    decide
  rw [writeCommand, if_neg (by simp [sectorRegisters, hb, hi]), if_neg (by decide), if_neg hmode, if_pos rfl, hlba]
  rfl

theorem writeCommand_eq (sector : UInt32) (hb : d.busy = 0) (hi : d.transfer = .idle) (hh : d.driveHead = 0xE0) :
    (sectorRegisters sector d).writeCommand ATA_CMD_WRITE_SECTORS =
      some (accept (.writing (lbaOf sector)) [] (sectorRegisters sector d)) := by
  have hlba := lba_eq sector hh
  have hmode : ¬ ((sectorRegisters sector d).driveHead &&& 0x40 = 0 ∨ (sectorRegisters sector d).sectorCount ≠ 1) := by
    simp only [sectorRegisters, hh]
    decide
  rw [writeCommand, if_neg (by simp [sectorRegisters, hb, hi]), if_neg (by decide), if_neg hmode, if_neg (by decide),
    if_pos rfl, hlba]

end Commands

section Transfers

/-- The bytes from `a` on. -/
def bytesAt (ram : Ram) (a : UInt32) (n : ℕ) : List UInt8 := (List.range n).map fun k => ram (a + UInt32.ofNat k)

theorem bytesAt_succ (ram : Ram) (a : UInt32) (n : ℕ) : bytesAt ram a (n + 1) = ram a :: bytesAt ram (a + 1) n := by
  rw [bytesAt, bytesAt, List.range_succ_eq_map, List.map_cons, List.map_map]
  have hzero : a + UInt32.ofNat 0 = a := UInt32.add_zero a
  rw [hzero]
  congr 1
  apply List.map_congr_left
  intro k hk
  simp only [Function.comp_apply, Nat.succ_eq_add_one]
  rw [UInt32.ofNat_add, UInt32.add_comm (UInt32.ofNat k), ← UInt32.add_assoc]
  rfl

@[simp] theorem bytesAt_length (ram : Ram) (a : UInt32) (n : ℕ) : (bytesAt ram a n).length = n := by
  simp [bytesAt]

theorem write_singleton (a : UInt32) (b : UInt8) (m : Ram) : write a [b] m = Function.update m a b := by
  funext x
  by_cases hx : x = a
  · subst x
    simp [write]
  · have hoff : (x - a).toNat ≠ 0 := by
      intro h
      apply hx
      have hzero : x - a = 0 := UInt32.toNat_inj.mp h
      rw [← UInt32.sub_add_cancel x a, hzero, UInt32.zero_add]
    rw [Function.update_of_ne hx, write, List.getD_eq_default]
    rw [List.length_singleton]
    omega

theorem write_cons (a : UInt32) (b : UInt8) (bs : List UInt8) (m : Ram) (h : bs.length < 2 ^ 32) :
    write (a + 1) bs (Function.update m a b) = write a (b :: bs) m := by
  rw [← write_singleton]
  exact write_append a [b] bs m (by simp; omega) (by simp)

theorem readBytes_eq (buffer : UInt32) (bs : List UInt8) (hbs : bs ≠ []) (hlen : bs.length ≤ 512) (i : UInt32)
    (ram : Ram) (hb : d.busy = 0) (he : d.eightBit = true) (ht : d.transfer = .reading) (hd : d.data = bs) :
    readBytes buffer bs.length i ram d =
      some (write (buffer + i) bs ram, { finish d with activity := d.activity + bs.length }) := by
  induction bs generalizing d i ram with
  | nil => exact absurd rfl hbs
  | cons b rest ih =>
      cases rest with
      | nil =>
          have hread : d.readData = some (b, act (finish d)) := by
            simp [readData, hb, he, ht, hd]
          have hwait : settled (act (finish d)) = { finish d with activity := d.activity + 1 } := by
            simp [settled, act, finish, hb]
          simp only [List.length_singleton, readBytes, hread, ataWait_eq, Option.bind_eq_bind, Option.bind_some, hwait]
          rw [write_singleton]
      | cons b' rest =>
          have hread : d.readData = some (b, act { d with data := b' :: rest }) := by
            simp [readData, hb, he, ht, hd]
          have hwait : settled (act { d with data := b' :: rest }) =
              { d with data := b' :: rest, activity := d.activity + 1 } := by
            simp [settled, act, hb]
          rw [List.length_cons, readBytes, hread]
          simp only [ataWait_eq, Option.bind_eq_bind, Option.bind_some, hwait]
          rw [ih (d := { d with data := b' :: rest, activity := d.activity + 1 }) (List.cons_ne_nil b' rest)
            (by simp at hlen ⊢; omega) (i + 1) _ hb he ht rfl, ← UInt32.add_assoc,
            write_cons _ _ _ _ (by simp at hlen ⊢; omega)]
          simp [finish, Nat.add_comm, Nat.add_left_comm]

/-- What the device is left with when the last byte of a sector has been written to it. -/
def stored (lba : ℕ) (bytes : List UInt8) (d : Drive) : Drive :=
  { finish d with
    sectors := if (d.outcome (d.commands - 1)).failed then d.sectors
      else Function.update d.sectors lba fun k => bytes.getD k 0 }

theorem writeData_last {lba : ℕ} (hb : d.busy = 0) (he : d.eightBit = true) (ht : d.transfer = .writing lba)
    (hlen : d.data.length + 1 = 512) : d.writeData b = some (act (stored lba (d.data ++ [b]) d)) := by
  simp [writeData, ht, hb, he, hlen, stored, finish]

theorem writeData_next {lba : ℕ} (hb : d.busy = 0) (he : d.eightBit = true) (ht : d.transfer = .writing lba)
    (hlen : d.data.length + 1 ≠ 512) : d.writeData b = some (act { d with data := d.data ++ [b] }) := by
  simp [writeData, ht, hb, he, hlen]

theorem writeBytes_eq {lba : ℕ} (buffer : UInt32) (ram : Ram) (n : ℕ) (i : UInt32) (he : d.eightBit = true)
    (ht : d.transfer = .writing lba) (hlen : d.data.length + (n + 1) = 512) :
    ∃ busy activity, writeBytes buffer ram (n + 1) i d =
      some { stored lba (d.data ++ bytesAt ram (buffer + i) (n + 1)) d with busy := busy, activity := activity } := by
  induction n generalizing d i with
  | zero =>
      have hwrite := writeData_last (d := settled d) (b := ram (buffer + i)) rfl he ht hlen
      have hbytes : bytesAt ram (buffer + i) 1 = [ram (buffer + i)] := bytesAt_succ ram (buffer + i) 0
      simp only [writeBytes, ataWait_eq, Option.bind_eq_bind, Option.bind_some, hwrite, Nat.zero_add, hbytes]
      exact ⟨_, _, rfl⟩
  | succ n ih =>
      have hwrite := writeData_next (d := settled d) (b := ram (buffer + i)) rfl he ht
        (by simp only [settled]; omega)
      rw [writeBytes, ataWait_eq]
      simp only [Option.bind_eq_bind, Option.bind_some, hwrite]
      obtain ⟨busy, activity, hrest⟩ :=
        ih (d := act { settled d with data := d.data ++ [ram (buffer + i)] }) (i + 1) he ht
        (by simp only [act, List.length_append, List.length_singleton]; omega)
      refine ⟨busy, activity, ?_⟩
      have hbytes : d.data ++ bytesAt ram (buffer + i) (n + 2) =
          d.data ++ [ram (buffer + i)] ++ bytesAt ram (buffer + (i + 1)) (n + 1) := by
        rw [bytesAt_succ, UInt32.add_assoc, List.append_assoc, List.singleton_append]
      rw [hbytes]
      exact hrest

end Transfers

section Sector

def sectorAt (ram : Ram) (a : UInt32) : Sector := fun k => ram (a + UInt32.ofNat k)

theorem getD_bytesAt (ram : Ram) (a : UInt32) (k : Fin 512) : (bytesAt ram a 512).getD k 0 = sectorAt ram a k := by
  rw [List.getD_eq_getElem _ _ (by rw [bytesAt_length]; exact k.isLt)]
  simp [bytesAt, sectorAt]

/-- The device has taken one more command. -/
structure Taken (d d' : Drive) : Prop where
  ready : Ready d'
  commands : d'.commands = d.commands + 1
  outcome : d'.outcome = d.outcome

/-- The device when the driver has selected the sector, in the mode of eight bits. -/
def selected (d : Drive) : Drive :=
  { d with feature := 0x01, eightBit := true, error := false, driveHead := 0xE0, activity := d.activity + 1 }

/-- The device once it is no longer busy with the command of the driver. -/
structure Accepted (t : Transfer) (data : List UInt8) (d u : Drive) : Prop where
  busy : u.busy = 0
  eightBit : u.eightBit = true
  error : u.error = (d.outcome d.commands).refused
  dataReady : u.dataReady = !(d.outcome d.commands).refused
  transfer : u.transfer = if (d.outcome d.commands).refused then .idle else t
  data : u.data = if (d.outcome d.commands).refused then [] else data
  sectors : u.sectors = d.sectors
  commands : u.commands = d.commands + 1
  outcome : u.outcome = d.outcome

theorem accepted (t : Transfer) (data : List UInt8) (sector : UInt32) (d : Drive) :
    Accepted t data d (settled (accept t data (sectorRegisters sector (selected d)))) :=
  ⟨rfl, rfl, rfl, rfl, rfl, rfl, rfl, rfl, rfl⟩

variable {t : Transfer} {data : List UInt8} {u : Drive}

theorem Accepted.status_error (h : Accepted t data d u) :
    u.status &&& 0x01 ≠ 0 ↔ (d.outcome d.commands).refused = true := by
  rw [status_and_error h.busy, h.error]

theorem Accepted.taken (h : Accepted t data d u) (hr : (d.outcome d.commands).refused = true) : Taken d u := by
  have hidle := h.transfer
  rw [if_pos hr] at hidle
  exact ⟨⟨h.busy, hidle⟩, h.commands, h.outcome⟩

theorem Accepted.transfers (h : Accepted t data d u) (hr : ¬ (d.outcome d.commands).refused = true) :
    u.dataReady = true ∧ u.transfer = t ∧ u.data = data := by
  have hready := h.dataReady
  have htransfer := h.transfer
  have hdata := h.data
  rw [Bool.eq_false_of_not_eq_true hr] at hready
  rw [if_neg hr] at htransfer hdata
  exact ⟨hready, htransfer, hdata⟩

theorem ataReadSector_eq (sector buffer : UInt32) (ram : Ram) (h : Ready d) :
    ∃ d', Taken d d' ∧ d'.sectors = d.sectors ∧ ataReadSector sector buffer ram d =
      some (if (d.outcome d.commands).refused then (0, ram, d')
        else (512, write buffer (List.ofFn (d.sectors (lbaOf sector))) ram, d')) := by
  have hmode : go8bitsMode { d with driveHead := 0xE0 } = some (selected d) :=
    go8bitsMode_eq (d := { d with driveHead := 0xE0 }) ⟨h.busy, h.idle⟩
  have hcmd := readCommand_eq sector (d := selected d) h.busy h.idle rfl
  have hu := accepted .reading (List.ofFn ((selected d).sectors (lbaOf sector))) sector d
  simp only [ataReadSector, hmode, Option.bind_eq_bind, Option.bind_some, hcmd, ataWait_eq]
  generalize settled (accept .reading (List.ofFn ((selected d).sectors (lbaOf sector)))
    (sectorRegisters sector (selected d))) = u at hu ⊢
  rw [statusRead_eq hu.busy, settled_of_busy hu.busy]
  by_cases hr : (d.outcome d.commands).refused = true
  · refine ⟨u, hu.taken hr, hu.sectors, ?_⟩
    rw [if_pos (hu.status_error.mpr hr), if_pos hr]
    rfl
  · have hnoErr := mt hu.status_error.mp hr
    obtain ⟨hready, htransfer, hdata⟩ := hu.transfers hr
    have hlen : (List.ofFn (d.sectors (lbaOf sector))).length = 512 := List.length_ofFn
    have hloop := readBytes_eq buffer (d := u) (List.ofFn (d.sectors (lbaOf sector)))
      (List.ne_nil_of_length_pos (by rw [hlen]; decide)) hlen.le 0 ram hu.busy hu.eightBit htransfer hdata
    rw [hlen, UInt32.add_zero] at hloop
    refine ⟨{ finish u with activity := u.activity + 512 }, ⟨⟨hu.busy, rfl⟩, hu.commands, hu.outcome⟩, hu.sectors, ?_⟩
    rw [if_neg hnoErr, if_neg hr, ataWaitForData_eq hu.busy hready, Option.bind_some, hloop]
    simp only [Option.bind_some, Option.pure_def]

theorem ataWriteSector_eq (sector buffer : UInt32) (ram : Ram) (h : Ready d) :
    ∃ d', Taken d d' ∧
      d'.sectors = (if (d.outcome d.commands).refused ∨ (d.outcome d.commands).failed then d.sectors
        else Function.update d.sectors (lbaOf sector) (sectorAt ram buffer)) ∧
      ataWriteSector sector buffer ram d = some (if (d.outcome d.commands).refused then 0 else 512, d') := by
  have hmode : go8bitsMode d = some { selected d with driveHead := d.driveHead } := go8bitsMode_eq h
  have hcmd := writeCommand_eq sector (d := selected d) h.busy h.idle rfl
  have hu := accepted (.writing (lbaOf sector)) [] sector d
  have hhead : { { selected d with driveHead := d.driveHead } with driveHead := 0xE0 } = selected d := rfl
  simp only [ataWriteSector, hmode, Option.bind_eq_bind, Option.bind_some, hhead, hcmd, ataWait_eq]
  generalize settled (accept (.writing (lbaOf sector)) [] (sectorRegisters sector (selected d))) = u at hu ⊢
  rw [statusRead_eq hu.busy, settled_of_busy hu.busy]
  by_cases hr : (d.outcome d.commands).refused = true
  · refine ⟨u, hu.taken hr, ?_, ?_⟩
    · rw [if_pos (.inl hr), hu.sectors]
    · rw [if_pos (hu.status_error.mpr hr), if_pos hr]
      rfl
  · have hnoErr := mt hu.status_error.mp hr
    obtain ⟨hready, htransfer, hdata⟩ := hu.transfers hr
    obtain ⟨busy, activity, hloop⟩ := writeBytes_eq buffer ram (d := u) 511 0 hu.eightBit
      htransfer (by rw [hdata]; rfl)
    rw [hdata, List.nil_append, UInt32.add_zero] at hloop
    have hsector : (fun k : Fin 512 => (bytesAt ram buffer 512).getD k 0) = sectorAt ram buffer := by
      funext k
      exact getD_bytesAt ram buffer k
    refine ⟨settled { stored (lbaOf sector) (bytesAt ram buffer 512) u with activity := activity },
      ⟨⟨rfl, rfl⟩, hu.commands, hu.outcome⟩, ?_, ?_⟩
    · have hor : (d.outcome d.commands).refused = true ∨ (d.outcome d.commands).failed = true ↔
          (d.outcome d.commands).failed = true := or_iff_right hr
      simp only [settled, stored, hu.sectors, hu.outcome, hu.commands, Nat.add_sub_cancel, hsector, hor]
    · rw [if_neg hnoErr, if_neg hr, ataWaitForData_eq hu.busy hready, Option.bind_some, hloop, Option.bind_some,
        statusRead_eq rfl]
      rfl

end Sector

end Orion68.AtaSectors
