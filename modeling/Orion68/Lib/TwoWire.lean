import Orion68.Lib.Interactions

namespace Orion68.TwoWire

open Interactions

abbrev Byte := BitVec 8

section Bits

def msbFirst (b : Byte) : List Bool := (List.range 8).map b.getMsbD

def shiftIn (x : Byte) (b : Bool) : Byte := if b then x <<< 1 ||| 1 else x <<< 1

def ofMsb (bits : List Bool) : Byte := bits.foldl shiftIn 0

theorem length_msbFirst (b : Byte) : (msbFirst b).length = 8 := rfl

theorem ofMsb_msbFirst (b : Byte) : ofMsb (msbFirst b) = b := by
  revert b
  decide +kernel

end Bits

section Lines

/-- The clock and the data line; `held` is the data the clock rose on, while it has not changed since. -/
structure Lines where
  scl : Bool
  sda : Bool
  held : Option Bool

inductive Symbol
  | start
  | stop
  | bit (b : Bool)
  deriving DecidableEq

def Lines.clock (v : Bool) (l : Lines) : Lines × List Symbol :=
  if v = l.scl then (l, [])
  else if v then ({ l with scl := true, held := some l.sda }, [])
  else ({ l with scl := false, held := none }, l.held.toList.map .bit)

/-- Data that changes while the clock is high is a START or a STOP, and only this is. -/
def Lines.data (v : Bool) (l : Lines) : Lines × List Symbol :=
  if v = l.sda then (l, [])
  else if l.scl then ({ l with sda := v, held := none }, [if v then .stop else .start])
  else ({ l with sda := v }, [])

/-- What a master does to the lines it drives, and its look at the data line. -/
inductive Wire
  | scl (v : Bool)
  | sda (v : Bool)
  | read

abbrev Wire.Answer : Wire → Type
  | .read => Bool
  | _ => Unit

/-- Somebody who follows what the master drives, while the data line reads as it likes. -/
structure Listener where
  lines : Lines
  seen : List Symbol
  readings : ℕ → Bool

def Listener.note (r : Lines × List Symbol) (m : Listener) : Listener := ⟨r.1, m.seen ++ r.2, m.readings⟩

def overhear : (w : Wire) → Listener → w.Answer × Listener
  | .scl v, m => ((), m.note (m.lines.clock v))
  | .sda v, m => ((), m.note (m.lines.data v))
  | .read, m => (m.readings 0, { m with readings := fun n => m.readings (n + 1) })

end Lines

section Orders

inductive Order
  | start
  | stop
  | write (b : Byte)
  | read (ack : Bool)
  deriving DecidableEq

/-- A write is answered with the level of the data line at the ninth clock, low for an acknowledge. -/
abbrev Order.Answer : Order → Type
  | .start | .stop => Unit
  | .write _ => Bool
  | .read _ => Byte

/-- What a master signals for an order: it leaves the data line alone where the other side speaks. -/
def Order.signal : Order → List Symbol
  | .start => [.start]
  | .stop => [.stop]
  | .write b => (msbFirst b ++ [true]).map .bit
  | .read ack => (List.replicate 8 true ++ [!ack]).map .bit

/-- The orders are noted, and answered from the readings of the data line. -/
def take : (o : Order) → List Order × (ℕ → Bool) → o.Answer × (List Order × (ℕ → Bool))
  | .start, (os, r) => ((), (os ++ [.start], r))
  | .stop, (os, r) => ((), (os ++ [.stop], r))
  | .write b, (os, r) => (r 0, (os ++ [.write b], fun n => r (n + 1)))
  | .read ack, (os, r) => (ofMsb ((List.range 8).map r), (os ++ [.read ack], fun n => r (n + 8)))

inductive Phase
  | free
  | started
  | writing
  | reading
  | ended
  deriving DecidableEq

/-- The transfers: a START, an address, and bytes one way, up to the byte read without an
acknowledge; another START or the STOP. -/
def format : Phase → Order → Option Phase
  | .free, .start | .writing, .start | .ended, .start => some .started
  | .writing, .stop | .ended, .stop => some .free
  | .started, .write b => some (if b.getLsbD 0 then .reading else .writing)
  | .writing, .write _ => some .writing
  | .reading, .read ack => some (if ack then .reading else .ended)
  | _, _ => none

end Orders

section Slaves

variable {σ τ : Type}

/-- What there is to a slave byte by byte: whether it acknowledges an address and a byte, the byte it
shifts out, and what it does once that is out, with the master's acknowledge. -/
structure Slave (σ : Type) where
  start : σ → σ
  stop : σ → σ
  address : Byte → σ → Bool × σ
  receive : Byte → σ → Bool × σ
  shifts : σ → Byte
  shifted : Bool → σ → σ

/-- Two slaves on the same lines, either of which can pull them low. -/
def Slave.beside (d : Slave σ) (e : Slave τ) : Slave (σ × τ) where
  start s := (d.start s.1, e.start s.2)
  stop s := (d.stop s.1, e.stop s.2)
  address b s := ((d.address b s.1).1 || (e.address b s.2).1, (d.address b s.1).2, (e.address b s.2).2)
  receive b s := ((d.receive b s.1).1 || (e.receive b s.2).1, (d.receive b s.1).2, (e.receive b s.2).2)
  shifts s := d.shifts s.1 &&& e.shifts s.2
  shifted ack s := (d.shifted ack s.1, e.shifted ack s.2)

/-- Whose turn it is on the other side: nobody's, a slave that waits for its address or for a byte,
or one that sends. -/
inductive Turn
  | off
  | address
  | listens
  | sends
  deriving DecidableEq

def bytes (d : Slave σ) : (o : Order) → Turn × σ → o.Answer × (Turn × σ)
  | .start, (_, s) => ((), (.address, d.start s))
  | .stop, (_, s) => ((), (.off, d.stop s))
  | .write b, (.address, s) =>
      let r := d.address b s
      (!r.1, (if r.1 then if b.getLsbD 0 then .sends else .listens else .off, r.2))
  | .write b, (.listens, s) =>
      let r := d.receive b s
      (!r.1, (if r.1 then .listens else .off, r.2))
  | .write _, t => (true, t)
  | .read ack, (.sends, s) => (d.shifts s, (if ack then .sends else .off, d.shifted ack s))
  | .read _, t => ((0xFF : Byte), t)

def Phase.agrees : Phase → Turn → Prop
  | .free, t | .ended, t => t = .off
  | .started, t => t = .address
  | .writing, t => t = .listens ∨ t = .off
  | .reading, t => t = .sends ∨ t = .off

theorem agrees_bytes {d : Slave σ} {f g : Phase} {o : Order} {t : Turn × σ} (h : format f o = some g)
    (ha : f.agrees t.1) : g.agrees (bytes d o t).2.1 := by
  obtain ⟨turn, s⟩ := t
  cases o with
  | start => cases f <;> cases h <;> exact rfl
  | stop => cases f <;> cases h <;> exact rfl
  | write b =>
      cases f <;> cases h
      · obtain rfl := ha
        change (if b.getLsbD 0 then Phase.reading else .writing).agrees
          (if (d.address b s).1 then if b.getLsbD 0 then .sends else .listens else .off)
        cases (d.address b s).1 <;> cases b.getLsbD 0
        · exact .inr rfl
        · exact .inr rfl
        · exact .inl rfl
        · exact .inl rfl
      · rcases ha with rfl | rfl
        · change Phase.writing.agrees (if (d.receive b s).1 then .listens else .off)
          cases (d.receive b s).1
          · exact .inr rfl
          · exact .inl rfl
        · exact .inr rfl
  | read ack =>
      cases f <;> cases h
      rcases ha with rfl | rfl <;> cases ack
      · rfl
      · exact .inl rfl
      · rfl
      · exact .inr rfl

/-- How far a slave is with the bits; `reading` tells whether it sends after its acknowledge. -/
inductive Link
  | off
  | receives (first : Bool) (bits : List Bool)
  | acks (reading : Bool)
  | sends (bits : List Bool)
  | awaits

/-- What the slave does to the data line: `false` pulls it low. -/
def Link.drive : Link → Bool
  | acks _ => false
  | sends (b :: _) => b
  | _ => true

variable (d : Slave σ)

def Slave.taken (first : Bool) (b : Byte) (s : σ) : Link × σ :=
  let r := if first then d.address b s else d.receive b s
  (if r.1 then .acks (first && b.getLsbD 0) else .off, r.2)

def Slave.clocked (b : Bool) : Link × σ → Link × σ
  | (.off, s) => (.off, s)
  | (.receives first bits, s) =>
      if bits.length < 7 then (.receives first (bits ++ [b]), s) else d.taken first (ofMsb (bits ++ [b])) s
  | (.acks reading, s) => (if reading then .sends (msbFirst (d.shifts s)) else .receives false [], s)
  | (.sends (_ :: c :: bits), s) => (.sends (c :: bits), s)
  | (.sends _, s) => (.awaits, s)
  | (.awaits, s) =>
      let t := d.shifted (!b) s
      (if b then .off else .sends (msbFirst (d.shifts t)), t)

def Slave.sees (t : Link × σ) : Symbol → Link × σ
  | .start => (.receives true [], d.start t.2)
  | .stop => (.off, d.stop t.2)
  | .bit b => d.clocked b t

/-- The lines, with the master's share of the data line, and the slave. -/
structure Bus (σ : Type) where
  lines : Lines
  master : Bool
  slave : Link × σ

/-- The slave sees what has happened on the lines, and then has its share of the data line. -/
def Bus.move (master : Bool) (r : Lines × List Symbol) (b : Bus σ) : Bus σ :=
  let t := r.2.foldl d.sees b.slave
  ⟨(r.1.data (master && t.1.drive)).1, master, t⟩

def wire : (w : Wire) → Bus σ → w.Answer × Bus σ
  | .scl v, b => ((), b.move d b.master (b.lines.clock v))
  | .sda v, b => ((), b.move d v (b.lines.data (v && b.slave.1.drive)))
  | .read, b => (b.lines.sda, b)

def Bus.low (master : Bool) (t : Link × σ) : Bus σ := ⟨⟨false, master && t.1.drive, none⟩, master, t⟩

variable {d}

theorem data_low (v w : Bool) : Lines.data v ⟨false, w, none⟩ = (⟨false, v, none⟩, []) := by
  cases v <;> cases w <;> rfl

section Pulses

variable {m v : Bool} {t : Link × σ}

def Bus.high (m : Bool) (t : Link × σ) : Bus σ := ⟨⟨true, m && t.1.drive, some (m && t.1.drive)⟩, m, t⟩

theorem sda_low : (wire d (.sda v) (Bus.low m t)).2 = Bus.low v t := by
  simp [wire, Bus.low, Bus.move, data_low]

theorem scl_rise : (wire d (.scl true) (Bus.low m t)).2 = Bus.high m t := by
  simp [wire, Bus.low, Bus.high, Bus.move, Lines.clock, Lines.data]

theorem read_high : (wire d .read (Bus.high m t)).1 = (m && t.1.drive) := rfl

theorem scl_fall : (wire d (.scl false) (Bus.high m t)).2 = Bus.low m (d.clocked (m && t.1.drive) t) := by
  simp [wire, Bus.low, Bus.high, Bus.move, Lines.clock, data_low, Slave.sees]

theorem clocked_receives {first : Bool} {bits : List Bool} (h : bits.length < 7) (b : Bool) (s : σ) :
    d.clocked b (.receives first bits, s) = (.receives first (bits ++ [b]), s) := if_pos h

theorem clocked_last {first : Bool} {bits : List Bool} (h : bits.length = 7) (b : Bool) (s : σ) :
    d.clocked b (.receives first bits, s) = d.taken first (ofMsb (bits ++ [b])) s := if_neg (by omega)

end Pulses

/-- How far a slave is with the bits, between two orders. -/
def Turn.link (d : Slave σ) : Turn × σ → Link
  | (.off, _) => .off
  | (.address, _) => .receives true []
  | (.listens, _) => .receives false []
  | (.sends, s) => .sends (msbFirst (d.shifts s))

end Slaves

end Orion68.TwoWire
