import Mathlib.Data.List.GetD
import Mathlib.Data.UInt
import Orion68.Lib.Transducers

namespace Orion68.Ps2Keyboard

open Transducers

section Tables

def ps2ToAsciiLower : List UInt8 := [
  0x00, 0x00, 0x00, 0x00, 0x00, 0x00, 0x00, 0x00, 0x00, 0x00, 0x00, 0x00, 0x00, 0x09, 0x60, 0x00,
  0x00, 0x00, 0x00, 0x00, 0x00, 0x71, 0x31, 0x00, 0x00, 0x00, 0x7A, 0x73, 0x61, 0x77, 0x32, 0x00,
  0x00, 0x63, 0x78, 0x64, 0x65, 0x34, 0x33, 0x00, 0x00, 0x20, 0x76, 0x66, 0x74, 0x72, 0x35, 0x00,
  0x00, 0x6E, 0x62, 0x68, 0x67, 0x79, 0x36, 0x00, 0x00, 0x00, 0x6D, 0x6A, 0x75, 0x37, 0x38, 0x00,
  0x00, 0x2C, 0x6B, 0x69, 0x6F, 0x30, 0x39, 0x00, 0x00, 0x2E, 0x2F, 0x6C, 0x3B, 0x70, 0x2D, 0x00,
  0x00, 0x00, 0x27, 0x00, 0x5B, 0x3D, 0x00, 0x00, 0x00, 0x00, 0x0D, 0x5D, 0x00, 0x5C, 0x00, 0x00,
  0x00, 0x00, 0x00, 0x00, 0x00, 0x00, 0x08, 0x00, 0x00, 0x00, 0x00, 0x14, 0x00, 0x00, 0x00, 0x00,
  0x00, 0x00, 0x12, 0x00, 0x13, 0x11, 0x1B, 0x00, 0x00, 0x00, 0x00, 0x00, 0x00, 0x00, 0x00, 0x00]

def ps2ToAsciiUpper : List UInt8 := [
  0x00, 0x00, 0x00, 0x00, 0x00, 0x00, 0x00, 0x00, 0x00, 0x00, 0x00, 0x00, 0x00, 0x09, 0x7E, 0x00,
  0x00, 0x00, 0x00, 0x00, 0x00, 0x51, 0x21, 0x00, 0x00, 0x00, 0x5A, 0x53, 0x41, 0x57, 0x40, 0x00,
  0x00, 0x43, 0x58, 0x44, 0x45, 0x24, 0x23, 0x00, 0x00, 0x20, 0x56, 0x46, 0x54, 0x52, 0x25, 0x00,
  0x00, 0x4E, 0x42, 0x48, 0x47, 0x59, 0x5E, 0x00, 0x00, 0x00, 0x4D, 0x4A, 0x55, 0x26, 0x2A, 0x00,
  0x00, 0x3C, 0x4B, 0x49, 0x4F, 0x29, 0x28, 0x00, 0x00, 0x3E, 0x3F, 0x4C, 0x3A, 0x50, 0x5F, 0x00,
  0x00, 0x00, 0x22, 0x00, 0x7B, 0x2B, 0x00, 0x00, 0x00, 0x00, 0x0D, 0x7D, 0x00, 0x7C, 0x00, 0x00,
  0x00, 0x00, 0x00, 0x00, 0x00, 0x00, 0x08, 0x00, 0x00, 0x00, 0x00, 0x14, 0x00, 0x00, 0x00, 0x00,
  0x00, 0x00, 0x12, 0x00, 0x13, 0x11, 0x03, 0x00, 0x00, 0x00, 0x00, 0x00, 0x00, 0x00, 0x00, 0x00]

def ps2ToAsciiCntl : List UInt8 := [
  0x00, 0x00, 0x00, 0x00, 0x00, 0x00, 0x00, 0x00, 0x00, 0x00, 0x00, 0x00, 0x00, 0x09, 0x7E, 0x00,
  0x00, 0x00, 0x00, 0x00, 0x00, 0x11, 0x21, 0x00, 0x00, 0x00, 0x1A, 0x13, 0x01, 0x17, 0x40, 0x00,
  0x00, 0x03, 0x18, 0x04, 0x05, 0x24, 0x23, 0x00, 0x00, 0x20, 0x16, 0x06, 0x14, 0x12, 0x25, 0x00,
  0x00, 0x0E, 0x02, 0x08, 0x07, 0x19, 0x5E, 0x00, 0x00, 0x00, 0x0D, 0x0A, 0x15, 0x26, 0x2A, 0x00,
  0x00, 0x3C, 0x0B, 0x09, 0x0F, 0x29, 0x28, 0x00, 0x00, 0x3E, 0x3F, 0x0C, 0x3A, 0x10, 0x5F, 0x00,
  0x00, 0x00, 0x22, 0x00, 0x7B, 0x2B, 0x00, 0x00, 0x00, 0x00, 0x0D, 0x7D, 0x00, 0x7C, 0x00, 0x00,
  0x00, 0x00, 0x00, 0x00, 0x00, 0x00, 0x08, 0x00, 0x00, 0x00, 0x00, 0x14, 0x00, 0x00, 0x00, 0x00,
  0x00, 0x00, 0x12, 0x00, 0x13, 0x11, 0x03, 0x00, 0x00, 0x00, 0x00, 0x00, 0x00, 0x00, 0x00, 0x00]

end Tables

section Handler

/-- The flags, and the line of the interrupt to the 68000. -/
structure Ps2 where
  release : Bool
  shift : Bool
  cntl : Bool
  caps : Bool
  bkdInt : Bool
  pirq : Bool
  deriving DecidableEq

/-- After `initPS2`. -/
def initPS2 : Ps2 where
  release := false
  shift := false
  cntl := false
  caps := false
  bkdInt := false
  pirq := true

def kbdIntOn (s : Ps2) : Ps2 := if s.bkdInt = false then { s with pirq := false, bkdInt := true } else s

def tabelado (code : UInt8) (s : Ps2) : UInt8 :=
  if s.cntl then ps2ToAsciiCntl.getD code.toNat 0
  else if s.shift then ps2ToAsciiUpper.getD code.toNat 0
  else
    let ascii := ps2ToAsciiLower.getD code.toNat 0
    if s.caps ∧ 0x61 ≤ ascii ∧ ascii ≤ 0x7A then ascii - 32 else ascii

/-- The `switch` of `ps2_ihandler`, with the character that it puts out. -/
def recebe (code : UInt8) (s : Ps2) : Ps2 × Option UInt8 :=
  if code = 0xF0 then ({ s with release := true }, none)
  else if code = 0x58 then
    (if s.release then { s with release := false } else { s with caps := !s.caps }, none)
  else if code = 0x12 ∨ code = 0x59 then
    (if s.release then { s with shift := false, release := false } else { s with shift := true }, none)
  else if code = 0x14 then
    (if s.release then { s with cntl := false, release := false } else { s with cntl := true }, none)
  else
    let ascii := if s.release then 0 else tabelado (code &&& 0x7F) s
    if ascii ≠ 0 then ({ kbdIntOn s with release := false }, some ascii) else ({ s with release := false }, none)

/-- `ps2_ihandler`, with the words in the FIFO of the state machine; it returns those that are left. -/
def ps2Ihandler (fifo : List UInt32) (s : Ps2) : List UInt32 × Ps2 × Option UInt8 :=
  match fifo with
  | [] => ([], s, none)
  | w :: fifo => (fifo, recebe (w >>> 24).toUInt8 s)

/-- The state machine shifts the bits of a code in from the left, and interrupts after the eighth one. -/
def chega (code : UInt8) (s : Ps2) : Ps2 × Option UInt8 := (ps2Ihandler [code.toUInt32 <<< 24] s).2

/-- The flags after some codes, and the characters that they put out. -/
def chegam (codes : List UInt8) (s : Ps2) : Ps2 × List UInt8 := feed chega codes s

variable {s : Ps2} {code : UInt8}

theorem chega_eq (code : UInt8) (s : Ps2) : chega code s = recebe code s := by
  have hword : (code.toUInt32 <<< 24 >>> 24).toUInt8 = code := by
    have hlt := code.toNat_lt
    have hshift : (24 : UInt32).toNat % 32 = 24 := rfl
    apply UInt8.toNat_inj.mp
    rw [UInt32.toNat_toUInt8, UInt32.toNat_shiftRight, UInt32.toNat_shiftLeft, UInt8.toNat_toUInt32, hshift,
      Nat.shiftLeft_eq, Nat.shiftRight_eq_div_pow]
    omega
  rw [chega, ps2Ihandler, hword]

theorem tabelado_zero (hlower : ps2ToAsciiLower.getD code.toNat 0 = 0) (hupper : ps2ToAsciiUpper.getD code.toNat 0 = 0)
    (hcntl : ps2ToAsciiCntl.getD code.toNat 0 = 0) : tabelado code s = 0 := by
  rw [tabelado, hlower, hupper, hcntl]
  split
  · rfl
  · split
    · rfl
    · exact if_neg fun h => absurd h.2.1 (by decide)

theorem recebe_prefixo (s : Ps2) : recebe 0xE0 s = ({ s with release := false }, none) := by
  have hzero : tabelado (0xE0 &&& 0x7F) s = 0 := tabelado_zero rfl rfl rfl
  rw [recebe, hzero, ite_self]
  rfl

theorem maiuscula {i : ℕ} (hi : i < 128) (h : 0x61 ≤ ps2ToAsciiLower.getD i 0 ∧ ps2ToAsciiLower.getD i 0 ≤ 0x7A) :
    ps2ToAsciiLower.getD i 0 - 32 = ps2ToAsciiUpper.getD i 0 := by
  have hall : ∀ i < 128, 0x61 ≤ ps2ToAsciiLower.getD i 0 ∧ ps2ToAsciiLower.getD i 0 ≤ 0x7A →
      ps2ToAsciiLower.getD i 0 - 32 = ps2ToAsciiUpper.getD i 0 := by decide
  exact hall i hi h

end Handler

end Orion68.Ps2Keyboard
