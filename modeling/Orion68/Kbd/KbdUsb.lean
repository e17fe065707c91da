import Orion68.Lib.Transducers
import Mathlib.Data.UInt

namespace Orion68.KbdUsb

section Keymaps

def oeBaseKeymap : List UInt8 := [
  0x00, 0x00, 0x00, 0x00, 0x61, 0x62, 0x63, 0x64, 0x65, 0x66, 0x67, 0x68, 0x69, 0x6A, 0x6B, 0x6C,
  0x6D, 0x6E, 0x6F, 0x70, 0x71, 0x72, 0x73, 0x74, 0x75, 0x76, 0x77, 0x78, 0x79, 0x7A, 0x31, 0x32,
  0x33, 0x34, 0x35, 0x36, 0x37, 0x38, 0x39, 0x30, 0x0D, 0x1B, 0x08, 0x09, 0x20, 0x2D, 0x3D, 0x5B,
  0x5D, 0x5C, 0xFF, 0x3B, 0x27, 0x60, 0x2C, 0x2E, 0x2F, 0x02, 0xF1, 0xF2, 0xF3, 0xF4, 0xF5, 0xF6,
  0xF7, 0xF8, 0xF9, 0xFA, 0xFB, 0xFC, 0x1F, 0xF0, 0xFE, 0x18, 0x14, 0x15, 0x7F, 0x17, 0x16, 0x13,
  0x12, 0x11, 0x10, 0x05, 0x2F, 0x2A, 0x2D, 0x2B, 0x0D, 0x31, 0x32, 0x33, 0x34, 0x35, 0x36, 0x37,
  0x38, 0x39, 0x30, 0x2E, 0xFF, 0x0A, 0x00, 0x00, 0x00, 0x00, 0x00, 0x00, 0x00, 0x00, 0x00, 0x00,
  0x00, 0x00, 0x00, 0x00, 0x00, 0x00, 0x00, 0x00, 0x00, 0x00, 0x00, 0x00, 0x00, 0x00, 0x00, 0x00]

def oeShiftKeymap : List UInt8 := [
  0x00, 0x00, 0x00, 0x00, 0x41, 0x42, 0x43, 0x44, 0x45, 0x46, 0x47, 0x48, 0x49, 0x4A, 0x4B, 0x4C,
  0x4D, 0x4E, 0x4F, 0x50, 0x51, 0x52, 0x53, 0x54, 0x55, 0x56, 0x57, 0x58, 0x59, 0x5A, 0x21, 0x40,
  0x23, 0x24, 0x25, 0x5E, 0x26, 0x2A, 0x28, 0x29, 0x0D, 0x1B, 0x08, 0x09, 0x20, 0x5F, 0x2B, 0x7B,
  0x7D, 0x7C, 0xFF, 0x3A, 0x22, 0x7E, 0x3C, 0x3E, 0x3F, 0x02, 0xF1, 0xF2, 0xF3, 0xF4, 0xF5, 0xF6,
  0xF7, 0xF8, 0xF9, 0xFA, 0xFB, 0xFC, 0x1F, 0xF0, 0xFE, 0x18, 0x14, 0x15, 0x7F, 0x17, 0x16, 0x13,
  0x12, 0x11, 0x10, 0x05, 0x2F, 0x2A, 0x2D, 0x2B, 0x0D, 0x31, 0x32, 0x33, 0x34, 0x35, 0x36, 0x37,
  0x38, 0x39, 0x30, 0x2E, 0xFF, 0x0A, 0x00, 0x00, 0x00, 0x00, 0x00, 0x00, 0x00, 0x00, 0x00, 0x00,
  0x00, 0x00, 0x00, 0x00, 0x00, 0x00, 0x00, 0x00, 0x00, 0x00, 0x00, 0x00, 0x00, 0x00, 0x00, 0x00]

def oeCtrlKeymap : List UInt8 := [
  0x00, 0x00, 0x00, 0x00, 0xA1, 0xA2, 0x03, 0xA4, 0xA5, 0xA6, 0xA7, 0xA8, 0xA9, 0xAA, 0xAB, 0xAC,
  0xAD, 0xAE, 0xAF, 0xB0, 0xB1, 0xB2, 0xB3, 0xB4, 0xB5, 0xB6, 0xB7, 0xB8, 0xB9, 0xBA, 0xE1, 0xE2,
  0xE3, 0xE4, 0xE5, 0xE6, 0xE7, 0xE8, 0xE9, 0xE0, 0x0F, 0x00, 0x08, 0x00, 0x20, 0x00, 0x00, 0x00,
  0x00, 0x00, 0x00, 0x00, 0x00, 0x00, 0x00, 0x00, 0x00, 0x00, 0xF1, 0xF2, 0xF3, 0xF4, 0xF5, 0xF6,
  0xF7, 0xF8, 0xF9, 0xFA, 0xFB, 0xFC, 0x00, 0x00, 0x00, 0x00, 0x00, 0x00, 0x00, 0x00, 0x00, 0x13,
  0x12, 0x11, 0x10, 0x00, 0x00, 0x00, 0x00, 0x00, 0x00, 0x00, 0x00, 0x00, 0x00, 0x00, 0x00, 0x00,
  0x00, 0x00, 0x00, 0x00, 0x00, 0x00, 0x00, 0x00, 0x00, 0x00, 0x00, 0x00, 0x00, 0x00, 0x00, 0x00,
  0x00, 0x00, 0x00, 0x00, 0x00, 0x00, 0x00, 0x00, 0x00, 0x00, 0x00, 0x00, 0x00, 0x00, 0x00, 0x00]

def oeAltKeymap : List UInt8 := [
  0x00, 0x00, 0x00, 0x00, 0xC1, 0xC2, 0xC3, 0xC4, 0xC5, 0xC6, 0xC7, 0xC8, 0xC9, 0xCA, 0xCB, 0xCC,
  0xCD, 0xCE, 0xCF, 0xD0, 0xD1, 0xD2, 0xD3, 0xD4, 0xD5, 0xD6, 0xD7, 0xD8, 0xD9, 0xDA, 0xBC, 0xBD,
  0xBE, 0xBF, 0xDB, 0xDC, 0xDD, 0xDE, 0xDF, 0xBB, 0x0D, 0x00, 0x08, 0x00, 0x20, 0x00, 0x00, 0x00,
  0x00, 0x00, 0x00, 0x00, 0x00, 0x00, 0x00, 0x00, 0x00, 0x00, 0xF1, 0xF2, 0xF3, 0xF4, 0xF5, 0xF6,
  0xF7, 0xF8, 0xF9, 0xFA, 0xFB, 0xFC, 0x00, 0x00, 0x00, 0x00, 0x00, 0x00, 0x00, 0x00, 0x00, 0x13,
  0x12, 0x11, 0x10, 0x00, 0x00, 0x00, 0x00, 0x00, 0x00, 0x00, 0x00, 0x00, 0x00, 0x00, 0x00, 0x00,
  0x00, 0x00, 0x00, 0x00, 0x00, 0x00, 0x00, 0x00, 0x00, 0x00, 0x00, 0x00, 0x00, 0x00, 0x00, 0x00,
  0x00, 0x00, 0x00, 0x00, 0x00, 0x00, 0x00, 0x00, 0x00, 0x00, 0x00, 0x00, 0x00, 0x00, 0x00, 0x00]

def oeAltgrKeymap : List UInt8 := [
  0x00, 0x00, 0x00, 0x00, 0x81, 0x82, 0x83, 0x84, 0x85, 0x86, 0x87, 0x88, 0x89, 0x8A, 0x8B, 0x8C,
  0x8D, 0x8E, 0x8F, 0x90, 0x91, 0x92, 0x93, 0x94, 0x95, 0x96, 0x97, 0x98, 0x99, 0x9A, 0x9C, 0x9D,
  0x9E, 0x9F, 0xEA, 0xEB, 0xEC, 0xED, 0xEE, 0x9B, 0x0D, 0x00, 0x08, 0x00, 0x20, 0x00, 0x00, 0x00,
  0x00, 0x00, 0x00, 0x00, 0x00, 0x00, 0x00, 0x00, 0x00, 0x00, 0xF1, 0xF2, 0xF3, 0xF4, 0xF5, 0xF6,
  0xF7, 0xF8, 0xF9, 0xFA, 0xFB, 0xFC, 0x00, 0x00, 0x00, 0x00, 0x00, 0x00, 0x00, 0x00, 0x00, 0x13,
  0x12, 0x11, 0x10, 0x00, 0x00, 0x00, 0x00, 0x00, 0x00, 0x00, 0x00, 0x00, 0x00, 0x00, 0x00, 0x00,
  0x00, 0x00, 0x00, 0x00, 0x00, 0x00, 0x00, 0x00, 0x00, 0x00, 0x00, 0x00, 0x00, 0x00, 0x00, 0x00,
  0x00, 0x00, 0x00, 0x00, 0x00, 0x00, 0x00, 0x00, 0x00, 0x00, 0x00, 0x00, 0x00, 0x00, 0x00, 0x00]

inductive Keymap
  | base
  | shift
  | ctrl
  | alt
  | altgr
  deriving DecidableEq

def Keymap.tabela : Keymap → List UInt8
  | base => oeBaseKeymap
  | shift => oeShiftKeymap
  | ctrl => oeCtrlKeymap
  | alt => oeAltKeymap
  | altgr => oeAltgrKeymap

/-- The key of a code; the tables have 128 entries, and `alem` is what is behind them in the flash. -/
def Keymap.tecla (alem : Keymap → UInt8 → UInt8) (m : Keymap) (code : UInt8) : UInt8 :=
  m.tabela.getD code.toNat (alem m code)

end Keymaps

section State

def KEY_CTRL : UInt8 := 0x01
def KEY_SHIFT : UInt8 := 0x02
def KEY_ALT : UInt8 := 0x04
def KEY_ALTGR : UInt8 := 0x08

inductive KbdState
  | kbdWaitHdr1
  | kbdWaitHdr2
  | kbdWaitCmd
  | kbd81WaitType
  | kbd81WaitLen
  | kbd81SkipPayload
  | kbd82WaitByte
  | kbd85WaitByte
  | kbd88WaitSize
  | kbd88ReadPayload
  deriving DecidableEq

/-- The variables of the keyboard, and the bytes that have been sent to it. -/
structure Teclado where
  kbdState : KbdState
  kbdSize : UInt8
  kbdIndex : ℕ
  kbdPendingChar : Option UInt8
  capslockJaPressionado : Bool
  length : UInt8
  type : UInt8
  specialKeyUp : Bool
  specialKeyDown : Bool
  keyUp : Bool
  keyDown : Bool
  specialKeyStatus : UInt8
  modCaps : UInt8
  keyBuffer : ℕ → UInt8
  enviados : List UInt8

/-- After `init_kbd`. -/
def inicial : Teclado where
  kbdState := .kbdWaitHdr1
  kbdSize := 0
  kbdIndex := 0
  kbdPendingChar := none
  capslockJaPressionado := false
  length := 0
  type := 0
  specialKeyUp := false
  specialKeyDown := false
  keyUp := false
  keyDown := false
  specialKeyStatus := 0
  modCaps := 0
  keyBuffer _ := 0
  enviados := []

end State

section Keys

variable (alem : Keymap → UInt8 → UInt8)

/-- The packet that sets the LEDs, with the sum of its bytes from the third one on. -/
def sendCmdKeyboard (cmd : UInt8) (s : Teclado) : Teclado :=
  let buf : List UInt8 := [0x57, 0xAB, 0x12, 0x00, 0x00, 0x00, 0x00, cmd, 0x00, 0x0F]
  { s with enviados := s.enviados ++ buf ++ [(buf.drop 2).sum] }

def getKbdKey (code : UInt8) (s : Teclado) : UInt8 :=
  if s.specialKeyStatus = 0x00 ∧ s.modCaps = 0x00 then Keymap.base.tecla alem code
  else if s.specialKeyStatus &&& KEY_SHIFT ≠ 0 then
    if s.modCaps = 2 then Keymap.base.tecla alem code else Keymap.shift.tecla alem code
  else if s.specialKeyStatus &&& KEY_CTRL ≠ 0 then Keymap.ctrl.tecla alem code
  else if s.specialKeyStatus &&& KEY_ALT ≠ 0 then Keymap.alt.tecla alem code
  else if s.specialKeyStatus &&& KEY_ALTGR ≠ 0 then Keymap.altgr.tecla alem code
  else if s.modCaps ≠ 0 then Keymap.shift.tecla alem code
  else 0

def modificador (status : UInt8) (s : Teclado) : Teclado :=
  { s with specialKeyStatus := status, specialKeyDown := true, specialKeyUp := false }

def decodifica (s : Teclado) : Teclado :=
  if s.keyBuffer 4 > 0 then { s with kbdPendingChar := some (getKbdKey alem (s.keyBuffer 4) s) } else s

def capslock (s : Teclado) : Teclado :=
  if s.capslockJaPressionado then s
  else
    let s := { s with capslockJaPressionado := true, modCaps := if s.modCaps = 0 then 2 else 0 }
    sendCmdKeyboard s.modCaps s

def nenhumaTecla (s : Teclado) : Teclado :=
  let s := if s.specialKeyDown then { s with specialKeyUp := true, specialKeyDown := false, specialKeyStatus := 0 }
    else s
  { s with keyDown := false, capslockJaPressionado := false }

def kbdFinish0x88 (s : Teclado) : Teclado :=
  if s.keyBuffer 2 = 0x00 ∧ s.keyBuffer 4 = 0x00 then nenhumaTecla s
  else if s.keyBuffer 2 = 0x01 ∨ s.keyBuffer 2 = 0x10 then decodifica alem (modificador KEY_CTRL s)
  else if s.keyBuffer 2 = 0x02 ∨ s.keyBuffer 2 = 0x20 then decodifica alem (modificador KEY_SHIFT s)
  else if s.keyBuffer 2 = 0x04 then decodifica alem (modificador KEY_ALT s)
  else if s.keyBuffer 2 = 0x40 then decodifica alem (modificador KEY_ALTGR s)
  else if s.keyBuffer 4 = 0x39 then capslock s
  else decodifica alem { s with keyDown := true, keyUp := false }

end Keys

section Parser

variable (alem : Keymap → UInt8 → UInt8)

/-- The `switch` of `kbd_poll`, for one byte. -/
def recebeByte (c : UInt8) (s : Teclado) : Teclado :=
  match s.kbdState with
  | .kbdWaitHdr1 => if c = 0x57 then { s with kbdState := .kbdWaitHdr2 } else s
  | .kbdWaitHdr2 => { s with kbdState := if c = 0xAB then .kbdWaitCmd else .kbdWaitHdr1 }
  | .kbdWaitCmd =>
      { s with kbdState :=
          if c = 0x81 then .kbd81WaitType
          else if c = 0x82 then .kbd82WaitByte
          else if c = 0x85 then .kbd85WaitByte
          else if c = 0x87 then .kbdWaitHdr1
          else if c = 0x88 then .kbd88WaitSize
          else .kbdWaitHdr1 }
  | .kbd81WaitType => { s with type := c, kbdState := .kbd81WaitLen }
  | .kbd81WaitLen =>
      { s with length := c, kbdIndex := 0
               kbdState := if c > 0 then .kbd81SkipPayload else .kbdWaitHdr1 }
  | .kbd81SkipPayload =>
      { s with kbdIndex := s.kbdIndex + 1
               kbdState := if s.kbdIndex + 1 ≥ s.length.toNat then .kbdWaitHdr1 else s.kbdState }
  | .kbd82WaitByte => { s with kbdState := .kbdWaitHdr1 }
  | .kbd85WaitByte => { s with kbdState := .kbdWaitHdr1 }
  | .kbd88WaitSize =>
      let s := { s with kbdSize := c, kbdIndex := 1, keyBuffer := fun _ => 0
                        kbdState := if c > 0 then .kbd88ReadPayload else .kbdWaitHdr1 }
      if c = 0 then kbdFinish0x88 alem s else s
  | .kbd88ReadPayload =>
      let s := { s with keyBuffer := if s.kbdIndex < 1048 then Function.update s.keyBuffer s.kbdIndex c else s.keyBuffer
                        kbdIndex := s.kbdIndex + 1 }
      if s.kbdIndex > s.kbdSize.toNat then { kbdFinish0x88 alem s with kbdState := .kbdWaitHdr1 } else s

/-- `kbd_poll`, with the bytes in the FIFO of the UART; it returns those that it has not read. -/
def kbdPoll : List UInt8 → Teclado → List UInt8 × Teclado
  | [], s => ([], s)
  | c :: fifo, s =>
      let s := recebeByte alem c s
      if s.kbdPendingChar ≠ none then (fifo, s) else kbdPoll fifo s

def getCharNonblocking (s : Teclado) : Option UInt8 × Teclado := (s.kbdPendingChar, { s with kbdPendingChar := none })

/-- The calls of `kbd_poll` and `get_char_nonblocking`, with what comes into the FIFO before each
pair: what is left in the FIFO, the variables, and the characters that are delivered. -/
def voltas : List (List UInt8) → List UInt8 → Teclado → List UInt8 × Teclado × List UInt8
  | [], fifo, s => (fifo, s, [])
  | chegam :: resto, fifo, s =>
      let (fifo, s) := kbdPoll alem (fifo ++ chegam) s
      let (ch, s) := getCharNonblocking s
      let (fifo, s, chs) := voltas resto fifo s
      (fifo, s, ch.toList ++ chs)

end Parser

end Orion68.KbdUsb
