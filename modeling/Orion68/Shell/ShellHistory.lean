import Mathlib.Data.UInt
import Orion68.Lib.Rings
import Orion68.Lib.Runs
import Orion68.Lib.Teletype

namespace Orion68.ShellHistory

open Runs Teletype

section Strings

/-- The conversion to `int`. -/
def int32 (v : Int) : Int := v.bmod (2 ^ 32)

/-- The bytes of a C string, `none` when it does not end within its array. -/
def cString (b : List UInt8) : Option (List UInt8) := if 0 ∈ b then some (b.takeWhile (· ≠ 0)) else none

def strlen (b : List UInt8) : Nat := (b.takeWhile (· ≠ 0)).length

/-- `strcpy` of a string without its `'\0'`. -/
def strcpy (text dest : List UInt8) : List UInt8 := text ++ 0 :: dest.drop (text.length + 1)

/-- `strncpy` of this C library, which goes on after the end of a string. -/
def strncpy (n : Nat) (src dest : List UInt8) : List UInt8 := src.take n ++ dest.drop n

end Strings

section Model

def HIST_SIZE : Int := 16
def LINE_MAX : Nat := 128

def KEY_UP : UInt8 := 0x10
def KEY_DOWN : UInt8 := 0x11
def KEY_BS : UInt8 := 0x08
def KEY_ENTER : UInt8 := 0x0D

/-- The static variables; the rows of `history` from 16 on are not used. -/
structure Historia where
  history : Nat → List UInt8
  histCount : Int
  histCursor : Int

def inicial : Historia := ⟨fun _ => List.replicate 128 0, 0, -1⟩

/-- `readline_with_history` between two keys, with what the line of the terminal shows. -/
structure Leitura where
  h : Historia
  buf : List UInt8
  len : Nat
  tela : Line UInt8

def putchar (s : Leitura) (c : UInt8) : Leitura := { s with tela := s.tela.put 0x08 c }

/-- `puts` of this C library, which ends no line. -/
def puts (text : List UInt8) (s : Leitura) : Leitura := { s with tela := s.tela.puts 0x08 text }

def redrawLine (oldLen : Nat) (text : List UInt8) (s : Leitura) : Leitura :=
  let s := puts (List.replicate oldLen 0x08) s
  let s := puts (List.replicate oldLen 0x20) s
  let s := puts (List.replicate oldLen 0x08) s
  puts text s

def idx (h : Historia) : Int := (int32 (h.histCount - 1 - h.histCursor + HIST_SIZE)).tmod HIST_SIZE

/-- What both arrows do once the cursor has been moved; `none` outside of `history`. -/
def mostra (s : Leitura) : Option Leitura :=
  if 0 ≤ idx s.h then
    (cString (s.h.history (idx s.h).toNat)).map fun text =>
      let s := redrawLine s.len text s
      let buf := strcpy text s.buf
      { s with buf := buf, len := strlen buf }
  else none

/-- A round of the loop, for any key but `KEY_ENTER`. -/
def tecla (c : UInt8) (s : Leitura) : Option Leitura :=
  if c = KEY_BS then
    if 0 < s.len then
      some (puts [0x08, 0x20, 0x08] { s with len := s.len - 1, buf := s.buf.set (s.len - 1) 0 })
    else some s
  else if c = KEY_UP then
    if s.h.histCursor + 1 < s.h.histCount ∧ s.h.histCursor + 1 < HIST_SIZE then
      mostra { s with h := { s.h with histCursor := s.h.histCursor + 1 } }
    else some s
  else if c = KEY_DOWN then
    if 0 < s.h.histCursor then mostra { s with h := { s.h with histCursor := s.h.histCursor - 1 } }
    else if s.h.histCursor = 0 then
      let s := redrawLine s.len [] { s with h := { s.h with histCursor := -1 } }
      some { s with buf := s.buf.set 0 0, len := 0 }
    else some s
  else if s.len < LINE_MAX - 1 then
    some (putchar { s with len := s.len + 1, buf := (s.buf.set s.len c).set (s.len + 1) 0 } c)
  else some s

/-- The start of `readline_with_history` on a new line of the terminal. -/
def comeca (buf : List UInt8) (h : Historia) : Leitura :=
  ⟨{ h with histCursor := -1 }, buf.set 0 0, 0, ⟨[], []⟩⟩

/-- What `KEY_ENTER` makes of the buffer. -/
def enter (s : Leitura) : List UInt8 := s.buf.set s.len 0

def historyAdd (cmd : List UInt8) (h : Historia) : Historia :=
  if cmd.head? = some 0 then h
  else
    let i := (h.histCount.tmod HIST_SIZE).toNat
    { history := Function.update h.history i ((strncpy (LINE_MAX - 1) cmd (h.history i)).set (LINE_MAX - 1) 0)
      histCount := int32 (h.histCount + 1)
      histCursor := -1 }

/-- The keys of a line, and what is in the buffer before it: the command before has used it. -/
structure Linha where
  teclas : List UInt8
  buf : List UInt8
  semEnter : KEY_ENTER ∉ teclas
  cabe : LINE_MAX ≤ buf.length

def le (l : Linha) (h : Historia) : Option Leitura := run tecla l.teclas (comeca l.buf h)

/-- A whole line: it is read, and added to the history. What has been returned goes to a list of the
strings that are not empty, the most recent first. -/
def entra (l : Linha) (s : List (List UInt8) × Historia) : Option (List (List UInt8) × Historia) :=
  (le l s.2).bind fun r => (cString (enter r)).map fun text =>
    (if text = [] then s.1 else text :: s.1, historyAdd (enter r) r.h)

end Model

end Orion68.ShellHistory
