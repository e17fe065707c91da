import Mathlib.Data.UInt
import Mathlib.Tactic.Common

namespace Orion68.Stdio

def ch (c : Char) : UInt8 := UInt8.ofNat c.toNat

section Conversions

def powers : List UInt32 :=
  [1000000000, 100000000, 10000000, 1000000, 100000, 10000, 1000, 100, 10, 1]

/-- `while (value >= power)`, given up after `n` rounds: what is left of the value, and `digit`. -/
def contaSubtracoes : Nat → UInt32 → UInt32 → UInt32 → UInt32 × UInt32
  | 0, _, value, digit => (value, digit)
  | n + 1, power, value, digit =>
      if power ≤ value then contaSubtracoes n power (value - power) (digit + 1) else (value, digit)

/-- The loop over `powers` of both decimal conversions. No power can be taken off ten times. -/
def decimal : List UInt32 → UInt32 → Bool → List UInt8
  | [], _, _ => []
  | power :: powers, value, started =>
      let (value, digit) := contaSubtracoes 10 power value 0
      if digit ≠ 0 ∨ started then (ch '0' + digit.toUInt8) :: decimal powers value true
      else decimal powers value started

def itoudec (value : UInt32) : List UInt8 := if value = 0 then [ch '0'] else decimal powers value false

/-- The sign is the top bit; `-value` of the least `int` is itself. -/
def itodec (value : UInt32) : List UInt8 :=
  if value = 0 then [ch '0']
  else if 0x80000000 ≤ value then ch '-' :: decimal powers (-value) false
  else decimal powers value false

/-- The loop of `itox` and `itooct` over the shifts. -/
def grupos (mask : UInt32) (letra : UInt8 → UInt8) (value : UInt32) : List UInt32 → Bool → List UInt8
  | [], _ => []
  | shift :: shifts, started =>
      let grupo := (value >>> shift) &&& mask
      if grupo ≠ 0 ∨ started then letra grupo.toUInt8 :: grupos mask letra value shifts true
      else grupos mask letra value shifts started

def itox (value : UInt32) : List UInt8 :=
  if value = 0 then [ch '0']
  else grupos 0xF (fun nibble => if nibble < 10 then ch '0' + nibble else ch 'a' + (nibble - 10)) value
    [28, 24, 20, 16, 12, 8, 4, 0] false

def itooct (value : UInt32) : List UInt8 :=
  if value = 0 then [ch '0']
  else grupos 0x7 (fun triplet => ch '0' + triplet) value [30, 27, 24, 21, 18, 15, 12, 9, 6, 3, 0] false

/-- `pad_zeros` on a `buffer[32]`; `none` when the `'\0'` is moved behind its end. -/
def padZeros (str : List UInt8) (width : Nat) : Option (List UInt8) :=
  if width ≤ str.length then some str
  else if width < 32 then some (List.replicate (width - str.length) (ch '0') ++ str)
  else none

end Conversions

section Directives

/-- What `printf` and `sprintf` read between `%` and the letter; `width` is an `int`. -/
structure Flags where
  zeroPad : Bool
  width : UInt32

def Flags.nenhuma : Flags := ⟨false, 0⟩

def Digito (c : UInt8) : Prop := ch '0' ≤ c ∧ c ≤ ch '9'

instance (c : UInt8) : Decidable (Digito c) := inferInstanceAs (Decidable (_ ∧ _))

def Flags.le (c : UInt8) (f : Flags) : Flags :=
  if c = ch '0' ∧ f.width = 0 then { f with zeroPad := true }
  else { f with width := f.width * 10 + (c - ch '0').toUInt32 }

/-- `width > 0` -/
def Flags.larga (f : Flags) : Prop := 0 < f.width ∧ f.width < 0x80000000

instance (f : Flags) : Decidable f.larga := inferInstanceAs (Decidable (_ ∧ _))

/-- A converted number in `buffer`, padded. -/
def numero (f : Flags) (str : List UInt8) : Option (List UInt8) :=
  if f.zeroPad ∧ f.larga then padZeros str f.width.toNat else some str

end Directives

section Printf

/-- What a directive puts out, what `chars_printed` grows by, and the words of the arguments it takes. -/
structure Efeito where
  out : List UInt8
  chars : Nat
  words : Nat

def Efeito.numero (str : List UInt8) : Efeito := ⟨str, str.length, 1⟩

variable (cstr : UInt32 → List UInt8)

def printfDefault (c : UInt8) (f : Flags) : Option Efeito :=
  let zero := if f.zeroPad then [ch '0'] else []
  if f.larga then
    let numStr := itodec f.width
    if numStr.length < 10 then some ⟨ch '%' :: zero ++ numStr ++ [c], 2 + numStr.length, 0⟩
    else none -- behind the end of `num_str[10]`
  else some ⟨ch '%' :: zero ++ [c], 2, 0⟩

def printfSwitch (c : UInt8) (f : Flags) (arg : UInt32) : Option Efeito :=
  if c = ch 'c' then some ⟨[arg.toUInt8], 1, 1⟩
  else if c = ch 'd' ∨ c = ch 'i' then (numero f (itodec arg)).map .numero
  else if c = ch 'u' then (numero f (itoudec arg)).map .numero
  else if c = ch 'f' ∨ c = ch 'F' then some ⟨[ch '[', ch 'f', ch 'l', ch 'o', ch 'a', ch 't', ch ']'], 7, 2⟩
  else if c = ch 's' then
    if arg ≠ 0 then some ⟨cstr arg, (cstr arg).length, 1⟩
    else some ⟨[ch '(', ch 'n', ch 'u', ch 'l', ch 'l', ch ')'], 6, 1⟩
  else if c = ch 'x' ∨ c = ch 'X' then (numero f (itox arg)).map .numero
  else if c = ch 'o' then (numero f (itooct arg)).map .numero
  else if c = ch '%' then some ⟨[ch '%'], 1, 0⟩
  else printfDefault c f

inductive LePrintf
  | texto
  | digitos (f : Flags)
  | letra (f : Flags)

def pula (n : Nat) (args : Nat → UInt32) : Nat → UInt32 := fun i => args (i + n)

/-- The rest of a run, from where it is in the format; `none` when it leaves the format behind its end. -/
def printfLoop : LePrintf → List UInt8 → (Nat → UInt32) → Option (List UInt8 × Nat)
  | .texto, [], _ => some ([], 0)
  | .digitos _, [], _ => none
  | .letra _, [], _ => none
  | .texto, c :: format, args =>
      if c = ch '%' then printfLoop (.digitos .nenhuma) format args
      else (printfLoop .texto format args).map fun r => (c :: r.1, 1 + r.2)
  | .digitos f, c :: format, args =>
      if Digito c then printfLoop (.digitos (f.le c)) format args
      else if c = ch 'l' then printfLoop (.letra f) format args
      else (printfSwitch cstr c f (args 0)).bind fun e =>
        (printfLoop .texto format (pula e.words args)).map fun r => (e.out ++ r.1, e.chars + r.2)
  | .letra f, c :: format, args =>
      (printfSwitch cstr c f (args 0)).bind fun e =>
        (printfLoop .texto format (pula e.words args)).map fun r => (e.out ++ r.1, e.chars + r.2)

/-- The characters put out for a format and the arguments behind it, and the count returned. -/
def printf (format : List UInt8) (args : Nat → UInt32) : Option (List UInt8 × Nat) :=
  printfLoop cstr .texto format args

end Printf

end Orion68.Stdio
