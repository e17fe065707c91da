import Orion68.Libc.Printf

namespace Orion68.Stdio

variable (cstr : UInt32 → List UInt8)

/-- What a directive writes, and the words of the arguments it takes. -/
def sprintfSwitch (c : UInt8) (f : Flags) (arg : UInt32) : Option (List UInt8 × Nat) :=
  if c = ch 'c' then some ([arg.toUInt8], 1)
  else if c = ch 'd' ∨ c = ch 'i' then (numero f (itodec arg)).map fun str => (str, 1)
  else if c = ch 'u' then (numero f (itoudec arg)).map fun str => (str, 1)
  else if c = ch 'f' ∨ c = ch 'F' then some ([ch '[', ch 'f', ch 'l', ch 'o', ch 'a', ch 't', ch ']'], 2)
  else if c = ch 's' then
    some (if arg = 0 then [ch '(', ch 'n', ch 'u', ch 'l', ch 'l', ch ')'] else cstr arg, 1)
  else if c = ch 'x' ∨ c = ch 'X' then (numero f (itox arg)).map fun str => (str, 1)
  else if c = ch 'o' then (numero f (itooct arg)).map fun str => (str, 1)
  else if c = ch '%' then some ([ch '%'], 0)
  else some ([ch '%', c], 0)

inductive LeSprintf
  | texto
  | digitos (f : Flags)

/-- What the rest of a run writes, from where it is in the format. -/
def sprintfLoop : LeSprintf → List UInt8 → (Nat → UInt32) → Option (List UInt8)
  | .texto, [], _ => some []
  | .digitos _, [], _ => none
  | .texto, c :: format, args =>
      if c = ch '%' then sprintfLoop (.digitos .nenhuma) format args
      else (sprintfLoop .texto format args).map (c :: ·)
  | .digitos f, c :: format, args =>
      if Digito c then sprintfLoop (.digitos (f.le c)) format args
      else (sprintfSwitch cstr c f (args 0)).bind fun e =>
        (sprintfLoop .texto format (pula e.2 args)).map (e.1 ++ ·)

/-- The characters written, and `str - original_str`. -/
def sprintf (format : List UInt8) (args : Nat → UInt32) : Option (List UInt8 × Nat) :=
  (sprintfLoop cstr .texto format args).map fun out => (out, out.length)

end Orion68.Stdio
