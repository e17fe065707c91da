import Orion68.Rtc.Slave
import Mathlib.Logic.Function.Basic

namespace Orion68.I2cbb

open Interactions TwoWire

section Relogio

inductive Etapa
  | fora
  | registrador
  | dados
  | lendo
  deriving DecidableEq

/-- The clock, with registers 0x00 to 0x12. -/
structure Ds3231 where
  registradores : ℕ → Byte
  ponteiro : ℕ
  etapa : Etapa

/-- The bits that a register has; the others read as zero. -/
def mascara : ℕ → Byte
  | 0 | 1 | 2 => 0x7F
  | 3 => 0x07
  | 4 => 0x3F
  | 5 => 0x9F
  | _ => 0xFF

/-- The clock at its address, on a second that does not end. -/
def ds3231 : Slave Ds3231 where
  start c := { c with etapa := .fora }
  stop c := { c with etapa := .fora }
  address b c :=
    if b = 0xD0 then (true, { c with etapa := .registrador })
    else if b = 0xD1 then (true, { c with etapa := .lendo })
    else (false, c)
  receive b c :=
    match c.etapa with
    | .registrador => (true, { c with ponteiro := b.toNat % 19, etapa := .dados })
    | .dados => (true, { c with
        registradores := Function.update c.registradores c.ponteiro (b &&& mascara c.ponteiro)
        ponteiro := (c.ponteiro + 1) % 19 })
    | _ => (false, c)
  shifts c := if c.etapa = .lendo then c.registradores c.ponteiro else 0xFF
  shifted ack c :=
    if c.etapa = .lendo then { c with ponteiro := (c.ponteiro + 1) % 19, etapa := if ack then .lendo else .fora } else c

end Relogio

section Memoria

/-- How far the EEPROM is in a transfer; the address comes in two bytes. -/
inductive EtapaEeprom
  | fora
  | alto
  | baixo (alto : Byte)
  | dados
  | lendo
  deriving DecidableEq

/-- The EEPROM: what it held at first, the bytes it has written since (the last one first), and what
is left of its write cycle; `pagina` waits for the STOP. -/
structure At24c32 where
  inicial : BitVec 12 → Byte
  gravados : List (BitVec 12 × Byte)
  restante : ℕ
  ponteiro : BitVec 12
  pagina : List (BitVec 12 × Byte)
  etapa : EtapaEeprom

def At24c32.conteudo (c : At24c32) (a : BitVec 12) : Byte := (c.gravados.lookup a).getD (c.inicial a)

def proximo (a : BitVec 12) : BitVec 12 := (a &&& 0xFE0) ||| ((a + 1) &&& 0x01F)

/-- The EEPROM at its address; the write cycle that a STOP begins takes `ciclo`, and until it is over
no address is acknowledged. -/
def at24c32 (ciclo : ℕ) : Slave At24c32 where
  start c := { c with etapa := .fora, pagina := [] }
  stop c :=
    if c.pagina = [] then { c with etapa := .fora }
    else { c with gravados := c.pagina ++ c.gravados, restante := ciclo, pagina := [], etapa := .fora }
  address b c :=
    if b = 0xA0 then if c.restante = 0 then (true, { c with etapa := .alto }) else (false, c)
    else if b = 0xA1 then if c.restante = 0 then (true, { c with etapa := .lendo }) else (false, c)
    else (false, c)
  receive b c :=
    match c.etapa with
    | .alto => (true, { c with etapa := .baixo b })
    | .baixo alto => (true, { c with ponteiro := (alto ++ b).setWidth 12, etapa := .dados })
    | .dados => (true, { c with pagina := (c.ponteiro, b) :: c.pagina, ponteiro := proximo c.ponteiro })
    | _ => (false, c)
  shifts c := if c.etapa = .lendo then c.conteudo c.ponteiro else 0xFF
  shifted ack c :=
    if c.etapa = .lendo then { c with ponteiro := c.ponteiro + 1, etapa := if ack then .lendo else .fora } else c

end Memoria

abbrev Placa := Ds3231 × At24c32

def placa (ciclo : ℕ) : Slave Placa := ds3231.beside (at24c32 ciclo)

end Orion68.I2cbb
