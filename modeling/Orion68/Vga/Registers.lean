import Mathlib.Data.UInt
import Mathlib.Tactic.Common

namespace Orion68.Vga

def dWriteScreen : UInt8 := 0x00
def dRegX1High : UInt8 := 0x03
def dRegX1Low : UInt8 := 0x04
def dRegY1High : UInt8 := 0x05
def dRegY1Low : UInt8 := 0x06
def dRegPrimitiveColor : UInt8 := 0x0E
def dRegWidthHigh : UInt8 := 0x0F
def dRegWidthLow : UInt8 := 0x10
def dRegHeightHigh : UInt8 := 0x11
def dRegHeightLow : UInt8 := 0x12
def dRegRaio : UInt8 := 0x13
def dSetTxtColor : UInt8 := 0x14
def dRegXHigh : UInt8 := 0x16
def dRegXLow : UInt8 := 0x17
def dRegYHigh : UInt8 := 0x18
def dRegYLow : UInt8 := 0x19
def dRegCornername : UInt8 := 0x1A
def dRegDelta : UInt8 := 0x1B
def dRunCmd : UInt8 := 0x1E

def cmdClearScreen : UInt8 := 0xA4
def cmdSetCurPos : UInt8 := 0xA3
def cmdGoHome : UInt8 := 0xA1
def cmdDrawLine : UInt8 := 0xBF
def cmdDrawVLine : UInt8 := 0xBE
def cmdDrawHLine : UInt8 := 0xBD
def cmdDrawCircle : UInt8 := 0xBC
def cmdDrawCircleHelper : UInt8 := 0xBB
def cmdDrawFillCircle : UInt8 := 0xBA
def cmdDrawFillCircleHelper : UInt8 := 0xB9
def cmdDrawRoundRect : UInt8 := 0xB8
def cmdDrawFillRoundRect : UInt8 := 0xB7
def cmdDrawFillRect : UInt8 := 0xB6
def cmdDrawFillTriangle : UInt8 := 0xB5

/-- The registers of the Pico that the 68k writes byte by byte. -/
structure Registers where
  cursorX : UInt16
  cursorY : UInt16
  cursorX1 : UInt16
  cursorY1 : UInt16
  cursorX2 : UInt16
  cursorY2 : UInt16
  textColor : UInt8
  bgColor : UInt8
  primitiveWidth : UInt16
  primitiveHeight : UInt16
  primitiveColor : UInt8
  raio : UInt16
  cornername : UInt16
  delta : UInt16

def registrosZero : Registers := ⟨0, 0, 0, 0, 0, 0, 0, 0, 0, 0, 0, 0, 0, 0⟩

/-- What a write makes the Pico call, with the arguments before they are converted to the types of
the parameters. -/
inductive Chamada
  | pchar (c : UInt8)
  | setTextColor (c b : UInt8)
  | setTextCursorPos (x y : UInt16)
  | clrscr
  | setVgaHome
  | drawLine (x0 y0 x1 y1 : UInt16) (color : UInt8)
  | drawVLine (x y h : UInt16) (color : UInt8)
  | drawHLine (x y w : UInt16) (color : UInt8)
  | drawCircle (x0 y0 r : UInt16) (color : UInt8)
  | drawCircleHelper (x0 y0 r cornername : UInt16) (color : UInt8)
  | fillCircle (x0 y0 r : UInt16) (color : UInt8)
  | fillCircleHelper (x0 y0 r cornername delta : UInt16) (color : UInt8)
  | drawRoundRect (x y w h r : UInt16) (color : UInt8)
  | fillRoundRect (x y w h r : UInt16) (color : UInt8)
  | fillRect (x y w h : UInt16) (color : UInt8)
  | fillTri (x0 y0 x1 y1 x2 y2 : UInt16) (color : UInt8)
  deriving DecidableEq

/-- `(uint16_t)(dado_m68k << 8) | (c & 0x00FF)` -/
def comAlto (dado : UInt8) (c : UInt16) : UInt16 := (dado.toUInt16 <<< 8) ||| (c &&& 0x00FF)

/-- `(c & 0xFF00) | dado_m68k` -/
def comBaixo (dado : UInt8) (c : UInt16) : UInt16 := (c &&& 0xFF00) ||| dado.toUInt16

/-- The case of `D_RUN_CMD`. -/
def runCmd (dado : UInt8) (r : Registers) : Registers × Option Chamada :=
  if dado = cmdSetCurPos then (r, some (.setTextCursorPos r.cursorX r.cursorY))
  else if dado = cmdClearScreen then ({ r with cursorX := 0, cursorY := 0 }, some .clrscr)
  else if dado = cmdGoHome then ({ r with cursorX := 0, cursorY := 0 }, some .setVgaHome)
  else (r,
    if dado = cmdDrawLine then some (.drawLine r.cursorX r.cursorY r.cursorX1 r.cursorY1 r.primitiveColor)
    else if dado = cmdDrawVLine then some (.drawVLine r.cursorX r.cursorY r.primitiveHeight r.primitiveColor)
    else if dado = cmdDrawHLine then some (.drawHLine r.cursorX r.cursorY r.primitiveWidth r.primitiveColor)
    else if dado = cmdDrawCircle then some (.drawCircle r.cursorX r.cursorY r.raio r.primitiveColor)
    else if dado = cmdDrawCircleHelper then
      some (.drawCircleHelper r.cursorX r.cursorY r.raio r.cornername r.primitiveColor)
    else if dado = cmdDrawFillCircle then some (.fillCircle r.cursorX r.cursorY r.raio r.primitiveColor)
    else if dado = cmdDrawFillCircleHelper then
      some (.fillCircleHelper r.cursorX r.cursorY r.raio r.cornername r.delta r.primitiveColor)
    else if dado = cmdDrawRoundRect then
      some (.drawRoundRect r.cursorX r.cursorY r.primitiveWidth r.primitiveHeight r.raio r.primitiveColor)
    else if dado = cmdDrawFillRoundRect then
      some (.fillRoundRect r.cursorX r.cursorY r.primitiveWidth r.primitiveHeight r.raio r.primitiveColor)
    else if dado = cmdDrawFillRect then
      some (.fillRect r.cursorX r.cursorY r.primitiveWidth r.primitiveHeight r.primitiveColor)
    else if dado = cmdDrawFillTriangle then
      some (.fillTri r.cursorX r.cursorY r.cursorX1 r.cursorY1 r.cursorX2 r.cursorY2 r.primitiveColor)
    else none)

/-- The `switch` of `gerenciar_barramento_m68k`. There is no case for the second point of a triangle's
base, `D_REG_X2_HIGH` to `D_REG_Y2_LOW`. -/
def trataRegistro (reg dado : UInt8) (r : Registers) : Registers × Option Chamada :=
  if reg = dWriteScreen then (r, some (.pchar dado))
  else if reg = dSetTxtColor then
    ({ r with bgColor := dado &&& 0x0F, textColor := (dado >>> 4) &&& 0x0F },
      some (.setTextColor ((dado >>> 4) &&& 0x0F) (dado &&& 0x0F)))
  else if reg = dRunCmd then runCmd dado r
  else (
    if reg = dRegPrimitiveColor then { r with primitiveColor := dado }
    else if reg = dRegWidthHigh then { r with primitiveWidth := comAlto dado r.cursorX }
    else if reg = dRegWidthLow then { r with primitiveWidth := comBaixo dado r.primitiveWidth }
    else if reg = dRegHeightHigh then { r with primitiveHeight := comAlto dado r.cursorX }
    else if reg = dRegHeightLow then { r with primitiveHeight := comBaixo dado r.primitiveHeight }
    else if reg = dRegXHigh then { r with cursorX := comAlto dado r.cursorX }
    else if reg = dRegXLow then { r with cursorX := comBaixo dado r.cursorX }
    else if reg = dRegYHigh then { r with cursorY := comAlto dado r.cursorY }
    else if reg = dRegYLow then { r with cursorY := comBaixo dado r.cursorY }
    else if reg = dRegX1High then { r with cursorX1 := comAlto dado r.cursorX }
    else if reg = dRegX1Low then { r with cursorX1 := comBaixo dado r.cursorX }
    else if reg = dRegY1High then { r with cursorY1 := comAlto dado r.cursorY }
    else if reg = dRegY1Low then { r with cursorY1 := comBaixo dado r.cursorY }
    else if reg = dRegRaio then { r with raio := dado.toUInt16 }
    else if reg = dRegCornername then { r with cornername := dado.toUInt16 }
    else if reg = dRegDelta then { r with delta := dado.toUInt16 }
    else r, none)

def operLeitura : UInt16 := 0x01

/-- The registers of the `switch`; the others are answered with `0xFF`. -/
def conhecidos : List UInt8 :=
  [dWriteScreen, dSetTxtColor, dRegPrimitiveColor, dRegWidthHigh, dRegWidthLow, dRegHeightHigh, dRegHeightLow,
    dRegXHigh, dRegXLow, dRegYHigh, dRegYLow, dRegX1High, dRegX1Low, dRegY1High, dRegY1Low, dRegRaio,
    dRegCornername, dRegDelta, dRunCmd]

/-- `gerenciar_barramento_m68k` for a packet from the bus, up to the call: the answer to the bus, the
registers and what is called. -/
def gerenciarBarramentoM68k (pacote : UInt16) (r : Registers) : UInt8 × Registers × Option Chamada :=
  let operacao := (pacote >>> 14) &&& 0x03
  let reg := ((pacote >>> 8) &&& 0x3F).toUInt8
  let dadoM68k := pacote.toUInt8
  let byteResposta : UInt8 := if reg ∈ conhecidos then 0x00 else 0xFF
  (if operacao = operLeitura then byteResposta else 0xA5, trataRegistro reg dadoM68k r)

/-- The packet of a write; `reg` is on the address lines A1 to A6. -/
def escrita (reg dado : UInt8) : UInt16 := (reg.toUInt16 <<< 8) ||| dado.toUInt16

theorem comAlto_toNat (dado : UInt8) (c : UInt16) : (comAlto dado c).toNat = dado.toNat * 256 + c.toNat % 256 := by
  have hmask : c.toNat &&& 0x00FF = c.toNat % 2 ^ 8 := Nat.and_two_pow_sub_one_eq_mod _ 8
  have hlt : c.toNat % 2 ^ 8 < 2 ^ 8 := Nat.mod_lt _ (by decide)
  have hdado := dado.toNat_lt
  have hshift : (dado.toUInt16 <<< 8).toNat = dado.toNat <<< 8 := by
    rw [UInt16.toNat_shiftLeft, UInt8.toNat_toUInt16]
    change (dado.toNat <<< 8) % 2 ^ 16 = _
    rw [Nat.shiftLeft_eq]
    omega
  rw [comAlto, UInt16.toNat_or, UInt16.toNat_and, hshift]
  change dado.toNat <<< 8 ||| (c.toNat &&& 0x00FF) = _
  rw [hmask, ← Nat.shiftLeft_add_eq_or_of_lt hlt, Nat.shiftLeft_eq]
  rfl

theorem comBaixo_toNat (dado : UInt8) (c : UInt16) :
    (comBaixo dado c).toNat = c.toNat / 256 * 256 + dado.toNat := by
  have hdado := dado.toNat_lt
  have hc := c.toNat_lt
  have hmask : c.toNat &&& 0xFF <<< 8 = (c.toNat / 256) <<< 8 := by
    have hhigh : (c.toNat >>> 8) &&& 0xFF = c.toNat / 256 := by
      rw [Nat.and_two_pow_sub_one_eq_mod _ 8, Nat.shiftRight_eq_div_pow]
      omega
    rw [← hhigh]
    apply Nat.eq_of_testBit_eq
    intro i
    rw [Nat.testBit_and, Nat.testBit_shiftLeft, Nat.testBit_shiftLeft, Nat.testBit_and, Nat.testBit_shiftRight]
    by_cases h : 8 ≤ i
    · simp [h]
    · simp [h]
  rw [comBaixo, UInt16.toNat_or, UInt16.toNat_and, UInt8.toNat_toUInt16]
  change (c.toNat &&& 0xFF <<< 8) ||| dado.toNat = _
  rw [hmask, ← Nat.shiftLeft_add_eq_or_of_lt hdado, Nat.shiftLeft_eq]

theorem gerencia_escrita {reg : UInt8} (h : reg.toNat < 64) (dado : UInt8) (r : Registers) :
    (gerenciarBarramentoM68k (escrita reg dado) r).2 = trataRegistro reg dado r := by
  have hreg : (escrita reg dado).toNat = reg.toNat * 256 + dado.toNat := by
    have hlt := reg.toNat_lt
    have hshift : (reg.toUInt16 <<< 8).toNat = reg.toNat <<< 8 := by
      rw [UInt16.toNat_shiftLeft, UInt8.toNat_toUInt16]
      change (reg.toNat <<< 8) % 2 ^ 16 = _
      rw [Nat.shiftLeft_eq]
      omega
    rw [escrita, UInt16.toNat_or, hshift, UInt8.toNat_toUInt16, ← Nat.shiftLeft_add_eq_or_of_lt dado.toNat_lt,
      Nat.shiftLeft_eq]
  have hdado := dado.toNat_lt
  have hr : ((escrita reg dado >>> 8) &&& 0x3F).toUInt8 = reg := by
    rw [← UInt8.toNat_inj, UInt16.toNat_toUInt8, UInt16.toNat_and, UInt16.toNat_shiftRight, hreg]
    change (((reg.toNat * 256 + dado.toNat) >>> 8) &&& 0x3F) % 2 ^ 8 = _
    rw [Nat.and_two_pow_sub_one_eq_mod _ 6, Nat.shiftRight_eq_div_pow]
    omega
  have hd : (escrita reg dado).toUInt8 = dado := by
    rw [← UInt8.toNat_inj, UInt16.toNat_toUInt8, hreg]
    omega
  rw [gerenciarBarramentoM68k, hr, hd]

end Orion68.Vga
