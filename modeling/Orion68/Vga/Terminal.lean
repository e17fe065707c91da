import Orion68.Vga.Font
import Orion68.Vga.Primitives
import Orion68.Vga.Registers

namespace Orion68.Vga

section Text

def fontWidth : Int := 8

def fontHeight : Int := 16

def tabspace : Int := 4

variable (alem : Nat → UInt8)

def drawRow (x y : Int) (currentByte color bgcolor : UInt8) (t : Tela) : Tela :=
  (List.range 8).foldl (fun t (k : Nat) =>
    drawPixel (x + k) y (if (currentByte >>> UInt8.ofNat (7 - k)) &&& 1 ≠ 0 then color else bgcolor) t) t

/-- A row of a character, whose byte is read from the font. -/
def drawCharRow (x y : Int) (charCode color bgcolor : UInt8) (t : Tela) (row : Nat) : Tela :=
  let offset := charCode.toNat * 16 + row
  drawRow x (y + row) (font8x16 alem offset) color bgcolor
    { t with foraFonte := t.foraFonte || decide (¬ offset < 2080) }

/-- `drawChar2`, which `drawChar` calls for every size of the fonts but 2, and which sets the size to 1. -/
def drawChar2 (x y : Int) (charCode color bgcolor : UInt8) (t : Tela) : Tela :=
  (List.range 16).foldl (drawCharRow alem x y charCode color bgcolor) (fillRect x y 8 16 bgcolor t)

def drawChar (c color bg : UInt8) (t : Tela) : Tela := drawChar2 alem t.cursorX t.cursorY c color bg t

def putCursor (c : UInt8) (t : Tela) : Tela :=
  if t.visible then
    if t.blink then drawChar alem (if c ≠ 0 then t.shape else 0x20) t.textcolor t.textbgcolor t
    else drawChar alem t.shape t.textcolor t.textbgcolor t
  else drawChar alem 0x20 t.textcolor t.textbgcolor t

/-- `dma_memcpy` of all but the first line of text to the front, and `memset` of the last. -/
def scrollUpGraphics (t : Tela) : Tela :=
  { t with fb := fun i => if 0 ≤ i ∧ i < txcount - 5120 then t.fb (i + 5120)
      else if txcount - 5120 ≤ i ∧ i < txcount then 0 else t.fb i }

/-- The case of `\r`, into which that of `\n` falls. -/
def retorno (t : Tela) : Tela := putCursor alem 1 { t with cursorX := 0 }

/-- The `switch` of `tft_write`. -/
def tftSwitch (c : UInt8) (t : Tela) : Tela :=
  if c = 0x0A then
    let t := putCursor alem 0 t
    retorno alem { t with cursorY := short (t.cursorY + fontHeight) }
  else if c = 0x0D then retorno alem t
  else if c = 0x08 then
    let t := putCursor alem 0 t
    let x := short (t.cursorX - fontWidth)
    putCursor alem 1 { t with cursorX := if x < 0 then 0 else x }
  else if c = 0x09 then
    let newX := t.cursorX + tabspace
    if newX < largura then { t with cursorX := short newX } else t
  else
    let t := drawChar alem c t.textcolor t.textbgcolor t
    let x := short (t.cursorX + fontWidth)
    if x ≥ largura then { t with cursorY := short (t.cursorY + fontHeight), cursorX := 0 }
    else { t with cursorX := x }

/-- The end of `tft_write`. -/
def rola (t : Tela) : Tela :=
  if t.cursorY ≥ altura then
    let t := scrollUpGraphics t
    { t with cursorX := 0, cursorY := short (t.cursorY - fontHeight) }
  else t

def tftWrite (c : UInt8) (t : Tela) : Tela := rola (tftSwitch alem c t)

def setTextCursor (x y : UInt16) (t : Tela) : Tela :=
  if (x.toNat : Int) ≥ largura ∨ (y.toNat : Int) ≥ altura then t
  else
    let pixelX := x * 8
    let pixelY := y * 16
    let pixelX := if (pixelX.toNat : Int) ≥ largura then 0 else pixelX
    let pixelY := if (pixelY.toNat : Int) ≥ altura then 0 else pixelY
    { t with cursorX := short pixelX.toNat, cursorY := short pixelY.toNat }

def clrscr (t : Tela) : Tela := { t.memset 0 0 txcount with cursorX := 0, cursorY := 0 }

def setVgaHome (t : Tela) : Tela := { setTextCursor 0 0 { t with visible := false } with visible := true }

end Text

section Bus

variable (alem : Nat → UInt8) (n : Nat)

/-- The call that a write makes; `fillTri` sorts its vertices and draws nothing. -/
def executa (c : Chamada) (t : Tela) : Option Tela :=
  match c with
  | .pchar c => some { tftWrite alem c { t with visible := false } with visible := true }
  | .setTextColor c b => some { t with textcolor := c, textbgcolor := b }
  | .setTextCursorPos x y => some (setTextCursor x y t)
  | .clrscr => some (clrscr t)
  | .setVgaHome => some (setVgaHome t)
  | .drawLine x0 y0 x1 y1 color => drawLine n x0.toNat y0.toNat x1.toNat y1.toNat color t
  | .drawVLine x y h color => drawVLine n x.toNat y.toNat h.toNat color t
  | .drawHLine x y w color => some (drawHLine x.toNat y.toNat w.toNat color t)
  | .drawCircle x0 y0 r color => drawCircle n x0.toNat y0.toNat r.toNat color t
  | .drawCircleHelper x0 y0 r cornername color =>
      drawCircleHelper n x0.toNat y0.toNat r.toNat cornername.toUInt8 color t
  | .fillCircle x0 y0 r color => some (fillCircle x0.toNat y0.toNat r.toNat color t)
  | .fillCircleHelper x0 y0 r cornername delta color =>
      fillCircleHelper n x0.toNat y0.toNat r.toNat cornername.toUInt8 delta.toNat color t
  | .drawRoundRect x y w h r color => drawRoundRect n x.toNat y.toNat w.toNat h.toNat r.toNat color t
  | .fillRoundRect x y w h r color => some (fillRoundRect x.toNat y.toNat w.toNat h.toNat r.toNat color t)
  | .fillRect x y w h color => some (fillRect x.toNat y.toNat w.toNat h.toNat color t)
  | .fillTri .. => some t

structure Video where
  registers : Registers
  tela : Tela

/-- A packet from the bus, up to the end of the command that it triggers. -/
def step (pacote : UInt16) (v : Video) : Option Video :=
  let (_, r, c) := gerenciarBarramentoM68k pacote v.registers
  match c with
  | none => some ⟨r, v.tela⟩
  | some c => (executa alem n c v.tela).map fun t => ⟨r, t⟩

end Bus

end Orion68.Vga
