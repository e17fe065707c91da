import Orion68.Vga.Registers

namespace Orion68.VgaTrap

open Vga

section Handler

def regX1High : UInt8 := 0x03 * 2 + 1
def regX1Low : UInt8 := 0x04 * 2 + 1
def regY1High : UInt8 := 0x05 * 2 + 1
def regY1Low : UInt8 := 0x06 * 2 + 1
def regX2High : UInt8 := 0x07 * 2 + 1
def regX2Low : UInt8 := 0x08 * 2 + 1
def regY2High : UInt8 := 0x09 * 2 + 1
def regY2Low : UInt8 := 0x0A * 2 + 1
def regPrimitiveColor : UInt8 := 0x0E * 2 + 1
def regWidthHigh : UInt8 := 0x0F * 2 + 1
def regWidthLow : UInt8 := 0x10 * 2 + 1
def regHeightHigh : UInt8 := 0x11 * 2 + 1
def regHeightLow : UInt8 := 0x12 * 2 + 1
def regRaio : UInt8 := 0x13 * 2 + 1
def regSetTxtColor : UInt8 := 0x29
def regXHigh : UInt8 := 0x16 * 2 + 1
def regXLow : UInt8 := 0x17 * 2 + 1
def regYHigh : UInt8 := 0x18 * 2 + 1
def regYLow : UInt8 := 0x19 * 2 + 1
def regCornername : UInt8 := 0x1A * 2 + 1
def regDelta : UInt8 := 0x1B * 2 + 1
def regRunCmd : UInt8 := 0x3D

/-- The data registers of the 68k when it traps. -/
structure Dados where
  d0 : UInt32
  d1 : UInt32
  d2 : UInt32
  d3 : UInt32
  d4 : UInt32
  d5 : UInt32
  d6 : UInt32
  d7 : UInt32

/-- `lsr.w #8` -/
def lsrw8 (d : UInt32) : UInt32 := (d &&& (0xFFFF0000 : UInt32)) ||| (d.toUInt16 >>> 8).toUInt32

/-- `move.b`, `lsr.w`, `move.b`: each write is an offset from `PICO_VGA_BASE` and a byte. No handler
uses a register again that it has shifted. -/
def movePar (baixo alto : UInt8) (d : UInt32) : List (UInt8 × UInt8) :=
  [(baixo, d.toUInt8), (alto, (lsrw8 d).toUInt8)]

def vidGotoxy (d : Dados) : List (UInt8 × UInt8) :=
  movePar regXLow regXHigh d.d0 ++ movePar regYLow regYHigh d.d2 ++ [(regRunCmd, cmdSetCurPos)]

def vidClrscr : List (UInt8 × UInt8) := [(regRunCmd, cmdClearScreen)]

def vidGohome : List (UInt8 × UInt8) := [(regRunCmd, cmdGoHome)]

def vidSetcolor (d : Dados) : List (UInt8 × UInt8) := [(regSetTxtColor, d.d0.toUInt8)]

def vidInicio (d : Dados) : List (UInt8 × UInt8) :=
  (regPrimitiveColor, d.d0.toUInt8) :: (movePar regXLow regXHigh d.d2 ++ movePar regYLow regYHigh d.d3)

def vidDrawVLine (d : Dados) : List (UInt8 × UInt8) :=
  vidInicio d ++ movePar regHeightLow regHeightHigh d.d4 ++ [(regRunCmd, cmdDrawVLine)]

def vidDrawHLine (d : Dados) : List (UInt8 × UInt8) :=
  vidInicio d ++ movePar regWidthLow regWidthHigh d.d4 ++ [(regRunCmd, cmdDrawHLine)]

def vidDrawLine (d : Dados) : List (UInt8 × UInt8) :=
  vidInicio d ++ movePar regX1Low regX1High d.d4 ++ movePar regY1Low regY1High d.d5 ++ [(regRunCmd, cmdDrawLine)]

def vidDrawCircle (d : Dados) : List (UInt8 × UInt8) :=
  vidInicio d ++ [(regRaio, d.d4.toUInt8), (regRunCmd, cmdDrawCircle)]

def vidDrawCircleHelper (d : Dados) : List (UInt8 × UInt8) :=
  vidInicio d ++ [(regRaio, d.d4.toUInt8), (regCornername, d.d5.toUInt8), (regRunCmd, cmdDrawCircleHelper)]

def vidFillCircle (d : Dados) : List (UInt8 × UInt8) :=
  vidInicio d ++ [(regRaio, d.d4.toUInt8), (regRunCmd, cmdDrawFillCircle)]

def vidFillCircleHelper (d : Dados) : List (UInt8 × UInt8) :=
  vidInicio d ++ [(regRaio, d.d4.toUInt8), (regCornername, d.d5.toUInt8), (regDelta, d.d6.toUInt8),
    (regRunCmd, cmdDrawFillCircleHelper)]

def moveTamanho (d : Dados) : List (UInt8 × UInt8) :=
  movePar regWidthLow regWidthHigh d.d4 ++ movePar regHeightLow regHeightHigh d.d5

def vidDrawRoundRect (d : Dados) : List (UInt8 × UInt8) :=
  vidInicio d ++ moveTamanho d ++ [(regRaio, d.d6.toUInt8), (regRunCmd, cmdDrawRoundRect)]

def vidFillRoundRect (d : Dados) : List (UInt8 × UInt8) :=
  vidInicio d ++ moveTamanho d ++ [(regRaio, d.d6.toUInt8), (regRunCmd, cmdDrawFillRoundRect)]

def vidFillRect (d : Dados) : List (UInt8 × UInt8) :=
  vidInicio d ++ moveTamanho d ++ [(regRunCmd, cmdDrawFillRect)]

def vidFillTri (d : Dados) : List (UInt8 × UInt8) :=
  vidInicio d ++ movePar regX1Low regX1High d.d4 ++ movePar regY1Low regY1High d.d5 ++
    movePar regX2Low regX2High d.d6 ++ movePar regY2Low regY2High d.d7 ++ [(regRunCmd, cmdDrawFillTriangle)]

/-- `Trap2Handler`: the function is the low word of D1, and `vid_writechar` writes nothing. -/
def trap2Handler (d : Dados) : List (UInt8 × UInt8) :=
  match d.d1.toUInt16.toNat with
  | 2 => vidGotoxy d
  | 3 => vidClrscr
  | 4 => vidGohome
  | 5 => vidSetcolor d
  | 6 => vidDrawVLine d
  | 7 => vidDrawHLine d
  | 8 => vidDrawLine d
  | 9 => vidDrawCircle d
  | 10 => vidDrawCircleHelper d
  | 11 => vidFillCircle d
  | 12 => vidFillCircleHelper d
  | 13 => vidDrawRoundRect d
  | 14 => vidFillRoundRect d
  | 15 => vidFillRect d
  | 16 => vidFillTri d
  | _ => []

/-- The packets of the writes: A1 to A6 of the address choose the register. -/
def pacotes (d : Dados) : List UInt16 := (trap2Handler d).map fun (desvio, dado) => escrita (desvio >>> 1) dado

/-- The Pico takes the packets one by one: the registers and the calls. -/
def recebe : List UInt16 → Registers → Registers × List Chamada
  | [], r => (r, [])
  | p :: ps, r =>
      let (_, r, c) := gerenciarBarramentoM68k p r
      let (r, cs) := recebe ps r
      (r, c.toList ++ cs)

end Handler

section Writes

def MesmoBaixo (a b : UInt16) : Prop := a.toUInt8 = b.toUInt8

instance (a b : UInt16) : Decidable (MesmoBaixo a b) := inferInstanceAs (Decidable (_ = _))

variable {reg dado : UInt8} {r r' : Registers}

theorem recebe_of_gerencia {p : UInt16} {c : Option Chamada} (h : (gerenciarBarramentoM68k p r).2 = (r', c))
    (ps : List UInt16) : recebe (p :: ps) r = ((recebe ps r').1, c.toList ++ (recebe ps r').2) := by
  have hcons : recebe (p :: ps) r = ((recebe ps (gerenciarBarramentoM68k p r).2.1).1,
      (gerenciarBarramentoM68k p r).2.2.toList ++ (recebe ps (gerenciarBarramentoM68k p r).2.1).2) := rfl
  rw [hcons, h]

def recebeEscritas (es : List (UInt8 × UInt8)) (r : Registers) : Registers × List Chamada :=
  recebe (es.map fun (desvio, dado) => escrita (desvio >>> 1) dado) r

theorem escreve_registro {desvio : UInt8} (hreg : (desvio >>> 1).toNat < 64)
    (h : trataRegistro (desvio >>> 1) dado r = (r', none)) (es : List (UInt8 × UInt8)) :
    recebeEscritas ((desvio, dado) :: es) r = recebeEscritas es r' := by
  rw [recebeEscritas, List.map_cons, recebe_of_gerencia ((gerencia_escrita hreg dado r).trans h)]
  rfl

theorem escreve_comando (dado : UInt8) (r : Registers) :
    (recebeEscritas [(regRunCmd, dado)] r).2 = (runCmd dado r).2.toList := by
  have hrun : (gerenciarBarramentoM68k (escrita (regRunCmd >>> 1) dado) r).2 = runCmd dado r :=
    gerencia_escrita (by decide) dado r
  rw [recebeEscritas, List.map_cons, recebe_of_gerencia hrun]
  exact List.append_nil _

theorem lsrw8_toNat (v : UInt32) : (lsrw8 v).toUInt8.toNat = v.toUInt16.toNat / 256 := by
  have hlt := v.toUInt16.toNat_lt
  have hhigh : (v.toUInt16 >>> 8).toUInt32.toNat = v.toUInt16.toNat / 256 := by
    rw [UInt16.toNat_toUInt32, UInt16.toNat_shiftRight]
    change v.toUInt16.toNat >>> 8 = _
    rw [Nat.shiftRight_eq_div_pow]
  have hmask : (0xFFFF0000 : Nat) % 2 ^ 8 = 0 := rfl
  rw [lsrw8, UInt32.toNat_toUInt8, UInt32.toNat_or, UInt32.toNat_and, hhigh, Nat.or_mod_two_pow]
  change (v.toNat &&& 0xFFFF0000) % 2 ^ 8 ||| v.toUInt16.toNat / 256 % 2 ^ 8 = _
  rw [Nat.and_mod_two_pow, hmask, Nat.and_zero, Nat.zero_or]
  omega

theorem toUInt8_toNat (v : UInt32) : v.toUInt8.toNat = v.toUInt16.toNat % 256 := by
  rw [UInt32.toNat_toUInt8, UInt32.toNat_toUInt16]
  omega

theorem comAlto_comBaixo (v : UInt32) (c : UInt16) :
    comAlto (lsrw8 v).toUInt8 (comBaixo v.toUInt8 c) = v.toUInt16 := by
  have hlt := v.toUInt16.toNat_lt
  rw [← UInt16.toNat_inj, comAlto_toNat, comBaixo_toNat, lsrw8_toNat, toUInt8_toNat]
  omega

theorem mesmoBaixo_iff {a b : UInt16} : MesmoBaixo a b ↔ a.toNat % 256 = b.toNat % 256 := by
  rw [MesmoBaixo, ← UInt8.toNat_inj, UInt16.toNat_toUInt8, UInt16.toNat_toUInt8]

/-- A word whose low byte is taken from another register. -/
def mistura (w c : UInt16) : UInt16 := comAlto (w >>> 8).toUInt8 c

theorem mistura_toNat (w c : UInt16) : (mistura w c).toNat = w.toNat / 256 * 256 + c.toNat % 256 := by
  have hlt := w.toNat_lt
  have hhigh : (w >>> 8).toUInt8.toNat = w.toNat / 256 := by
    rw [UInt16.toNat_toUInt8, UInt16.toNat_shiftRight]
    change w.toNat >>> 8 % 2 ^ 8 = _
    rw [Nat.shiftRight_eq_div_pow]
    omega
  rw [mistura, comAlto_toNat, hhigh]

theorem comAlto_lsrw8 (v : UInt32) (c : UInt16) : comAlto (lsrw8 v).toUInt8 c = mistura v.toUInt16 c := by
  rw [← UInt16.toNat_inj, comAlto_toNat, lsrw8_toNat, mistura_toNat]

theorem mistura_eq_iff {w c : UInt16} : mistura w c = w ↔ MesmoBaixo w c := by
  rw [mesmoBaixo_iff, ← UInt16.toNat_inj, mistura_toNat]
  omega

variable (v : UInt32) (es : List (UInt8 × UInt8)) (r : Registers)

theorem escreve_par {baixo alto : UInt8} {u w : Registers} (hb : (baixo >>> 1).toNat < 64)
    (ha : (alto >>> 1).toNat < 64) (h₁ : trataRegistro (baixo >>> 1) v.toUInt8 r = (u, none))
    (h₂ : trataRegistro (alto >>> 1) (lsrw8 v).toUInt8 u = (w, none)) :
    recebeEscritas (movePar baixo alto v ++ es) r = recebeEscritas es w := by
  rw [movePar, List.cons_append, List.cons_append, List.nil_append, escreve_registro hb h₁, escreve_registro ha h₂]

theorem escreve_x : recebeEscritas (movePar regXLow regXHigh v ++ es) r =
    recebeEscritas es { r with cursorX := v.toUInt16 } := by
  rw [← comAlto_comBaixo v r.cursorX]
  exact escreve_par v es r (by decide) (by decide) (u := { r with cursorX := comBaixo v.toUInt8 r.cursorX }) rfl rfl

theorem escreve_y : recebeEscritas (movePar regYLow regYHigh v ++ es) r =
    recebeEscritas es { r with cursorY := v.toUInt16 } := by
  rw [← comAlto_comBaixo v r.cursorY]
  exact escreve_par v es r (by decide) (by decide) (u := { r with cursorY := comBaixo v.toUInt8 r.cursorY }) rfl rfl

theorem escreve_largura : recebeEscritas (movePar regWidthLow regWidthHigh v ++ es) r =
    recebeEscritas es { r with primitiveWidth := mistura v.toUInt16 r.cursorX } := by
  rw [← comAlto_lsrw8]
  exact escreve_par v es r (by decide) (by decide)
    (u := { r with primitiveWidth := comBaixo v.toUInt8 r.primitiveWidth }) rfl rfl

theorem escreve_altura : recebeEscritas (movePar regHeightLow regHeightHigh v ++ es) r =
    recebeEscritas es { r with primitiveHeight := mistura v.toUInt16 r.cursorX } := by
  rw [← comAlto_lsrw8]
  exact escreve_par v es r (by decide) (by decide)
    (u := { r with primitiveHeight := comBaixo v.toUInt8 r.primitiveHeight }) rfl rfl

theorem escreve_x1 : recebeEscritas (movePar regX1Low regX1High v ++ es) r =
    recebeEscritas es { r with cursorX1 := mistura v.toUInt16 r.cursorX } := by
  rw [← comAlto_lsrw8]
  exact escreve_par v es r (by decide) (by decide) (u := { r with cursorX1 := comBaixo v.toUInt8 r.cursorX }) rfl rfl

theorem escreve_y1 : recebeEscritas (movePar regY1Low regY1High v ++ es) r =
    recebeEscritas es { r with cursorY1 := mistura v.toUInt16 r.cursorY } := by
  rw [← comAlto_lsrw8]
  exact escreve_par v es r (by decide) (by decide) (u := { r with cursorY1 := comBaixo v.toUInt8 r.cursorY }) rfl rfl

theorem escreve_x2 : recebeEscritas (movePar regX2Low regX2High v ++ es) r = recebeEscritas es r :=
  escreve_par v es r (by decide) (by decide) (u := r) rfl rfl

theorem escreve_y2 : recebeEscritas (movePar regY2Low regY2High v ++ es) r = recebeEscritas es r :=
  escreve_par v es r (by decide) (by decide) (u := r) rfl rfl

theorem escreve_raio (dado : UInt8) : recebeEscritas ((regRaio, dado) :: es) r =
    recebeEscritas es { r with raio := dado.toUInt16 } := by
  exact escreve_registro (by decide) rfl es

theorem escreve_cornername (dado : UInt8) : recebeEscritas ((regCornername, dado) :: es) r =
    recebeEscritas es { r with cornername := dado.toUInt16 } := by
  exact escreve_registro (by decide) rfl es

theorem escreve_delta (dado : UInt8) : recebeEscritas ((regDelta, dado) :: es) r =
    recebeEscritas es { r with delta := dado.toUInt16 } := by
  exact escreve_registro (by decide) rfl es

theorem escreve_inicio (d : Dados) : recebeEscritas (vidInicio d ++ es) r =
    recebeEscritas es { r with
      primitiveColor := d.d0.toUInt8
      cursorX := d.d2.toUInt16
      cursorY := d.d3.toUInt16 } := by
  have hcolor : trataRegistro (regPrimitiveColor >>> 1) d.d0.toUInt8 r =
      ({ r with primitiveColor := d.d0.toUInt8 }, none) := rfl
  rw [vidInicio, List.cons_append, escreve_registro (by decide) hcolor, List.append_assoc, escreve_x, escreve_y]

theorem escreve_tamanho (d : Dados) : recebeEscritas (moveTamanho d ++ es) r =
    recebeEscritas es { r with
      primitiveWidth := mistura d.d4.toUInt16 r.cursorX
      primitiveHeight := mistura d.d5.toUInt16 r.cursorX } := by
  rw [moveTamanho, List.append_assoc, escreve_largura, escreve_altura]

end Writes

/-- What a drawing trap asks for: coordinates and sizes are words, the rest are bytes. -/
def Dados.pedida (d : Dados) : Option Chamada :=
  let color := d.d0.toUInt8
  let x := d.d2.toUInt16
  let y := d.d3.toUInt16
  match d.d1.toUInt16.toNat with
  | 6 => some (.drawVLine x y d.d4.toUInt16 color)
  | 7 => some (.drawHLine x y d.d4.toUInt16 color)
  | 8 => some (.drawLine x y d.d4.toUInt16 d.d5.toUInt16 color)
  | 9 => some (.drawCircle x y d.d4.toUInt8.toUInt16 color)
  | 10 => some (.drawCircleHelper x y d.d4.toUInt8.toUInt16 d.d5.toUInt8.toUInt16 color)
  | 11 => some (.fillCircle x y d.d4.toUInt8.toUInt16 color)
  | 12 =>
      some (.fillCircleHelper x y d.d4.toUInt8.toUInt16 d.d5.toUInt8.toUInt16 d.d6.toUInt8.toUInt16 color)
  | 13 => some (.drawRoundRect x y d.d4.toUInt16 d.d5.toUInt16 d.d6.toUInt8.toUInt16 color)
  | 14 => some (.fillRoundRect x y d.d4.toUInt16 d.d5.toUInt16 d.d6.toUInt8.toUInt16 color)
  | 15 => some (.fillRect x y d.d4.toUInt16 d.d5.toUInt16 color)
  | 16 => some (.fillTri x y d.d4.toUInt16 d.d5.toUInt16 d.d6.toUInt16 d.d7.toUInt16 color)
  | _ => none

section Library

/-- A `char` is signed on the 68k. -/
def charEstendido (c : UInt8) : UInt32 := if c < 0x80 then c.toUInt32 else c.toUInt32 ||| 0xFFFFFF00

/-- The registers with which the drawing functions of `libvideo` trap; there is none for triangles.
`lixo` is in the registers that they leave alone. -/
def libvideo (lixo : Dados) : Chamada → Option Dados
  | .drawVLine x y h color =>
      some { lixo with
        d0 := charEstendido color, d1 := 6, d2 := x.toUInt32, d3 := y.toUInt32, d4 := h.toUInt32 }
  | .drawHLine x y w color =>
      some { lixo with d0 := color.toUInt32, d1 := 7, d2 := x.toUInt32, d3 := y.toUInt32, d4 := w.toUInt32 }
  | .drawLine x0 y0 x1 y1 color =>
      some { lixo with
        d0 := charEstendido color, d1 := 8, d2 := x0.toUInt32, d3 := y0.toUInt32, d4 := x1.toUInt32
        d5 := y1.toUInt32 }
  | .drawCircle x0 y0 r color =>
      some { lixo with
        d0 := charEstendido color, d1 := 9, d2 := x0.toUInt32, d3 := y0.toUInt32, d4 := r.toUInt32 }
  | .drawCircleHelper x0 y0 r cornername color =>
      some { lixo with
        d0 := charEstendido color, d1 := 10, d2 := x0.toUInt32, d3 := y0.toUInt32, d4 := r.toUInt32
        d5 := cornername.toUInt32 }
  | .fillCircle x0 y0 r color =>
      some { lixo with
        d0 := charEstendido color, d1 := 11, d2 := x0.toUInt32, d3 := y0.toUInt32, d4 := r.toUInt32 }
  | .fillCircleHelper x0 y0 r cornername delta color =>
      some { lixo with
        d0 := charEstendido color, d1 := 12, d2 := x0.toUInt32, d3 := y0.toUInt32, d4 := r.toUInt32
        d5 := cornername.toUInt32, d6 := delta.toUInt32 }
  | .drawRoundRect x y w h r color =>
      some { lixo with
        d0 := charEstendido color, d1 := 13, d2 := x.toUInt32, d3 := y.toUInt32, d4 := w.toUInt32
        d5 := h.toUInt32, d6 := r.toUInt32 }
  | .fillRoundRect x y w h r color =>
      some { lixo with
        d0 := charEstendido color, d1 := 14, d2 := x.toUInt32, d3 := y.toUInt32, d4 := w.toUInt32
        d5 := h.toUInt32, d6 := r.toUInt32 }
  | .fillRect x y w h color =>
      some { lixo with
        d0 := color.toUInt32, d1 := 15, d2 := x.toUInt32, d3 := y.toUInt32, d4 := w.toUInt32, d5 := h.toUInt32 }
  | _ => none

/-- Radius, corner and delta fit in the bytes in which they are sent. -/
def EmBytes : Chamada → Prop
  | .drawCircle _ _ r _ | .fillCircle _ _ r _ | .drawRoundRect _ _ _ _ r _ | .fillRoundRect _ _ _ _ r _ =>
      r.toNat < 256
  | .drawCircleHelper _ _ r cornername _ => r.toNat < 256 ∧ cornername.toNat < 256
  | .fillCircleHelper _ _ r cornername delta _ => r.toNat < 256 ∧ cornername.toNat < 256 ∧ delta.toNat < 256
  | _ => True

theorem toUInt8_charEstendido (c : UInt8) : (charEstendido c).toUInt8 = c := by
  rw [charEstendido]
  split
  · exact UInt8.toUInt8_toUInt32 c
  · rw [UInt32.toUInt8_or, UInt8.toUInt8_toUInt32]
    exact UInt8.or_zero

theorem mod_256 {b : UInt16} (h : b.toNat < 256) : b % 256 = b := by
  rw [← UInt16.toNat_inj, UInt16.toNat_mod]
  exact Nat.mod_eq_of_lt h

theorem libvideo_pedida {lixo d : Dados} {c : Chamada} (h : libvideo lixo c = some d) (hb : EmBytes c) :
    d.pedida = some c := by
  cases c with
  | drawVLine | drawHLine | drawLine | fillRect =>
      cases h
      simp [Dados.pedida, toUInt8_charEstendido]
  | drawCircle | fillCircle | drawRoundRect | fillRoundRect =>
      cases h
      simp [Dados.pedida, toUInt8_charEstendido, mod_256 hb]
  | drawCircleHelper =>
      cases h
      simp [Dados.pedida, toUInt8_charEstendido, mod_256 hb.1, mod_256 hb.2]
  | fillCircleHelper =>
      cases h
      simp [Dados.pedida, toUInt8_charEstendido, mod_256 hb.1, mod_256 hb.2.1, mod_256 hb.2.2]
  | pchar | setTextColor | setTextCursorPos | clrscr | setVgaHome | fillTri => cases h

end Library

/-- The arguments that come through although the Pico merges them with the wrong registers. -/
def Exata (r : Registers) : Chamada → Prop
  | .drawVLine x _ h _ => MesmoBaixo h x
  | .drawHLine x _ w _ => MesmoBaixo w x
  | .drawLine x0 y0 x1 y1 _ => MesmoBaixo x1 x0 ∧ MesmoBaixo y1 y0
  | .drawRoundRect x _ w h _ _ | .fillRoundRect x _ w h _ _ | .fillRect x _ w h _ =>
      MesmoBaixo w x ∧ MesmoBaixo h x
  | .fillTri x0 y0 x1 y1 x2 y2 _ =>
      MesmoBaixo x1 x0 ∧ MesmoBaixo y1 y0 ∧ r.cursorX2 = x2 ∧ r.cursorY2 = y2
  | _ => True

/-- The call with the arguments that the Pico puts together from the bytes. -/
def recebida (r : Registers) : Chamada → Chamada
  | .drawVLine x y h color => .drawVLine x y (mistura h x) color
  | .drawHLine x y w color => .drawHLine x y (mistura w x) color
  | .drawLine x0 y0 x1 y1 color => .drawLine x0 y0 (mistura x1 x0) (mistura y1 y0) color
  | .drawRoundRect x y w h raio color => .drawRoundRect x y (mistura w x) (mistura h x) raio color
  | .fillRoundRect x y w h raio color => .fillRoundRect x y (mistura w x) (mistura h x) raio color
  | .fillRect x y w h color => .fillRect x y (mistura w x) (mistura h x) color
  | .fillTri x0 y0 x1 y1 _ _ color => .fillTri x0 y0 (mistura x1 x0) (mistura y1 y0) r.cursorX2 r.cursorY2 color
  | c => c

section Handlers

variable {d : Dados} {c : Chamada}

theorem recebida_eq_iff {r : Registers} : recebida r c = c ↔ Exata r c := by
  cases c with
  | drawVLine | drawHLine | drawLine | drawRoundRect | fillRoundRect | fillRect | fillTri =>
      simp [recebida, Exata, mistura_eq_iff]
  | _ => exact iff_of_true rfl trivial

theorem trap2Handler_runs (h : d.pedida = some c) (r : Registers) :
    (recebeEscritas (trap2Handler d) r).2 = [recebida r c] := by
  rw [Dados.pedida] at h
  split at h
  next heq =>
    cases h
    simp only [trap2Handler, heq]
    rw [vidDrawVLine, List.append_assoc, escreve_inicio, escreve_altura, escreve_comando]
    rfl
  next heq =>
    cases h
    simp only [trap2Handler, heq]
    rw [vidDrawHLine, List.append_assoc, escreve_inicio, escreve_largura, escreve_comando]
    rfl
  next heq =>
    cases h
    simp only [trap2Handler, heq]
    rw [vidDrawLine, List.append_assoc, List.append_assoc, escreve_inicio, escreve_x1, escreve_y1, escreve_comando]
    rfl
  next heq =>
    cases h
    simp only [trap2Handler, heq]
    rw [vidDrawCircle, escreve_inicio, escreve_raio, escreve_comando]
    rfl
  next heq =>
    cases h
    simp only [trap2Handler, heq]
    rw [vidDrawCircleHelper, escreve_inicio, escreve_raio, escreve_cornername, escreve_comando]
    rfl
  next heq =>
    cases h
    simp only [trap2Handler, heq]
    rw [vidFillCircle, escreve_inicio, escreve_raio, escreve_comando]
    rfl
  next heq =>
    cases h
    simp only [trap2Handler, heq]
    rw [vidFillCircleHelper, escreve_inicio, escreve_raio, escreve_cornername, escreve_delta, escreve_comando]
    rfl
  next heq =>
    cases h
    simp only [trap2Handler, heq]
    rw [vidDrawRoundRect, List.append_assoc, escreve_inicio, escreve_tamanho, escreve_raio, escreve_comando]
    rfl
  next heq =>
    cases h
    simp only [trap2Handler, heq]
    rw [vidFillRoundRect, List.append_assoc, escreve_inicio, escreve_tamanho, escreve_raio, escreve_comando]
    rfl
  next heq =>
    cases h
    simp only [trap2Handler, heq]
    rw [vidFillRect, List.append_assoc, escreve_inicio, escreve_tamanho, escreve_comando]
    rfl
  next heq =>
    cases h
    simp only [trap2Handler, heq]
    rw [vidFillTri, List.append_assoc, List.append_assoc, List.append_assoc, List.append_assoc,
      escreve_inicio, escreve_x1, escreve_y1, escreve_x2, escreve_y2, escreve_comando]
    rfl
  next => cases h

/-- The primitive runs with the arguments of the trap exactly when the low bytes that the Pico takes
from other registers happen to agree. -/
theorem trap_runs_iff {d : Dados} {c : Chamada} (h : d.pedida = some c) (r : Registers) :
    (recebe (pacotes d) r).2 = [c] ↔ Exata r c := by
  change (recebeEscritas (trap2Handler d) r).2 = [c] ↔ Exata r c
  rw [trap2Handler_runs h, List.singleton_inj, recebida_eq_iff]

theorem hline_272_runs :
    (recebe (pacotes ⟨3, 7, 16, 5, 272, 0, 0, 0⟩) registrosZero).2 = [.drawHLine 16 5 272 3] :=
  (trap_runs_iff (by decide) registrosZero).mpr rfl

/-- A line of 100 pixels from column 16 is drawn with 16 pixels. -/
theorem hline_100_cut :
    Dados.pedida ⟨3, 7, 16, 5, 100, 0, 0, 0⟩ = some (.drawHLine 16 5 100 3) ∧
      (recebe (pacotes ⟨3, 7, 16, 5, 100, 0, 0, 0⟩) registrosZero).2 = [.drawHLine 16 5 16 3] := by
  decide

end Handlers

end Orion68.VgaTrap
