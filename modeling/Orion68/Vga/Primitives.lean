import Orion68.Lib.Loops
import Mathlib.Data.UInt
import Mathlib.Tactic.Common

namespace Orion68.Vga

open Loops

section Memory

/-- The screen in 80 columns: 640 by 480 pixels of four bits. The bytes of `fb` from 153600 on, and those
before 0, belong to other data; `foraTela` and `foraFonte` record that the framebuffer or the font has
been accessed out of bounds. -/
structure Tela where
  fb : Int → UInt8
  cursorX : Int
  cursorY : Int
  visible : Bool
  blink : Bool
  shape : UInt8
  textcolor : UInt8
  textbgcolor : UInt8
  foraTela : Bool
  foraFonte : Bool

def txcount : Int := 153600

def largura : Int := 640

def altura : Int := 480

/-- The conversion to `short`. -/
def short (v : Int) : Int := v.bmod 65536

def Tela.poke (a : Int) (v : UInt8) (t : Tela) : Tela :=
  { t with
    fb := fun i => if i = a then v else t.fb i
    foraTela := t.foraTela || decide (¬ (0 ≤ a ∧ a < txcount)) }

def Tela.memset (a : Int) (v : UInt8) (len : Int) (t : Tela) : Tela :=
  { t with
    fb := fun i => if a ≤ i ∧ i < a + len then v else t.fb i
    foraTela := t.foraTela || decide (¬ (0 ≤ a ∧ a + len ≤ txcount)) }

end Memory

section Lines

def drawPixel (x y : Int) (color : UInt8) (t : Tela) : Tela :=
  let x := short x
  let y := short y
  if x > largura - 1 ∨ x < 0 ∨ y > altura - 1 ∨ y < 0 then t
  else
    let pixel := largura * y + x
    if pixel % 2 = 1 then t.poke (pixel / 2) ((t.fb (pixel / 2) &&& (0x0F : UInt8)) ||| (color <<< 4))
    else t.poke (pixel / 2) ((t.fb (pixel / 2) &&& (0xF0 : UInt8)) ||| color)

def drawPixels (ps : List (Int × Int)) (color : UInt8) (t : Tela) : Tela :=
  ps.foldl (fun t p => drawPixel p.1 p.2 color t) t

def drawHLine (x y w : Int) (color : UInt8) (t : Tela) : Tela :=
  if x ≥ largura ∨ y ≥ altura then t
  else
    let w := if x + w - 1 ≥ largura then largura - x - 1 else w
    let bothColor := color ||| (color <<< 4)
    let (x, w, t) := if x % 2 = 1 then (x + 1, w - 1, drawPixel x y color t) else (x, w, t)
    let (w, t) := if w % 2 = 1 then (w - 1, drawPixel (x + w - 1) y color t) else (w, t)
    let len := w / 2
    if 0 < len ∧ y < 480 then t.memset (320 * y + x / 2) bothColor len else t

variable (n : Nat)

/-- The counter is a `short`, and the bound need not be one. -/
def drawVLine (x y h : Int) (color : UInt8) (t : Tela) : Option Tela :=
  let x := short x
  let y := short y
  let h := short h
  (whileLoop (fun s : Int × Tela => decide (s.1 < y + h))
    (fun (i, t) => some (short (i + 1), drawPixel x i color t)) n (y, t)).map (·.2)

structure Bresenham where
  x0 : Int
  y0 : Int
  err : Int
  tela : Tela

def drawLine (x0 y0 x1 y1 : Int) (color : UInt8) (t : Tela) : Option Tela :=
  let (x0, y0, x1, y1) := (short x0, short y0, short x1, short y1)
  let steep := decide ((y1 - y0).natAbs > (x1 - x0).natAbs)
  let (x0, y0, x1, y1) := if steep then (y0, x0, y1, x1) else (x0, y0, x1, y1)
  let (x0, y0, x1, y1) := if x0 > x1 then (x1, y1, x0, y0) else (x0, y0, x1, y1)
  let dx := short (x1 - x0)
  let dy := short (y1 - y0).natAbs
  let ystep := if y0 < y1 then 1 else -1
  (whileLoop (fun s : Bresenham => decide (s.x0 ≤ x1))
    (fun s =>
      let t := if steep then drawPixel s.y0 s.x0 color s.tela else drawPixel s.x0 s.y0 color s.tela
      let err := short (s.err - dy)
      some (if err < 0 then ⟨short (s.x0 + 1), short (s.y0 + ystep), short (err + dx), t⟩
        else ⟨short (s.x0 + 1), s.y0, err, t⟩)) n ⟨x0, y0, dx.tdiv 2, t⟩).map (·.tela)

end Lines

section Circles

/-- The variables with which the circle functions follow an eighth of a circle. -/
structure Arco where
  f : Int
  ddFx : Int
  ddFy : Int
  x : Int
  y : Int

def Arco.inicio (r : Int) : Arco := ⟨short (1 - r), 1, short (-2 * r), 0, r⟩

def Arco.avanca (a : Arco) : Arco :=
  let a := if a.f ≥ 0 then
      { a with y := short (a.y - 1), ddFy := short (a.ddFy + 2), f := short (a.f + short (a.ddFy + 2)) }
    else a
  { a with x := short (a.x + 1), ddFx := short (a.ddFx + 2), f := short (a.f + short (a.ddFx + 2)) }

def percorre (n : Nat) (desenha : Arco → Tela → Option Tela) (r : Int) (t : Tela) : Option Tela :=
  (whileLoop (fun s : Arco × Tela => decide (s.1.x < s.1.y))
    (fun (a, t) => (desenha a.avanca t).map fun t => (a.avanca, t)) n (.inicio r, t)).map (·.2)

variable (n : Nat)

def drawCircle (x0 y0 r : Int) (color : UInt8) (t : Tela) : Option Tela :=
  let (x0, y0, r) := (short x0, short y0, short r)
  let t := drawPixels [(x0, y0 + r), (x0, y0 - r), (x0 + r, y0), (x0 - r, y0)] color t
  percorre n (fun a t => some (drawPixels
    [(x0 + a.x, y0 + a.y), (x0 - a.x, y0 + a.y), (x0 + a.x, y0 - a.y), (x0 - a.x, y0 - a.y),
      (x0 + a.y, y0 + a.x), (x0 - a.y, y0 + a.x), (x0 + a.y, y0 - a.x), (x0 - a.y, y0 - a.x)] color t)) r t

def drawCircleHelper (x0 y0 r : Int) (cornername color : UInt8) (t : Tela) : Option Tela :=
  let (x0, y0, r) := (short x0, short y0, short r)
  percorre n (fun a t => some (drawPixels (
    (if cornername &&& 0x4 ≠ 0 then [(x0 + a.x, y0 + a.y), (x0 + a.y, y0 + a.x)] else []) ++
    (if cornername &&& 0x2 ≠ 0 then [(x0 + a.x, y0 - a.y), (x0 + a.y, y0 - a.x)] else []) ++
    (if cornername &&& 0x8 ≠ 0 then [(x0 - a.y, y0 + a.x), (x0 - a.x, y0 + a.y)] else []) ++
    (if cornername &&& 0x1 ≠ 0 then [(x0 - a.y, y0 - a.x), (x0 - a.x, y0 - a.y)] else [])) color t)) r t

/-- The first loop of `sqrt_i32`, whose `b` is a power of 4, or 0 when the exponent falls below 0:
the number of powers that are not above `r`. -/
def sqrtInicio : Nat → Nat → Nat
  | 0, _ => 0
  | k + 1, r => if 4 ^ k > r then sqrtInicio k r else k + 1

/-- The second loop of `sqrt_i32`, from `b = 4 ^ (k - 1)` on. -/
def sqrtLaco : Nat → Nat → Nat → Nat
  | 0, q, _ => q
  | k + 1, q, r =>
      let b := 4 ^ k
      let t := q + b
      let q := q / 2
      if r ≥ t then sqrtLaco k (q + b) (r - t) else sqrtLaco k q r

def sqrtI32 (v : Nat) : Nat := sqrtLaco (sqrtInicio 16 v) 0 v

def fillCircle (x0 y0 r : Int) (color : UInt8) (t : Tela) : Tela :=
  let (x0, y0, r) := (short x0, short y0, short r)
  let r2 := r * r + r
  if y0 - r < 0 ∨ y0 + r > 479 then t
  else
    (List.range (r + 1).toNat).foldl (fun t (i : Nat) =>
      let dx : Int := sqrtI32 (r2 - i * i).toNat
      drawHLine (x0 - dx) (y0 - i) (2 * dx) color (drawHLine (x0 - dx) (y0 + i) (2 * dx) color t)) t

def fillCircleHelper (x0 y0 r : Int) (cornername : UInt8) (delta : Int) (color : UInt8) (t : Tela) : Option Tela :=
  let (x0, y0, r, delta) := (short x0, short y0, short r, short delta)
  percorre n (fun a t =>
    (if cornername &&& 0x1 ≠ 0 then
      (drawVLine n (x0 + a.x) (y0 - a.y) (2 * a.y + 1 + delta) color t).bind
        (drawVLine n (x0 + a.y) (y0 - a.x) (2 * a.x + 1 + delta) color)
    else some t).bind fun t =>
    if cornername &&& 0x2 ≠ 0 then
      (drawVLine n (x0 - a.x) (y0 - a.y) (2 * a.y + 1 + delta) color t).bind
        (drawVLine n (x0 - a.y) (y0 - a.x) (2 * a.x + 1 + delta) color)
    else some t) r t

end Circles

section Rectangles

def fillRect (x y w h : Int) (color : UInt8) (t : Tela) : Tela :=
  let (x, y, w, h) := (short x, short y, short w, short h)
  if x ≥ largura ∨ y ≥ altura then t
  else (List.range h.toNat).foldl (fun t (j : Nat) => drawHLine x (y + j) w color t) t

def drawRoundRect (n : Nat) (x y w h r : Int) (color : UInt8) (t : Tela) : Option Tela := do
  let (x, y, w, h, r) := (short x, short y, short w, short h, short r)
  let t := drawHLine (x + r) y (w - 2 * r) color t
  let t := drawHLine (x + r) (y + h - 1) (w - 2 * r) color t
  let t ← drawVLine n x (y + r) (h - 2 * r) color t
  let t ← drawVLine n (x + w - 1) (y + r) (h - 2 * r) color t
  let t ← drawCircleHelper n (x + r) (y + r) r 1 color t
  let t ← drawCircleHelper n (x + w - r - 1) (y + r) r 2 color t
  let t ← drawCircleHelper n (x + w - r - 1) (y + h - r - 1) r 4 color t
  drawCircleHelper n (x + r) (y + h - r - 1) r 8 color t

def fillRoundRect (x y w h r : Int) (color : UInt8) (t : Tela) : Tela :=
  let (x, y, w, h, r) := (short x, short y, short w, short h, short r)
  let t := fillRect x (y + r) w (h - 2 * r) color t
  let t := fillRect (x + r) y (w - 2 * r) r color t
  let t := fillRect (x + r) (y + h - r) (w - 2 * r) r color t
  let t := fillCircle (x + w - r) (y + r) (r - 1) color t
  let t := fillCircle (x + r) (y + r) (r - 1) color t
  let t := fillCircle (x + w - r) (y + h - r) (r - 1) color t
  fillCircle (x + r) (y + h - r) (r - 1) color t

end Rectangles

end Orion68.Vga
