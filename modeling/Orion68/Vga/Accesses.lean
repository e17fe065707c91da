import Orion68.Vga.Terminal
import Mathlib.Data.Nat.Sqrt
import Mathlib.Tactic.Linarith
import Mathlib.Tactic.Positivity
import Mathlib.Tactic.Ring

namespace Orion68.VgaAccesses

open Loops Vga

section Frame

/-- Only the framebuffer has changed; on the way the framebuffer (`b`) or the font (`f`) has been
accessed out of bounds. -/
def Muda (b f : Bool) (t t' : Tela) : Prop :=
  t' = { t with fb := t'.fb, foraTela := t.foraTela || b, foraFonte := t.foraFonte || f }

variable {b b' f f' : Bool} {t u v : Tela}

theorem Muda.refl (t : Tela) : Muda false false t t := by
  simp [Muda]

theorem Muda.trans (h : Muda b f t u) (h' : Muda b' f' u v) : Muda (b || b') (f || f') t v := by
  rw [Muda] at h'
  rw [Muda, h', h]
  simp [Bool.or_assoc]

theorem Muda.cursorX (h : Muda b f t u) : u.cursorX = t.cursorX := by rw [h]

theorem Muda.cursorY (h : Muda b f t u) : u.cursorY = t.cursorY := by rw [h]

theorem Muda.visible (h : Muda b f t u) : u.visible = t.visible := by rw [h]

theorem Muda.textcolor (h : Muda b f t u) : u.textcolor = t.textcolor := by rw [h]

theorem Muda.textbgcolor (h : Muda b f t u) : u.textbgcolor = t.textbgcolor := by rw [h]

theorem Muda.foraTela (h : Muda b f t u) : u.foraTela = (t.foraTela || b) := by rw [h]

theorem Muda.foraFonte (h : Muda b f t u) : u.foraFonte = (t.foraFonte || f) := by rw [h]

theorem foldl_muda {ι : Type} {bs fs : ι → Bool} {g : Tela → ι → Tela} {l : List ι}
    (h : ∀ t i, i ∈ l → Muda (bs i) (fs i) t (g t i)) (t : Tela) : Muda (l.any bs) (l.any fs) t (l.foldl g t) := by
  induction l generalizing t with
  | nil => exact .refl t
  | cons i l ih =>
      have hrest := ih fun t j hj => h t j (List.mem_cons_of_mem i hj)
      exact (h t i List.mem_cons_self).trans (hrest (g t i))

theorem poke_muda (a : Int) (w : UInt8) (t : Tela) :
    Muda (decide (¬ (0 ≤ a ∧ a < txcount))) false t (t.poke a w) := by
  simp [Muda, Tela.poke]

theorem memset_muda (a : Int) (w : UInt8) (len : Int) (t : Tela) :
    Muda (decide (¬ (0 ≤ a ∧ a + len ≤ txcount))) false t (t.memset a w len) := by
  simp [Muda, Tela.memset]

end Frame

section Pixels

variable (color : UInt8) (t : Tela)

theorem drawPixel_muda (x y : Int) : Muda false false t (drawPixel x y color t) := by
  rw [drawPixel]
  dsimp only
  split
  · exact .refl t
  next hin =>
    have hpos : decide (¬ (0 ≤ (largura * short y + short x) / 2 ∧
        (largura * short y + short x) / 2 < txcount)) = false := by
      rw [decide_eq_false_iff_not]
      unfold largura altura txcount at *
      omega
    split
    · have h := poke_muda ((largura * short y + short x) / 2)
        ((t.fb ((largura * short y + short x) / 2) &&& (0x0F : UInt8)) ||| (color <<< 4)) t
      rwa [hpos] at h
    · have h := poke_muda ((largura * short y + short x) / 2)
        ((t.fb ((largura * short y + short x) / 2) &&& (0xF0 : UInt8)) ||| color) t
      rwa [hpos] at h

theorem drawPixels_muda (ps : List (Int × Int)) : Muda false false t (drawPixels ps color t) := by
  have h := foldl_muda (l := ps) (fun t (p : Int × Int) _ => drawPixel_muda color t p.1 p.2) t
  have hany : (ps.any fun _ => false) = false := List.any_eq_false.mpr fun _ _ => Bool.false_ne_true
  rwa [hany] at h

def par (x : Int) : Int := x + x % 2

/-- Where a line ends; one that reaches the border is cut one pixel before it. -/
def fim (x w : Int) : Int := if x + w > largura then largura - 1 else x + w

/-- A line that is clipped, that has no whole byte, or whose first whole byte is not before the framebuffer. -/
def LinhaSegura (x y w : Int) : Prop :=
  x ≥ largura ∨ y ≥ altura ∨ fim x w < par x + 2 ∨ 0 ≤ largura * y + par x

instance (x y w : Int) : Decidable (LinhaSegura x y w) := inferInstanceAs (Decidable (_ ∨ _))

/-- The single pixels at the ends of a line, drawn before the bytes between them. -/
def pontas (x y w : Int) (color : UInt8) (t : Tela) : Tela :=
  let u := if x % 2 = 1 then drawPixel x y color t else t
  if (fim x w - par x) % 2 = 1 then drawPixel (fim x w - 1) y color u else u

theorem pontas_muda (x y w : Int) : Muda false false t (pontas x y w color t) := by
  have hleft : Muda false false t (if x % 2 = 1 then drawPixel x y color t else t) := by
    split
    · exact drawPixel_muda color t x y
    · exact .refl t
  rw [pontas]
  split
  · exact hleft.trans (drawPixel_muda color _ _ y)
  · exact hleft

variable {x y w : Int}

theorem drawHLine_eq (hx : x < largura) (hy : y < altura) :
    drawHLine x y w color t =
      if 0 < (fim x w - par x) / 2 then
        (pontas x y w color t).memset (320 * y + par x / 2) (color ||| (color <<< 4)) ((fim x w - par x) / 2)
      else pontas x y w color t := by
  have hin : ¬ (x ≥ largura ∨ y ≥ altura) := by omega
  have hw : (if x + w - 1 ≥ largura then largura - x - 1 else w) = fim x w - x := by
    rw [fim]
    split <;> split <;> omega
  have hy480 : y < 480 := hy
  rw [drawHLine, if_neg hin, hw, pontas]
  by_cases hodd : x % 2 = 1
  · have hpar : par x = x + 1 := by rw [par, hodd]
    have hrest : fim x w - x - 1 = fim x w - (x + 1) := by omega
    have hlast : x + 1 + (fim x w - (x + 1)) - 1 = fim x w - 1 := by omega
    simp only [if_pos hodd, hpar, hrest, hlast]
    by_cases hend : (fim x w - (x + 1)) % 2 = 1
    · have hlen : (fim x w - (x + 1) - 1) / 2 = (fim x w - (x + 1)) / 2 := by omega
      simp only [if_pos hend, hlen, hy480, and_true]
    · simp only [if_neg hend, hy480, and_true]
  · have hpar : par x = x := by
      rw [par]
      omega
    have hlast : x + (fim x w - x) - 1 = fim x w - 1 := by omega
    simp only [if_neg hodd, hpar, hlast]
    by_cases hend : (fim x w - x) % 2 = 1
    · have hlen : (fim x w - x - 1) / 2 = (fim x w - x) / 2 := by omega
      simp only [if_pos hend, hlen, hy480, and_true]
    · simp only [if_neg hend, hy480, and_true]

variable (x y w) in
theorem drawHLine_muda : Muda (decide (¬ LinhaSegura x y w)) false t (drawHLine x y w color t) := by
  by_cases hout : x ≥ largura ∨ y ≥ altura
  · have hsafe : decide (¬ LinhaSegura x y w) = false := by
      rw [decide_eq_false_iff_not, not_not, LinhaSegura]
      tauto
    rw [hsafe, drawHLine, if_pos hout]
    exact .refl t
  · rw [not_or, Int.not_le, Int.not_le] at hout
    obtain ⟨hx, hy⟩ := hout
    have hends := pontas_muda color t x y w
    have hsegura : LinhaSegura x y w ↔ fim x w < par x + 2 ∨ 0 ≤ largura * y + par x := by
      rw [LinhaSegura]
      omega
    rw [drawHLine_eq color t hx hy]
    split
    next hlen =>
      have hmem := memset_muda (320 * y + par x / 2) (color ||| (color <<< 4)) ((fim x w - par x) / 2)
        (pontas x y w color t)
      have hfim : fim x w ≤ largura := by
        rw [fim]
        split <;> omega
      have hbound : (0 ≤ 320 * y + par x / 2 ∧ 320 * y + par x / 2 + (fim x w - par x) / 2 ≤ txcount) ↔
          LinhaSegura x y w := by
        rw [hsegura]
        unfold largura altura txcount at *
        unfold par at *
        omega
      rw [decide_eq_decide.mpr (not_congr hbound)] at hmem
      exact hends.trans hmem
    next hlen =>
      have hsafe : decide (¬ LinhaSegura x y w) = false := by
        rw [decide_eq_false_iff_not, not_not, hsegura]
        omega
      rw [hsafe]
      exact hends

end Pixels

section Strokes

variable {n : Nat} {color : UInt8} {t t' : Tela}

theorem drawVLine_muda {x y h : Int} (hd : drawVLine n x y h color t = some t') : Muda false false t t' := by
  obtain ⟨s, hs, rfl⟩ := Option.map_eq_some_iff.mp hd
  refine (whileLoop_preserves (I := fun s : Int × Tela => Muda false false t s.2) ?_ (.refl t) hs).1
  rintro ⟨i, u⟩ ⟨i', u'⟩ hI - hb
  cases hb
  exact hI.trans (drawPixel_muda color u _ _)

theorem drawLine_muda {x0 y0 x1 y1 : Int} (hd : drawLine n x0 y0 x1 y1 color t = some t') :
    Muda false false t t' := by
  obtain ⟨s, hs, rfl⟩ := Option.map_eq_some_iff.mp hd
  refine (whileLoop_preserves (I := fun s : Bresenham => Muda false false t s.tela) ?_ (.refl t) hs).1
  rintro u u' hI - hb
  cases hb
  have hpixel (c : Bool) : Muda false false u.tela
      (if c then drawPixel u.y0 u.x0 color u.tela else drawPixel u.x0 u.y0 color u.tela) := by
    split <;> exact drawPixel_muda color u.tela _ _
  split <;> exact hI.trans (hpixel _)

theorem percorre_muda {desenha : Arco → Tela → Option Tela} {r : Int}
    (hround : ∀ a u u', desenha a u = some u' → Muda false false u u') (hd : percorre n desenha r t = some t') :
    Muda false false t t' := by
  obtain ⟨s, hs, rfl⟩ := Option.map_eq_some_iff.mp hd
  refine (whileLoop_preserves (I := fun s : Arco × Tela => Muda false false t s.2) ?_ (.refl t) hs).1
  rintro ⟨a, u⟩ s' hI - hb
  obtain ⟨u', hu, rfl⟩ := Option.map_eq_some_iff.mp hb
  exact hI.trans (hround _ u u' hu)

theorem drawCircle_muda {x0 y0 r : Int} (hd : drawCircle n x0 y0 r color t = some t') : Muda false false t t' := by
  rw [drawCircle] at hd
  refine (drawPixels_muda color t _).trans (percorre_muda ?_ hd)
  intro a u u' hu
  cases hu
  exact drawPixels_muda color u _

theorem drawCircleHelper_muda {x0 y0 r : Int} {cornername : UInt8}
    (hd : drawCircleHelper n x0 y0 r cornername color t = some t') : Muda false false t t' := by
  rw [drawCircleHelper] at hd
  refine percorre_muda ?_ hd
  intro a u u' hu
  cases hu
  exact drawPixels_muda color u _

theorem fillCircleHelper_muda {x0 y0 r delta : Int} {cornername : UInt8}
    (hd : fillCircleHelper n x0 y0 r cornername delta color t = some t') : Muda false false t t' := by
  -- Both lines of a corner, when the corner is asked for.
  have hcorner {x y h x' y' h' : Int} {c : Prop} [Decidable c] {u u' : Tela}
      (hu : (if c then (drawVLine n x y h color u).bind (drawVLine n x' y' h' color) else some u) = some u') :
      Muda false false u u' := by
    split at hu
    · obtain ⟨v, hv, hv'⟩ := Option.bind_eq_some_iff.mp hu
      exact (drawVLine_muda hv).trans (drawVLine_muda hv')
    · cases hu
      exact .refl u
  rw [fillCircleHelper] at hd
  refine percorre_muda ?_ hd
  intro a u u' hu
  obtain ⟨v, hv, hv'⟩ := Option.bind_eq_some_iff.mp hu
  exact (hcorner hv).trans (hcorner hv')

end Strokes

section Sqrt

theorem sqrtInicio_spec {k v : Nat} (h : v < 4 ^ k) : v < 4 ^ sqrtInicio k v := by
  induction k with
  | zero => exact h
  | succ k ih =>
      rw [sqrtInicio]
      split
      next hlt => exact ih hlt
      next => exact h

/-- Digit by digit: `a` is the part of the root that has been found, and `r` what is left of `v`. -/
theorem sqrtLaco_spec (k : Nat) {a r v : Nat} (hdvd : 2 ^ k ∣ a) (hv : v = a * a + r)
    (hlt : v < (a + 2 ^ k) * (a + 2 ^ k)) : sqrtLaco k (a * 2 ^ k) r = Nat.sqrt v := by
  induction k generalizing a r with
  | zero =>
      rw [Nat.pow_zero] at hlt
      rw [sqrtLaco, Nat.pow_zero, Nat.mul_one]
      exact Nat.eq_sqrt.mpr ⟨by omega, hlt⟩
  | succ k ih =>
      have hb : 4 ^ k = 2 ^ k * 2 ^ k := by rw [← Nat.mul_pow]
      have hdvd' : 2 ^ k ∣ a := (Nat.pow_dvd_pow 2 (Nat.le_succ k)).trans hdvd
      have hq : a * 2 ^ (k + 1) / 2 = a * 2 ^ k := by
        rw [Nat.pow_succ, ← Nat.mul_assoc, Nat.mul_div_cancel _ (by decide)]
      have hsq : (a + 2 ^ k) * (a + 2 ^ k) = a * a + (a * 2 ^ (k + 1) + 4 ^ k) := by
        rw [hb, Nat.pow_succ]
        ring
      rw [sqrtLaco, hq]
      by_cases hge : r ≥ a * 2 ^ (k + 1) + 4 ^ k
      · have hnew : a * 2 ^ k + 4 ^ k = (a + 2 ^ k) * 2 ^ k := by rw [hb, Nat.add_mul]
        have hsum : a + 2 ^ k + 2 ^ k = a + 2 ^ (k + 1) := by
          rw [Nat.pow_succ]
          omega
        simp only [if_pos hge, hnew]
        exact ih (Nat.dvd_add hdvd' (Nat.dvd_refl _)) (by omega) (by rwa [hsum])
      · simp only [if_neg hge]
        exact ih hdvd' hv (by omega)

theorem sqrtI32_eq {v : Nat} (h : v < 4 ^ 16) : sqrtI32 v = Nat.sqrt v := by
  have hstart := sqrtInicio_spec h
  have hspec := sqrtLaco_spec (sqrtInicio 16 v) (a := 0) (r := v) (v := v) (dvd_zero _) (by omega)
    (by rwa [Nat.zero_add, ← Nat.mul_pow])
  rwa [Nat.zero_mul] at hspec

end Sqrt

section Areas

variable (color : UInt8) (t : Tela)

theorem short_bounds (v : Int) : -32768 ≤ short v ∧ short v ≤ 32767 := by
  have hle := Int.le_bmod (x := v) (m := 65536) (by decide)
  have hlt := Int.bmod_lt (x := v) (m := 65536) (by decide)
  rw [short]
  omega

/-- The rectangle as its rows, of which the first is the nearest to the start of the framebuffer. -/
def RetanguloSeguro (x y w h : Int) : Prop :=
  short x ≥ largura ∨ short y ≥ altura ∨ short h ≤ 0 ∨ LinhaSegura (short x) (short y) (short w)

instance (x y w h : Int) : Decidable (RetanguloSeguro x y w h) := inferInstanceAs (Decidable (_ ∨ _))

theorem linhaSegura_below {x y y' w : Int} (h : LinhaSegura x y w) (hy : y ≤ y') : LinhaSegura x y' w := by
  unfold LinhaSegura largura altura at *
  omega

theorem fillRect_muda (x y w h : Int) :
    Muda (decide (¬ RetanguloSeguro x y w h)) false t (fillRect x y w h color t) := by
  rw [fillRect]
  split
  next hout =>
    have hsafe : decide (¬ RetanguloSeguro x y w h) = false := by
      rw [decide_eq_false_iff_not, not_not, RetanguloSeguro]
      tauto
    rw [hsafe]
    exact .refl t
  next hin =>
    have hrows := foldl_muda (l := List.range (short h).toNat)
      (fun t (j : Nat) _ => drawHLine_muda color t (short x) (short y + j) (short w)) t
    have hall : (List.range (short h).toNat).any (fun j => decide (¬ LinhaSegura (short x) (short y + j) (short w))) =
        decide (¬ RetanguloSeguro x y w h) := by
      rw [Bool.eq_iff_iff, List.any_eq_true, decide_eq_true_iff]
      constructor
      · rintro ⟨j, hj, hbad⟩ hsafe
        rw [decide_eq_true_iff] at hbad
        rw [List.mem_range] at hj
        rcases hsafe with hx | hy | hh | hline
        · exact hin (.inl hx)
        · exact hin (.inr hy)
        · omega
        · exact hbad (linhaSegura_below hline (by omega))
      · intro hbad
        refine ⟨0, ?_, ?_⟩
        · rw [List.mem_range]
          unfold RetanguloSeguro at hbad
          omega
        · rw [decide_eq_true_iff, Int.natCast_zero, Int.add_zero]
          exact fun hline => hbad (.inr (.inr (.inr hline)))
    have hnone : (List.range (short h).toNat).any (fun _ => false) = false :=
      List.any_eq_false.mpr fun _ _ => Bool.false_ne_true
    rwa [hall, hnone] at hrows

/-- Half of the width of the circle `i` rows from its middle. -/
def meiaLargura (r : Int) (i : Nat) : Int := Nat.sqrt (r * r + r - i * i).toNat

/-- The circle as its rows, of which the upper half is the nearer to the start of the framebuffer. -/
def CirculoSeguro (x0 y0 r : Int) : Prop :=
  short y0 - short r < 0 ∨ short y0 + short r > 479 ∨ ∀ i < (short r + 1).toNat,
    LinhaSegura (short x0 - meiaLargura (short r) i) (short y0 - i) (2 * meiaLargura (short r) i)

instance (x0 y0 r : Int) : Decidable (CirculoSeguro x0 y0 r) := inferInstanceAs (Decidable (_ ∨ _))

theorem sqrt_meiaLargura (r : Int) (i : Nat) :
    (sqrtI32 (short r * short r + short r - i * i).toNat : Int) = meiaLargura (short r) i := by
  obtain ⟨hlow, hhigh⟩ := short_bounds r
  have hsq : short r * short r ≤ 32768 * 32768 := by nlinarith
  have hi : (0 : Int) ≤ i * i := by positivity
  rw [meiaLargura, sqrtI32_eq]
  omega

theorem fillCircle_muda (x0 y0 r : Int) :
    Muda (decide (¬ CirculoSeguro x0 y0 r)) false t (fillCircle x0 y0 r color t) := by
  rw [fillCircle]
  split
  next hout =>
    have hsafe : decide (¬ CirculoSeguro x0 y0 r) = false := by
      rw [decide_eq_false_iff_not, not_not, CirculoSeguro]
      tauto
    rw [hsafe]
    exact .refl t
  next hin =>
    simp only [sqrt_meiaLargura]
    have hrows := foldl_muda (l := List.range (short r + 1).toNat)
      (fun t (i : Nat) _ =>
        (drawHLine_muda color t (short x0 - meiaLargura (short r) i) (short y0 + i) (2 * meiaLargura (short r) i)).trans
          (drawHLine_muda color _ (short x0 - meiaLargura (short r) i) (short y0 - i)
            (2 * meiaLargura (short r) i))) t
    have hall : (List.range (short r + 1).toNat).any (fun i =>
        decide (¬ LinhaSegura (short x0 - meiaLargura (short r) i) (short y0 + i) (2 * meiaLargura (short r) i)) ||
          decide (¬ LinhaSegura (short x0 - meiaLargura (short r) i) (short y0 - i) (2 * meiaLargura (short r) i))) =
        decide (¬ CirculoSeguro x0 y0 r) := by
      rw [Bool.eq_iff_iff, List.any_eq_true, decide_eq_true_iff]
      constructor
      · rintro ⟨i, hi, hbad⟩ hsafe
        rw [List.mem_range] at hi
        rw [Bool.or_eq_true, decide_eq_true_iff, decide_eq_true_iff] at hbad
        rcases hsafe with hy | hy | hline
        · exact hin (.inl hy)
        · exact hin (.inr hy)
        · have hup := hline i hi
          rcases hbad with hbad | hbad
          · exact hbad (linhaSegura_below hup (by omega))
          · exact hbad hup
      · intro hbad
        by_contra hno
        refine hbad (.inr (.inr ?_))
        intro i hi
        by_contra hline
        refine hno ⟨i, List.mem_range.mpr hi, ?_⟩
        rw [Bool.or_eq_true, decide_eq_true_iff, decide_eq_true_iff]
        exact .inr hline
    have hnone : (List.range (short r + 1).toNat).any (fun _ => false) = false :=
      List.any_eq_false.mpr fun _ _ => Bool.false_ne_true
    rw [hall] at hrows
    simp only [Bool.or_self] at hrows
    rwa [hnone] at hrows

theorem decide_not_or (p q : Prop) [Decidable p] [Decidable q] :
    (decide (¬ p) || decide (¬ q)) = decide (¬ (p ∧ q)) := by
  rw [← Bool.decide_or]
  exact decide_eq_decide.mpr not_and_or.symm

def ContornoSeguro (x y w h r : Int) : Prop :=
  LinhaSegura (short x + short r) (short y) (short w - 2 * short r) ∧
    LinhaSegura (short x + short r) (short y + short h - 1) (short w - 2 * short r)

instance (x y w h r : Int) : Decidable (ContornoSeguro x y w h r) := inferInstanceAs (Decidable (_ ∧ _))

theorem drawRoundRect_muda {n : Nat} {x y w h r : Int} {t' : Tela}
    (hd : drawRoundRect n x y w h r color t = some t') :
    Muda (decide (¬ ContornoSeguro x y w h r)) false t t' := by
  rw [drawRoundRect] at hd
  obtain ⟨t₁, h₁, hd⟩ := Option.bind_eq_some_iff.mp hd
  obtain ⟨t₂, h₂, hd⟩ := Option.bind_eq_some_iff.mp hd
  obtain ⟨t₃, h₃, hd⟩ := Option.bind_eq_some_iff.mp hd
  obtain ⟨t₄, h₄, hd⟩ := Option.bind_eq_some_iff.mp hd
  obtain ⟨t₅, h₅, hd⟩ := Option.bind_eq_some_iff.mp hd
  have htop := drawHLine_muda color t (short x + short r) (short y) (short w - 2 * short r)
  have hbottom := drawHLine_muda color (drawHLine (short x + short r) (short y) (short w - 2 * short r) color t)
    (short x + short r) (short y + short h - 1) (short w - 2 * short r)
  have hsides := (drawVLine_muda h₁).trans (drawVLine_muda h₂)
  have hcorners := (drawCircleHelper_muda h₃).trans (drawCircleHelper_muda h₄)
  have hall := (htop.trans hbottom).trans
    (hsides.trans (hcorners.trans ((drawCircleHelper_muda h₅).trans (drawCircleHelper_muda hd))))
  simp only [decide_not_or, Bool.or_false] at hall
  exact hall

/-- The three rectangles and the four circles of which the area is made. -/
def AreaSegura (x y w h r : Int) : Prop :=
  let (x, y, w, h, r) := (short x, short y, short w, short h, short r)
  (RetanguloSeguro x (y + r) w (h - 2 * r) ∧ RetanguloSeguro (x + r) y (w - 2 * r) r ∧
    RetanguloSeguro (x + r) (y + h - r) (w - 2 * r) r) ∧
  (CirculoSeguro (x + w - r) (y + r) (r - 1) ∧ CirculoSeguro (x + r) (y + r) (r - 1)) ∧
    CirculoSeguro (x + w - r) (y + h - r) (r - 1) ∧ CirculoSeguro (x + r) (y + h - r) (r - 1)

instance (x y w h r : Int) : Decidable (AreaSegura x y w h r) := inferInstanceAs (Decidable (_ ∧ _))

theorem fillRoundRect_muda (x y w h r : Int) :
    Muda (decide (¬ AreaSegura x y w h r)) false t (fillRoundRect x y w h r color t) := by
  have hall (x y w h r : Int) :=
    ((fillRect_muda color t x (y + r) w (h - 2 * r)).trans
      ((fillRect_muda color _ (x + r) y (w - 2 * r) r).trans
        (fillRect_muda color _ (x + r) (y + h - r) (w - 2 * r) r))).trans
    (((fillCircle_muda color _ (x + w - r) (y + r) (r - 1)).trans
      (fillCircle_muda color _ (x + r) (y + r) (r - 1))).trans
      ((fillCircle_muda color _ (x + w - r) (y + h - r) (r - 1)).trans
        (fillCircle_muda color _ (x + r) (y + h - r) (r - 1))))
  have hmuda := hall (short x) (short y) (short w) (short h) (short r)
  rw [fillRoundRect]
  simp only [decide_not_or, Bool.or_self] at hmuda
  exact hmuda

end Areas

end Orion68.VgaAccesses
