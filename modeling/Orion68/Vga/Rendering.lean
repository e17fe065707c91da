import Orion68.Lib.TextScreen
import Orion68.Vga.Pixels

namespace Orion68.VgaRendering

open Runs TextScreen Vga VgaAccesses VgaCursor VgaPixels

section Abstract

/-- A printable character, a carriage return or a line feed. -/
def Texto (b : UInt8) : Prop := b = 0x0A ∨ b = 0x0D ∨ 0x20 ≤ b.toNat ∧ b.toNat ≤ 0x7E

instance (b : UInt8) : Decidable (Texto b) := inferInstanceAs (Decidable (_ ∨ _))

abbrev Byte : Type := { b : UInt8 // Texto b }

abbrev Quadro : Type := Screen UInt8 30 80

def limpo : Quadro := .clear 0x20 (Nat.succ_pos 29) (Nat.succ_pos 79)

def recebe (b : UInt8) (q : Quadro) : Quadro :=
  if b = 0x0A then q.newLine 0x20 else if b = 0x0D then q.home else q.put 0x20 b

def escreve (b : Byte) (q : Quadro) : Option Quadro := some (recebe b q)

variable (alem : Nat → UInt8) (cor : UInt8)

def pixelDe (q : Quadro) (x y : Nat) : UInt8 := corDe alem (q.cell (y / 16) (x / 8)) cor 0 (x % 8) (y % 16)

/-- The bytes of the framebuffer that show the screen with `font_8x16`. -/
def renderiza (q : Quadro) (i : Nat) : UInt8 :=
  pixelDe alem cor q (2 * i % 640) (2 * i / 640) ||| (pixelDe alem cor q (2 * i % 640 + 1) (2 * i / 640) <<< 4)

def Igual (t : Tela) (q : Quadro) : Prop := ∀ i : Nat, i < 153600 → t.fb i = renderiza alem cor q i

/-- The cell that the hidden cursor wipes out before the byte takes effect. -/
def apaga (b : UInt8) (q : Quadro) : Quadro :=
  if b = 0x0A then q.set q.row q.col 0x20 else if b = 0x0D then q.set q.row 0 0x20 else q

/-- Wiping it out does not show. -/
def Discreto (b : UInt8) (q : Quadro) : Prop :=
  (b = 0x0A → q.cell q.row q.col = 0x20 ∨ cor = 0) ∧ (b = 0x0D → q.cell q.row 0 = 0x20 ∨ cor = 0)

instance (b : UInt8) (q : Quadro) : Decidable (Discreto cor b q) := inferInstanceAs (Decidable (_ ∧ _))

/-- A byte that is written to `D_WRITE_SCREEN`, and the same byte for the screen of characters. -/
def passo (n : Nat) (b : Byte) (s : Video × Quadro) : Option (Video × Quadro) :=
  (step alem n (escrita dWriteScreen b) s.1).map fun v => (v, recebe b s.2)

end Abstract

section Glyphs

variable {alem : Nat → UInt8} {cor : UInt8}

theorem font8x16_table {i : Nat} (h : i < 2080) : font8x16 alem i = font8x16 (fun _ => 0) i := by
  rw [font8x16, font8x16, if_pos h, if_pos h]

theorem corDe_space {x y : Nat} (hy : y < 16) : corDe alem 0x20 cor 0 x y = 0 := by
  have hspace : ∀ y < 16, font8x16 (fun _ => 0) (0x20 * 16 + y) = 0 := by decide
  have hbyte : font8x16 alem ((0x20 : UInt8).toNat * 16 + y) = 0 := by
    rw [font8x16_table (show (0x20 : UInt8).toNat * 16 + y < 2080 by change 0x20 * 16 + y < 2080; omega)]
    exact hspace y hy
  rw [corDe, hbyte]
  apply if_neg
  simp [Aceso]

theorem corDe_self (g : UInt8) (x y : Nat) : corDe alem g 0 0 x y = 0 := by
  rw [corDe, ite_self]

theorem exists_corDe (alem : Nat → UInt8) (cor : UInt8) {g : UInt8} (hlow : 0x20 ≤ g.toNat)
    (hhigh : g.toNat ≤ 0x7E) (hne : g ≠ 0x20) : ∃ x < 8, ∃ y < 16, corDe alem g cor 0 x y = cor := by
  have hall : ∀ g < 0x7F, 0x21 ≤ g → ∃ x < 8, ∃ y < 16, Aceso (font8x16 (fun _ => 0) (g * 16 + y)) x := by
    decide +kernel
  have hg : 0x21 ≤ g.toNat := by
    have hne' : g.toNat ≠ 0x20 := fun heq => hne (UInt8.toNat_inj.mp heq)
    omega
  obtain ⟨x, hx, y, hy, hon⟩ := hall g.toNat (by omega) hg
  refine ⟨x, hx, y, hy, ?_⟩
  rw [corDe, font8x16_table (by omega), if_pos hon]

theorem corDe_lt (hcor : cor.toNat < 16) (g : UInt8) (x y : Nat) : (corDe alem g cor 0 x y).toNat < 16 := by
  rw [corDe]
  split
  · exact hcor
  · exact Nat.zero_lt_succ 15

end Glyphs

section Bytes

variable {alem : Nat → UInt8} {cor a c : UInt8} {t : Tela} {q q' : Quadro}

theorem and_low (h : a.toNat < 16) : a &&& (0x0F : UInt8) = a := by
  rw [← UInt8.toNat_inj, low_toNat, Nat.mod_eq_of_lt h]

theorem pack_low (ha : a.toNat < 16) (hc : c.toNat < 16) : (a ||| (c <<< 4)) &&& 0x0F = a := by
  have h := odd_low (a := a) hc
  rwa [and_low ha] at h

theorem pack_high (ha : a.toNat < 16) (hc : c.toNat < 16) : (a ||| (c <<< 4)) >>> 4 = c := by
  have h := odd_high (a := a) hc
  rwa [and_low ha] at h

theorem pack_nibbles (a : UInt8) : (a &&& (0x0F : UInt8)) ||| ((a >>> 4) <<< 4) = a := by
  have hlt := a.toNat_lt
  have hhigh : (a >>> 4).toNat < 16 := by
    rw [high_toNat]
    omega
  rw [← UInt8.toNat_inj, odd_toNat hhigh, high_toNat]
  omega

def Pinta (alem : Nat → UInt8) (cor : UInt8) (fb : Int → UInt8) (q : Quadro) : Prop :=
  ∀ X < 640, ∀ Y < 480, px fb X Y = pixelDe alem cor q X Y

theorem igual_iff_pinta (hcor : cor.toNat < 16) : Igual alem cor t q ↔ Pinta alem cor t.fb q := by
  have hlt (X Y : Nat) : (pixelDe alem cor q X Y).toNat < 16 := corDe_lt hcor _ _ _
  constructor
  · intro h X hX Y hY
    have hbyte := h ((640 * Y + X) / 2) (by omega)
    rw [px, hbyte, renderiza]
    split
    next hodd =>
      have hx : 2 * ((640 * Y + X) / 2) % 640 + 1 = X := by omega
      have hy : 2 * ((640 * Y + X) / 2) / 640 = Y := by omega
      rw [pack_high (hlt _ _) (hlt _ _), hx, hy]
    next heven =>
      have hx : 2 * ((640 * Y + X) / 2) % 640 = X := by omega
      have hy : 2 * ((640 * Y + X) / 2) / 640 = Y := by omega
      rw [pack_low (hlt _ _) (hlt _ _), hx, hy]
  · intro h i hi
    have heven := h (2 * i % 640) (by omega) (2 * i / 640) (by omega)
    have hodd := h (2 * i % 640 + 1) (by omega) (2 * i / 640) (by omega)
    have hi0 : (640 * (2 * i / 640) + 2 * i % 640) / 2 = i := by omega
    have hi1 : (640 * (2 * i / 640) + (2 * i % 640 + 1)) / 2 = i := by omega
    rw [px, if_neg (by omega), hi0] at heven
    rw [px, if_pos (by omega), hi1] at hodd
    rw [renderiza, ← heven, ← hodd, pack_nibbles]

theorem pixelDe_set {X Y : Nat} (q : Quadro) (k l : Nat) (g : UInt8) : pixelDe alem cor (q.set k l g) X Y =
    if X / 8 = l ∧ Y / 16 = k then corDe alem g cor 0 (X % 8) (Y % 16) else pixelDe alem cor q X Y := by
  rw [pixelDe, Screen.set]
  dsimp only
  by_cases h : X / 8 = l ∧ Y / 16 = k
  · rw [if_pos h.symm, if_pos h]
  · rw [if_neg fun h' => h h'.symm, if_neg h]
    rfl

theorem pixelDe_black (X Y : Nat) : pixelDe alem 0 q X Y = 0 := corDe_self _ _ _

theorem exists_pixelDe_ne {r c : Nat} (hr : r < 30) (hc : c < 80) (hspace : q.cell r c = 0x20)
    (hlow : 0x20 ≤ (q'.cell r c).toNat) (hhigh : (q'.cell r c).toNat ≤ 0x7E) (hne : q'.cell r c ≠ 0x20)
    (hcor : cor ≠ 0) : ∃ X < 640, ∃ Y < 480, pixelDe alem cor q X Y ≠ pixelDe alem cor q' X Y := by
  obtain ⟨x, hx, y, hy, hon⟩ := exists_corDe alem cor hlow hhigh hne
  refine ⟨8 * c + x, by omega, 16 * r + y, by omega, ?_⟩
  have hcol : (8 * c + x) / 8 = c := by omega
  have hrow : (16 * r + y) / 16 = r := by omega
  have hx' : (8 * c + x) % 8 = x := by omega
  have hy' : (16 * r + y) % 16 = y := by omega
  rw [pixelDe, pixelDe, hcol, hrow, hx', hy', hspace, corDe_space hy, hon]
  exact hcor.symm

end Bytes

end Orion68.VgaRendering
