import Orion68.Lib.Painting
import Orion68.Vga.Pixels

namespace Orion68.VgaPainting

open Painting Vga VgaAccesses VgaPixels

section Nibbles

/-- The halves of the bytes of the memory around the framebuffer, one after the other. -/
def nibbles (fb : Int → UInt8) (i : Int) : UInt8 := if i % 2 = 1 then fb (i / 2) >>> 4 else fb (i / 2) &&& 0x0F

theorem byte_ext {a b : UInt8} (hhigh : a >>> 4 = b >>> 4) (hlow : a &&& 0x0F = b &&& 0x0F) : a = b := by
  rw [← UInt8.toNat_inj, high_toNat, high_toNat] at hhigh
  rw [← UInt8.toNat_inj, low_toNat, low_toNat] at hlow
  rw [← UInt8.toNat_inj]
  omega

theorem nibbles_injective : Function.Injective nibbles := by
  intro fb fb' h
  funext a
  have hhigh := congrFun h (2 * a + 1)
  have hlow := congrFun h (2 * a)
  have ha : (2 * a + 1) / 2 = a := by omega
  have ha' : 2 * a / 2 = a := by omega
  rw [nibbles, nibbles, if_pos (by omega), if_pos (by omega), ha] at hhigh
  rw [nibbles, nibbles, if_neg (by omega), if_neg (by omega), ha'] at hlow
  exact byte_ext hhigh hlow

theorem exists_nibbles_ne (t : Tela) (c : UInt8) : ∃ t : Tela, ∀ i, nibbles t.fb i ≠ c := by
  have hconst (v : UInt8) (hv : v >>> 4 ≠ c) (hv' : v &&& 0x0F ≠ c) : ∃ t : Tela, ∀ i, nibbles t.fb i ≠ c := by
    refine ⟨{ t with fb := fun _ => v }, fun i => ?_⟩
    rw [nibbles]
    split
    · exact hv
    · exact hv'
  by_cases hc : c = 0
  · subst c
    exact hconst 0xFF (by decide) (by decide)
  · exact hconst 0 (Ne.symm hc) (Ne.symm hc)

end Nibbles

section Operations

variable {c : UInt8} {x y a len : Int}

/-- The pixel that `drawPixel` changes, unless it is clipped. -/
def pixel (x y : Int) : Set Int :=
  {i | 0 ≤ short x ∧ short x < largura ∧ 0 ≤ short y ∧ short y < altura ∧ i = largura * short y + short x}

theorem nibbles_poke (hc : c.toNat < 16) (i : Int) (t : Tela) :
    Painted {i} c (nibbles t.fb)
      (nibbles (if i % 2 = 1 then t.poke (i / 2) ((t.fb (i / 2) &&& (0x0F : UInt8)) ||| (c <<< 4))
        else t.poke (i / 2) ((t.fb (i / 2) &&& (0xF0 : UInt8)) ||| c)).fb) := by
  intro j
  rw [Set.mem_singleton_iff, nibbles, nibbles]
  by_cases hi : i % 2 = 1
  · rw [if_pos hi]
    dsimp only [Tela.poke]
    constructor
    · rintro rfl
      rw [if_pos hi, if_pos rfl, odd_high hc]
    · intro hne
      by_cases hj : j % 2 = 1
      · rw [if_pos hj, if_pos hj, if_neg (by omega)]
      · rw [if_neg hj, if_neg hj]
        split
        next hsame => rw [odd_low hc, hsame]
        next => rfl
  · rw [if_neg hi]
    dsimp only [Tela.poke]
    constructor
    · rintro rfl
      rw [if_neg hi, if_pos rfl, even_low hc]
    · intro hne
      by_cases hj : j % 2 = 1
      · rw [if_pos hj, if_pos hj]
        split
        next hsame => rw [even_high hc, hsame]
        next => rfl
      · rw [if_neg hj, if_neg hj, if_neg (by omega)]

theorem painted_drawPixel (hc : c.toNat < 16) (x y : Int) (t : Tela) :
    Painted (pixel x y) c (nibbles t.fb) (nibbles (drawPixel x y c t).fb) := by
  rw [drawPixel]
  dsimp only
  split
  next hout =>
    refine (Painted.refl c _).congr fun i => iff_of_false (Set.notMem_empty i) ?_
    rintro ⟨hx, hx', hy, hy', -⟩
    omega
  next hin =>
    refine (nibbles_poke hc (largura * short y + short x) t).congr fun i => ?_
    rw [Set.mem_singleton_iff]
    constructor
    · rintro rfl
      exact ⟨by omega, by omega, by omega, by omega, rfl⟩
    · exact fun hi => hi.2.2.2.2

theorem painted_memset (hc : c.toNat < 16) (a len : Int) (t : Tela) :
    Painted {i | 2 * a ≤ i ∧ i < 2 * (a + len)} c (nibbles t.fb)
      (nibbles (t.memset a (c ||| (c <<< 4)) len).fb) := by
  have hboth : (c ||| (c <<< 4)).toNat = c.toNat * 16 + c.toNat := by
    have hshift : c.toNat * 16 = c.toNat <<< 4 := by rw [Nat.shiftLeft_eq]
    rw [UInt8.toNat_or, shift_toNat hc, Nat.or_comm, hshift, ← Nat.shiftLeft_add_eq_or_of_lt hc]
  have hhigh : (c ||| (c <<< 4)) >>> 4 = c := by
    rw [← UInt8.toNat_inj, high_toNat, hboth]
    omega
  have hlow : (c ||| (c <<< 4)) &&& 0x0F = c := by
    rw [← UInt8.toNat_inj, low_toNat, hboth]
    omega
  intro i
  rw [Set.mem_ofPred_eq, nibbles, nibbles]
  dsimp only [Tela.memset]
  constructor
  · intro hi
    have hin : a ≤ i / 2 ∧ i / 2 < a + len := by omega
    rw [if_pos hin, hhigh, hlow, ite_self]
  · intro hi
    have hout : ¬ (a ≤ i / 2 ∧ i / 2 < a + len) := by omega
    rw [if_neg hout]

theorem painted_pixels {β : Type} (hc : c.toNat < 16) (l : List β) (p : β → Int × Int) (t : Tela) :
    Painted {i | ∃ b ∈ l, i ∈ pixel (p b).1 (p b).2} c (nibbles t.fb)
      (nibbles (l.foldl (fun t b => drawPixel (p b).1 (p b).2 c t) t).fb) :=
  painted_foldl (v := fun t : Tela => nibbles t.fb)
    (fun t b _ => painted_drawPixel hc (p b).1 (p b).2 t) t

end Operations

end Orion68.VgaPainting
