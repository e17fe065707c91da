import Orion68.Vga.Cursor

namespace Orion68.VgaPixels

open Vga VgaAccesses VgaCursor

section Nibbles

/-- The four bits of a pixel: of the two that share a byte the left one has the low half. -/
def px (fb : Int → UInt8) (x y : Nat) : UInt8 :=
  if x % 2 = 1 then fb ((640 * y + x) / 2 : Nat) >>> 4 else fb ((640 * y + x) / 2 : Nat) &&& 0x0F

variable {a c : UInt8}

theorem low_toNat (a : UInt8) : (a &&& 0x0F).toNat = a.toNat % 16 := by
  rw [UInt8.toNat_and]
  exact Nat.and_two_pow_sub_one_eq_mod a.toNat 4

theorem high_toNat (a : UInt8) : (a >>> 4).toNat = a.toNat / 16 := by
  rw [UInt8.toNat_shiftRight]
  change a.toNat >>> 4 = _
  rw [Nat.shiftRight_eq_div_pow]

theorem shift_toNat (h : c.toNat < 16) : (c <<< 4).toNat = c.toNat * 16 := by
  rw [UInt8.toNat_shiftLeft]
  change (c.toNat <<< 4) % 2 ^ 8 = _
  rw [Nat.shiftLeft_eq]
  omega

theorem odd_toNat (h : c.toNat < 16) : ((a &&& (0x0F : UInt8)) ||| (c <<< 4)).toNat = c.toNat * 16 + a.toNat % 16 := by
  have hlt : a.toNat % 16 < 2 ^ 4 := Nat.mod_lt _ (by decide)
  have hshift : c.toNat * 16 = c.toNat <<< 4 := by rw [Nat.shiftLeft_eq]
  rw [UInt8.toNat_or, low_toNat, shift_toNat h, Nat.or_comm, hshift, ← Nat.shiftLeft_add_eq_or_of_lt hlt]

theorem even_toNat (h : c.toNat < 16) : ((a &&& (0xF0 : UInt8)) ||| c).toNat = a.toNat / 16 * 16 + c.toNat := by
  have hmask : a.toNat &&& 0x0F <<< 4 = (a.toNat / 16) <<< 4 := by
    have hlt := a.toNat_lt
    have hhigh : (a.toNat >>> 4) &&& 0x0F = a.toNat / 16 := by
      rw [Nat.and_two_pow_sub_one_eq_mod _ 4, Nat.shiftRight_eq_div_pow]
      omega
    rw [← hhigh]
    apply Nat.eq_of_testBit_eq
    intro i
    rw [Nat.testBit_and, Nat.testBit_shiftLeft, Nat.testBit_shiftLeft, Nat.testBit_and, Nat.testBit_shiftRight]
    by_cases hi : 4 ≤ i
    · simp [hi]
    · simp [hi]
  rw [UInt8.toNat_or, UInt8.toNat_and]
  change (a.toNat &&& 0x0F <<< 4) ||| c.toNat = _
  rw [hmask, ← Nat.shiftLeft_add_eq_or_of_lt h, Nat.shiftLeft_eq]

theorem odd_high (h : c.toNat < 16) : ((a &&& (0x0F : UInt8)) ||| (c <<< 4)) >>> 4 = c := by
  rw [← UInt8.toNat_inj, high_toNat, odd_toNat h]
  omega

theorem odd_low (h : c.toNat < 16) : ((a &&& (0x0F : UInt8)) ||| (c <<< 4)) &&& 0x0F = a &&& 0x0F := by
  rw [← UInt8.toNat_inj, low_toNat, odd_toNat h, low_toNat]
  omega

theorem even_high (h : c.toNat < 16) : ((a &&& (0xF0 : UInt8)) ||| c) >>> 4 = a >>> 4 := by
  rw [← UInt8.toNat_inj, high_toNat, even_toNat h, high_toNat]
  omega

theorem even_low (h : c.toNat < 16) : ((a &&& (0xF0 : UInt8)) ||| c) &&& 0x0F = c := by
  rw [← UInt8.toNat_inj, low_toNat, even_toNat h]
  omega

end Nibbles

section Drawing

variable {x y X Y : Nat} {color : UInt8}

theorem px_drawPixel (hx : x ≤ 32767) (hy : y ≤ 32767) (hX : X < 640) (hY : Y < 480) (hc : color.toNat < 16)
    (t : Tela) : px (drawPixel x y color t).fb X Y = if X = x ∧ Y = y then color else px t.fb X Y := by
  rw [drawPixel, short_eq (by omega) (by omega), short_eq (by omega) (by omega)]
  unfold largura altura
  split
  next hout =>
    rw [if_neg (by omega)]
  next hin =>
    have hbyte : ((640 * Y + X) / 2 : Nat) = (640 * (y : Int) + x) / 2 ↔ Y = y ∧ X / 2 = x / 2 := by omega
    have hcast : (640 * (y : Int) + x) / 2 = ((640 * y + x) / 2 : Nat) := by omega
    by_cases hodd : x % 2 = 1
    · rw [if_pos (by omega)]
      dsimp only [Tela.poke, px]
      by_cases hsame : Y = y ∧ X / 2 = x / 2
      · obtain ⟨rfl, hX2⟩ := hsame
        rw [if_pos (hbyte.mpr ⟨rfl, hX2⟩)]
        by_cases hXodd : X % 2 = 1
        · rw [if_pos hXodd, odd_high hc, if_pos (by omega)]
        · rw [if_neg hXodd, odd_low hc, if_neg (by omega), if_neg hXodd, hbyte.mpr ⟨rfl, hX2⟩]
      · rw [if_neg (mt hbyte.mp hsame), if_neg (c := X = x ∧ Y = y) (by omega)]
    · rw [if_neg (by omega)]
      dsimp only [Tela.poke, px]
      by_cases hsame : Y = y ∧ X / 2 = x / 2
      · obtain ⟨rfl, hX2⟩ := hsame
        rw [if_pos (hbyte.mpr ⟨rfl, hX2⟩)]
        by_cases hXodd : X % 2 = 1
        · rw [if_pos hXodd, even_high hc, if_neg (by omega), if_pos hXodd, hbyte.mpr ⟨rfl, hX2⟩]
        · rw [if_neg hXodd, even_low hc, if_pos (by omega)]
      · rw [if_neg (mt hbyte.mp hsame), if_neg (c := X = x ∧ Y = y) (by omega)]

theorem px_pixels (f : Nat → UInt8) (hf : ∀ k, (f k).toNat < 16) {m : Nat} (hm : m ≤ 8) (hx : x ≤ 32000)
    (hy : y ≤ 32767) (hX : X < 640) (hY : Y < 480) (t : Tela) :
    px ((List.range m).foldl (fun t (k : Nat) => drawPixel (x + k) y (f k) t) t).fb X Y =
      if x ≤ X ∧ X < x + m ∧ Y = y then f (X - x) else px t.fb X Y := by
  induction m with
  | zero =>
      rw [if_neg (by omega)]
      rfl
  | succ m ih =>
      have hone := px_drawPixel (x := x + m) (by omega) hy hX hY (hf m)
        ((List.range m).foldl (fun t (k : Nat) => drawPixel (x + k) y (f k) t) t)
      rw [Int.natCast_add] at hone
      rw [List.range_succ, List.foldl_append, List.foldl_cons, List.foldl_nil, hone, ih (by omega)]
      by_cases hnow : X = x + m ∧ Y = y
      · have hoff : X - x = m := by omega
        rw [if_pos hnow, if_pos (by omega), hoff]
      · rw [if_neg hnow]
        by_cases hbefore : x ≤ X ∧ X < x + m ∧ Y = y
        · rw [if_pos hbefore, if_pos (by omega)]
        · rw [if_neg hbefore, if_neg (by omega)]

theorem px_drawHLine {l : Nat} (hl : x = 8 * l) (hx : x < 640) (hy : y < 480) (hX : X < 640)
    (hk : ¬ (x ≤ X ∧ X < x + 8 ∧ Y = y)) (bg : UInt8) (t : Tela) :
    px (drawHLine x y 8 bg t).fb X Y = px t.fb X Y := by
  have hpar : par x = x := by
    rw [par]
    omega
  have hfim : fim x 8 = x + 8 := by
    rw [fim]
    unfold largura
    split <;> omega
  have hpontas : pontas x y 8 bg t = t := by
    rw [pontas, hfim, hpar, if_neg (by omega), if_neg (by omega)]
  rw [drawHLine_eq bg t (by unfold largura; omega) (by unfold altura; omega), hfim, hpar, hpontas, if_pos (by omega)]
  have hout : ¬ (320 * (y : Int) + x / 2 ≤ ((640 * Y + X) / 2 : Nat) ∧
      ((640 * Y + X) / 2 : Nat) < 320 * (y : Int) + x / 2 + ((x : Int) + 8 - x) / 2) := by
    omega
  dsimp only [Tela.memset, px]
  rw [if_neg hout]

theorem px_foldl {ι : Type} {g : Tela → ι → Tela} {l : List ι}
    (h : ∀ t i, i ∈ l → px (g t i).fb X Y = px t.fb X Y) (t : Tela) : px (l.foldl g t).fb X Y = px t.fb X Y := by
  induction l generalizing t with
  | nil => rfl
  | cons i l ih =>
      rw [List.foldl_cons, ih fun t j hj => h t j (List.mem_cons_of_mem i hj)]
      exact h t i List.mem_cons_self

variable {l k : Nat}

theorem px_fillRect (hl : l < 80) (hk : k ≤ 30) (hX : X < 640) (hout : ¬ (X / 8 = l ∧ Y / 16 = k)) (bg : UInt8)
    (t : Tela) : px (fillRect (8 * l : Nat) (16 * k : Nat) 8 16 bg t).fb X Y = px t.fb X Y := by
  have h8 : short 8 = 8 := by decide
  have h16 : (short 16).toNat = 16 := by decide
  rw [fillRect, short_eq (by omega) (by omega), short_eq (by omega) (by omega), h8, h16]
  split
  next => rfl
  next hin =>
    unfold largura altura at hin
    apply px_foldl
    intro t j hj
    rw [List.mem_range] at hj
    have hline := px_drawHLine (x := 8 * l) (y := 16 * k + j) (Y := Y) rfl (by omega) (by omega) hX (by omega) bg t
    rwa [Int.natCast_add] at hline

variable {alem : Nat → UInt8}

abbrev Aceso (currentByte : UInt8) (x : Nat) : Prop := (currentByte >>> UInt8.ofNat (7 - x)) &&& 1 ≠ 0

theorem px_drawRow (hx : x ≤ 32000) (hy : y ≤ 32767) (hX : X < 640) (hY : Y < 480) {bg : UInt8}
    (hc : color.toNat < 16) (hbg : bg.toNat < 16) (currentByte : UInt8) (t : Tela) :
    px (drawRow x y currentByte color bg t).fb X Y =
      if x ≤ X ∧ X < x + 8 ∧ Y = y then if Aceso currentByte (X - x) then color else bg else px t.fb X Y := by
  have hcor (k : Nat) : (if Aceso currentByte k then color else bg).toNat < 16 := by
    split
    · exact hc
    · exact hbg
  exact px_pixels (fun k => if Aceso currentByte k then color else bg) hcor (Nat.le_refl 8) hx hy hX hY t

def corDe (alem : Nat → UInt8) (g color bg : UInt8) (x y : Nat) : UInt8 :=
  if Aceso (font8x16 alem (g.toNat * 16 + y)) x then color else bg

theorem px_drawCharRow (hx : x ≤ 32000) {m : Nat} (hy : y + m ≤ 32767) (hX : X < 640) (hY : Y < 480) {bg : UInt8}
    (hc : color.toNat < 16) (hbg : bg.toNat < 16) (g : UInt8) (t : Tela) :
    px (drawCharRow alem x y g color bg t m).fb X Y =
      if x ≤ X ∧ X < x + 8 ∧ Y = y + m then corDe alem g color bg (X - x) m else px t.fb X Y := by
  have hcast : (y : Int) + m = (y + m : Nat) := (Int.natCast_add y m).symm
  rw [drawCharRow, hcast, px_drawRow hx hy hX hY hc hbg]
  rfl

/-- A character on the grid changes its own cell and no other; below the last line it changes nothing. -/
theorem px_drawChar2 (hl : l < 80) (hk : k ≤ 30) (hX : X < 640) (hY : Y < 480) {bg : UInt8}
    (hc : color.toNat < 16) (hbg : bg.toNat < 16) (g : UInt8) (t : Tela) :
    px (drawChar2 alem (8 * l : Nat) (16 * k : Nat) g color bg t).fb X Y =
      if X / 8 = l ∧ Y / 16 = k then corDe alem g color bg (X % 8) (Y % 16) else px t.fb X Y := by
  -- After `m` rows of the character.
  have hpart (m : Nat) (hm : m ≤ 16) (u : Tela) :
      px ((List.range m).foldl (drawCharRow alem (8 * l : Nat) (16 * k : Nat) g color bg) u).fb X Y =
        if X / 8 = l ∧ Y / 16 = k ∧ Y % 16 < m then corDe alem g color bg (X % 8) (Y % 16) else px u.fb X Y := by
    induction m with
    | zero => rw [List.range_zero, List.foldl_nil, if_neg (by omega)]
    | succ m ih =>
        rw [List.range_succ, List.foldl_append, List.foldl_cons, List.foldl_nil,
          px_drawCharRow (by omega) (by omega) hX hY hc hbg, ih (by omega)]
        by_cases hnow : X / 8 = l ∧ Y / 16 = k ∧ Y % 16 = m
        · have hoff : X - 8 * l = X % 8 := by omega
          have hhere : 8 * l ≤ X ∧ X < 8 * l + 8 ∧ Y = 16 * k + m := by omega
          have hthere : X / 8 = l ∧ Y / 16 = k ∧ Y % 16 < m + 1 := by omega
          rw [if_pos hhere, if_pos hthere, hoff, hnow.2.2]
        · rw [if_neg (by omega)]
          by_cases hbefore : X / 8 = l ∧ Y / 16 = k ∧ Y % 16 < m
          · rw [if_pos hbefore, if_pos ⟨hbefore.1, hbefore.2.1, Nat.lt_succ_of_lt hbefore.2.2⟩]
          · rw [if_neg hbefore, if_neg (by omega)]
  rw [drawChar2, hpart 16 (Nat.le_refl 16)]
  by_cases hcell : X / 8 = l ∧ Y / 16 = k
  · rw [if_pos ⟨hcell.1, hcell.2, Nat.mod_lt _ (by decide)⟩, if_pos hcell]
  · rw [if_neg (fun h => hcell ⟨h.1, h.2.1⟩), if_neg hcell, px_fillRect hl hk hX hcell]

theorem px_scrollUpGraphics (hX : X < 640) (hY : Y < 480) (t : Tela) :
    px (scrollUpGraphics t).fb X Y = if Y < 464 then px t.fb X (Y + 16) else 0 := by
  have hbyte : (scrollUpGraphics t).fb ((640 * Y + X) / 2 : Nat) =
      if Y < 464 then t.fb ((640 * (Y + 16) + X) / 2 : Nat) else 0 := by
    have hidx : ((640 * (Y + 16) + X) / 2 : Nat) = ((640 * Y + X) / 2 : Nat) + (5120 : Int) := by omega
    dsimp only [scrollUpGraphics]
    unfold txcount
    by_cases hup : Y < 464
    · rw [if_pos (by omega), if_pos hup, hidx]
    · rw [if_neg (by omega), if_pos (by omega), if_neg hup]
  rw [px, hbyte, px]
  by_cases hup : Y < 464
  · simp only [if_pos hup]
  · simp only [if_neg hup]
    split <;> rfl

end Drawing

end Orion68.VgaPixels
