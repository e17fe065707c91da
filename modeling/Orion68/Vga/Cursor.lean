import Orion68.Lib.Runs
import Orion68.Vga.Accesses

namespace Orion68.VgaCursor

open Runs Vga VgaAccesses

variable (alem : Nat → UInt8) {t t' : Tela}

section Character

theorem short_eq {v : Int} (hlow : -32768 ≤ v) (hhigh : v ≤ 32767) : short v = v :=
  Int.bmod_eq_of_le (by omega) (by omega)

theorem drawRow_muda (x y : Int) (currentByte color bgcolor : UInt8) (t : Tela) :
    Muda false false t (drawRow x y currentByte color bgcolor t) := by
  have h := foldl_muda (l := List.range 8) (fun t (k : Nat) _ =>
    drawPixel_muda (if (currentByte >>> UInt8.ofNat (7 - k)) &&& 1 ≠ 0 then color else bgcolor) t (x + k) y) t
  exact h

theorem drawCharRow_muda (x y : Int) (c color bg : UInt8) (t : Tela) (row : Nat) :
    Muda false (decide (¬ c.toNat * 16 + row < 2080)) t (drawCharRow alem x y c color bg t row) := by
  have hread : Muda false (decide (¬ c.toNat * 16 + row < 2080)) t
      { t with foraFonte := t.foraFonte || decide (¬ c.toNat * 16 + row < 2080) } := by
    rw [Muda, Bool.or_false]
  have hdraw := hread.trans (drawRow_muda x (y + row) (font8x16 alem (c.toNat * 16 + row)) color bg _)
  rwa [Bool.or_false (decide _)] at hdraw

theorem drawChar2_muda (x y : Int) (c color bg : UInt8) (t : Tela) :
    Muda (decide (¬ RetanguloSeguro x y 8 16)) (decide (¬ c.toNat < 130)) t (drawChar2 alem x y c color bg t) := by
  have hrows := foldl_muda (l := List.range 16)
    (fun t (row : Nat) _ => drawCharRow_muda alem x y c color bg t row) (fillRect x y 8 16 bg t)
  have hany : (List.range 16).any (fun row => decide (¬ c.toNat * 16 + row < 2080)) = decide (¬ c.toNat < 130) := by
    rw [Bool.eq_iff_iff, List.any_eq_true, decide_eq_true_iff]
    constructor
    · rintro ⟨row, hmem, hbad⟩
      rw [List.mem_range] at hmem
      rw [decide_eq_true_iff] at hbad
      omega
    · intro hbad
      refine ⟨0, List.mem_range.mpr (by decide), ?_⟩
      rw [decide_eq_true_iff]
      omega
  have hall := (fillRect_muda bg t x y 8 16).trans hrows
  rw [hany, Bool.false_or] at hall
  have hnone : (List.range 16).any (fun _ => false) = false := rfl
  rwa [hnone, Bool.or_false] at hall

theorem drawChar_muda (hx : 0 ≤ t.cursorX ∧ t.cursorX < largura) (hy : 0 ≤ t.cursorY ∧ t.cursorY ≤ altura)
    (c color bg : UInt8) : Muda false (decide (¬ c.toNat < 130)) t (drawChar alem c color bg t) := by
  have hsafe : decide (¬ RetanguloSeguro t.cursorX t.cursorY 8 16) = false := by
    rw [decide_eq_false_iff_not, not_not, RetanguloSeguro, LinhaSegura]
    unfold largura altura at *
    rw [short_eq (by omega) (by omega), short_eq (by omega) (by omega), par]
    omega
  have h := drawChar2_muda alem t.cursorX t.cursorY c color bg t
  rwa [hsafe] at h

theorem putCursor_muda (hv : t.visible = false) (hx : 0 ≤ t.cursorX ∧ t.cursorX < largura)
    (hy : 0 ≤ t.cursorY ∧ t.cursorY ≤ altura) (k : UInt8) : Muda false false t (putCursor alem k t) := by
  rw [putCursor, hv]
  exact drawChar_muda alem hx hy 0x20 t.textcolor t.textbgcolor

end Character

section Position

/-- The cursor is on the grid of the tab stops and of the lines of text, above `limite`. -/
structure Alinhado (limite : Int) (t : Tela) : Prop where
  x : 0 ≤ t.cursorX ∧ t.cursorX < largura
  x_dvd : 4 ∣ t.cursorX
  y : 0 ≤ t.cursorY ∧ t.cursorY < limite
  y_dvd : 16 ∣ t.cursorY

theorem alinhado_of_muda {b f : Bool} {limite : Int} (h : Muda b f t t') (hal : Alinhado limite t) :
    Alinhado limite t' := by
  refine ⟨?_, ?_, ?_, ?_⟩
  · rw [h.cursorX]
    exact hal.x
  · rw [h.cursorX]
    exact hal.x_dvd
  · rw [h.cursorY]
    exact hal.y
  · rw [h.cursorY]
    exact hal.y_dvd

/-- Every access has been inside, except that the font may have been left (`f`). -/
def Dentro (f : Bool) (t t' : Tela) : Prop := t'.foraTela = t.foraTela ∧ t'.foraFonte = (t.foraFonte || f)

theorem Dentro.refl (t : Tela) : Dentro false t t := ⟨rfl, (Bool.or_false _).symm⟩

theorem dentro_of_muda {f : Bool} (h : Muda false f t t') : Dentro f t t' :=
  ⟨h.foraTela.trans (Bool.or_false _), h.foraFonte⟩

theorem Dentro.trans {f f' : Bool} {u : Tela} (h : Dentro f t u) (h' : Dentro f' u t') : Dentro (f || f') t t' :=
  ⟨h'.1.trans h.1, by rw [h'.2, h.2, Bool.or_assoc]⟩

theorem putCursor_alinhado {limite : Int} (hl : limite ≤ altura + 16) (hv : t.visible = false)
    (h : Alinhado limite t) (k : UInt8) :
    Alinhado limite (putCursor alem k t) ∧ (putCursor alem k t).visible = false ∧
      Dentro false t (putCursor alem k t) := by
  have hy : 0 ≤ t.cursorY ∧ t.cursorY ≤ altura := by
    have hlt := h.y.2
    have hdvd := h.y_dvd
    have hpos := h.y.1
    unfold altura at *
    omega
  have hmuda := putCursor_muda alem hv h.x hy k
  exact ⟨alinhado_of_muda hmuda h, hmuda.visible.trans hv, dentro_of_muda hmuda⟩

theorem alinhado_em {limite x y : Int} (u : Tela) (hx : 0 ≤ x ∧ x < largura) (hx4 : 4 ∣ x) (hy : 0 ≤ y ∧ y < limite)
    (hy16 : 16 ∣ y) : Alinhado limite { u with cursorX := x, cursorY := y } := ⟨hx, hx4, hy, hy16⟩

theorem coluna_zero : (0 : Int) ≤ 0 ∧ 0 < largura := by decide

theorem alinhado_origem (u : Tela) : Alinhado altura { u with cursorX := 0, cursorY := 0 } :=
  alinhado_em u coluna_zero (Int.dvd_zero 4) ⟨Int.le_refl 0, by decide⟩ (Int.dvd_zero 16)

theorem Alinhado.mono {limite limite' : Int} (h : Alinhado limite t) (hl : limite ≤ limite') : Alinhado limite' t :=
  ⟨h.x, h.x_dvd, ⟨h.y.1, h.y.2.trans_le hl⟩, h.y_dvd⟩

theorem altura_le : altura ≤ altura + 16 := by decide

theorem retorno_alinhado {limite : Int} (hl : limite ≤ altura + 16) (hv : t.visible = false) (h : Alinhado limite t) :
    Alinhado limite (retorno alem t) ∧ Dentro false t (retorno alem t) := by
  have hzero : Alinhado limite { t with cursorX := 0 } :=
    alinhado_em t coluna_zero (Int.dvd_zero 4) h.y h.y_dvd
  obtain ⟨hal, -, hin⟩ := putCursor_alinhado alem hl (t := { t with cursorX := 0 }) hv hzero 1
  exact ⟨hal, hin⟩

theorem desce_alinhado {x : Int} (h : Alinhado altura t) (hx : 0 ≤ x ∧ x < largura) (hx4 : 4 ∣ x) :
    Alinhado (altura + 16) { t with cursorY := short (t.cursorY + fontHeight), cursorX := x } := by
  have hy := h.y
  have hy16 := h.y_dvd
  have hshort : short (t.cursorY + fontHeight) = t.cursorY + 16 := by
    unfold altura fontHeight at *
    exact short_eq (by omega) (by omega)
  rw [hshort]
  exact alinhado_em t hx hx4 (by omega) (by omega)

theorem esquerda_alinhado (h : Alinhado altura t) : Alinhado altura { t with
    cursorX := if short (t.cursorX - fontWidth) < 0 then 0 else short (t.cursorX - fontWidth) } := by
  have hx := h.x
  have hx4 := h.x_dvd
  have hshort : short (t.cursorX - fontWidth) = t.cursorX - 8 := by
    unfold largura fontWidth at *
    exact short_eq (by omega) (by omega)
  rw [hshort]
  apply alinhado_em t ?_ ?_ h.y h.y_dvd
  · split <;> omega
  · split <;> omega

theorem tabula_alinhado (h : Alinhado altura t) (hlt : t.cursorX + tabspace < largura) :
    Alinhado altura { t with cursorX := short (t.cursorX + tabspace) } := by
  have hx := h.x
  have hx4 := h.x_dvd
  have hshort : short (t.cursorX + tabspace) = t.cursorX + 4 := by
    unfold largura tabspace at *
    exact short_eq (by omega) (by omega)
  unfold tabspace at hlt
  rw [hshort]
  exact alinhado_em t (by omega) (by omega) h.y h.y_dvd

theorem direita_alinhado (h : Alinhado altura t) : Alinhado (altura + 16)
    (if short (t.cursorX + fontWidth) ≥ largura then
      { t with cursorY := short (t.cursorY + fontHeight), cursorX := 0 }
    else { t with cursorX := short (t.cursorX + fontWidth) }) := by
  have hx := h.x
  have hx4 := h.x_dvd
  have hshort : short (t.cursorX + fontWidth) = t.cursorX + 8 := by
    unfold largura fontWidth at *
    exact short_eq (by omega) (by omega)
  rw [hshort]
  split
  · exact desce_alinhado h coluna_zero (Int.dvd_zero 4)
  · exact (alinhado_em t (by omega) (by omega) h.y h.y_dvd).mono altura_le

theorem drawChar_alinhado (h : Alinhado altura t) (c color bg : UInt8) :
    Alinhado altura (drawChar alem c color bg t) ∧
      Dentro (decide (¬ c.toNat < 130)) t (drawChar alem c color bg t) := by
  have hmuda := drawChar_muda alem h.x ⟨h.y.1, h.y.2.le⟩ c color bg
  exact ⟨alinhado_of_muda hmuda h, dentro_of_muda hmuda⟩

theorem tftSwitch_alinhado (hv : t.visible = false) (h : Alinhado altura t) (c : UInt8) :
    Alinhado (altura + 16) (tftSwitch alem c t) ∧ Dentro (decide (¬ c.toNat < 130)) t (tftSwitch alem c t) := by
  obtain ⟨hal, hvis, hin⟩ := putCursor_alinhado alem altura_le hv h 0
  rw [tftSwitch]
  split
  next hc =>
    subst hc
    have hdown := desce_alinhado hal hal.x hal.x_dvd
    obtain ⟨hal', hin'⟩ := retorno_alinhado alem (Int.le_refl _) (t := { putCursor alem 0 t with
      cursorY := short ((putCursor alem 0 t).cursorY + fontHeight) }) hvis hdown
    exact ⟨hal', hin.trans hin'⟩
  next =>
  split
  next hc =>
    subst hc
    obtain ⟨hal', hin'⟩ := retorno_alinhado alem altura_le hv h
    exact ⟨hal'.mono altura_le, hin'⟩
  next =>
  split
  next hc =>
    subst hc
    obtain ⟨hal', -, hin'⟩ := putCursor_alinhado alem altura_le (t := { putCursor alem 0 t with
      cursorX := if short ((putCursor alem 0 t).cursorX - fontWidth) < 0 then 0
        else short ((putCursor alem 0 t).cursorX - fontWidth) }) hvis (esquerda_alinhado hal) 1
    exact ⟨hal'.mono altura_le, hin.trans hin'⟩
  next =>
  split
  next hc =>
    subst hc
    dsimp only
    split
    next hlt => exact ⟨(tabula_alinhado h hlt).mono altura_le, .refl t⟩
    next => exact ⟨h.mono altura_le, .refl t⟩
  next =>
  obtain ⟨hal', hin'⟩ := drawChar_alinhado alem h c t.textcolor t.textbgcolor
  refine ⟨direita_alinhado hal', ?_⟩
  dsimp only
  split
  · exact hin'
  · exact hin'

theorem tftWrite_alinhado (hv : t.visible = false) (h : Alinhado altura t) (c : UInt8) :
    Alinhado altura (tftWrite alem c t) ∧ Dentro (decide (¬ c.toNat < 130)) t (tftWrite alem c t) := by
  obtain ⟨hal, hin⟩ := tftSwitch_alinhado alem hv h c
  rw [tftWrite, rola]
  split
  next hge =>
    have hy := hal.y
    have hy16 := hal.y_dvd
    have hshort : short ((tftSwitch alem c t).cursorY - fontHeight) = (tftSwitch alem c t).cursorY - 16 := by
      unfold altura fontHeight at *
      exact short_eq (by omega) (by omega)
    have hup : 0 ≤ (tftSwitch alem c t).cursorY - 16 ∧ (tftSwitch alem c t).cursorY - 16 < altura := by
      unfold altura at *
      omega
    have hdvd : 16 ∣ (tftSwitch alem c t).cursorY - 16 := by omega
    rw [← hshort] at hup hdvd
    exact ⟨alinhado_em (scrollUpGraphics (tftSwitch alem c t)) coluna_zero (Int.dvd_zero 4) hup hdvd,
      hin⟩
  next hlt =>
    rw [Int.not_le] at hlt
    exact ⟨⟨hal.x, hal.x_dvd, ⟨hal.y.1, hlt⟩, hal.y_dvd⟩, hin⟩

theorem pixel_spec (p : UInt16) (limite d : Int) (hlim : 0 < limite ∧ limite ≤ largura) (hd : d ∣ p.toNat) :
    (0 ≤ short (if (p.toNat : Int) ≥ limite then (0 : UInt16) else p).toNat ∧
      short (if (p.toNat : Int) ≥ limite then (0 : UInt16) else p).toNat < limite) ∧
      d ∣ short (if (p.toNat : Int) ≥ limite then (0 : UInt16) else p).toNat := by
  split
  next =>
    have hzero : short (0 : UInt16).toNat = 0 := by decide
    rw [hzero]
    exact ⟨⟨Int.le_refl 0, hlim.1⟩, Int.dvd_zero _⟩
  next hlt =>
    have hshort : short p.toNat = p.toNat := by
      unfold largura at *
      exact short_eq (by omega) (by omega)
    rw [hshort]
    exact ⟨⟨by omega, by omega⟩, hd⟩

theorem setTextCursor_alinhado (h : Alinhado altura t) (x y : UInt16) :
    Alinhado altura (setTextCursor x y t) ∧ Dentro false t (setTextCursor x y t) := by
  rw [setTextCursor]
  split
  next => exact ⟨h, .refl t⟩
  next hin =>
    unfold largura altura at hin
    have hx8 : (x * 8).toNat = x.toNat * 8 := by
      rw [UInt16.toNat_mul]
      change x.toNat * 8 % 65536 = _
      omega
    have hy16 : (y * 16).toNat = y.toNat * 16 := by
      rw [UInt16.toNat_mul]
      change y.toNat * 16 % 65536 = _
      omega
    obtain ⟨hx, hx4⟩ := pixel_spec (x * 8) largura 4 (by decide) (by omega)
    obtain ⟨hy, hyd⟩ := pixel_spec (y * 16) altura 16 (by decide) (by omega)
    exact ⟨alinhado_em t hx hx4 hy hyd, rfl, (Bool.or_false _).symm⟩

theorem clrscr_alinhado (t : Tela) : Alinhado altura (clrscr t) ∧ Dentro false t (clrscr t) := by
  have hmuda := memset_muda 0 0 txcount t
  have hall : decide (¬ ((0 : Int) ≤ 0 ∧ 0 + txcount ≤ txcount)) = false := by decide
  rw [hall] at hmuda
  exact ⟨alinhado_origem (t.memset 0 0 txcount),
    hmuda.foraTela.trans (Bool.or_false _), hmuda.foraFonte⟩

theorem setVgaHome_alinhado (h : Alinhado altura t) :
    Alinhado altura (setVgaHome t) ∧ Dentro false t (setVgaHome t) := by
  have hhidden : Alinhado altura { t with visible := false } := ⟨h.x, h.x_dvd, h.y, h.y_dvd⟩
  have hhome := setTextCursor_alinhado hhidden 0 0
  rw [setVgaHome]
  generalize setTextCursor 0 0 { t with visible := false } = u at hhome ⊢
  obtain ⟨hal, hin⟩ := hhome
  exact ⟨⟨hal.x, hal.x_dvd, hal.y, hal.y_dvd⟩, hin⟩

end Position

section Operations

def DeTexto : Chamada → Prop
  | .pchar _ | .setTextCursorPos _ _ | .clrscr | .setVgaHome => True
  | _ => False

/-- A character is written for which the font has no glyph. -/
def foraDaFonte : Chamada → Bool
  | .pchar c => decide (¬ c.toNat < 130)
  | _ => false

theorem executa_texto (n : Nat) {c : Chamada} (h : Alinhado altura t) (hc : DeTexto c) :
    ∃ t', executa alem n c t = some t' ∧ Alinhado altura t' ∧ Dentro (foraDaFonte c) t t' := by
  cases c with
  | pchar c =>
      have hhidden : Alinhado altura { t with visible := false } := ⟨h.x, h.x_dvd, h.y, h.y_dvd⟩
      obtain ⟨hal, hin⟩ := tftWrite_alinhado alem rfl hhidden c
      exact ⟨_, rfl, ⟨hal.x, hal.x_dvd, hal.y, hal.y_dvd⟩, hin⟩
  | setTextCursorPos x y => exact ⟨_, rfl, setTextCursor_alinhado h x y⟩
  | clrscr => exact ⟨_, rfl, clrscr_alinhado t⟩
  | setVgaHome => exact ⟨_, rfl, setVgaHome_alinhado h⟩
  | setTextColor | drawLine | drawVLine | drawHLine | drawCircle | drawCircleHelper | fillCircle | fillCircleHelper
  | drawRoundRect | fillRoundRect | fillRect | fillTri => exact hc.elim

/-- After every sequence of operations the cursor is on its grid, and all that has been stored was
stored in the framebuffer. -/
theorem cursor_on_grid (n : Nat) {cs : List Chamada} (h : Alinhado altura t) (hin : t.foraTela = false)
    (hcs : ∀ c ∈ cs, DeTexto c) :
    ∃ t', run (executa alem n) cs t = some t' ∧ Alinhado altura t' ∧ t'.foraTela = false := by
  induction cs generalizing t with
  | nil => exact ⟨t, rfl, h, hin⟩
  | cons c cs ih =>
      rw [List.forall_mem_cons] at hcs
      obtain ⟨u, hu, hal, hin', -⟩ := executa_texto alem n h hcs.1
      obtain ⟨t', ht, hres⟩ := ih hal (hin'.trans hin) hcs.2
      exact ⟨t', by rw [run_cons_of_step hu, ht], hres⟩

/-- The screen after `create_screen`. -/
def telaInicial (fb : Int → UInt8) : Tela := ⟨fb, 0, 0, true, true, 0x80, 7, 0, false, false⟩

theorem telaInicial_alinhado (fb : Int → UInt8) : Alinhado altura (telaInicial fb) :=
  alinhado_origem (telaInicial fb)

theorem last_cell_on_grid : ∃ t',
    run (executa (fun _ => 0) 0) [.setTextCursorPos 79 29, .pchar 0x09, .pchar 0x41, .pchar 0x08]
      (telaInicial fun _ => 0) = some t' ∧ Alinhado altura t' ∧ t'.foraTela = false := by
  have hin : (telaInicial fun _ => 0).foraTela = false := rfl
  have htexto : ∀ c ∈ [Chamada.setTextCursorPos 79 29, .pchar 0x09, .pchar 0x41, .pchar 0x08], DeTexto c := by
    rw [List.forall_mem_cons, List.forall_mem_cons, List.forall_mem_cons, List.forall_mem_singleton]
    exact ⟨trivial, trivial, trivial, trivial⟩
  exact cursor_on_grid (fun _ => 0) 0 (telaInicial_alinhado fun _ => 0) hin htexto

end Operations

end Orion68.VgaCursor
