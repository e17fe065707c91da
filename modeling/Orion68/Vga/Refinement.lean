import Orion68.Vga.Rendering

namespace Orion68.VgaRefinement

open Runs TextScreen Vga VgaAccesses VgaCursor VgaPixels VgaRendering

variable {alem : Nat → UInt8} {cor : UInt8} {t : Tela} {q q' : Quadro}

section Screens

/-- The cells are printable characters, and below the cursor they are spaces. -/
abbrev Escrito (q : Quadro) : Prop := q.Holds (fun g => 0x20 ≤ g.toNat ∧ g.toNat ≤ 0x7E) 0x20

theorem limpo_escrito : Escrito limpo := Screen.holds_clear ⟨Nat.le_refl _, by decide⟩ _ _

theorem recebe_escrito {b : UInt8} (hb : Texto b) (h : Escrito q) : Escrito (recebe b q) := by
  rw [recebe]
  split
  next => exact h.newLine
  next hlf =>
  split
  next => exact h.home
  next hcr =>
    obtain hb | hb | hb := hb
    · exact absurd hb hlf
    · exact absurd hb hcr
    · exact h.put hb

theorem recebe_apaga_cursor (b : UInt8) (q : Quadro) :
    (recebe b (apaga b q)).row = (recebe b q).row ∧ (recebe b (apaga b q)).col = (recebe b q).col := by
  rw [recebe, recebe, apaga]
  split
  next =>
    rw [Screen.newLine_row, Screen.newLine_row, Screen.newLine_col, Screen.newLine_col]
    exact ⟨rfl, rfl⟩
  next =>
  split
  · exact ⟨rfl, rfl⟩
  · exact ⟨rfl, rfl⟩

theorem exists_newLine_row (q : Quadro) : ∃ r < 30, ∀ q' : Quadro, q'.row = q.row →
    ∀ c, (q'.newLine 0x20).cell r c = q'.cell q.row c := by
  have hrow := q.row_lt
  by_cases hlast : q.row + 1 < 30
  · refine ⟨q.row, hrow, ?_⟩
    intro q' hq c
    rw [Screen.newLine_cell, hq, if_pos hlast]
  · refine ⟨q.row - 1, by omega, ?_⟩
    intro q' hq c
    have hup : q.row - 1 + 1 = q.row := by omega
    rw [Screen.newLine_cell, hq, if_neg hlast, hup, if_pos hrow]

theorem pixelDe_recebe_apaga {b : UInt8} (hd : Discreto cor b q) (X Y : Nat) :
    pixelDe alem cor (recebe b (apaga b q)) X Y = pixelDe alem cor (recebe b q) X Y := by
  by_cases hcor : cor = 0
  · rw [hcor, pixelDe_black, pixelDe_black]
  · have hsame : apaga b q = q := by
      rw [apaga]
      split
      next hb => exact Screen.set_self ((hd.1 hb).resolve_right hcor)
      next =>
      split
      next hb => exact Screen.set_self ((hd.2 hb).resolve_right hcor)
      next => rfl
    rw [hsame]

theorem exists_pixelDe_recebe_apaga_ne (alem : Nat → UInt8) {b : UInt8} (hq : Escrito q) (hd : ¬ Discreto cor b q) :
    ∃ X < 640, ∃ Y < 480, pixelDe alem cor (recebe b (apaga b q)) X Y ≠ pixelDe alem cor (recebe b q) X Y := by
  have hcol := q.col_lt
  have hrow := q.row_lt
  by_cases hlf : b = 0x0A
  · have hcell : q.cell q.row q.col ≠ 0x20 ∧ cor ≠ 0 := by
      constructor
      · exact fun h => hd ⟨fun _ => .inl h, fun hcr => absurd (hlf.symm.trans hcr) (by decide)⟩
      · exact fun h => hd ⟨fun _ => .inr h, fun hcr => absurd (hlf.symm.trans hcr) (by decide)⟩
    obtain ⟨r, hr, hline⟩ := exists_newLine_row q
    have hkeep := hline q rfl q.col
    have hwiped := hline (q.set q.row q.col 0x20) rfl q.col
    rw [Screen.set_cell, if_pos ⟨rfl, rfl⟩] at hwiped
    have hprint := hq.cells q.row q.col
    rw [recebe, recebe, apaga, if_pos hlf, if_pos hlf, if_pos hlf]
    rw [← hkeep] at hprint hcell
    exact exists_pixelDe_ne hr hcol hwiped hprint.1 hprint.2 hcell.1 hcell.2
  · by_cases hcr : b = 0x0D
    · have hcell : q.cell q.row 0 ≠ 0x20 ∧ cor ≠ 0 := by
        constructor
        · exact fun h => hd ⟨fun hb => absurd hb hlf, fun _ => .inl h⟩
        · exact fun h => hd ⟨fun hb => absurd hb hlf, fun _ => .inr h⟩
      have hwiped : ((q.set q.row 0 0x20).home).cell q.row 0 = 0x20 := if_pos ⟨rfl, rfl⟩
      have hprint := hq.cells q.row 0
      rw [recebe, recebe, apaga, if_neg hlf, if_neg hlf, if_neg hlf, if_pos hcr, if_pos hcr, if_pos hcr]
      exact exists_pixelDe_ne hrow (Nat.succ_pos 79) hwiped hprint.1 hprint.2 hcell.1 hcell.2
    · exact absurd ⟨fun hb => absurd hb hlf, fun hb => absurd hb hcr⟩ hd

end Screens

section Drawing

/-- The terminal shows the screen, with its cursor at column `l` of line `k`, which may be below the last one. -/
structure Mostra (alem : Nat → UInt8) (cor : UInt8) (l k : Nat) (t : Tela) (q : Quadro) : Prop where
  textcolor : t.textcolor = cor
  textbgcolor : t.textbgcolor = 0
  cursorX : t.cursorX = (8 * l : Nat)
  cursorY : t.cursorY = (16 * k : Nat)
  pinta : Pinta alem cor t.fb q

variable {l k : Nat}

theorem Mostra.congr (h : Mostra alem cor l k t q)
    (hpx : ∀ X Y, pixelDe alem cor q X Y = pixelDe alem cor q' X Y) : Mostra alem cor l k t q' := by
  refine ⟨h.textcolor, h.textbgcolor, h.cursorX, h.cursorY, ?_⟩
  intro X hX Y hY
  rw [h.pinta X hX Y hY, hpx]

theorem Mostra.move (h : Mostra alem cor l k t q) {x y : Int} {l' k' : Nat} (hx : x = (8 * l' : Nat))
    (hy : y = (16 * k' : Nat)) : Mostra alem cor l' k' { t with cursorX := x, cursorY := y } q :=
  ⟨h.textcolor, h.textbgcolor, hx, hy, h.pinta⟩

theorem drawChar_mostra (hcor : cor.toNat < 16) (hl : l < 80) (hk : k ≤ 30) (h : Mostra alem cor l k t q)
    (g : UInt8) : Mostra alem cor l k (drawChar alem g t.textcolor t.textbgcolor t) (q.set k l g) ∧
      (drawChar alem g t.textcolor t.textbgcolor t).visible = t.visible := by
  have hx : 0 ≤ t.cursorX ∧ t.cursorX < largura := by
    rw [h.cursorX]
    unfold largura
    omega
  have hy : 0 ≤ t.cursorY ∧ t.cursorY ≤ altura := by
    rw [h.cursorY]
    unfold altura
    omega
  have hmuda := drawChar_muda alem hx hy g t.textcolor t.textbgcolor
  have hblack : (0 : UInt8).toNat < 16 := by decide
  refine ⟨⟨?_, ?_, ?_, ?_, ?_⟩, hmuda.visible⟩
  · rw [hmuda.textcolor, h.textcolor]
  · rw [hmuda.textbgcolor, h.textbgcolor]
  · rw [hmuda.cursorX, h.cursorX]
  · rw [hmuda.cursorY, h.cursorY]
  · intro X hX Y hY
    rw [drawChar, h.cursorX, h.cursorY, h.textcolor, h.textbgcolor,
      px_drawChar2 hl hk hX hY hcor hblack, pixelDe_set, h.pinta X hX Y hY]

theorem putCursor_mostra (hcor : cor.toNat < 16) (hl : l < 80) (hk : k ≤ 30) (hv : t.visible = false)
    (h : Mostra alem cor l k t q) (c : UInt8) :
    Mostra alem cor l k (putCursor alem c t) (q.set k l 0x20) ∧ (putCursor alem c t).visible = false := by
  obtain ⟨hdraw, hvis⟩ := drawChar_mostra hcor hl hk h 0x20
  rw [putCursor, hv]
  exact ⟨hdraw, hvis.trans hv⟩

theorem retorno_mostra (hcor : cor.toNat < 16) (hk : k ≤ 30) (hv : t.visible = false)
    (h : Mostra alem cor l k t q) : Mostra alem cor 0 k (retorno alem t) (q.set k 0 0x20) := by
  have hstart : Mostra alem cor 0 k { t with cursorX := 0 } q :=
    ⟨h.textcolor, h.textbgcolor, rfl, h.cursorY, h.pinta⟩
  have hdraw := putCursor_mostra hcor (Nat.succ_pos 79) hk (t := { t with cursorX := 0 }) hv hstart 1
  rw [retorno]
  exact hdraw.1

theorem desce_mostra (hk : k < 30) (h : Mostra alem cor l k t q) {x : Int} {l' : Nat} (hx : x = (8 * l' : Nat)) :
    Mostra alem cor l' (k + 1) { t with cursorX := x, cursorY := short (t.cursorY + fontHeight) } q := by
  apply h.move hx
  rw [h.cursorY, fontHeight, short_eq (by omega) (by omega)]
  omega

end Drawing

section Step

variable {l k : Nat}

theorem rola_mostra_of_lt (hk : k < 30) (h : Mostra alem cor l k t q) : Mostra alem cor l k (rola t) q := by
  have hin : ¬ t.cursorY ≥ altura := by
    rw [h.cursorY]
    unfold altura
    omega
  rw [rola, if_neg hin]
  exact h

theorem rola_mostra (h : Mostra alem cor 0 (q.row + 1) t q) :
    Mostra alem cor (q.newLine 0x20).col (q.newLine 0x20).row (rola t) (q.newLine 0x20) := by
  have hrow := q.row_lt
  rw [Screen.newLine_col, Screen.newLine_row]
  by_cases hlast : q.row + 1 < 30
  · rw [if_pos hlast]
    apply (rola_mostra_of_lt hlast h).congr
    intro X Y
    rw [pixelDe, pixelDe, Screen.newLine_cell, if_pos hlast]
  · have hout : t.cursorY ≥ altura := by
      rw [h.cursorY]
      unfold altura
      omega
    rw [if_neg hlast, rola, if_pos hout]
    refine ⟨h.textcolor, h.textbgcolor, rfl, ?_, ?_⟩
    · change short (t.cursorY - fontHeight) = _
      rw [h.cursorY, fontHeight, short_eq (by omega) (by omega)]
      omega
    · intro X hX Y hY
      change px (scrollUpGraphics t).fb X Y = _
      rw [px_scrollUpGraphics hX hY, pixelDe, Screen.newLine_cell, if_neg hlast]
      by_cases hup : Y < 464
      · have hline : (Y + 16) / 16 = Y / 16 + 1 := by omega
        have hrest : (Y + 16) % 16 = Y % 16 := by omega
        rw [if_pos hup, if_pos (by omega), h.pinta X hX (Y + 16) (by omega), pixelDe, hline, hrest]
      · rw [if_neg hup, if_neg (by omega), corDe_space (Nat.mod_lt _ (by decide))]

/-- The terminal at rest, with its cursor where that of the screen is. -/
abbrev Repouso (alem : Nat → UInt8) (cor : UInt8) (t : Tela) (q : Quadro) : Prop := Mostra alem cor q.col q.row t q

theorem lf_repouso (hcor : cor.toNat < 16) (hv : t.visible = false) (h : Repouso alem cor t q) (hq : Escrito q) :
    Repouso alem cor (tftWrite alem 0x0A t) ((q.set q.row q.col 0x20).newLine 0x20) := by
  have hrow := q.row_lt
  obtain ⟨herase, hvis⟩ := putCursor_mostra hcor q.col_lt hrow.le hv h 0
  have hdown := desce_mostra hrow herase herase.cursorX
  have hreturn := retorno_mostra hcor (Nat.succ_le_of_lt hrow) (t := { putCursor alem 0 t with
    cursorX := (putCursor alem 0 t).cursorX
    cursorY := short ((putCursor alem 0 t).cursorY + fontHeight) }) hvis hdown
  -- The space that is drawn at the start of the next line falls on a space, or below the screen.
  have hbelow : (q.set q.row q.col 0x20).cell (q.row + 1) 0 = 0x20 := by
    rw [Screen.set_cell, if_neg (by omega)]
    exact hq.below _ _ (Nat.lt_succ_self _)
  rw [Screen.set_self hbelow] at hreturn
  exact rola_mostra (q := q.set q.row q.col 0x20) hreturn

theorem cr_repouso (hcor : cor.toNat < 16) (hv : t.visible = false) (h : Repouso alem cor t q) :
    Repouso alem cor (tftWrite alem 0x0D t) (q.set q.row 0 0x20).home := by
  have hreturn := retorno_mostra hcor q.row_lt.le hv h
  have hplain : tftSwitch alem 0x0D t = retorno alem t := rfl
  rw [tftWrite, hplain]
  exact (rola_mostra_of_lt q.row_lt hreturn).congr fun _ _ => rfl

theorem put_repouso (hcor : cor.toNat < 16) (h : Repouso alem cor t q) {b : UInt8} (hb : 0x20 ≤ b.toNat) :
    Repouso alem cor (tftWrite alem b t) (q.put 0x20 b) := by
  have hcol := q.col_lt
  have hrow := q.row_lt
  have hplain : b ≠ 0x0A ∧ b ≠ 0x0D ∧ b ≠ 0x08 ∧ b ≠ 0x09 := by
    refine ⟨?_, ?_, ?_, ?_⟩ <;>
    · rintro rfl
      exact absurd hb (by decide)
  obtain ⟨hdraw, -⟩ := drawChar_mostra hcor hcol hrow.le h b
  have hx : short ((drawChar alem b t.textcolor t.textbgcolor t).cursorX + fontWidth) = (8 * (q.col + 1) : Nat) := by
    rw [hdraw.cursorX, fontWidth, short_eq (by omega) (by omega)]
    omega
  rw [tftWrite, tftSwitch, if_neg hplain.1, if_neg hplain.2.1, if_neg hplain.2.2.1, if_neg hplain.2.2.2, Screen.put]
  dsimp only
  rw [hx]
  by_cases hwrap : q.col + 1 < 80
  · have hin : ¬ ((8 * (q.col + 1) : Nat) : Int) ≥ largura := by
      unfold largura
      omega
    rw [if_neg hin, Screen.advance_of_lt (s := q.set q.row q.col b) hwrap]
    have hmove := hdraw.move (x := (8 * (q.col + 1) : Nat)) rfl hdraw.cursorY
    exact rola_mostra_of_lt hrow (hmove.congr fun _ _ => rfl)
  · have hout : ((8 * (q.col + 1) : Nat) : Int) ≥ largura := by
      unfold largura
      omega
    rw [if_pos hout, Screen.advance_of_not_lt (s := q.set q.row q.col b) hwrap]
    have hstart : (0 : Int) = (8 * 0 : Nat) := rfl
    exact rola_mostra (q := q.set q.row q.col b) (desce_mostra hrow hdraw hstart)

/-- A byte does to the terminal what it does to a screen on which the cursor has wiped out a cell. -/
theorem tftWrite_repouso (hcor : cor.toNat < 16) (hv : t.visible = false) (h : Repouso alem cor t q)
    (hq : Escrito q) {b : UInt8} (hb : Texto b) :
    Repouso alem cor (tftWrite alem b t) (recebe b (apaga b q)) := by
  obtain rfl | rfl | hb := hb
  · exact lf_repouso hcor hv h hq
  · exact cr_repouso hcor hv h
  · have hlf : b ≠ 0x0A := by
      rintro rfl
      exact absurd hb.1 (by decide)
    have hcr : b ≠ 0x0D := by
      rintro rfl
      exact absurd hb.1 (by decide)
    rw [apaga, if_neg hlf, if_neg hcr, recebe, if_neg hlf, if_neg hcr]
    exact put_repouso hcor h hb.1

end Step

section Bus

variable {n : Nat} {v v' : Video}

theorem step_of_gerencia {pacote : UInt16} {r : Registers} {c : Chamada}
    (h : (gerenciarBarramentoM68k pacote v.registers).2 = (r, some c)) :
    step alem n pacote v = (executa alem n c v.tela).map fun t => ⟨r, t⟩ := by
  have hall : gerenciarBarramentoM68k pacote v.registers =
      ((gerenciarBarramentoM68k pacote v.registers).1, r, some c) := Prod.ext rfl h
  rw [step, hall]

theorem step_write (b : UInt8) : step alem n (escrita dWriteScreen b) v =
    some ⟨v.registers, { tftWrite alem b { v.tela with visible := false } with visible := true }⟩ := by
  have hcall : (gerenciarBarramentoM68k (escrita dWriteScreen b) v.registers).2 = (v.registers, some (.pchar b)) :=
    gerencia_escrita (by decide) b v.registers
  exact step_of_gerencia hcall

theorem step_clear : step alem n (escrita dRunCmd cmdClearScreen) v =
    some ⟨{ v.registers with cursorX := 0, cursorY := 0 }, clrscr v.tela⟩ := by
  have hcall : (gerenciarBarramentoM68k (escrita dRunCmd cmdClearScreen) v.registers).2 =
      ({ v.registers with cursorX := 0, cursorY := 0 }, some .clrscr) :=
    gerencia_escrita (by decide) cmdClearScreen v.registers
  exact step_of_gerencia hcall

theorem clrscr_repouso (hbg : t.textbgcolor = 0) : Repouso alem t.textcolor (clrscr t) limpo := by
  refine ⟨rfl, hbg, rfl, rfl, ?_⟩
  intro X hX Y hY
  have hbyte : (clrscr t).fb ((640 * Y + X) / 2 : Nat) = 0 := by
    have hin : (0 : Int) ≤ ((640 * Y + X) / 2 : Nat) ∧ (((640 * Y + X) / 2 : Nat) : Int) < 0 + txcount := by
      unfold txcount
      omega
    dsimp only [clrscr, Tela.memset]
    rw [if_pos hin]
  have hcell : limpo.cell (Y / 16) (X / 8) = 0x20 := rfl
  rw [pixelDe, hcell, corDe_space (Nat.mod_lt _ (by decide)), px, hbyte]
  split <;> rfl

/-- The terminal and the screen agree, and there is nothing on the screen that cannot be printed. -/
def Acordo (alem : Nat → UInt8) (cor : UInt8) (s : Video × Quadro) : Prop :=
  Repouso alem cor s.1.tela s.2 ∧ Escrito s.2

theorem passo_acordo (hcor : cor.toNat < 16) {s : Video × Quadro} (h : Acordo alem cor s) (b : Byte) :
    ∃ v, passo alem n b s = some (v, recebe b s.2) ∧
      Mostra alem cor (recebe b s.2).col (recebe b s.2).row v.tela (recebe b (apaga b s.2)) := by
  have hhidden : Repouso alem cor { s.1.tela with visible := false } s.2 :=
    ⟨h.1.textcolor, h.1.textbgcolor, h.1.cursorX, h.1.cursorY, h.1.pinta⟩
  have hshow := tftWrite_repouso hcor rfl hhidden h.2 b.2
  rw [Repouso, (recebe_apaga_cursor b s.2).1, (recebe_apaga_cursor b s.2).2] at hshow
  refine ⟨_, by rw [passo, step_write]; rfl, ?_⟩
  exact ⟨hshow.textcolor, hshow.textbgcolor, hshow.cursorX, hshow.cursorY, hshow.pinta⟩

theorem passo_discreto (hcor : cor.toNat < 16) {s : Video × Quadro} (h : Acordo alem cor s) {b : Byte}
    (hd : Discreto cor b s.2) :
    ∃ v, passo alem n b s = some (v, recebe b s.2) ∧ Acordo alem cor (v, recebe b s.2) := by
  obtain ⟨v, hstep, hshow⟩ := passo_acordo hcor h b
  exact ⟨v, hstep, hshow.congr (pixelDe_recebe_apaga hd), recebe_escrito b.2 h.2⟩

theorem passo_indiscreto (hcor : cor.toNat < 16) {s : Video × Quadro} (h : Acordo alem cor s) {b : Byte}
    (hd : ¬ Discreto cor b s.2) :
    ∃ v, passo alem n b s = some (v, recebe b s.2) ∧ ¬ Igual alem cor v.tela (recebe b s.2) := by
  obtain ⟨v, hstep, hshow⟩ := passo_acordo hcor h b
  refine ⟨v, hstep, ?_⟩
  intro hequal
  obtain ⟨X, hX, Y, hY, hne⟩ := exists_pixelDe_recebe_apaga_ne alem h.2 hd
  exact hne ((hshow.pinta X hX Y hY).symm.trans ((igual_iff_pinta hcor).mp hequal X hX Y hY))

theorem clear_acordo (hbg : v.tela.textbgcolor = 0)
    (hclear : step alem n (escrita dRunCmd cmdClearScreen) v = some v') : Acordo alem v.tela.textcolor (v', limpo) := by
  obtain rfl : ⟨{ v.registers with cursorX := 0, cursorY := 0 }, clrscr v.tela⟩ = v' :=
    Option.some_inj.mp (step_clear.symm.trans hclear)
  exact ⟨clrscr_repouso hbg, limpo_escrito⟩

theorem along_passo (alem : Nat → UInt8) (n : Nat) (bs : List Byte) (s : Video × Quadro) :
    Along (passo alem n) (fun b s => Discreto cor b s.2) bs s ↔ Along escreve (Discreto cor ·) bs s.2 := by
  induction bs generalizing s with
  | nil => exact Iff.rfl
  | cons b bs ih =>
      have hstep : passo alem n b s = some (⟨s.1.registers,
          { tftWrite alem b { s.1.tela with visible := false } with visible := true }⟩, recebe b s.2) := by
        rw [passo, step_write]
        rfl
      rw [Along, Along]
      apply and_congr_right
      intro _
      constructor
      · intro h q hq
        cases hq
        exact (ih _).mp (h _ hstep)
      · intro h s' hs
        cases hstep.symm.trans hs
        exact (ih _).mpr (h _ rfl)

/-- After the screen has been cleared, the framebuffer shows the screen of characters after every byte
exactly when none of the cells that the hidden cursor wipes out had anything to show. -/
theorem terminal_refines_iff (hbg : v.tela.textbgcolor = 0) (hcor : v.tela.textcolor.toNat < 16)
    (hclear : step alem n (escrita dRunCmd cmdClearScreen) v = some v') (bs : List Byte) :
    Throughout (passo alem n) (fun s => Igual alem v.tela.textcolor s.1.tela s.2) bs (v', limpo) ↔
      Along escreve (Discreto v.tela.textcolor ·) bs limpo := by
  rw [← along_passo alem n bs (v', limpo)]
  refine throughout_iff_along (I := Acordo alem v.tela.textcolor) ?_ ?_ ?_ bs (clear_acordo hbg hclear)
  · intro s h
    exact (igual_iff_pinta hcor).mpr h.1.pinta
  · intro b s h hd
    obtain ⟨w, hstep, hagree⟩ := passo_discreto hcor h hd
    exact ⟨_, hstep, hagree⟩
  · intro b s s' h hd hstep
    obtain ⟨w, hstep', hne⟩ := passo_indiscreto hcor h hd
    cases hstep.symm.trans hstep'
    exact hne

def ligado : Video := ⟨registrosZero, telaInicial fun _ => 0⟩

def letraA : Byte := ⟨0x41, by decide⟩

def espaco : Byte := ⟨0x20, by decide⟩

def cr : Byte := ⟨0x0D, by decide⟩

/-- A line that begins with a space survives a carriage return. -/
theorem space_survives_return : Throughout (passo (fun _ => 0) 0) (fun s => Igual (fun _ => 0) 7 s.1.tela s.2)
    [espaco, letraA, cr] (⟨registrosZero, clrscr ligado.tela⟩, limpo) := by
  have hdiscreet : Along escreve (Discreto 7 ·) [espaco, letraA, cr] limpo := by decide
  exact (terminal_refines_iff (v := ligado) rfl (by decide) rfl _).mpr hdiscreet

/-- The letter at the start of the line does not. -/
theorem letter_lost_at_return : ∃ s,
    run (passo (fun _ => 0) 0) [letraA, cr] (⟨registrosZero, clrscr ligado.tela⟩, limpo) = some s ∧
      ¬ Igual (fun _ => 0) 7 s.1.tela s.2 := by
  have hcor : (7 : UInt8).toNat < 16 := by decide
  have hstart : Acordo (fun _ => 0) 7 (⟨registrosZero, clrscr ligado.tela⟩, limpo) :=
    clear_acordo (n := 0) (v := ligado) rfl rfl
  have hletter : Discreto 7 letraA limpo := by decide
  obtain ⟨v, hv, hagree⟩ := passo_discreto (n := 0) hcor hstart hletter
  have hreturn : ¬ Discreto 7 cr (recebe letraA limpo) := by decide
  obtain ⟨w, hw, hne⟩ := passo_indiscreto (n := 0) hcor hagree hreturn
  exact ⟨_, by rw [run_cons_of_step hv, run_cons_of_step hw]; rfl, hne⟩

end Bus

end Orion68.VgaRefinement
