import Orion68.Vga.Cursor

namespace Orion68.VgaBounds

open Runs Vga VgaAccesses VgaCursor

/-- The framebuffer or the font has been accessed out of bounds. -/
def Fora (t : Tela) : Prop := t.foraTela = true ∨ t.foraFonte = true

/-- The calls that stay inside: those of a character that the font has, and of an area whose whole
bytes do not begin before the framebuffer. -/
def Segura : Chamada → Prop
  | .pchar c => c.toNat < 130
  | .fillRect x y w h _ => RetanguloSeguro x.toNat y.toNat w.toNat h.toNat
  | .fillCircle x0 y0 r _ => CirculoSeguro x0.toNat y0.toNat r.toNat
  | .drawRoundRect x y w h r _ => ContornoSeguro x.toNat y.toNat w.toNat h.toNat r.toNat
  | .fillRoundRect x y w h r _ => AreaSegura x.toNat y.toNat w.toNat h.toNat r.toNat
  | _ => True

/-- The command that a packet triggers, if any, stays inside. -/
def ComandoSeguro (pacote : UInt16) (v : Video) : Prop :=
  ∀ c, (gerenciarBarramentoM68k pacote v.registers).2.2 = some c → Segura c

variable {alem : Nat → UInt8} {n : Nat} {t t' : Tela} {c : Chamada}

theorem fora_of_muda {p : Prop} [Decidable p] (h : Muda (decide (¬ p)) false t t') : Fora t' ↔ Fora t ∨ ¬ p := by
  rw [Fora, Fora, h.foraTela, h.foraFonte, Bool.or_false, Bool.or_eq_true, decide_eq_true_iff]
  tauto

theorem fora_of_dentro {p : Prop} [Decidable p] (h : Dentro (decide (¬ p)) t t') : Fora t' ↔ Fora t ∨ ¬ p := by
  rw [Fora, Fora, h.1, h.2, Bool.or_eq_true, decide_eq_true_iff]
  tauto

theorem linhaSegura_nat (x y w : Nat) : LinhaSegura x y w := by
  unfold LinhaSegura par largura altura
  omega

theorem executa_fora (hal : Alinhado altura t) (he : executa alem n c t = some t') :
    Alinhado altura t' ∧ (Fora t' ↔ Fora t ∨ ¬ Segura c) := by
  have hmuda {p : Prop} [Decidable p] (h : Muda (decide (¬ p)) false t t') :
      Alinhado altura t' ∧ (Fora t' ↔ Fora t ∨ ¬ p) := ⟨alinhado_of_muda h hal, fora_of_muda h⟩
  have htrue (h : Muda false false t t') : Alinhado altura t' ∧ (Fora t' ↔ Fora t ∨ ¬ True) := hmuda (p := True) h
  have htexto (hc : DeTexto c) : Alinhado altura t' ∧ Dentro (foraDaFonte c) t t' := by
    obtain ⟨u, hu, hres⟩ := executa_texto alem n hal hc
    cases hu.symm.trans he
    exact hres
  cases c with
  | pchar c =>
      obtain ⟨hal', hin⟩ := htexto trivial
      exact ⟨hal', fora_of_dentro (p := c.toNat < 130) hin⟩
  | setTextCursorPos | clrscr | setVgaHome =>
      obtain ⟨hal', hin⟩ := htexto trivial
      exact ⟨hal', fora_of_dentro (p := True) hin⟩
  | setTextColor c b =>
      cases he
      exact ⟨⟨hal.x, hal.x_dvd, hal.y, hal.y_dvd⟩, by simp [Segura, Fora]⟩
  | fillTri =>
      cases he
      exact ⟨hal, by simp [Segura]⟩
  | drawLine x0 y0 x1 y1 color =>
      have hd : drawLine n x0.toNat y0.toNat x1.toNat y1.toNat color t = some t' := he
      exact htrue (drawLine_muda hd)
  | drawVLine => exact htrue (drawVLine_muda he)
  | drawCircle => exact htrue (drawCircle_muda he)
  | drawCircleHelper => exact htrue (drawCircleHelper_muda he)
  | fillCircleHelper => exact htrue (fillCircleHelper_muda he)
  | drawHLine x y w color =>
      obtain rfl : drawHLine x.toNat y.toNat w.toNat color t = t' := Option.some_inj.mp he
      have h := drawHLine_muda color t x.toNat y.toNat w.toNat
      have hsafe : decide (¬ LinhaSegura x.toNat y.toNat w.toNat) = false :=
        decide_eq_false (not_not.mpr (linhaSegura_nat x.toNat y.toNat w.toNat))
      rw [hsafe] at h
      exact htrue h
  | fillCircle x0 y0 r color =>
      obtain rfl : fillCircle x0.toNat y0.toNat r.toNat color t = t' := Option.some_inj.mp he
      exact hmuda (p := CirculoSeguro x0.toNat y0.toNat r.toNat) (fillCircle_muda color t _ _ _)
  | fillRect x y w h color =>
      obtain rfl : fillRect x.toNat y.toNat w.toNat h.toNat color t = t' := Option.some_inj.mp he
      exact hmuda (p := RetanguloSeguro x.toNat y.toNat w.toNat h.toNat) (fillRect_muda color t _ _ _ _)
  | drawRoundRect x y w h r color =>
      exact hmuda (p := ContornoSeguro x.toNat y.toNat w.toNat h.toNat r.toNat) (drawRoundRect_muda color t he)
  | fillRoundRect x y w h r color =>
      obtain rfl : fillRoundRect x.toNat y.toNat w.toNat h.toNat r.toNat color t = t' := Option.some_inj.mp he
      exact hmuda (p := AreaSegura x.toNat y.toNat w.toNat h.toNat r.toNat) (fillRoundRect_muda color t _ _ _ _ _)

theorem step_fora {pacote : UInt16} {v v' : Video} (hal : Alinhado altura v.tela)
    (hs : step alem n pacote v = some v') :
    Alinhado altura v'.tela ∧ (Fora v'.tela ↔ Fora v.tela ∨ ¬ ComandoSeguro pacote v) := by
  rw [step] at hs
  split at hs
  next resposta r c heq =>
    have hcall : (gerenciarBarramentoM68k pacote v.registers).2.2 = c := by rw [heq]
    cases c with
    | none =>
        cases hs
        have hsafe : ComandoSeguro pacote v := by
          intro c hc
          rw [hcall] at hc
          cases hc
        exact ⟨hal, by simp [hsafe]⟩
    | some c =>
        obtain ⟨t', ht, rfl⟩ := Option.map_eq_some_iff.mp hs
        have hsafe : ComandoSeguro pacote v ↔ Segura c := by
          rw [ComandoSeguro, hcall]
          simp
        rw [hsafe]
        exact executa_fora hal ht

/-- When every command of a run completes, nothing has been accessed out of bounds exactly when
each of them stays inside. -/
theorem accesses_in_bounds_iff {pacotes : List UInt16} {v v' : Video} (hal : Alinhado altura v.tela)
    (hin : ¬ Fora v.tela) (hr : run (step alem n) pacotes v = some v') :
    ¬ Fora v'.tela ↔ Along (step alem n) ComandoSeguro pacotes v := by
  have hrun : Fora v'.tela ↔ Fora v.tela ∨ ¬ Along (step alem n) ComandoSeguro pacotes v := by
    clear hin
    induction pacotes generalizing v with
    | nil =>
        cases hr
        simp [Along]
    | cons p ps ih =>
        obtain ⟨u, hu, ht⟩ := run_cons_eq_some.mp hr
        obtain ⟨hal', hstep⟩ := step_fora hal hu
        have hrest : (∀ t, step alem n p v = some t → Along (step alem n) ComandoSeguro ps t) ↔
            Along (step alem n) ComandoSeguro ps u := by simp [hu]
        rw [ih hal' ht, hstep, Along, hrest]
        tauto
  rw [hrun]
  tauto

/-- Writes of the registers, and at last a rectangle of 4 by 1 pixels. -/
def escreveRetangulo (y : UInt16) : List UInt16 :=
  [escrita dRegYLow y.toUInt8, escrita dRegYHigh (y >>> 8).toUInt8, escrita dRegWidthHigh 0, escrita dRegWidthLow 4,
    escrita dRegHeightHigh 0, escrita dRegHeightLow 1, escrita dRunCmd cmdDrawFillRect]

theorem rectangle_in_bounds :
    Along (step (fun _ => 0) 0) ComandoSeguro (escreveRetangulo 5) ⟨registrosZero, telaInicial fun _ => 0⟩ := by
  have hdentro : (run (step (fun _ => 0) 0) (escreveRetangulo 5) ⟨registrosZero, telaInicial fun _ => 0⟩).any
      (fun v => decide (¬ (v.tela.foraTela = true ∨ v.tela.foraFonte = true))) = true := by
    decide +kernel
  obtain ⟨v, hv, hin⟩ := (Option.any_eq_true _ _).mp hdentro
  have hnone : ¬ (v.tela.foraTela = true ∨ v.tela.foraFonte = true) := of_decide_eq_true hin
  exact (accesses_in_bounds_iff (telaInicial_alinhado _) (by simp [Fora, telaInicial]) hv).mp hnone

/-- A rectangle one line above the screen. -/
theorem rectangle_before_framebuffer : ∃ v,
    run (step (fun _ => 0) 0) (escreveRetangulo 0xFFFF) ⟨registrosZero, telaInicial fun _ => 0⟩ = some v ∧
      Fora v.tela := by
  have hfora : (run (step (fun _ => 0) 0) (escreveRetangulo 0xFFFF) ⟨registrosZero, telaInicial fun _ => 0⟩).any
      (fun v => v.tela.foraTela) = true := by
    decide +kernel
  obtain ⟨v, hv, hbad⟩ := (Option.any_eq_true _ _).mp hfora
  exact ⟨v, hv, .inl hbad⟩

end Orion68.VgaBounds
