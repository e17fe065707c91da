import Orion68.Receiver.Chunks
import Orion68.Lib.Runs

namespace Orion68.ReceiverEarlyClose

open Runs FatFs Shell Receiver ReceiverChunks
open PicoServer (ofLe32)

/-- All that the header of this connection declares has been read. -/
def TudoLido (r : Receptor) : Prop := 21 ≤ r.lidos.length ∧ (ofLe32 r.lidos).toNat ≤ r.lidos.length

/-- `main` goes on to `saving_file` only then. -/
def SalvaCompleto (r : Receptor) : Prop := r.fim = true → TudoLido r

/-- A poll that finds the connection closed by the peer finds a header that declares no more than itself. -/
def FechaTarde (e : Evento) (r : Receptor) : Prop :=
  ∀ ds, e = .sonda sockCloseWait ds → r.fim = false → r.estado = .payload ∧ r.tamanhoTotal ≤ 21

variable {r t : Receptor} {e : Evento} {ds : List (List UInt8)}

def Correto (r : Receptor) : Prop := Coerente r ∨ r.fim = true ∧ TudoLido r

theorem Correto.salva (h : Correto r) : SalvaCompleto r := by
  intro hf
  rcases h with hco | ⟨-, htudo⟩
  · rw [hco.fim] at hf
    cases hf
  · exact htudo

theorem closeWait_step (h : r.fim = false) : step (.sonda sockCloseWait ds) r =
    some { r with comandos := r.comandos ++ [crDiscon], fim := true } := by
  rw [step, h]
  rfl

theorem correto_step (h : Correto r) (hc : FechaTarde e r) (hs : step e r = some t) : Correto t := by
  rcases h with hco | ⟨hf, htudo⟩
  · cases e with
    | chega d =>
        rw [step_chega hco.fim] at hs
        obtain ⟨w, -, rfl⟩ := Option.map_eq_some_iff.mp hs
        exact .inl ⟨hco.fim, hco.header, hco.payload⟩
    | sonda sr ds =>
        have hloop : step (.sonda sr ds) r = w5100GetterLoop sr ds r := by
          rw [step, hco.fim]
          rfl
        by_cases hest : sr = sockEstablished
        · subst hest
          obtain ⟨lido, n, w, -, hpoll, -, -⟩ := established_poll hco hs
          rcases hpoll.result with ⟨hco', -⟩ | ⟨hco', -⟩
          · exact .inl hco'
          · exact .inr ⟨hco'.fim, hco'.cabecalho, hco'.tamanho ▸ hco'.total⟩
        · by_cases hwait : sr = sockCloseWait
          · subst hwait
            obtain ⟨he, hle⟩ := hc ds rfl hco.fim
            obtain ⟨h21, -, htotal, -⟩ := hco.payload he
            rw [closeWait_step hco.fim] at hs
            cases hs
            refine .inr ⟨rfl, h21, ?_⟩
            rw [UInt32.le_iff_toNat_le, htotal] at hle
            exact Nat.le_trans hle h21
          · rw [hloop, w5100GetterLoop, if_neg hest, if_neg hwait] at hs
            split at hs
            next =>
              cases hs
              exact .inl ⟨hco.fim, fun _ => rfl, fun hno => Estado.noConfusion hno⟩
            next =>
              split at hs
              next =>
                cases hs
                exact .inl ⟨hco.fim, hco.header, hco.payload⟩
              next =>
                cases hs
                exact .inl hco
  · cases (step_fim hf e).symm.trans hs
    exact .inr ⟨hf, htudo⟩

theorem salva_step_iff (h : Correto r) : (∀ t, step e r = some t → SalvaCompleto t) ↔ FechaTarde e r := by
  constructor
  · rintro hall ds rfl hf
    have hco : Coerente r := by
      rcases h with hco | ⟨hf', -⟩
      · exact hco
      · rw [hf'] at hf
        cases hf
    obtain ⟨h21, hle⟩ := hall _ (closeWait_step hf) rfl
    dsimp only at h21 hle
    cases he : r.estado with
    | header =>
        rw [hco.header he] at h21
        exact absurd h21 (by decide)
    | payload =>
        obtain ⟨-, -, htotal, hlt⟩ := hco.payload he
        refine ⟨rfl, ?_⟩
        rw [← htotal] at hle
        rw [UInt32.le_iff_toNat_le]
        change r.tamanhoTotal.toNat ≤ 21
        omega
  · intro hc t ht
    exact (correto_step h hc ht).salva

/-- In a run the file is saved only when all of it has been read, exactly when each connection that
the peer closes is found closed after a header that declares no more than itself. -/
theorem saved_complete_iff (w : W5100) (ram : Nat → UInt8) (es : List Evento) :
    (∀ es' t, es' <+: es → run step es' { Receptor.inicial w.rx w.rxRd ram with w := w } = some t → SalvaCompleto t) ↔
      Along step FechaTarde es { Receptor.inicial w.rx w.rxRd ram with w := w } := by
  have hini : Correto { Receptor.inicial w.rx w.rxRd ram with w := w } :=
    .inl ⟨rfl, fun _ => rfl, fun hno => Estado.noConfusion hno⟩
  rw [prefixes_iff_along, and_iff_right hini.salva]
  exact along_iff_along (fun _ _ _ h hc hs => correto_step h hc hs) (fun _ _ h => salva_step_iff h) es hini

/-- The peer closes after the header of a file of 100 bytes. -/
def fechaCedo : List Evento :=
  [.chega (100 :: List.replicate 20 0), .sonda sockEstablished [], .sonda sockCloseWait []]

theorem closed_early_saves : ∃ t, run step fechaCedo (Receptor.inicial (fun _ => 0) 0 fun _ => 0) = some t ∧
    ¬ SalvaCompleto t := by
  refine ⟨_, rfl, ?_⟩
  intro h
  have htudo := (h rfl).2
  exact absurd htudo (by decide +kernel)

end Orion68.ReceiverEarlyClose
