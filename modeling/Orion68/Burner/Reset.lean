import Orion68.Burner.OrionBur

namespace Orion68.OrionBur

open Interactions

section Eventos

/-- An access that only reads the flash, or progress that is shown. -/
def SoLe (e : Evento) : Prop := (∃ a v, e = leitura a v) ∨ ∃ label current total, e = ⟨.videoShowProgress label current total, ()⟩

def NaFlash (e : Evento) : Prop := SoLe e ∨ ∃ a b, e = escrita a b

variable {a offset chunkNum n i errors : ℕ} {data : List UInt8} {last : UInt8}

theorem asks_escreveFlash (a : ℕ) (b : UInt8) : Asks NaFlash (faz (.escreveFlash a b)) :=
  asks_ask (fun _ => .inr ⟨a, b, rfl⟩) asks_done

theorem soLe_leFlash (a : ℕ) (v : UInt8) : SoLe (leitura a v) := .inl ⟨a, v, rfl⟩

theorem asks_at28DisableSdpPage : Asks NaFlash at28DisableSdpPage := by
  have hunlock : ∀ chipAddr value, Asks NaFlash (at28UnlockByte chipAddr value) :=
    fun chipAddr value => (asks_escreveFlash _ _).bind fun _ => asks_escreveFlash _ _
  exact (hunlock _ _).bind fun _ => (hunlock _ _).bind fun _ => hunlock _ _

theorem asks_gravaBytes : Asks NaFlash (gravaBytes a i data) := by
  induction data generalizing i with
  | nil => exact asks_done _
  | cons b data ih => exact (asks_escreveFlash _ _).bind fun _ => ih

theorem asks_espera : Asks NaFlash (espera a last n) := by
  induction n with
  | zero => exact asks_done _
  | succ n ih =>
      refine asks_ask (fun v => .inl (soLe_leFlash a v)) fun b => ?_
      change Asks NaFlash (if b = last then _ else _)
      split
      · exact asks_done _
      · exact ih

theorem asks_flashWriteChunk : Asks NaFlash (flashWriteChunk a data) := by
  rw [flashWriteChunk]
  split
  · exact asks_done _
  · exact asks_at28DisableSdpPage.bind fun _ => asks_gravaBytes.bind fun _ => asks_espera

theorem asks_tenta : Asks NaFlash (tenta a data n) := by
  induction n with
  | zero => exact asks_done _
  | succ n ih =>
      apply asks_flashWriteChunk.bind
      intro ok
      split
      · exact asks_done _
      · exact ih

theorem asks_writeLoop : Asks NaFlash (writeLoop data n offset chunkNum) := by
  induction n generalizing offset chunkNum with
  | zero => exact asks_stuck
  | succ n ih =>
      rw [writeLoop]
      split
      next =>
        apply asks_tenta.bind
        intro ok
        split
        · exact asks_ask (fun _ => .inl (.inr ⟨_, _, _, rfl⟩)) fun _ => ih
        · exact asks_done _
      next => exact asks_done _

theorem asks_verificaBytes : Asks SoLe (verificaBytes offset data errors) := by
  induction data generalizing offset errors with
  | nil => exact asks_done _
  | cons d data ih => exact asks_ask (soLe_leFlash offset) fun _ => ih

theorem asks_verifyLoop : Asks SoLe (verifyLoop data n offset chunkNum errors) := by
  induction n generalizing offset chunkNum errors with
  | zero => exact asks_stuck
  | succ n ih =>
      rw [verifyLoop]
      split
      next => exact asks_verificaBytes.bind fun _ => asks_ask (fun _ => .inr ⟨_, _, _, rfl⟩) fun _ => ih
      next => exact asks_done _

end Eventos

section Resultados

variable {c : List UInt8} {oldSr : UInt16} {es : List Evento} {code argc : ℕ} {disco : Disco}

/-- What comes behind the disabling of the interrupts: a chunk that times out in all attempts, a
verification that has read another value than the byte of the file, or one that has read each byte
of the file once, behind the writing of all of them. -/
inductive Resultado (c : List UInt8) (oldSr : UInt16) : List Evento → ℕ → Prop
  | timeout {es : List Evento} {a : ℕ} (hes : Escrita c 0 es (some a)) (hflash : ∀ e ∈ es, NaFlash e) :
      Resultado c oldSr (es ++ [⟨.cpuRestoreInterrupts oldSr, ()⟩,
        ⟨.videoShowHexAddr "ERRO: timeout no endereco" a, ()⟩, ⟨.videoPuts "NAO REINICIE.\r\n", ()⟩]) 1
  | divergente {es verif : List Evento} {vs : List UInt8} {errors : String}
      (hes : Escrita c 0 es none) (hflash : ∀ e ∈ es, NaFlash e) (hverif : ∀ e ∈ verif, SoLe e)
      (hlen : vs.length = c.length) (hlidos : leituras verif = lidos 0 vs) (hne : vs ≠ c) :
      Resultado c oldSr (es ++ verif ++ [⟨.cpuRestoreInterrupts oldSr, ()⟩, ⟨.videoPuts "\r\nFALHA NA VERIFICACAO: ", ()⟩,
        ⟨.videoPuts errors, ()⟩, ⟨.videoPuts " byte(s) divergente(s). NAO REINICIE.\r\n", ()⟩]) 1
  | verificado {es verif : List Evento} (hes : Escrita c 0 es none) (hflash : ∀ e ∈ es, NaFlash e)
      (htodos : gravados 0 c ⊆ es) (hverif : ∀ e ∈ verif, SoLe e) (hlidos : leituras verif = lidos 0 c) :
      Resultado c oldSr (es ++ verif ++
        [⟨.videoPuts "\r\nSUCESSO - firmware gravado e verificado. Reiniciando...\r\n", ()⟩, ⟨.cpuSoftReset, ()⟩]) 0

theorem runs_grava (h : Runs (grava c) es (some code)) :
    ∃ oldSr resto, es = ⟨.cpuDisableInterrupts, oldSr⟩ :: resto ∧ Resultado c oldSr resto code := by
  obtain ⟨oldSr, es₁, rfl, h₁⟩ := ended_query_bind_iff.mp h
  obtain ⟨falha, es₂, es₃, rfl, h₂, h₃⟩ := ended_bind_iff.mp h₁
  have hes := runs_writeLoop h₂
  have hflash := asks_writeLoop es₂ _ h₂
  refine ⟨oldSr, _, rfl, ?_⟩
  cases falha with
  | some a =>
      obtain ⟨⟨⟩, es₄, rfl, h₄⟩ := ended_query_bind_iff.mp h₃
      obtain ⟨⟨⟩, es₅, rfl, h₅⟩ := ended_query_bind_iff.mp h₄
      obtain ⟨⟨⟩, es₆, rfl, h₆⟩ := ended_query_bind_iff.mp h₅
      obtain ⟨rfl, rfl⟩ := ended_done_iff.mp h₆
      exact .timeout hes hflash
  | none =>
      obtain ⟨errors, es₄, es₅, rfl, h₄, h₅⟩ := ended_bind_iff.mp h₃
      have hverif := asks_verifyLoop es₄ _ h₄
      obtain ⟨vs, hlen, hlidos, -, hiff⟩ := runs_verifyLoop h₄
      rw [List.drop_zero] at hlen hiff
      rw [← List.append_assoc]
      split at h₅
      next hne =>
        obtain ⟨⟨⟩, es₆, rfl, h₆⟩ := ended_query_bind_iff.mp h₅
        obtain ⟨⟨⟩, es₇, rfl, h₇⟩ := ended_query_bind_iff.mp h₆
        obtain ⟨⟨⟩, es₈, rfl, h₈⟩ := ended_query_bind_iff.mp h₇
        obtain ⟨⟨⟩, es₉, rfl, h₉⟩ := ended_query_bind_iff.mp h₈
        obtain ⟨rfl, rfl⟩ := ended_done_iff.mp h₉
        exact .divergente hes hflash hverif hlen hlidos fun heq => hne (hiff.mpr heq)
      next hzero =>
        obtain ⟨⟨⟩, es₆, rfl, h₆⟩ := ended_query_bind_iff.mp h₅
        obtain ⟨⟨⟩, es₇, rfl, h₇⟩ := ended_query_bind_iff.mp h₆
        obtain ⟨rfl, rfl⟩ := ended_done_iff.mp h₇
        rw [hiff.mp (not_not.mp hzero)] at hlidos
        exact .verificado hes hflash (hes.todos rfl) hverif hlidos

theorem not_naFlash_reset : ¬NaFlash ⟨.cpuSoftReset, ()⟩ := by
  rintro ((⟨a, v, h⟩ | ⟨label, k, t, h⟩) | ⟨a, b, h⟩)
  · cases h
  · cases h
  · cases h

theorem Resultado.reset_iff (h : Resultado c oldSr es code) : ⟨.cpuSoftReset, ()⟩ ∈ es ↔ code = 0 := by
  have hnot : ∀ {es : List Evento}, (∀ e ∈ es, NaFlash e) → ⟨.cpuSoftReset, ()⟩ ∉ es :=
    fun h hmem => not_naFlash_reset (h _ hmem)
  cases h with
  | timeout hes hflash =>
      simp [hnot hflash]
  | divergente hes hflash hverif =>
      simp [hnot hflash, hnot fun e he => .inl (hverif e he)]
  | verificado => simp

/-- Nothing is written when there is no argument, or no file that can be read as a whole with 1 to
`MAX_FW_SIZE` bytes. -/
def NaoComeca (argc : ℕ) (disco : Disco) : Prop :=
  argc < 2 ∨ ∀ c, disco.arquivo = some c → c.length = 0 ∨ c.length > MAX_FW_SIZE ∨ disco.lidos < c.length

def abertura : List Evento :=
  [⟨.printf "OrionBurn - gravador de firmware AT28C256 (Orion68)\r\n", ()⟩, ⟨.printf "Arquivo: %s\r\n", ()⟩,
    ⟨.printf "Lidos %u bytes do arquivo.\r\n", ()⟩,
    ⟨.printf "Iniciando gravacao. Interrupcoes serao desabilitadas agora.\r\n", ()⟩,
    ⟨.printf "A partir daqui, todo o progresso e mostrado direto na tela.\r\n", ()⟩]

/-- What a run of `main` comes to. -/
inductive Desfecho (argc : ℕ) (disco : Disco) : List Evento → ℕ → Prop
  | naoComeca {es : List Evento} (h : NaoComeca argc disco) (hes : ∀ e ∈ es, ∃ texto, e = ⟨.printf texto, ()⟩) :
      Desfecho argc disco es 1
  | gravacao {c : List UInt8} {oldSr : UInt16} {resto : List Evento} {code : ℕ} (h : ¬NaoComeca argc disco)
      (hc : disco.arquivo = some c) (hresto : Resultado c oldSr resto code) :
      Desfecho argc disco (abertura ++ ⟨.cpuDisableInterrupts, oldSr⟩ :: resto) code

theorem runs_main (h : Runs (main argc disco) es (some code)) : Desfecho argc disco es code := by
  rw [main] at h
  split at h
  next hargc =>
    obtain ⟨⟨⟩, es₁, rfl, h₁⟩ := ended_query_bind_iff.mp h
    obtain ⟨rfl, rfl⟩ := ended_done_iff.mp h₁
    exact .naoComeca (.inl hargc) (by simp)
  next hargc =>
    obtain ⟨⟨⟩, es₁, rfl, h₁⟩ := ended_query_bind_iff.mp h
    obtain ⟨⟨⟩, es₂, rfl, h₂⟩ := ended_query_bind_iff.mp h₁
    cases harq : disco.arquivo with
    | none =>
        rw [harq] at h₂
        obtain ⟨⟨⟩, es₃, rfl, h₃⟩ := ended_query_bind_iff.mp h₂
        obtain ⟨rfl, rfl⟩ := ended_done_iff.mp h₃
        refine .naoComeca (.inr fun c hc => ?_) (by simp)
        rw [harq] at hc
        cases hc
    | some c =>
        rw [harq] at h₂
        dsimp only at h₂
        split at h₂
        next hsize =>
          obtain ⟨⟨⟩, es₃, rfl, h₃⟩ := ended_query_bind_iff.mp h₂
          obtain ⟨rfl, rfl⟩ := ended_done_iff.mp h₃
          refine .naoComeca (.inr fun c' hc' => ?_) (by simp)
          cases harq.symm.trans hc'
          exact hsize.imp_right .inl
        next hsize =>
          split at h₂
          next hshort =>
            obtain ⟨⟨⟩, es₃, rfl, h₃⟩ := ended_query_bind_iff.mp h₂
            obtain ⟨rfl, rfl⟩ := ended_done_iff.mp h₃
            refine .naoComeca (.inr fun c' hc' => ?_) (by simp)
            cases harq.symm.trans hc'
            rw [List.length_take] at hshort
            exact .inr (.inr (by omega))
          next hfull =>
            have hlidos : c.length ≤ disco.lidos := by
              rw [List.length_take] at hfull
              omega
            obtain ⟨⟨⟩, es₃, rfl, h₃⟩ := ended_query_bind_iff.mp h₂
            obtain ⟨⟨⟩, es₄, rfl, h₄⟩ := ended_query_bind_iff.mp h₃
            obtain ⟨⟨⟩, es₅, rfl, h₅⟩ := ended_query_bind_iff.mp h₄
            rw [List.take_of_length_le hlidos] at h₅
            obtain ⟨oldSr, resto, rfl, hresto⟩ := runs_grava h₅
            refine .gravacao (c := c) ?_ harq hresto
            rintro (hlt | hall)
            · exact hargc hlt
            · rcases hall c harq with h0 | hmax | hlt
              · exact hsize (.inl h0)
              · exact hsize (.inr hmax)
              · exact absurd hlidos (Nat.not_le.mpr hlt)

theorem grava_ends : Ends (grava c) := by
  intro oldSr
  apply (writeLoop_ends (Nat.zero_le _) (by omega)).bind
  intro falha
  cases falha with
  | some a => exact fun _ _ _ => trivial
  | none =>
      apply (verifyLoop_ends (Nat.zero_le _) (by omega)).bind
      intro errors
      split
      · exact fun _ _ _ _ => trivial
      · exact fun _ _ => trivial

theorem main_ends : Ends (main argc disco) := by
  rw [main]
  split
  · exact fun _ => trivial
  · intro _ _
    cases disco.arquivo with
    | none => exact fun _ => trivial
    | some c =>
        dsimp only
        split
        · exact fun _ => trivial
        · split
          · exact fun _ => trivial
          · exact fun _ _ _ => grava_ends

end Resultados

/-- Whatever the flash answers, `main` comes to an end, to the reset only behind a verification that
has read each byte of the file once, and otherwise with the interrupt mask as it was. -/
theorem firmware_outcome (argc : ℕ) (disco : Disco) : Ends (main argc disco) ∧
    ∀ es code, Runs (main argc disco) es (some code) →
      Desfecho argc disco es code ∧ (⟨.cpuSoftReset, ()⟩ ∈ es ↔ code = 0) := by
  refine ⟨main_ends, fun es code h => ?_⟩
  have hmain := runs_main h
  refine ⟨hmain, ?_⟩
  cases hmain with
  | naoComeca _ hes =>
      refine iff_of_false (fun hmem => ?_) Nat.one_ne_zero
      obtain ⟨texto, he⟩ := hes _ hmem
      cases he
  | gravacao _ _ hresto =>
      rw [← hresto.reset_iff]
      simp [abertura]

end Orion68.OrionBur
