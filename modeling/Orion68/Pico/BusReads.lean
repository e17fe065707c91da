import Orion68.Pico.BusRuns

namespace Orion68.PicoBusReads

open Runs PicoServer PicoBus PicoBusRuns

section History

/-- How often the data register has been accessed since a file was published, and whether the
acknowledge register was before the last byte had been read. -/
structure Leituras where
  lidos : ℕ
  confirmado : Bool

/-- The Pico with the history of the accesses: those to the published file, and those to register 0x0D
since a sector was chosen. -/
structure Diario where
  pico : Pico
  arquivo : Option Leituras
  setor : ℕ

def anotaArquivo (e : PicoBus.Event) (h : Diario) (s : Pico) : Option Leituras :=
  match e with
  | .rede _ => if s.server.publicacoes = h.pico.server.publicacoes then h.arquivo else some ⟨0, false⟩
  | .acesso pacote _ => h.arquivo.map fun a =>
      if reg pacote = 0x00 then { a with lidos := a.lidos + 1 }
      else if reg pacote = 0x08 ∧ a.lidos < h.pico.server.arquivoTamanho.toNat then { a with confirmado := true }
      else a

def anotaSetor (e : PicoBus.Event) (n : ℕ) : ℕ :=
  match e with
  | .rede _ => n
  | .acesso pacote _ => if reg pacote = 0x0A ∨ reg pacote = 0x0B then 0 else if reg pacote = 0x0D then n + 1 else n

def anota (e : PicoBus.Event) (h : Diario) : Option Diario :=
  (PicoBus.step e h.pico).map fun s => ⟨s, anotaArquivo e h s, anotaSetor e h.setor⟩

def Diario.inicial (cartao : UInt16 → Setor) : Diario := ⟨PicoBus.inicial cartao, none, 0⟩

/-- The file can be read through, and a second time unless it was acknowledged before the last byte. -/
def Restam (tamanho : ℕ) (a : Leituras) : Prop :=
  a.lidos < tamanho ∨ a.confirmado = false ∧ a.lidos < 2 * tamanho

/-- The data register is accessed only while the published file may still be read, and the sector
register no more than 512 times after a sector was chosen. -/
def ComByte : PicoBus.Event → Diario → Prop
  | .rede _, _ => True
  | .acesso pacote _, h =>
      (reg pacote = 0x00 → ∃ a, h.arquivo = some a ∧ Restam h.pico.server.arquivoTamanho.toNat a) ∧
      (reg pacote = 0x0D → h.setor < 512)

end History

section Invariant

/-- Where the flag and the pointer are: the file is being read for the first time, or it has been
acknowledged, or it is being read a second time. -/
def Posicao (a : Leituras) (s : Server) : Prop :=
  s.arquivoPronto = true ∧ a.confirmado = false ∧ a.lidos ≤ s.arquivoTamanho.toNat ∧
      s.ponteiroLeitura.toNat = a.lidos ∨
    s.arquivoPronto = false ∧ a.confirmado = true ∧ a.lidos ≤ s.arquivoTamanho.toNat ∧
      s.ponteiroLeitura.toNat = a.lidos ∨
    s.arquivoPronto = false ∧ a.confirmado = false ∧ a.lidos ≤ 2 * s.arquivoTamanho.toNat ∧
      s.ponteiroLeitura.toNat + s.arquivoTamanho.toNat = a.lidos

def Acompanhado (arquivo : Option Leituras) (s : Server) : Prop :=
  match arquivo with
  | none => s.arquivoBuffer = none
  | some a => s.arquivoBuffer.isSome ∧ Posicao a s

structure Concorda (h : Diario) : Prop where
  bus : BusInv h.pico
  setor : h.pico.ponteiroLeituraSetor.toNat = h.setor
  escolhido : h.setor ≤ 512
  arquivo : Acompanhado h.arquivo h.pico.server

variable {a : Leituras} {s : Server} {h t : Diario} {pacote : UInt16} {leu : Bool}

theorem Posicao.prologo (h : Posicao a s) : Posicao a (prologo s) ∧
    ((prologo s).arquivoPronto = true → a.lidos < s.arquivoTamanho.toNat) := by
  rcases h with ⟨hp, hc, hle, hk⟩ | ⟨hp, hc, hle, hk⟩ | ⟨hp, hc, hle, hk⟩
  · by_cases hlt : s.ponteiroLeitura < s.arquivoTamanho
    · rw [prologo_of_lt fun _ => hlt]
      exact ⟨.inl ⟨hp, hc, hle, hk⟩, fun _ => hk ▸ UInt32.lt_iff_toNat_lt.mp hlt⟩
    · have hge := UInt32.le_iff_toNat_le.mp (UInt32.not_lt.mp hlt)
      have hzero : (0 : UInt32).toNat = 0 := rfl
      rw [PicoBus.prologo, if_neg (by rw [hp]; decide), if_pos (UInt32.not_lt.mp hlt)]
      refine ⟨.inr (.inr ⟨rfl, hc, ?_, ?_⟩), fun h => absurd h Bool.false_ne_true⟩
      · change a.lidos ≤ 2 * s.arquivoTamanho.toNat
        omega
      · change 0 + s.arquivoTamanho.toNat = a.lidos
        omega
  · rw [PicoBus.prologo, if_pos hp]
    exact ⟨.inr (.inl ⟨hp, hc, hle, hk⟩), fun h => absurd (hp.symm.trans h) Bool.false_ne_true⟩
  · rw [PicoBus.prologo, if_pos hp]
    exact ⟨.inr (.inr ⟨hp, hc, hle, hk⟩), fun h => absurd (hp.symm.trans h) Bool.false_ne_true⟩

/-- The pointer behind the prologue is within the file exactly when the history has bytes left. -/
theorem Posicao.restam_iff (h : Posicao a s) :
    (PicoBus.prologo s).ponteiroLeitura < (PicoBus.prologo s).arquivoTamanho ↔ Restam s.arquivoTamanho.toNat a := by
  have hsize : (PicoBus.prologo s).arquivoTamanho = s.arquivoTamanho := by rw [prologo_eq]
  obtain ⟨hpos, hfirst⟩ := h.prologo
  rw [UInt32.lt_iff_toNat_lt, Restam]
  rcases hpos with ⟨hp, hc, hle, hk⟩ | ⟨-, hc, hle, hk⟩ | ⟨-, hc, hle, hk⟩
  · have hlt := hfirst hp
    rw [hsize, hk]
    exact ⟨.inl, fun _ => hlt⟩
  · rw [hsize, hk]
    simp [hc]
  · rw [hsize] at hk ⊢
    simp only [hc, true_and]
    omega

theorem leituraValida_iff (h : Concorda t) (e : PicoBus.Event) : LeituraValida e t.pico ↔ ComByte e t := by
  cases e with
  | rede e => exact Iff.rfl
  | acesso pacote leu =>
      simp only [LeituraValida, ComByte, ← prologo_lt, h.setor]
      refine and_congr_left fun _ => imp_congr_right fun _ => ?_
      have harq := h.arquivo
      cases ha : t.arquivo with
      | none =>
          rw [ha] at harq
          have hnone : t.pico.server.arquivoBuffer = none := harq
          simp [hnone]
      | some a =>
          rw [ha] at harq
          rw [harq.2.restam_iff]
          simp [harq.1]

theorem acesso_ponteiroSetor (pacote : UInt16) (leu : Bool) (s : Pico) :
    (gerenciarBarramento pacote leu s).2.ponteiroLeituraSetor =
      if reg pacote = 0x0A ∨ reg pacote = 0x0B then 0
      else if reg pacote = 0x0D then s.ponteiroLeituraSetor + 1 else s.ponteiroLeituraSetor := by
  rw [gerenciarBarramento]
  generalize reg pacote = r
  unfold registro
  split <;> simp_all [lerSetor]

section Access

variable (leu) in
theorem leitura_posicao (h : Posicao a t.pico.server) (h0 : reg pacote = 0x00)
    (hr : Restam t.pico.server.arquivoTamanho.toNat a) :
    Posicao { a with lidos := a.lidos + 1 } (gerenciarBarramento pacote leu t.pico).2.server := by
  have hsize : (prologo t.pico.server).arquivoTamanho = t.pico.server.arquivoTamanho := by rw [prologo_eq]
  have hlt := UInt32.lt_iff_toNat_lt.mp (h.restam_iff.mpr hr)
  have hpos := h.prologo.1
  rw [hsize] at hlt
  rw [Posicao, hsize] at hpos
  have hmax := t.pico.server.arquivoTamanho.toNat_lt
  have hone : (1 : UInt32).toNat = 1 := rfl
  have hnext : ((prologo t.pico.server).ponteiroLeitura + 1).toNat =
      (prologo t.pico.server).ponteiroLeitura.toNat + 1 := by
    rw [UInt32.toNat_add, hone]
    exact Nat.mod_eq_of_lt (by omega)
  have h8 : decide (reg pacote ≠ 0x08) = true := by rw [h0]; decide
  rw [Posicao, acesso_tamanho, acesso_pronto, acesso_ponteiro, if_pos h0, hnext, h8, Bool.and_true]
  rcases hpos with ⟨hp, hc, hle, hk⟩ | ⟨hp, hc, hle, hk⟩ | ⟨hp, hc, hle, hk⟩
  · exact .inl ⟨hp, hc, show a.lidos + 1 ≤ _ by omega, show _ = a.lidos + 1 by omega⟩
  · exact .inr (.inl ⟨hp, hc, show a.lidos + 1 ≤ _ by omega, show _ = a.lidos + 1 by omega⟩)
  · exact .inr (.inr ⟨hp, hc, show a.lidos + 1 ≤ _ by omega, show _ = a.lidos + 1 by omega⟩)

variable (leu) in
theorem confirma_posicao (h : Posicao a t.pico.server) (h8 : reg pacote = 0x08) :
    Posicao (if a.lidos < t.pico.server.arquivoTamanho.toNat then { a with confirmado := true } else a)
      (gerenciarBarramento pacote leu t.pico).2.server := by
  have hsize : (prologo t.pico.server).arquivoTamanho = t.pico.server.arquivoTamanho := by rw [prologo_eq]
  obtain ⟨hpos, hfirst⟩ := h.prologo
  rw [Posicao, hsize] at hpos
  have h0 : reg pacote ≠ 0x00 := by rw [h8]; decide
  have h8' : decide (reg pacote ≠ 0x08) = false := by rw [h8]; decide
  rw [Posicao, acesso_tamanho, acesso_pronto, acesso_ponteiro, if_neg h0, h8', Bool.and_false]
  rcases hpos with ⟨hp, hc, hle, hk⟩ | ⟨hp, hc, hle, hk⟩ | ⟨hp, hc, hle, hk⟩
  · rw [if_pos (hfirst hp)]
    exact .inr (.inl ⟨rfl, rfl, hle, hk⟩)
  · split
    · exact .inr (.inl ⟨rfl, rfl, hle, hk⟩)
    · exact .inr (.inl ⟨rfl, hc, hle, hk⟩)
  · rw [if_neg (by omega)]
    exact .inr (.inr ⟨rfl, hc, hle, hk⟩)

variable (leu) in
theorem outro_posicao (h : Posicao a t.pico.server) (h0 : reg pacote ≠ 0x00) (h8 : reg pacote ≠ 0x08) :
    Posicao a (gerenciarBarramento pacote leu t.pico).2.server := by
  have hsize : (prologo t.pico.server).arquivoTamanho = t.pico.server.arquivoTamanho := by rw [prologo_eq]
  have hpos := h.prologo.1
  rw [Posicao, hsize] at hpos
  rw [Posicao, acesso_tamanho, acesso_pronto, acesso_ponteiro, if_neg h0, decide_eq_true h8, Bool.and_true]
  exact hpos

theorem acesso_posicao (h : Posicao a t.pico.server) (hC : ComByte (.acesso pacote leu) t) (ha : t.arquivo = some a) :
    ∃ a', anotaArquivo (.acesso pacote leu) t (gerenciarBarramento pacote leu t.pico).2 = some a' ∧
      Posicao a' (gerenciarBarramento pacote leu t.pico).2.server := by
  rw [anotaArquivo, ha, Option.map_some]
  refine ⟨_, rfl, ?_⟩
  by_cases h0 : reg pacote = 0x00
  · obtain ⟨a', ha', hr⟩ := hC.1 h0
    cases ha.symm.trans ha'
    rw [if_pos h0]
    exact leitura_posicao leu h h0 hr
  · rw [if_neg h0]
    by_cases h8 : reg pacote = 0x08
    · simp only [h8, true_and]
      exact confirma_posicao leu h h8
    · rw [if_neg fun hand => h8 hand.1]
      exact outro_posicao leu h h0 h8

end Access

theorem acesso_concorda (h : Concorda t) (hC : ComByte (.acesso pacote leu) t) :
    Concorda ⟨(gerenciarBarramento pacote leu t.pico).2,
      anotaArquivo (.acesso pacote leu) t (gerenciarBarramento pacote leu t.pico).2,
      anotaSetor (.acesso pacote leu) t.setor⟩ := by
  have hsetor := h.setor
  have hle := h.escolhido
  refine ⟨acesso_busInv h.bus pacote leu, ?_, ?_, ?_⟩
  · dsimp only
    rw [acesso_ponteiroSetor, anotaSetor]
    split
    next => rfl
    next =>
      split
      next hd =>
        have hlt := hC.2 hd
        have hone : (1 : UInt16).toNat = 1 := rfl
        rw [UInt16.toNat_add, hone, hsetor]
        exact Nat.mod_eq_of_lt (by omega)
      next => exact hsetor
  · dsimp only
    rw [anotaSetor]
    split
    next => exact Nat.zero_le _
    next =>
      split
      next hd => exact hC.2 hd
      next => exact hle
  · have hbuffer : (gerenciarBarramento pacote leu t.pico).2.server.arquivoBuffer = t.pico.server.arquivoBuffer := by
      rw [acesso_server]
    have harq := h.arquivo
    cases ha : t.arquivo with
    | none =>
        rw [ha] at harq
        rw [anotaArquivo, ha]
        exact hbuffer.trans harq
    | some a =>
        rw [ha] at harq
        obtain ⟨a', ha', hpos⟩ := acesso_posicao harq.2 hC ha
        rw [ha']
        exact ⟨by rw [hbuffer]; exact harq.1, hpos⟩

theorem rede_concorda (h : Concorda t) {e : PicoServer.Event} {u : Diario} (hu : anota (.rede e) t = some u) :
    Concorda u := by
  obtain ⟨p, hp, rfl⟩ := Option.map_eq_some_iff.mp hu
  refine ⟨step_busInv h.bus hp, ?_, h.escolhido, ?_⟩
  · obtain ⟨s, -, rfl⟩ := Option.map_eq_some_iff.mp hp
    exact h.setor
  · obtain ⟨s, hs, rfl⟩ := Option.map_eq_some_iff.mp hp
    have harq := h.arquivo
    rcases step_anuncia hs with hsame | hnew
    · rw [anotaArquivo, if_pos hsame.publicacoes]
      cases ha : t.arquivo with
      | none =>
          rw [ha] at harq
          exact hsame.buffer.trans harq
      | some a =>
          rw [ha] at harq
          simp only [Acompanhado, Posicao, hsame.buffer, hsame.pronto, hsame.tamanho, hsame.ponteiro]
          exact harq
    · have hne : s.publicacoes ≠ t.pico.server.publicacoes := by
        rw [hnew.publicacoes]
        exact Nat.succ_ne_self _
      rw [anotaArquivo, if_neg hne]
      exact ⟨hnew.buffer, .inl ⟨hnew.pronto, rfl, Nat.zero_le _, by rw [hnew.ponteiro]; rfl⟩⟩

theorem anota_concorda (h : Concorda t) {e : PicoBus.Event} (hC : ComByte e t) {u : Diario} (hu : anota e t = some u) :
    Concorda u := by
  cases e with
  | rede e => exact rede_concorda h hu
  | acesso pacote leu =>
      cases hu
      exact acesso_concorda h hC

theorem inicial_concorda (cartao : UInt16 → Setor) : Concorda (.inicial cartao) :=
  ⟨inicial_busInv cartao, rfl, Nat.zero_le _, rfl⟩

end Invariant

/-- Every byte that the bus answers comes from the published file or from the sector in exactly the runs
whose accesses are no more than there are bytes. -/
theorem reads_in_bounds_iff (cartao : UInt16 → Setor) (es : List PicoBus.Event) :
    Along anota (fun e h => EmLimites e h.pico) es (.inicial cartao) ↔ Along anota ComByte es (.inicial cartao) :=
  along_iff_along (fun _ _ _ h hC ht => anota_concorda h hC ht)
    (fun e _ h => (emLimites_iff h.bus e).trans (leituraValida_iff h e)) es (inicial_concorda cartao)

/-- The 68k reads the data register before any file has come. -/
theorem read_without_file_out_of_bounds :
    ¬ ∀ (cartao : UInt16 → Setor) (es : List PicoBus.Event),
      Along anota (fun e h => EmLimites e h.pico) es (.inicial cartao) := by
  intro h
  have hread := (h (fun _ => Vector.replicate 512 0) [.acesso 0x4000 true]).1
  obtain ⟨q, b, hq, -⟩ := hread
  cases hq

end Orion68.PicoBusReads
