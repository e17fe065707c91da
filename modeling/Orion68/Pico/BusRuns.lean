import Orion68.Pico.Bus

namespace Orion68.PicoBusRuns

open Ownership Runs PicoServer PicoBlockOwners PicoBlockSizes PicoBus

section Bounds

/-- A byte of the published file, or of the sector buffer. -/
def Dentro (s : Pico) : Resposta → Prop
  | .arquivo p k => ∃ q b, p = some q ∧ s.server.arquivoBuffer = some q ∧
      s.server.arquivos.cell q = some b ∧ k.toNat < b.length ∧ k < s.server.arquivoTamanho
  | .setor k => k.toNat < 512
  | .nenhuma | .valor _ => True

def EmLimites : PicoBus.Event → Pico → Prop
  | .rede _, _ => True
  | .acesso pacote leu, s => Dentro s (gerenciarBarramento pacote leu s).1

/-- The data register is read when a file has been published that is pending and not empty, or
of which bytes are left; the sector register when bytes are left of the sector. -/
def LeituraValida : PicoBus.Event → Pico → Prop
  | .rede _, _ => True
  | .acesso pacote _, s =>
      (reg pacote = 0x00 → s.server.arquivoBuffer.isSome ∧
        if s.server.arquivoPronto then 0 < s.server.arquivoTamanho
        else s.server.ponteiroLeitura < s.server.arquivoTamanho) ∧
      (reg pacote = 0x0D → s.ponteiroLeituraSetor.toNat < 512)

structure BusInv (s : Pico) : Prop where
  owners : Inv s.server
  sizes : Exact s.server

theorem inicial_busInv (cartao : UInt16 → Setor) : BusInv (PicoBus.inicial cartao) :=
  ⟨inicial_inv, inicial_exact⟩

variable {s t : Pico}

variable (pacote : UInt16) (leu : Bool) (s) in
theorem acesso_server : (gerenciarBarramento pacote leu s).2.server =
    { s.server with
      ponteiroLeitura := (gerenciarBarramento pacote leu s).2.server.ponteiroLeitura
      arquivoPronto := (gerenciarBarramento pacote leu s).2.server.arquivoPronto
      arquivoCrc32 := (gerenciarBarramento pacote leu s).2.server.arquivoCrc32 } := by
  rw [gerenciarBarramento, registro_server]
  simp [prologo_eq]

theorem acesso_busInv (h : BusInv s) (pacote : UInt16) (leu : Bool) :
    BusInv (gerenciarBarramento pacote leu s).2 := by
  obtain ⟨ho, hs⟩ := h
  constructor
  · rw [acesso_server]
    exact ⟨ho.own, ho.receiving, ho.waiting, ho.aberto⟩
  · rw [acesso_server]
    exact hs

theorem step_busInv (h : BusInv s) {e : PicoBus.Event} (ht : PicoBus.step e s = some t) : BusInv t := by
  cases e with
  | rede e =>
      obtain ⟨u, hu, rfl⟩ := Option.map_eq_some_iff.mp ht
      obtain ⟨u', hu', hinv⟩ := step_inv h.owners e
      cases hu.symm.trans hu'
      exact ⟨hinv, step_exact h.owners h.sizes hu⟩
  | acesso pacote leu =>
      cases ht
      exact acesso_busInv h pacote leu

theorem prologo_lt (s : Server) : (prologo s).ponteiroLeitura < (prologo s).arquivoTamanho ↔
    if s.arquivoPronto then 0 < s.arquivoTamanho else s.ponteiroLeitura < s.arquivoTamanho := by
  rw [prologo_eq]
  cases s.arquivoPronto with
  | false => simp
  | true =>
      by_cases hk : s.arquivoTamanho ≤ s.ponteiroLeitura
      · simp [hk]
      · have hlt : s.ponteiroLeitura < s.arquivoTamanho := UInt32.not_le.mp hk
        have hpos : 0 < s.arquivoTamanho := by
          rw [UInt32.lt_iff_toNat_lt] at hlt ⊢
          exact Nat.lt_of_le_of_lt (Nat.zero_le _) hlt
        simp [hk, hlt, hpos]

theorem emLimites_iff (h : BusInv s) (e : PicoBus.Event) : EmLimites e s ↔ LeituraValida e s := by
  cases e with
  | rede e => exact Iff.rfl
  | acesso pacote leu =>
      simp only [EmLimites, LeituraValida, ← prologo_lt]
      have hbuffer : (prologo s.server).arquivoBuffer = s.server.arquivoBuffer := by rw [prologo_eq]
      have htamanho : (prologo s.server).arquivoTamanho = s.server.arquivoTamanho := by rw [prologo_eq]
      constructor
      · intro hd
        constructor
        · intro hr
          simp only [gerenciarBarramento, hr, registro, Dentro] at hd
          obtain ⟨q, b, -, hq, -, -, hlt⟩ := hd
          exact ⟨by simp [hq], by rwa [htamanho]⟩
        · intro hr
          simpa only [gerenciarBarramento, hr, registro, Dentro] using hd
      · rintro ⟨hdata, hsector⟩
        cases hres : (gerenciarBarramento pacote leu s).1 with
        | nenhuma => trivial
        | valor b => trivial
        | arquivo p k =>
            obtain ⟨hr, rfl, rfl⟩ := registro_arquivo _ _ _ _ hres
            obtain ⟨hsome, hlt⟩ := hdata hr
            obtain ⟨q, hq⟩ := Option.isSome_iff_exists.mp hsome
            obtain ⟨b, hb, hlen⟩ := h.sizes.published h.owners hq
            rw [htamanho] at hlt
            exact ⟨q, b, hbuffer.trans hq, hq, hb, hlen ▸ hlt, hlt⟩
        | setor k =>
            obtain ⟨hr, rfl⟩ := registro_setor _ _ _ _ hres
            exact hsector hr

end Bounds

section Status

/-- The bus with its history: of a pending file, how many bytes have been read. -/
structure Historico where
  pico : Pico
  pendente : Option Nat

def proximo (e : PicoBus.Event) (h : Historico) (s : Pico) : Option Nat :=
  match e with
  | .rede _ => if s.server.publicacoes = h.pico.server.publicacoes then h.pendente else some 0
  | .acesso pacote _ =>
      if reg pacote = 0x00 then h.pendente.map (· + 1)
      else if reg pacote = 0x08 then none
      else h.pendente

def observa (e : PicoBus.Event) (h : Historico) : Option Historico :=
  (PicoBus.step e h.pico).map fun s => ⟨s, proximo e h s⟩

/-- What the status register has to answer when `lidos` bytes of the pending file have been read. -/
def esperado (tamanho : Nat) : Option Nat → UInt8
  | none => 0x00
  | some lidos => if lidos < tamanho then 0x01 else 0x02

def situacao (s : Server) : UInt8 :=
  if s.arquivoPronto = false then 0x00 else if s.ponteiroLeitura < s.arquivoTamanho then 0x01 else 0x02

def Protocolo : PicoBus.Event → Historico → Prop
  | .rede _, _ => True
  | .acesso pacote leu, h =>
      (reg pacote = 0x01 → (gerenciarBarramento pacote leu h.pico).1 =
        .valor (esperado h.pico.server.arquivoTamanho.toNat h.pendente)) ∧
      (reg pacote ≠ 0x00 → reg pacote ≠ 0x08 →
        situacao (gerenciarBarramento pacote leu h.pico).2.server = situacao h.pico.server)

/-- No status is asked for, and no register but the data and the acknowledge register is
accessed next, once the last byte of a pending file has been read. -/
def AntesDoFim : PicoBus.Event → Historico → Prop
  | .rede _, _ => True
  | .acesso pacote _, h => ∀ lidos, h.pendente = some lidos →
      (reg pacote = 0x01 → lidos < h.pico.server.arquivoTamanho.toNat) ∧
      (reg pacote ≠ 0x00 → reg pacote ≠ 0x08 → lidos ≠ h.pico.server.arquivoTamanho.toNat)

/-- The flag is kept up to the first access after the last byte. -/
def Acompanha (h : Historico) : Prop :=
  match h.pendente with
  | none => h.pico.server.arquivoPronto = false
  | some lidos =>
      if lidos ≤ h.pico.server.arquivoTamanho.toNat then
        h.pico.server.arquivoPronto = true ∧ h.pico.server.ponteiroLeitura.toNat = lidos
      else h.pico.server.arquivoPronto = false

/-- The globals that the 68k sees the file through. -/
structure MesmoArquivo (s t : Server) : Prop where
  buffer : t.arquivoBuffer = s.arquivoBuffer
  publicacoes : t.publicacoes = s.publicacoes
  tamanho : t.arquivoTamanho = s.arquivoTamanho
  ponteiro : t.ponteiroLeitura = s.ponteiroLeitura
  pronto : t.arquivoPronto = s.arquivoPronto

structure ArquivoNovo (s t : Server) : Prop where
  buffer : t.arquivoBuffer.isSome
  publicacoes : t.publicacoes = s.publicacoes + 1
  ponteiro : t.ponteiroLeitura = 0
  pronto : t.arquivoPronto = true

def Anuncia (s t : Server) : Prop := MesmoArquivo s t ∨ ArquivoNovo s t

theorem Anuncia.of_same {s s' t : Server} (h : Anuncia s' t) (hs : MesmoArquivo s s') : Anuncia s t := by
  rcases h with h | h
  · exact .inl ⟨h.buffer.trans hs.buffer, h.publicacoes.trans hs.publicacoes,
      h.tamanho.trans hs.tamanho, h.ponteiro.trans hs.ponteiro, h.pronto.trans hs.pronto⟩
  · exact .inr ⟨h.buffer, by rw [h.publicacoes, hs.publicacoes], h.ponteiro, h.pronto⟩

theorem Anuncia.setEs {s t : Server} (h : Anuncia s t) (c : EsPtr) (es : ConexaoEstado) :
    Anuncia s (t.setEs c es) := by
  rcases h with h | h
  · exact .inl ⟨h.buffer, h.publicacoes, h.tamanho, h.ponteiro, h.pronto⟩
  · exact .inr ⟨h.buffer, h.publicacoes, h.ponteiro, h.pronto⟩

theorem recebeDados_anuncia (dados : List UInt8) (es : ConexaoEstado) (s : Server) :
    Anuncia s (recebeDados dados es s).2 := by
  have hcopia : MesmoArquivo s (copia dados es s).2 := by
    rw [copia_frame]
    exact ⟨rfl, rfl, rfl, rfl, rfl⟩
  refine Anuncia.of_same ?_ hcopia
  simp only [recebeDados, verifica]
  split
  · cases (copia dados es s).1.pfh with
    | none => exact .inl ⟨rfl, rfl, rfl, rfl, rfl⟩
    | some p => exact .inr ⟨rfl, publica_publicacoes _ _ _, rfl, rfl⟩
  · exact .inl ⟨rfl, rfl, rfl, rfl, rfl⟩

theorem tcpServerRecv_anuncia (c : EsPtr) (p : Option PbufChain) (malloc : Option (Nat → UInt8))
    (s : Server) : Anuncia s (tcpServerRecv c p malloc s) := by
  have hfree (q : FilePtr) : MesmoArquivo s (s.freeFile q) := by
    rw [freeFile_eq]
    exact ⟨rfl, rfl, rfl, rfl, rfl⟩
  cases hc : s.conexoes.cell c with
  | none =>
      simp only [tcpServerRecv, hc]
      exact .inl ⟨rfl, rfl, rfl, rfl, rfl⟩
  | some es =>
      cases p with
      | none =>
          simp only [tcpServerRecv, hc]
          split
          · cases es.pfh with
            | none => exact .inl ⟨rfl, rfl, rfl, rfl, rfl⟩
            | some q =>
                exact .inl ⟨(hfree q).buffer, (hfree q).publicacoes, (hfree q).tamanho, (hfree q).ponteiro,
                  (hfree q).pronto⟩
          · exact .inl ⟨rfl, rfl, rfl, rfl, rfl⟩
      | some p =>
          cases he : es.estado with
          | concluido =>
              simp only [tcpServerRecv, hc, he]
              exact .inl ⟨rfl, rfl, rfl, rfl, rfl⟩
          | esperaDados =>
              simp only [tcpServerRecv, hc, he]
              exact (recebeDados_anuncia _ _ _).setEs c _
          | esperaCabecalho =>
              simp only [tcpServerRecv, hc, he]
              split
              · cases malloc with
                | none => exact .inl ⟨rfl, rfl, rfl, rfl, rfl⟩
                | some memoria =>
                    refine Anuncia.of_same ((recebeDados_anuncia _ _ _).setEs c _) ?_
                    simp only [recebeCabecalho, write_eq]
                    exact ⟨rfl, rfl, rfl, rfl, rfl⟩
              · exact .inl ⟨rfl, rfl, rfl, rfl, rfl⟩

theorem step_anuncia {s t : Server} {e : PicoServer.Event} (h : PicoServer.step e s = some t) :
    Anuncia s t := by
  have hsame : Anuncia s s := .inl ⟨rfl, rfl, rfl, rfl, rfl⟩
  cases e with
  | accept ok calloc =>
      obtain rfl := Option.some.inj h
      rw [tcpServerAccept]
      split
      · exact .inl ⟨rfl, rfl, rfl, rfl, rfl⟩
      · exact hsame
  | segment c p malloc =>
      cases hp : s.pcbs c <;> simp only [PicoServer.step, hp, Option.some.injEq] at h <;> subst h
      · exact hsame
      · exact tcpServerRecv_anuncia _ _ _ _
      · exact hsame
  | redeliver c malloc =>
      cases hp : s.pcbs c <;> simp only [PicoServer.step, hp, Option.some.injEq] at h <;> subst h
      · exact hsame
      · exact hsame
      · exact tcpServerRecv_anuncia _ _ _ _
  | peerClose c =>
      cases hp : s.pcbs c <;> simp only [PicoServer.step, hp, Option.some.injEq] at h <;> subst h
      · exact hsame
      · exact tcpServerRecv_anuncia _ _ _ _
      · exact tcpServerRecv_anuncia _ _ _ _

theorem rede_acompanha {e : PicoServer.Event} {h t : Historico} (hi : Acompanha h)
    (ht : observa (.rede e) h = some t) : Acompanha t := by
  obtain ⟨s, hs, rfl⟩ := Option.map_eq_some_iff.mp ht
  obtain ⟨u, hu, rfl⟩ := Option.map_eq_some_iff.mp hs
  rcases step_anuncia hu with hsame | hnew
  · simpa only [Acompanha, proximo, hsame.publicacoes, if_true, hsame.tamanho, hsame.ponteiro,
      hsame.pronto] using hi
  · have hne : u.publicacoes ≠ h.pico.server.publicacoes := by
      rw [hnew.publicacoes]
      omega
    simp only [Acompanha, proximo, if_neg hne, Nat.zero_le, if_true]
    exact ⟨hnew.pronto, by rw [hnew.ponteiro]; rfl⟩

theorem Acompanha.cases {h : Historico} (hi : Acompanha h) :
    (h.pico.server.arquivoPronto = false ∧ ∀ lidos, h.pendente = some lidos →
        h.pico.server.arquivoTamanho.toNat < lidos) ∨
      ∃ lidos, h.pendente = some lidos ∧ lidos ≤ h.pico.server.arquivoTamanho.toNat ∧
        h.pico.server.arquivoPronto = true ∧ h.pico.server.ponteiroLeitura.toNat = lidos := by
  unfold Acompanha at hi
  cases hp : h.pendente with
  | none =>
      rw [hp] at hi
      exact .inl ⟨hi, fun lidos hl => by cases hl⟩
  | some lidos =>
      rw [hp] at hi
      by_cases hle : lidos ≤ h.pico.server.arquivoTamanho.toNat
      · simp only [hle, if_true] at hi
        exact .inr ⟨lidos, rfl, hle, hi⟩
      · simp only [hle, if_false] at hi
        refine .inl ⟨hi, ?_⟩
        rintro _ ⟨⟩
        exact Nat.not_le.mp hle

section Access

variable (pacote : UInt16) (leu : Bool) (s : Pico)

theorem acesso_tamanho : (gerenciarBarramento pacote leu s).2.server.arquivoTamanho = s.server.arquivoTamanho := by
  rw [acesso_server]

theorem prologo_of_lt {s : Server} (h : s.arquivoPronto = true → s.ponteiroLeitura < s.arquivoTamanho) :
    prologo s = s := by
  rw [prologo]
  split
  · rfl
  next hp => rw [if_neg (UInt32.not_le.mpr (h (by simpa using hp)))]

theorem acesso_situacao {s : Pico} (hp : prologo s.server = s.server) (h0 : reg pacote ≠ 0x00)
    (h8 : reg pacote ≠ 0x08) :
    situacao (gerenciarBarramento pacote leu s).2.server = situacao s.server := by
  rw [gerenciarBarramento, registro_server, hp]
  simp [situacao, h0, h8]

theorem acesso_pronto : (gerenciarBarramento pacote leu s).2.server.arquivoPronto =
    ((prologo s.server).arquivoPronto && decide (reg pacote ≠ 0x08)) := by
  rw [gerenciarBarramento, registro_server]

theorem acesso_ponteiro : (gerenciarBarramento pacote leu s).2.server.ponteiroLeitura =
    if reg pacote = 0x00 then (prologo s.server).ponteiroLeitura + 1
    else (prologo s.server).ponteiroLeitura := by
  rw [gerenciarBarramento, registro_server]

theorem acesso_status (hr : reg pacote = 0x01) :
    (gerenciarBarramento pacote leu s).1 = .valor (situacao (prologo s.server)) := by
  rw [gerenciarBarramento, hr]
  rfl

end Access

theorem acompanha_of_idle {h : Historico} (hp : h.pico.server.arquivoPronto = false)
    (hl : ∀ lidos, h.pendente = some lidos → h.pico.server.arquivoTamanho.toNat < lidos) : Acompanha h := by
  unfold Acompanha
  cases hpend : h.pendente with
  | none => exact hp
  | some lidos =>
      simp only [Nat.not_le.mpr (hl lidos hpend), if_false]
      exact hp

theorem acompanha_of_pending {h : Historico} (lidos : Nat) (hpend : h.pendente = some lidos)
    (hle : lidos ≤ h.pico.server.arquivoTamanho.toNat) (hp : h.pico.server.arquivoPronto = true)
    (hk : h.pico.server.ponteiroLeitura.toNat = lidos) : Acompanha h := by
  unfold Acompanha
  simp only [hpend, hle, if_true]
  exact ⟨hp, hk⟩

section Step

variable {h t : Historico} {pacote : UInt16} {leu : Bool}

theorem acesso_idle (hp : (prologo h.pico.server).arquivoPronto = false)
    (hl : ∀ lidos, proximo (.acesso pacote leu) h h.pico = some lidos →
      h.pico.server.arquivoTamanho.toNat < lidos)
    (ht : observa (.acesso pacote leu) h = some t) : Acompanha t := by
  cases ht
  apply acompanha_of_idle
  · rw [acesso_pronto, hp, Bool.false_and]
  · intro lidos hlidos
    rw [acesso_tamanho]
    exact hl lidos hlidos

theorem acesso_sem_arquivo (hp : h.pico.server.arquivoPronto = false)
    (hl : ∀ lidos, h.pendente = some lidos → h.pico.server.arquivoTamanho.toNat < lidos)
    (ht : observa (.acesso pacote leu) h = some t) : Acompanha t := by
  have hsame : prologo h.pico.server = h.pico.server := prologo_of_lt fun hn => by simp [hp] at hn
  refine acesso_idle (by rw [hsame, hp]) ?_ ht
  intro lidos hlidos
  simp only [proximo] at hlidos
  split at hlidos
  · obtain ⟨m, hm, rfl⟩ := Option.map_eq_some_iff.mp hlidos
    exact Nat.lt_succ_of_lt (hl m hm)
  · split at hlidos
    · cases hlidos
    · exact hl lidos hlidos

theorem acesso_pendente {lidos : Nat} (hpend : h.pendente = some lidos)
    (hlt : lidos < h.pico.server.arquivoTamanho.toNat) (hp : h.pico.server.arquivoPronto = true)
    (hk : h.pico.server.ponteiroLeitura.toNat = lidos) (ht : observa (.acesso pacote leu) h = some t) :
    Acompanha t := by
  have hsame : prologo h.pico.server = h.pico.server :=
    prologo_of_lt fun _ => UInt32.lt_iff_toNat_lt.mpr (hk ▸ hlt)
  cases ht
  by_cases h8 : reg pacote = 0x08
  · apply acompanha_of_idle
    · rw [acesso_pronto]
      simp [h8]
    · intro m hm
      simp [proximo, h8] at hm
  · by_cases h0 : reg pacote = 0x00
    · refine acompanha_of_pending (lidos + 1) (by simp [proximo, h0, hpend])
        (by rw [acesso_tamanho]; exact hlt) (by rw [acesso_pronto, hsame, hp]; simp [h8]) ?_
      have hone : (1 : UInt32).toNat = 1 := rfl
      have hmax := h.pico.server.arquivoTamanho.toNat_lt
      rw [acesso_ponteiro, if_pos h0, hsame, UInt32.toNat_add, hk, hone]
      exact Nat.mod_eq_of_lt (by omega)
    · refine acompanha_of_pending lidos (by simp [proximo, h0, h8, hpend])
        (by rw [acesso_tamanho]; exact Nat.le_of_lt hlt) (by rw [acesso_pronto, hsame, hp]; simp [h8]) ?_
      rw [acesso_ponteiro, if_neg h0, hsame, hk]

theorem acesso_fim {lidos : Nat} (hpend : h.pendente = some lidos)
    (heq : lidos = h.pico.server.arquivoTamanho.toNat) (hk : h.pico.server.ponteiroLeitura.toNat = lidos)
    (hC : AntesDoFim (.acesso pacote leu) h) (ht : observa (.acesso pacote leu) h = some t) : Acompanha t := by
  have hfim : (prologo h.pico.server).arquivoPronto = false := by
    rw [prologo_eq]
    have hge : ¬ h.pico.server.ponteiroLeitura < h.pico.server.arquivoTamanho := by
      rw [UInt32.lt_iff_toNat_lt, hk, heq]
      exact Nat.lt_irrefl _
    simp [hge]
  refine acesso_idle hfim ?_ ht
  intro m hm
  by_cases h0 : reg pacote = 0x00
  · obtain rfl : lidos + 1 = m := by simpa [proximo, h0, hpend] using hm
    omega
  · by_cases h8 : reg pacote = 0x08
    · simp [proximo, h8] at hm
    · exact absurd heq ((hC lidos hpend).2 h0 h8)

theorem acesso_acompanha (hi : Acompanha h) (hC : AntesDoFim (.acesso pacote leu) h)
    (ht : observa (.acesso pacote leu) h = some t) : Acompanha t := by
  rcases hi.cases with ⟨hp, hl⟩ | ⟨lidos, hpend, hle, hp, hk⟩
  · exact acesso_sem_arquivo hp hl ht
  · rcases Nat.lt_or_eq_of_le hle with hlt | heq
    · exact acesso_pendente hpend hlt hp hk ht
    · exact acesso_fim hpend heq hk hC ht

theorem observa_acompanha {e : PicoBus.Event} (hi : Acompanha h) (hC : AntesDoFim e h)
    (ht : observa e h = some t) : Acompanha t := by
  cases e with
  | rede e => exact rede_acompanha hi ht
  | acesso pacote leu => exact acesso_acompanha hi hC ht

theorem situacao_prologo (s : Server) : situacao (prologo s) =
    if s.arquivoPronto = true ∧ s.ponteiroLeitura < s.arquivoTamanho then 0x01 else 0x00 := by
  rw [situacao, prologo_eq]
  by_cases hlt : s.ponteiroLeitura < s.arquivoTamanho
  · cases s.arquivoPronto <;> simp [hlt, UInt32.not_le.mpr hlt]
  · simp [hlt]

theorem protocolo_idle (pacote : UInt16) (leu : Bool) (hp : h.pico.server.arquivoPronto = false)
    (hl : ∀ lidos, h.pendente = some lidos → h.pico.server.arquivoTamanho.toNat < lidos) :
    Protocolo (.acesso pacote leu) h ↔ AntesDoFim (.acesso pacote leu) h := by
  have hsame : prologo h.pico.server = h.pico.server := prologo_of_lt fun hn => by simp [hp] at hn
  have hzero : situacao (prologo h.pico.server) = 0x00 := by simp [situacao_prologo, hp]
  constructor
  · intro hP lidos hpend
    refine ⟨fun hr => ?_, fun _ _ => Nat.ne_of_gt (hl lidos hpend)⟩
    have hres := hP.1 hr
    rw [acesso_status _ _ _ hr, hzero, hpend, esperado, if_neg (Nat.lt_asymm (hl lidos hpend))] at hres
    cases hres
  · intro hC
    constructor
    · intro hr
      rw [acesso_status _ _ _ hr, hzero]
      cases hpend : h.pendente with
      | none => rfl
      | some lidos => exact absurd ((hC lidos hpend).1 hr) (Nat.lt_asymm (hl lidos hpend))
    · intro h0 h8
      exact acesso_situacao pacote leu hsame h0 h8

theorem protocolo_pending (pacote : UInt16) (leu : Bool) {lidos : Nat} (hpend : h.pendente = some lidos)
    (hlt : lidos < h.pico.server.arquivoTamanho.toNat) (hp : h.pico.server.arquivoPronto = true)
    (hk : h.pico.server.ponteiroLeitura.toNat = lidos) :
    Protocolo (.acesso pacote leu) h ∧ AntesDoFim (.acesso pacote leu) h := by
  have hk' : h.pico.server.ponteiroLeitura < h.pico.server.arquivoTamanho :=
    UInt32.lt_iff_toNat_lt.mpr (hk ▸ hlt)
  have hsame : prologo h.pico.server = h.pico.server := prologo_of_lt fun _ => hk'
  constructor
  · refine ⟨fun hr => ?_, fun h0 h8 => acesso_situacao pacote leu hsame h0 h8⟩
    rw [acesso_status _ _ _ hr, situacao_prologo, if_pos ⟨hp, hk'⟩, hpend, esperado, if_pos hlt]
  · intro m hm
    obtain rfl : lidos = m := by simpa [hpend] using hm
    exact ⟨fun _ => hlt, fun _ _ => Nat.ne_of_lt hlt⟩

theorem protocolo_fim (pacote : UInt16) (leu : Bool) {lidos : Nat} (hpend : h.pendente = some lidos)
    (heq : lidos = h.pico.server.arquivoTamanho.toNat) (hp : h.pico.server.arquivoPronto = true)
    (hk : h.pico.server.ponteiroLeitura.toNat = lidos) :
    Protocolo (.acesso pacote leu) h ↔ AntesDoFim (.acesso pacote leu) h := by
  have hge : ¬ h.pico.server.ponteiroLeitura < h.pico.server.arquivoTamanho := by
    rw [UInt32.lt_iff_toNat_lt, hk, heq]
    exact Nat.lt_irrefl _
  have hzero : situacao (prologo h.pico.server) = 0x00 := by simp [situacao_prologo, hge]
  have htwo : situacao h.pico.server = 0x02 := by simp [situacao, hp, hge]
  have hlost (h0 : reg pacote ≠ 0x00) (h8 : reg pacote ≠ 0x08) :
      situacao (gerenciarBarramento pacote leu h.pico).2.server = 0x00 := by
    rw [situacao, acesso_pronto, prologo_eq]
    simp [hge]
  constructor
  · intro hP m hm
    obtain rfl : lidos = m := by simpa [hpend] using hm
    constructor
    · intro hr
      have hres := hP.1 hr
      rw [acesso_status _ _ _ hr, hzero, hpend, esperado, if_neg (by omega)] at hres
      cases hres
    · intro h0 h8
      have hkept := hP.2 h0 h8
      rw [hlost h0 h8, htwo] at hkept
      cases hkept
  · intro hC
    constructor
    · intro hr
      have hlt := (hC lidos hpend).1 hr
      omega
    · intro h0 h8
      exact absurd heq ((hC lidos hpend).2 h0 h8)

theorem protocolo_iff (hi : Acompanha h) (e : PicoBus.Event) : Protocolo e h ↔ AntesDoFim e h := by
  cases e with
  | rede e => exact ⟨fun _ => trivial, fun _ => trivial⟩
  | acesso pacote leu =>
      rcases hi.cases with ⟨hp, hl⟩ | ⟨lidos, hpend, hle, hp, hk⟩
      · exact protocolo_idle pacote leu hp hl
      · rcases Nat.lt_or_eq_of_le hle with hlt | heq
        · obtain ⟨hP, hC⟩ := protocolo_pending pacote leu hpend hlt hp hk
          exact iff_of_true hP hC
        · exact protocolo_fim pacote leu hpend heq hp hk

end Step

/-- The status register answers with the state of the pending file, and other registers leave
that state alone, in exactly the runs that do not look at the bus when a pending file has ended. -/
theorem status_protocol_iff (cartao : UInt16 → Setor) (es : List PicoBus.Event) :
    Along observa Protocolo es ⟨PicoBus.inicial cartao, none⟩ ↔
      Along observa AntesDoFim es ⟨PicoBus.inicial cartao, none⟩ := by
  refine along_iff_along (I := Acompanha) ?_ ?_ es rfl
  · intro e h t hi hC ht
    exact observa_acompanha hi hC ht
  · intro e h hi
    exact protocolo_iff hi e

/-- A file of 21 bytes is published and read, and the status register answers that there is none. -/
theorem end_of_file_not_reported :
    ¬ ∀ (cartao : UInt16 → Setor) (es : List PicoBus.Event),
      Along observa Protocolo es ⟨PicoBus.inicial cartao, none⟩ := by
  intro h
  have hrun : ∃ t, run observa
      (.rede (.accept true true) ::
        .rede (.segment 0 ⟨⟨List.replicate 16 0, by decide⟩, []⟩ (some fun _ => 0)) ::
        List.replicate 21 (.acesso 0x4000 true)) ⟨PicoBus.inicial fun _ => Vector.replicate 512 0, none⟩ = some t ∧
      (gerenciarBarramento 0x4100 true t.pico).1 = .valor 0x00 ∧
      esperado t.pico.server.arquivoTamanho.toNat t.pendente = 0x02 :=
    ⟨_, rfl, by decide +kernel, by decide +kernel⟩
  obtain ⟨t, ht, hidle, hend⟩ := hrun
  have hP : Protocolo (.acesso 0x4100 true) t := (h _ _).last_step ht
  have hres := hP.1 (by decide)
  rw [hidle, hend] at hres
  cases hres

end Status

end Orion68.PicoBusRuns
