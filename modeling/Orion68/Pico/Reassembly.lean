import Orion68.Pico.Bounds
import Mathlib.Data.List.Basic
import Mathlib.Data.List.Flatten
import Mathlib.Tactic.IntervalCases

namespace Orion68.PicoReassembly

open Ownership Runs PicoCrc32 PicoServer PicoBlockOwners PicoBounds

def conteudo (b : List UInt8) : List UInt8 := b.drop 21

def nomeArquivo (b : List UInt8) : List UInt8 := (b.drop 8).take 13

def envia (tamanho : UInt32) (nome buffer : List UInt8) : List UInt8 := le32 tamanho ++ nome ++ buffer

/-- The bytes that the server looks at: those in the first buffer of each chain. -/
def lidos (ps : List PbufChain) : List UInt8 := ps.flatMap (·.first.payload)

@[simp] theorem lidos_nil : lidos [] = [] := rfl

@[simp] theorem lidos_cons (p : PbufChain) (ps : List PbufChain) :
    lidos (p :: ps) = p.first.payload ++ lidos ps := by
  simp [lidos]

def segmentos (c : EsPtr) (memoria : Nat → UInt8) (ps : List PbufChain) : List Event :=
  ps.map fun p => .segment c p (some memoria)

section Bytes

theorem ofLe32_le32 (n : UInt32) (rest : List UInt8) : ofLe32 (le32 n ++ rest) = n := by
  apply UInt32.toBitVec_inj.mp
  apply BitVec.eq_of_getLsbD_eq
  intro i hi
  simp only [le32, ofLe32, List.cons_append, List.nil_append, UInt32.toBitVec_or, UInt32.toBitVec_shiftLeft,
    UInt8.toBitVec_toUInt32, UInt32.toBitVec_toUInt8, UInt32.toBitVec_shiftRight]
  interval_cases i <;> simp

variable (off : Nat) (bytes block : List UInt8)

theorem getElem?_store (i : Nat) : (store off bytes block)[i]? =
    if off ≤ i ∧ i < off + bytes.length ∧ i < block.length then bytes[i - off]? else block[i]? := by
  rw [store]
  simp only [List.getElem?_append, List.length_append, List.length_take, List.getElem?_take,
    List.getElem?_drop]
  grind

theorem drop_store {i : Nat} (h : off + bytes.length ≤ i) :
    (store off bytes block).drop i = block.drop i := by
  apply List.ext_getElem?
  intro j
  have hj : ¬ i + j < off + bytes.length := by omega
  rw [List.getElem?_drop, List.getElem?_drop, getElem?_store, if_neg (fun hc => hj hc.2.1)]

theorem nomeArquivo_store (h : 21 ≤ off ∨ off + bytes.length ≤ 8) :
    nomeArquivo (store off bytes block) = nomeArquivo block := by
  apply List.ext_getElem?
  intro j
  by_cases hj : j < 13
  · have hout : ¬ (off ≤ 8 + j ∧ 8 + j < off + bytes.length) := by omega
    simp only [nomeArquivo, List.getElem?_take, List.getElem?_drop, getElem?_store, if_pos hj]
    rw [if_neg fun hc => hout ⟨hc.1, hc.2.1⟩]
  · simp [nomeArquivo, hj]

theorem nomeArquivo_copied {nome : List UInt8} (hnome : nome.length = 12) (h : 21 ≤ block.length) :
    nomeArquivo (store 20 [0] (store 8 nome block)) = nome ++ [0] := by
  apply List.ext_getElem?
  intro j
  simp only [nomeArquivo, List.getElem?_take, List.getElem?_drop, getElem?_store, store_length,
    List.getElem?_append, hnome, List.length_singleton]
  grind

theorem take_conteudo_store {k : Nat} (h : 21 + k + bytes.length ≤ block.length) :
    (conteudo (store (21 + k) bytes block)).take (k + bytes.length) =
      (conteudo block).take k ++ bytes := by
  have hk : ((conteudo block).take k).length = k := by
    rw [List.length_take, conteudo, List.length_drop]
    omega
  apply List.ext_getElem?
  intro j
  simp only [conteudo, List.getElem?_take, List.getElem?_drop, getElem?_store, List.getElem?_append] at hk ⊢
  grind

end Bytes

/-- The connection has received the bytes `d` of a file of `n` bytes. -/
structure Receiving (n : UInt32) (nome d : List UInt8) (p : FilePtr) (es : ConexaoEstado)
    (s : Server) : Prop where
  estado : es.estado = .esperaDados
  tamanhoTotal : es.tamanhoTotal = n
  bytesRecebidos : es.bytesRecebidos.toNat = d.length
  bufferRam : es.bufferRam = some p
  pfh : es.pfh = some p
  unpublished : s.arquivoBuffer ≠ some p
  block : ∃ b, s.arquivos.cell p = some b ∧ b.length = 21 + n.toNat ∧
    nomeArquivo b = strncpy nome 12 ++ [0] ∧ (conteudo b).take d.length = d

/-- One file has been published since `s`, with these fields. -/
structure Published (s : Server) (nome buffer : List UInt8) (t : Server) : Prop where
  once : t.publicacoes = s.publicacoes + 1
  tamanho : t.arquivoTamanho.toNat = 21 + buffer.length
  block : ∃ p b, t.arquivoBuffer = some p ∧ t.arquivos.cell p = some b ∧ conteudo b = buffer ∧
    nomeArquivo b = nome ++ [0] ∧ t.arquivoCrc32.toBitVec = crc32 (b.drop 4)

theorem Receiving.setEs {n : UInt32} {nome d : List UInt8} {p : FilePtr} {es : ConexaoEstado} {s : Server}
    (h : Receiving n nome d p es s) (c : EsPtr) (e : ConexaoEstado) :
    Receiving n nome d p es (s.setEs c e) :=
  ⟨h.estado, h.tamanhoTotal, h.bytesRecebidos, h.bufferRam, h.pfh, h.unpublished, h.block⟩

theorem Published.setEs {s t : Server} {nome buffer : List UInt8} (h : Published s nome buffer t)
    (c : EsPtr) (e : ConexaoEstado) : Published s nome buffer (t.setEs c e) :=
  ⟨h.once, h.tamanho, h.block⟩

theorem Published.of_publicacoes {s s' t : Server} {nome buffer : List UInt8}
    (h : Published s' nome buffer t) (hs : s'.publicacoes = s.publicacoes) : Published s nome buffer t :=
  ⟨hs ▸ h.once, h.tamanho, h.block⟩

section Whole

variable {n : UInt32} {nome d : List UInt8} {p : FilePtr} {es : ConexaoEstado} {s : Server}

theorem recebeCabecalho_receiving (h : Inv s) (hn : n.toNat + 21 < 2 ^ 32) (hnome : nome.length = 12)
    (y : List UInt8) (memoria : Nat → UInt8) :
    let r := recebeCabecalho (le32 n ++ nome ++ y) memoria s
    Receiving n nome [] s.arquivos.next r.1 r.2 := by
  have hofLe : ofLe32 (le32 n ++ nome ++ y) = n := by rw [List.append_assoc, ofLe32_le32]
  have htake : ((le32 n ++ nome ++ y).drop 4).take 12 = nome := by
    rw [List.append_assoc]
    exact List.take_left' hnome
  have hcpy : strncpy (nome ++ [0]) 12 = strncpy nome 12 := by
    rw [strncpy, strncpy, List.take_left' hnome, List.take_of_length_le hnome.le]
  refine ⟨rfl, hofLe, rfl, rfl, rfl, ?_, ?_⟩
  · intro hq
    have hq' : s.arquivoBuffer = some s.arquivos.next := by simpa [recebeCabecalho, write_eq] using hq
    exact Nat.lt_irrefl _ (h.own.live (show owner s none = _ from hq')).lt_next
  · have hlen : ((List.range (sizeofFile + n).toNat).map memoria).length = 21 + n.toNat := by
      rw [List.length_map, List.length_range, sizeofFile_add hn]
    refine ⟨store 20 [0] (store 8 (strncpy nome 12) ((List.range (sizeofFile + n).toNat).map memoria)),
      ?_, ?_, ?_, rfl⟩
    · simp only [recebeCabecalho, write_eq, hofLe, htake, hcpy]
      simp
    · rw [store_length, store_length, hlen]
    · exact nomeArquivo_copied _ (strncpy_length _ _) (by omega)

theorem copia_receiving (h : Receiving n nome d p es s) {x : List UInt8}
    (hx : d.length + x.length ≤ n.toNat) :
    let r := copia x es s
    Receiving n nome (d ++ x) p r.1 r.2 := by
  obtain ⟨b, hb, hlen, hname, hd⟩ := h.block
  have hlt := n.toNat_lt
  have hk : (copia x es s).1.bytesRecebidos.toNat = (d ++ x).length := by
    rw [copia_bytesRecebidos, h.bytesRecebidos, List.length_append]
    exact Nat.mod_eq_of_lt (by omega)
  refine ⟨by simpa using h.estado, by simpa using h.tamanhoTotal, hk, by simpa using h.bufferRam,
    by simpa using h.pfh, by simpa using h.unpublished, ?_⟩
  by_cases hx0 : x = []
  · subst hx0
    exact ⟨b, by simp [copia, hb], hlen, hname, by simpa using hd⟩
  · refine ⟨store (21 + d.length) x b, ?_, ?_, ?_, ?_⟩
    · rw [copia_arquivos x h.bufferRam, if_neg hx0, Heap.cell_modify, hb, h.bytesRecebidos]
      simp [sizeofFile]
    · rw [store_length, hlen]
    · rw [nomeArquivo_store _ _ _ (.inl (by omega)), hname]
    · rw [List.length_append, take_conteudo_store _ _ (by omega), hd]

variable (es) in
theorem publica_block {b : List UInt8} (hb : s.arquivos.cell p = some b) (hq : s.arquivoBuffer ≠ some p) :
    let written := store 4 (le32 (sizeofFile + es.tamanhoTotal)) b
    (publica es p s).arquivos.cell p = some (store 0 (le32 (publica es p s).arquivoCrc32) written) ∧
      (publica es p s).arquivoCrc32 =
        crc32Calculate ((written.drop 4).take (sizeofFile + es.tamanhoTotal - 4).toNat) := by
  cases hbuf : s.arquivoBuffer with
  | none => exact ⟨by simp [publica_arquivos, hbuf, hb], by simp [publica, write_eq, hbuf, hb]⟩
  | some q =>
      have hqp : p ≠ q := by
        rintro rfl
        exact hq hbuf
      exact ⟨by simp [publica_arquivos, hbuf, hb, hqp],
        by simp [publica, write_eq, freeFile_eq, hbuf, hb, hqp]⟩

theorem publica_published (h : Receiving n nome d p es s) (hd : d.length = n.toNat)
    (hn : n.toNat + 21 < 2 ^ 32) : Published s (strncpy nome 12) d (publica es p s) := by
  obtain ⟨b, hb, hlen, hname, hcont⟩ := h.block
  have htot : (sizeofFile + es.tamanhoTotal).toNat = 21 + n.toNat := by
    rw [h.tamanhoTotal, sizeofFile_add hn]
  obtain ⟨hcell, hcrc⟩ := publica_block es hb h.unpublished
  have hsize : (sizeofFile + es.tamanhoTotal - 4).toNat = 17 + n.toNat := by
    have h4 : (4 : UInt32).toNat = 4 := rfl
    have hle : (4 : UInt32) ≤ sizeofFile + es.tamanhoTotal := by
      rw [UInt32.le_iff_toNat_le, htot, h4]
      omega
    rw [UInt32.toNat_sub_of_le _ _ hle, htot, h4]
    omega
  have hle32 (m : UInt32) : (le32 m).length = 4 := rfl
  refine ⟨publica_publicacoes s es p, ?_, p, _, rfl, hcell, ?_, ?_, ?_⟩
  · change (sizeofFile + es.tamanhoTotal).toNat = _
    rw [htot, hd]
  · rw [conteudo, drop_store _ _ _ (by simp [hle32]), drop_store _ _ _ (by simp [hle32])]
    rw [List.take_of_length_le (by rw [conteudo, List.length_drop]; omega)] at hcont
    exact hcont
  · rw [nomeArquivo_store _ _ _ (.inr (by simp [hle32])), nomeArquivo_store _ _ _ (.inr (by simp [hle32])),
      hname]
  · rw [drop_store 0 _ _ (by simp [hle32]), hcrc, crc32Calculate_toBitVec, List.take_of_length_le]
    rw [List.length_drop, store_length, hsize]
    omega

theorem recebeDados_receiving (h : Receiving n nome d p es s) (hn : n.toNat + 21 < 2 ^ 32)
    {x : List UInt8} (hx : d.length + x.length ≤ n.toNat) :
    let r := recebeDados x es s
    (d.length + x.length < n.toNat → Receiving n nome (d ++ x) p r.1 r.2 ∧
      r.2.publicacoes = s.publicacoes) ∧
    (d.length + x.length = n.toNat → r.1.estado = .concluido ∧
      Published s (strncpy nome 12) (d ++ x) r.2) := by
  have hr := copia_receiving h hx
  have hpub : (copia x es s).2.publicacoes = s.publicacoes := copia_publicacoes s es x
  have hle : (copia x es s).1.tamanhoTotal ≤ (copia x es s).1.bytesRecebidos ↔
      n.toNat ≤ d.length + x.length := by
    rw [UInt32.le_iff_toNat_le, hr.tamanhoTotal, hr.bytesRecebidos, List.length_append]
  simp only [recebeDados, verifica]
  constructor
  · intro hlt
    rw [if_neg (by rw [hle]; omega)]
    exact ⟨hr, hpub⟩
  · intro heq
    rw [if_pos (by rw [hle]; omega), hr.pfh]
    exact ⟨rfl, (publica_published hr (by rw [List.length_append, heq]) hn).of_publicacoes hpub⟩

end Whole

section Steps

variable {s : Server} {c : EsPtr} {es : ConexaoEstado} {ps : List PbufChain} {memoria : Nat → UInt8}

variable (memoria) in
theorem step_cabecalho (ha : s.pcbs c = .aberto) (hc : s.conexoes.cell c = some es)
    (he : es.estado = .esperaCabecalho) (p : PbufChain) :
    step (.segment c p (some memoria)) s =
      if tamanhoCabecalho ≤ p.first.payload.length then
        let r := recebeCabecalho p.first.payload memoria s
        let r := recebeDados (p.first.payload.drop tamanhoCabecalho) r.1 r.2
        some (r.2.setEs c r.1)
      else some s := by
  simp only [step, ha, tcpServerRecv, hc, he]
  split <;> rfl

variable (memoria) in
theorem step_dados (ha : s.pcbs c = .aberto) (hc : s.conexoes.cell c = some es)
    (he : es.estado = .esperaDados) (p : PbufChain) :
    step (.segment c p (some memoria)) s =
      some ((recebeDados p.first.payload es s).2.setEs c (recebeDados p.first.payload es s).1) := by
  simp only [step, ha, tcpServerRecv, hc, he]

theorem run_concluido (ha : s.pcbs c = .aberto) (hc : s.conexoes.cell c = some es)
    (he : es.estado = .concluido) : run step (segmentos c memoria ps) s = some s := by
  induction ps with
  | nil => rfl
  | cons p ps ih =>
      have hstep : step (.segment c p (some memoria)) s = some s := by
        simp only [step, ha, tcpServerRecv, hc, he]
      exact (run_cons_of_step hstep _).trans ih

theorem written_back (ha : s.pcbs c = .aberto) (hlive : s.conexoes.Live c) (x : List UInt8)
    (es : ConexaoEstado) :
    let r := recebeDados x es s
    (r.2.setEs c r.1).pcbs c = .aberto ∧ (r.2.setEs c r.1).conexoes.cell c = some r.1 := by
  refine ⟨by simpa [Server.setEs] using ha, ?_⟩
  rw [cell_setEs (by simpa using hlive), if_pos rfl]

variable (ps memoria) in
theorem run_receiving {n : UInt32} {nome d x buffer : List UInt8} {p : FilePtr}
    (hn : n.toNat + 21 < 2 ^ 32) (hbuffer : buffer.length = n.toNat) (ha : s.pcbs c = .aberto)
    (hlive : s.conexoes.Live c) (h : Receiving n nome d p es s) (hps : d ++ x ++ lidos ps = buffer) :
    ∃ t, run step (segmentos c memoria ps) ((recebeDados x es s).2.setEs c (recebeDados x es s).1) = some t ∧
      Published s (strncpy nome 12) buffer t := by
  induction ps generalizing s es d x with
  | nil =>
      have hlen : d.length + x.length = n.toNat := by
        rw [← hbuffer, ← hps]
        simp
      obtain ⟨-, hp⟩ := (recebeDados_receiving h hn hlen.le).2 hlen
      have hdx : d ++ x = buffer := by simpa using hps
      exact ⟨_, rfl, hdx ▸ hp.setEs c _⟩
  | cons q qs ih =>
      have hlen : d.length + x.length + (q.first.payload.length + (lidos qs).length) = n.toNat := by
        rw [← hbuffer, ← hps]
        simp
        omega
      obtain ⟨hmore, hlast⟩ := recebeDados_receiving h hn (x := x) (by omega)
      obtain ⟨ha', hc'⟩ := written_back ha hlive x es
      by_cases hlt : d.length + x.length < n.toNat
      · obtain ⟨h', hpub⟩ := hmore hlt
        have hrun := run_cons_of_step (step_dados memoria ha' hc' h'.estado q) (segmentos c memoria qs)
        obtain ⟨t, ht, hp⟩ := ih ha' (by simp [Heap.Live, hc']) (h'.setEs c _) (by simpa using hps)
        exact ⟨t, hrun.trans ht, hp.of_publicacoes hpub⟩
      · obtain ⟨hend, hp⟩ := hlast (by omega)
        have hqs : lidos (q :: qs) = [] := List.eq_nil_of_length_eq_zero (by rw [lidos_cons, List.length_append]; omega)
        rw [hqs, List.append_nil] at hps
        exact ⟨_, run_concluido ha' hc' hend, hps ▸ hp.setEs c _⟩

theorem run_whole {n : UInt32} {nome buffer : List UInt8} {p : PbufChain} (h : Inv s)
    (hn : n.toNat + 21 < 2 ^ 32) (hbuffer : buffer.length = n.toNat) (hnome : nome.length = 12)
    (ha : s.pcbs c = .aberto) (hc : s.conexoes.cell c = some es) (he : es.estado = .esperaCabecalho)
    (hp : 16 ≤ p.first.payload.length) (hps : lidos (p :: ps) = envia n nome buffer) :
    ∃ t, run step (segmentos c memoria (p :: ps)) s = some t ∧ Published s (strncpy nome 12) buffer t := by
  have hhead : (le32 n ++ nome).length = 16 := by
    rw [List.length_append, hnome]
    rfl
  have hlidos : p.first.payload ++ lidos ps = le32 n ++ nome ++ buffer := hps
  have htake : p.first.payload.take 16 = le32 n ++ nome := by
    have hprefix : (p.first.payload ++ lidos ps).take 16 = p.first.payload.take 16 :=
      List.take_append_of_le_length hp
    rw [← hprefix, hlidos, List.take_left' hhead]
  have hfirst : p.first.payload = le32 n ++ nome ++ p.first.payload.drop 16 := by
    rw [← htake, List.take_append_drop]
  have hrest : p.first.payload.drop 16 ++ lidos ps = buffer := by
    rw [← List.drop_append_of_le_length hp, hlidos, List.drop_left' hhead]
  have hcab := recebeCabecalho_receiving h hn hnome (p.first.payload.drop 16) memoria
  rw [← hfirst] at hcab
  obtain ⟨t, ht, hpub⟩ := run_receiving ps memoria (c := c) (s := (recebeCabecalho p.first.payload memoria s).2)
    (x := p.first.payload.drop 16) hn hbuffer
    (by simpa [recebeCabecalho, write_eq] using ha)
    (by simp [recebeCabecalho, write_eq, Heap.Live, hc]) hcab (by simpa using hrest)
  have hstep := step_cabecalho memoria ha hc he p
  rw [if_pos hp] at hstep
  exact ⟨t, (run_cons_of_step hstep _).trans ht, hpub.of_publicacoes (by simp [recebeCabecalho, write_eq])⟩

theorem recebeDados_counts {p : FilePtr} (hp : es.pfh = some p) (x : List UInt8) :
    let r := recebeDados x es s
    (r.1.estado = .concluido ∧ r.2.arquivoTamanho = sizeofFile + es.tamanhoTotal ∧
        es.tamanhoTotal.toNat ≤ es.bytesRecebidos.toNat + x.length) ∨
      (r.1.estado = es.estado ∧ r.1.pfh = some p ∧ r.1.tamanhoTotal = es.tamanhoTotal ∧
        r.1.bytesRecebidos.toNat ≤ es.bytesRecebidos.toNat + x.length ∧
        r.2.publicacoes = s.publicacoes) := by
  have hk : (copia x es s).1.bytesRecebidos.toNat ≤ es.bytesRecebidos.toNat + x.length := by
    rw [copia_bytesRecebidos]
    exact Nat.mod_le _ _
  simp only [recebeDados, verifica]
  split
  next hle =>
    rw [UInt32.le_iff_toNat_le, copia_tamanhoTotal] at hle
    left
    refine ⟨rfl, ?_, Nat.le_trans hle hk⟩
    simp only [copia_pfh, hp, Server.deref]
    change sizeofFile + (copia x es s).1.tamanhoTotal = _
    rw [copia_tamanhoTotal]
  next =>
    right
    exact ⟨by simp, by simpa using hp, by simp, hk, by simp⟩

theorem run_dados_counts {t : Server} {p : FilePtr} {x : List UInt8} (ha : s.pcbs c = .aberto)
    (hlive : s.conexoes.Live c) (he : es.estado = .esperaDados) (hp : es.pfh = some p)
    (ht : run step (segmentos c memoria ps) ((recebeDados x es s).2.setEs c (recebeDados x es s).1) = some t)
    (hpub : t.publicacoes = s.publicacoes + 1) :
    t.arquivoTamanho = sizeofFile + es.tamanhoTotal ∧
      es.tamanhoTotal.toNat ≤ es.bytesRecebidos.toNat + x.length + (lidos ps).length := by
  induction ps generalizing s es x with
  | nil =>
      cases ht
      rcases recebeDados_counts hp x (s := s) with ⟨-, htam, hle⟩ | ⟨-, -, -, -, hsame⟩
      · exact ⟨htam, by simpa using hle⟩
      · change (recebeDados x es s).2.publicacoes = _ at hpub
        omega
  | cons q qs ih =>
      obtain ⟨ha', hc'⟩ := written_back ha hlive x es
      rcases recebeDados_counts hp x (s := s) with ⟨hend, htam, hle⟩ | ⟨he', hp', htot, hle, hsame⟩
      · rw [run_concluido ha' hc' hend] at ht
        cases ht
        exact ⟨htam, by omega⟩
      · rw [he] at he'
        rw [segmentos, List.map_cons, run_cons_of_step (step_dados memoria ha' hc' he' q)] at ht
        obtain ⟨htam, hle'⟩ := ih ha' (by simp [Heap.Live, hc']) he' hp' ht
          (hpub.trans (congrArg (· + 1) hsame.symm))
        rw [htot] at htam hle'
        refine ⟨htam, ?_⟩
        simp only [lidos_cons, List.length_append]
        omega

theorem run_cabecalho_counts {t : Server} (ha : s.pcbs c = .aberto)
    (hc : s.conexoes.cell c = some es) (he : es.estado = .esperaCabecalho)
    (ht : run step (segmentos c memoria ps) s = some t) (hpub : t.publicacoes = s.publicacoes + 1) :
    ∃ n : UInt32, t.arquivoTamanho = sizeofFile + n ∧
      16 + n.toNat ≤ (lidos (ps.dropWhile fun p => p.first.payload.length < 16)).length := by
  induction ps with
  | nil =>
      cases ht
      omega
  | cons p ps ih =>
      have hstep := step_cabecalho memoria ha hc he p
      by_cases hlen : tamanhoCabecalho ≤ p.first.payload.length
      · rw [if_pos hlen] at hstep
        rw [segmentos, List.map_cons, run_cons_of_step hstep] at ht
        obtain ⟨htam, hle⟩ := run_dados_counts (by simpa [recebeCabecalho, write_eq] using ha)
          (by simp [recebeCabecalho, write_eq, Heap.Live, hc]) rfl rfl ht
          (by simpa [recebeCabecalho, write_eq] using hpub)
        refine ⟨_, htam, ?_⟩
        have hle : (ofLe32 p.first.payload).toNat ≤ 0 + (p.first.payload.drop 16).length + (lidos ps).length := hle
        change (16 : Nat) ≤ _ at hlen
        rw [List.dropWhile_cons_of_neg (by simpa using hlen), lidos_cons, List.length_append]
        rw [List.length_drop] at hle
        change 16 + (ofLe32 p.first.payload).toNat ≤ _
        omega
      · rw [if_neg hlen] at hstep
        rw [segmentos, List.map_cons, run_cons_of_step hstep] at ht
        rw [List.dropWhile_cons_of_pos (by simpa using hlen)]
        exact ih ht

end Steps

section Split

variable {ps : List PbufChain}

theorem length_lidos_le (ps : List PbufChain) :
    (lidos ps).length ≤ (ps.flatMap PbufChain.bytes).length := by
  induction ps with
  | nil => exact Nat.le_refl _
  | cons p ps ih =>
      simp only [lidos_cons, List.flatMap_cons, PbufChain.bytes, List.length_append]
      omega

theorem length_lidos_eq_iff : (lidos ps).length = (ps.flatMap PbufChain.bytes).length ↔
    ∀ p ∈ ps, p.rest.flatMap Pbuf.payload = [] := by
  induction ps with
  | nil => simp
  | cons p ps ih =>
      have hle := length_lidos_le ps
      rw [List.forall_mem_cons, ← ih, ← List.length_eq_zero_iff]
      simp only [lidos_cons, List.flatMap_cons, PbufChain.bytes, List.length_append]
      omega

theorem lidos_eq (h : ∀ p ∈ ps, p.rest.flatMap Pbuf.payload = []) :
    lidos ps = ps.flatMap PbufChain.bytes := by
  apply List.flatMap_congr
  intro p hp
  rw [PbufChain.bytes, h p hp, List.append_nil]

/-- When the bytes from the first long enough segment on are all the bytes there are, it is the
first segment, and no chain has a second buffer. -/
theorem whole_of_length (hne : ∀ p ∈ ps, p.bytes ≠ [])
    (hlen : (ps.flatMap PbufChain.bytes).length ≤
      (lidos (ps.dropWhile fun p => p.first.payload.length < 16)).length) :
    (∀ p ∈ ps, p.rest.flatMap Pbuf.payload = []) ∧ ∀ p ∈ ps.head?, 16 ≤ p.first.payload.length := by
  cases ps with
  | nil => simp
  | cons p ps =>
      by_cases hp : p.first.payload.length < 16
      · rw [List.dropWhile_cons_of_pos (by simpa using hp)] at hlen
        have hsuffix : (lidos (ps.dropWhile fun p => p.first.payload.length < 16)).length ≤
            (ps.flatMap PbufChain.bytes).length :=
          Nat.le_trans (length_lidos_le _)
            ((List.dropWhile_suffix _).sublist.flatMap _).length_le
        have hpos : 0 < p.bytes.length := List.length_pos_iff.mpr (hne p (by simp))
        rw [List.flatMap_cons, List.length_append] at hlen
        omega
      · rw [List.dropWhile_cons_of_neg (by simpa using hp)] at hlen
        refine ⟨length_lidos_eq_iff.mp (Nat.le_antisymm (length_lidos_le _) hlen), ?_⟩
        intro q hq
        obtain rfl : p = q := by simpa using hq
        exact Nat.not_lt.mp hp

end Split

/-- Every chain is one buffer, the first of them holds the whole header, the size of the block
does not wrap around, and the name has no byte after a NUL. -/
structure Whole (tamanho : UInt32) (nome : List UInt8) (ps : List PbufChain) : Prop where
  single : ∀ p ∈ ps, p.rest.flatMap Pbuf.payload = []
  header : ∀ p ∈ ps.head?, 16 ≤ p.first.payload.length
  size : tamanho.toNat + 21 < 2 ^ 32
  name : strncpy nome 12 = nome

theorem accept_waits (s : Server) :
    (tcpServerAccept true true s).pcbs s.conexoes.next = .aberto ∧
      (tcpServerAccept true true s).conexoes.cell s.conexoes.next =
        some ⟨.esperaCabecalho, 0, 0, List.replicate 13 0, none, none⟩ := by
  constructor <;> simp [tcpServerAccept]

theorem eq_of_published_size {m n : UInt32} (h : (sizeofFile + m).toNat = 21 + n.toNat) :
    n.toNat + 21 < 2 ^ 32 ∧ m = n := by
  have hlt := (sizeofFile + m).toNat_lt
  have hn : n.toNat + 21 < 2 ^ 32 := by omega
  rw [← sizeofFile_add hn] at h
  exact ⟨hn, (UInt32.add_right_inj _).mp (UInt32.toNat_inj.mp h)⟩

section File

variable {s t : Server} {c : EsPtr} {es : ConexaoEstado} {ps : List PbufChain} {memoria : Nat → UInt8}
  {n : UInt32} {nome buffer : List UInt8}

theorem published_of_single (h : Inv s) (ha : s.pcbs c = .aberto) (hc : s.conexoes.cell c = some es)
    (he : es.estado = .esperaCabecalho) (ht : run step (segmentos c memoria ps) s = some t)
    (hbuffer : buffer.length = n.toNat) (hnome : nome.length = 12)
    (hps : ps.flatMap PbufChain.bytes = envia n nome buffer)
    (hsingle : ∀ p ∈ ps, p.rest.flatMap Pbuf.payload = [])
    (hheader : ∀ p ∈ ps.head?, 16 ≤ p.first.payload.length) (hn : n.toNat + 21 < 2 ^ 32) :
    Published s (strncpy nome 12) buffer t := by
  cases ps with
  | nil => simp [envia, le32] at hps
  | cons p ps =>
      obtain ⟨t', ht', hp⟩ := run_whole h hn hbuffer hnome ha hc he (hheader p rfl)
        ((lidos_eq hsingle).trans hps)
      cases ht.symm.trans ht'
      exact hp

theorem single_of_published (ha : s.pcbs c = .aberto) (hc : s.conexoes.cell c = some es)
    (he : es.estado = .esperaCabecalho) (ht : run step (segmentos c memoria ps) s = some t)
    (hbuffer : buffer.length = n.toNat) (hnome : nome.length = 12)
    (hps : ps.flatMap PbufChain.bytes = envia n nome buffer) (hne : ∀ p ∈ ps, p.bytes ≠ [])
    (hpub : Published s nome buffer t) :
    (∀ p ∈ ps, p.rest.flatMap Pbuf.payload = []) ∧
      (∀ p ∈ ps.head?, 16 ≤ p.first.payload.length) ∧ n.toNat + 21 < 2 ^ 32 := by
  have hlen : (ps.flatMap PbufChain.bytes).length = 16 + n.toNat := by
    rw [hps, envia, List.length_append, List.length_append, hnome, hbuffer]
    rfl
  obtain ⟨m, htam, hle⟩ := run_cabecalho_counts ha hc he ht hpub.once
  have hm : (sizeofFile + m).toNat = 21 + n.toNat := by rw [← htam, hpub.tamanho, hbuffer]
  obtain ⟨hn, rfl⟩ := eq_of_published_size hm
  obtain ⟨hsingle, hheader⟩ := whole_of_length hne (hlen ▸ hle)
  exact ⟨hsingle, hheader, hn⟩

end File

/-- A client connects to a server in any reachable state and sends one file. -/
theorem published_iff_whole (es : List Event) {s : Server} (hs : run step es inicial = some s)
    {tamanho : UInt32} {nome buffer : List UInt8} {ps : List PbufChain}
    (hbuffer : buffer.length = tamanho.toNat) (hnome : nome.length = 12)
    (hps : ps.flatMap PbufChain.bytes = envia tamanho nome buffer) (hne : ∀ p ∈ ps, p.bytes ≠ [])
    (memoria : Nat → UInt8) :
    ∃ t, run step (.accept true true :: segmentos s.conexoes.next memoria ps) s = some t ∧
      (Published s nome buffer t ↔ Whole tamanho nome ps) := by
  obtain ⟨s₀, hs₀, h₀⟩ := run_total (fun e s => (step_inv · e)) es inicial_inv
  cases hs.symm.trans hs₀
  have hstep : step (.accept true true) s = some (tcpServerAccept true true s) := rfl
  have h := (tcpServerAccept_inv h₀ true true).1
  obtain ⟨ha, hc⟩ := accept_waits s
  obtain ⟨t, ht, -⟩ := run_total (fun e s => (step_inv · e)) (segmentos s.conexoes.next memoria ps) h
  have hcopied := published_of_single h ha hc rfl ht hbuffer hnome hps
  refine ⟨t, (run_cons_of_step hstep _).trans ht, ?_, ?_⟩
  · intro hpub
    obtain ⟨hsingle, hheader, hsize⟩ :=
      single_of_published ha hc rfl ht hbuffer hnome hps hne (hpub.of_publicacoes rfl)
    refine ⟨hsingle, hheader, hsize, ?_⟩
    -- both speak of the one block that is published now
    obtain ⟨p, b, hp, hb, -, hname, -⟩ := (hcopied hsingle hheader hsize).block
    obtain ⟨p', b', hp', hb', -, hname', -⟩ := hpub.block
    cases hp.symm.trans hp'
    cases hb.symm.trans hb'
    exact List.append_cancel_right (hname.symm.trans hname')
  · intro hw
    rw [← hw.name]
    exact (hcopied hw.single hw.header hw.size).of_publicacoes rfl

theorem published_iff_whole_two_segments :
    ∃ t, run step (.accept true true :: segmentos 0 (fun _ => 0)
        [⟨⟨le32 2 ++ List.replicate 12 0x41 ++ [1], by decide⟩, []⟩, ⟨⟨[2], by decide⟩, []⟩]) inicial = some t ∧
      Published inicial (List.replicate 12 0x41) [1, 2] t := by
  have hiff : ∃ t, run step (.accept true true :: segmentos 0 (fun _ => 0)
        [⟨⟨le32 2 ++ List.replicate 12 0x41 ++ [1], by decide⟩, []⟩, ⟨⟨[2], by decide⟩, []⟩]) inicial = some t ∧
      (Published inicial (List.replicate 12 0x41) [1, 2] t ↔ Whole 2 (List.replicate 12 0x41)
        [⟨⟨le32 2 ++ List.replicate 12 0x41 ++ [1], by decide⟩, []⟩, ⟨⟨[2], by decide⟩, []⟩]) :=
    published_iff_whole [] rfl rfl rfl rfl (by decide) fun _ => 0
  obtain ⟨t, ht, hiff⟩ := hiff
  exact ⟨t, ht, hiff.mpr ⟨by decide, by decide, by decide, by decide⟩⟩

/-- The header arrives in two segments of eight bytes, and both are passed over. -/
theorem split_header_not_published :
    ¬ ∀ (es : List Event) (s : Server), run step es inicial = some s →
      ∀ (tamanho : UInt32) (nome buffer : List UInt8) (ps : List PbufChain),
        buffer.length = tamanho.toNat → nome.length = 12 →
        ps.flatMap PbufChain.bytes = envia tamanho nome buffer → (∀ p ∈ ps, p.bytes ≠ []) →
        ∀ memoria, ∃ t, run step (.accept true true :: segmentos s.conexoes.next memoria ps) s = some t ∧
          Published s nome buffer t := by
  intro h
  obtain ⟨t, ht, hp⟩ := h [] inicial rfl 0 (List.replicate 12 0x41) []
    [⟨⟨le32 0 ++ List.replicate 4 0x41, by decide⟩, []⟩, ⟨⟨List.replicate 8 0x41, by decide⟩, []⟩]
    rfl rfl rfl (by decide) fun _ => 0
  have hnone : t.publicacoes = 0 := by
    cases ht
    rfl
  rw [hp.once] at hnone
  exact Nat.succ_ne_zero _ hnone

end Orion68.PicoReassembly
