import Orion68.Bios.PicoW
import Orion68.Pico.Reassembly

namespace Orion68.Download

open Ownership Runs FatFs PicoCrc32 PicoServer PicoBlockOwners PicoBounds PicoReassembly PicoBlockSizes
open PicoBus PicoBusRuns PicoW

/-- `do_save2` up to its first call of FatFs: the name and the bytes of the file that has come. -/
def preparaArquivo : M68k (Option (Path × List UInt8)) := do
  let status ← leRegistro 0x01
  if status = 0x00 then
    return none
  if status < 1 then
    return none
  let ok ← noblkReceberArquivoDoPico 0x82000
  if !ok then
    return none
  poke (0x82008 + 12) 0
  let m ← get
  let tamanho := ofLe32 (m.bytes 0x82004 4) - 0x15
  if tamanho = 0 then
    return none
  return some ((m.bytes 0x82008 13).takeWhile (· ≠ 0), m.bytes 0x82015 tamanho.toNat)

/-- The calls of FatFs; the file is closed on every path on which it has been opened. -/
def gravaArquivo (abre escreve fecha : Disk) (nome : Path) (dados : List UInt8) (v : Volume) : Bool × Volume :=
  let (fr, arquivo, v) := fOpen abre nome (faWrite ||| faCreateAlways) v
  if fr ≠ .ok then (false, v)
  else
    let (fr, bytesEscritos, arquivo, v) := fWrite escreve dados arquivo v
    if fr ≠ .ok ∨ bytesEscritos ≠ dados.length then (false, v)
    else (decide ((fClose fecha arquivo).1 = .ok), v)

def doSave2 (abre escreve fecha : Disk) : M68k Bool := do
  match ← preparaArquivo with
  | none => return false
  | some (nome, dados) =>
      let m ← get
      let (ok, v) := gravaArquivo abre escreve fecha nome dados m.volume
      set { m with volume := v }
      return ok

section Publication

variable {s t : Server} {b : List UInt8} {es : ConexaoEstado} {c : EsPtr}

/-- A file that has just been published and of which nothing has been read. -/
structure Publicado (t : Server) (b : List UInt8) : Prop where
  block : ∃ p, t.arquivoBuffer = some p ∧ t.arquivos.cell p = some b
  tamanho : t.arquivoTamanho.toNat = b.length
  ponteiro : t.ponteiroLeitura = 0
  pronto : t.arquivoPronto = true
  header : 8 ≤ b.length → (b.drop 4).take 4 = le32 t.arquivoTamanho
  crc : 8 ≤ b.length → t.arquivoCrc32 = crc32Calculate (b.drop 4)

theorem Publicado.setEs (h : Publicado t b) (c : EsPtr) (es : ConexaoEstado) : Publicado (t.setEs c es) b :=
  ⟨h.block, h.tamanho, h.ponteiro, h.pronto, h.header, h.crc⟩

theorem slice_store {off : Nat} {bytes block : List UInt8} (h : off + bytes.length ≤ block.length) :
    ((store off bytes block).drop off).take bytes.length = bytes := by
  apply List.ext_getElem?
  intro j
  simp only [List.getElem?_take, List.getElem?_drop, getElem?_store]
  grind

variable (es) in
theorem publica_publicado {p : FilePtr} (hb : s.arquivos.cell p = some b) (hq : s.arquivoBuffer ≠ some p)
    (hlen : b.length = (sizeofFile + es.tamanhoTotal).toNat) :
    ∃ b', Publicado (publica es p s) b' := by
  obtain ⟨hcell, hcrc⟩ := publica_block es hb hq
  have hle32 (m : UInt32) : (le32 m).length = 4 := rfl
  have htail : (store 0 (le32 (publica es p s).arquivoCrc32)
      (store 4 (le32 (sizeofFile + es.tamanhoTotal)) b)).drop 4 =
        (store 4 (le32 (sizeofFile + es.tamanhoTotal)) b).drop 4 := drop_store 0 _ _ (by simp [hle32])
  refine ⟨_, ⟨p, rfl, hcell⟩, ?_, rfl, rfl, ?_, ?_⟩
  · rw [store_length, store_length, hlen]
    rfl
  · intro h8
    rw [store_length, store_length] at h8
    have hfits : 4 + (le32 (sizeofFile + es.tamanhoTotal)).length ≤ b.length := by
      rw [hle32]
      omega
    have hslice := slice_store hfits
    rw [htail]
    exact hslice
  · intro h8
    rw [store_length, store_length] at h8
    rw [htail, hcrc, List.take_of_length_le]
    have h4 : (4 : UInt32).toNat = 4 := rfl
    rw [List.length_drop, store_length, UInt32.toNat_sub_of_le, ← hlen, h4]
    rw [UInt32.le_iff_toNat_le, h4, ← hlen]
    omega

theorem recebeDados_publicado (h : Inv (s.setEs c es)) (hs : Exact (s.setEs c es))
    (hlive : s.conexoes.Live c) (he : es.estado = .esperaDados) (dados : List UInt8)
    (hpub : (recebeDados dados es s).2.publicacoes ≠ s.publicacoes) :
    ∃ b, Publicado (recebeDados dados es s).2 b := by
  obtain ⟨h₁, -⟩ := copia_inv h hlive he dados
  have hcell : (s.setEs c es).conexoes.cell c = some es := by simp [cell_setEs hlive]
  obtain ⟨p, hp, hb, hown, hpl⟩ := h.block hlive he
  obtain ⟨b, hblock⟩ := Option.isSome_iff_exists.mp hpl
  obtain ⟨b₁, hb₁, hlen₁⟩ := copia_block hb hblock dados
  have hlen : b.length = (sizeofFile + es.tamanhoTotal).toNat := by
    rw [hs hown hblock, declarado, hcell, Option.elim_some]
  have hq : s.arquivoBuffer ≠ some p := fun hq => by cases h.own.inj hown (show owner _ none = _ from hq)
  simp only [recebeDados, verifica] at hpub ⊢
  split at hpub
  next hle =>
    rw [if_pos hle]
    simp only [copia_pfh, hp, Server.deref]
    exact publica_publicado _ hb₁ (by simpa using hq) (by rw [hlen₁, hlen, copia_tamanhoTotal])
  next => exact absurd (copia_publicacoes s es dados) hpub

theorem tcpServerRecv_publicado (h : Inv s) (hs : Exact s) (c : EsPtr) (p : Option PbufChain)
    (malloc : Option (Nat → UInt8)) (hpub : (tcpServerRecv c p malloc s).publicacoes ≠ s.publicacoes) :
    ∃ b, Publicado (tcpServerRecv c p malloc s) b := by
  cases hc : s.conexoes.cell c with
  | none => exact absurd (by simp only [tcpServerRecv, hc]) hpub
  | some es =>
      have hlive : s.conexoes.Live c := .of_cell hc
      cases p with
      | none =>
          have hfree (q : FilePtr) : (s.freeFile q).publicacoes = s.publicacoes := by rw [freeFile_eq]
          refine absurd ?_ hpub
          simp only [tcpServerRecv, hc]
          split
          · cases es.pfh with
            | none => rfl
            | some q => exact hfree q
          · rfl
      | some p =>
          cases he : es.estado with
          | concluido => exact absurd (by simp only [tcpServerRecv, hc, he]) hpub
          | esperaDados =>
              simp only [tcpServerRecv, hc, he] at hpub ⊢
              obtain ⟨b, hb⟩ := recebeDados_publicado (by rwa [setEs_self hc]) (by rwa [setEs_self hc])
                hlive he p.first.payload hpub
              exact ⟨b, hb.setEs c _⟩
          | esperaCabecalho =>
              by_cases hlen : tamanhoCabecalho ≤ p.first.payload.length
              swap
              · exact absurd (by simp only [tcpServerRecv, hc, he, hlen, if_false]) hpub
              cases malloc with
              | none => exact absurd (by simp only [tcpServerRecv, hc, he, hlen, if_true]; rfl) hpub
              | some memoria =>
                  obtain ⟨h₁, hcon, -⟩ := recebeCabecalho_inv h hc he p.first.payload memoria
                  have hsame : (recebeCabecalho p.first.payload memoria s).2.publicacoes = s.publicacoes := by
                    simp [recebeCabecalho, write_eq]
                  simp only [tcpServerRecv, hc, he, hlen, if_true] at hpub ⊢
                  obtain ⟨b, hb⟩ := recebeDados_publicado h₁ (recebeCabecalho_exact h hs hc _ _)
                    (hcon ▸ hlive) rfl (p.first.payload.drop tamanhoCabecalho) (hsame ▸ hpub)
                  exact ⟨b, hb.setEs c _⟩

theorem step_publicado (h : Inv s) (hs : Exact s) {e : PicoServer.Event} (hstep : PicoServer.step e s = some t)
    (hpub : t.publicacoes ≠ s.publicacoes) : ∃ b, Publicado t b := by
  cases e with
  | accept ok calloc =>
      obtain rfl := Option.some.inj hstep
      refine absurd ?_ hpub
      rw [tcpServerAccept]
      split <;> rfl
  | segment c p malloc =>
      cases hp : s.pcbs c <;> simp only [PicoServer.step, hp, Option.some.injEq] at hstep <;> subst hstep
      · exact absurd rfl hpub
      · exact tcpServerRecv_publicado h hs c _ _ hpub
      · exact absurd rfl hpub
  | redeliver c malloc =>
      cases hp : s.pcbs c <;> simp only [PicoServer.step, hp, Option.some.injEq] at hstep <;> subst hstep
      · exact absurd rfl hpub
      · exact absurd rfl hpub
      · exact tcpServerRecv_publicado h hs c _ _ hpub
  | peerClose c =>
      cases hp : s.pcbs c <;> simp only [PicoServer.step, hp, Option.some.injEq] at hstep <;> subst hstep
      · exact absurd rfl hpub
      · exact tcpServerRecv_publicado h hs c _ _ hpub
      · exact tcpServerRecv_publicado h hs c _ _ hpub

end Publication

section Transfer

variable {t : Pico} {b : List UInt8}

/-- `k` bytes of the file have been read. -/
def lidoAte (t : Pico) (k : Nat) : Pico :=
  { t with server := { t.server with ponteiroLeitura := UInt32.ofNat k } }

theorem prologo_lidoAte (h : Publicado t.server b) {k : Nat} (hk : k < b.length) :
    prologo (lidoAte t k).server = (lidoAte t k).server := by
  apply prologo_of_lt
  intro _
  have hlt := t.server.arquivoTamanho.toNat_lt
  have hk32 : (UInt32.ofNat k).toNat = k := UInt32.toNat_ofNat_of_lt' (by
    rw [h.tamanho] at hlt
    exact Nat.lt_trans hk hlt)
  rw [UInt32.lt_iff_toNat_lt]
  change (UInt32.ofNat k).toNat < t.server.arquivoTamanho.toNat
  rw [hk32, h.tamanho]
  exact hk

theorem leRegistro_dado (h : Publicado t.server b) {k : Nat} (hk : k < b.length) (m : Placa)
    (hm : m.pico = lidoAte t k) :
    leRegistro 0x00 m = some (b.getD k 0, { m with pico := lidoAte t (k + 1) }) := by
  have hlt := t.server.arquivoTamanho.toNat_lt
  have hk32 : (UInt32.ofNat k).toNat = k := UInt32.toNat_ofNat_of_lt' (by
    rw [h.tamanho] at hlt
    exact Nat.lt_trans hk hlt)
  have hstep : gerenciarBarramento (pacote false 0x00 0) false (lidoAte t k) =
      (.arquivo t.server.arquivoBuffer (UInt32.ofNat k), lidoAte t (k + 1)) := by
    have hreg : reg (pacote false 0x00 0) = 0x00 := rfl
    rw [gerenciarBarramento, hreg, prologo_lidoAte h hk]
    simp [registro, lidoAte, UInt32.ofNat_add]
  obtain ⟨p, hp, hb⟩ := h.block
  have hload : (lidoAte t k).carrega (.arquivo t.server.arquivoBuffer (UInt32.ofNat k)) = some (b.getD k 0) := by
    simp only [Pico.carrega, hp, Option.bind_some, hk32]
    change (t.server.arquivos.cell p).bind _ = _
    rw [hb, Option.bind_some, List.getD_eq_getElem?_getD, List.getElem?_eq_getElem hk, Option.getD_some]
  rw [leRegistro, hm, hstep]
  simp only [hload, Option.map_some]

theorem aposPrologo_eq (h : Publicado t.server b) (hb : 0 < b.length) {m : Placa} (hm : m.pico = t) :
    m.aposPrologo = m := by
  have hstart : lidoAte t 0 = t := by
    have hz := h.ponteiro
    simp only [lidoAte]
    cases t with
    | mk server sd ponteiro cartao =>
        cases server
        simp_all
  have hp := prologo_lidoAte h hb
  rw [hstart] at hp
  simp only [Placa.aposPrologo, hm, hp]
  rw [← hm]

theorem size_bytes (n : UInt32) :
    (n >>> 8).toUInt8.toUInt16 <<< 8 ||| n.toUInt8.toUInt16 = n.toUInt16 := by
  apply UInt16.toBitVec_inj.mp
  apply BitVec.eq_of_getLsbD_eq
  intro i hi
  simp only [UInt16.toBitVec_or, UInt16.toBitVec_shiftLeft, UInt8.toBitVec_toUInt16,
    UInt32.toBitVec_toUInt8, UInt32.toBitVec_shiftRight, UInt32.toBitVec_toUInt16]
  interval_cases i <;> simp

theorem status_pendente (h : Publicado t.server b) (hb : 0 < b.length) {m : Placa} (hm : m.pico = t) :
    leRegistro 0x01 m = some (0x01, m) := by
  have hserver : prologo m.pico.server = m.pico.server :=
    congrArg (fun m : Placa => m.pico.server) (aposPrologo_eq h hb hm)
  have hreg : reg (pacote false 0x01 0) = 0x01 := rfl
  have hlt : t.server.ponteiroLeitura < t.server.arquivoTamanho := by
    rw [UInt32.lt_iff_toNat_lt, h.ponteiro, h.tamanho]
    exact hb
  have hstep : gerenciarBarramento (pacote false 0x01 0) false m.pico = (.valor 0x01, m.pico) := by
    rw [gerenciarBarramento, hreg, hserver]
    simp [registro, hm, h.pronto, hlt]
  rw [leRegistro, hstep]
  rfl

/-- The part of the file that the 16-bit size lets through. -/
def baixado (m : Placa) (b : List UInt8) (destino : Nat) : Nat → UInt8 :=
  gravado m.ram destino 0 (b.length % 2 ^ 16) fun k => b.getD k 0

theorem receber_eq (h : Publicado t.server b) (hb : 0 < b.length) (destino : Nat) {m : Placa} (hm : m.pico = t) :
    ∃ p, noblkReceberArquivoDoPico destino m =
      if b.length % 2 ^ 16 = 0 then some (false, m)
      else some (t.server.arquivoCrc32 == crc32Calculate
          (Placa.bytes { m with ram := baixado m b destino } (destino + 4)
            ((UInt16.ofNat b.length).toUInt32 - 4).toNat),
        { m with pico := p, ram := baixado m b destino }) := by
  have hsame := aposPrologo_eq h hb hm
  have hhigh : leRegistro 0x02 m = some ((t.server.arquivoTamanho >>> 8).toUInt8, m) := by
    rw [leRegistro_sizeHigh, hsame, hm]
  have hlow : leRegistro 0x03 m = some (t.server.arquivoTamanho.toUInt8, m) := by
    rw [leRegistro_sizeLow, hsame, hm]
  have hsize : t.server.arquivoTamanho.toUInt16 = UInt16.ofNat b.length := by
    apply UInt16.toNat_inj.mp
    rw [UInt32.toNat_toUInt16, h.tamanho, UInt16.toNat_ofNat']
  have hnat : (UInt16.ofNat b.length).toNat = b.length % 2 ^ 16 := UInt16.toNat_ofNat'
  have hzero : UInt16.ofNat b.length = 0 ↔ b.length % 2 ^ 16 = 0 := by
    rw [← hnat, ← UInt16.toNat_inj]
    rfl
  have hstart : m.pico = lidoAte t 0 := by
    have hpt : t.server.ponteiroLeitura = UInt32.ofNat 0 := h.ponteiro
    rw [hm, lidoAte, ← hpt]
  have hloop : leBytes 0x00 destino 0 (b.length % 2 ^ 16) m = some ((), { m with
      pico := lidoAte t (0 + b.length % 2 ^ 16), ram := baixado m b destino }) :=
    leBytes_eq destino (fun k hk m hm => leRegistro_dado h hk m hm) (b.length % 2 ^ 16) m (by omega) hstart
  obtain ⟨p, hcrc⟩ := getCrc_eq { m with
    pico := lidoAte t (0 + b.length % 2 ^ 16), ram := baixado m b destino }
  refine ⟨p, ?_⟩
  rw [noblkReceberArquivoDoPico, bind_eq hhigh, bind_eq hhigh, bind_eq hlow, bind_eq hlow, size_bytes, hsize]
  by_cases hz : b.length % 2 ^ 16 = 0
  · simp only [hzero.mpr hz, if_true, hz]
    rfl
  · have hz' : UInt16.ofNat b.length ≠ 0 := mt hzero.mp hz
    simp only [hz', if_false, hz, hnat]
    rw [bind_eq hloop, bind_eq hcrc, bind_eq (get_eq _), crc32CalculateBios_eq]
    rfl

def comNome (m : Placa) : Placa := { m with ram := Function.update m.ram (0x82008 + 12) 0 }

theorem prepara_eq {m m₁ : Placa} {ok : Bool} (hs : leRegistro 0x01 m = some (0x01, m))
    (hr : noblkReceberArquivoDoPico 0x82000 m = some (ok, m₁)) : preparaArquivo m =
      if ok then
        some (if ofLe32 ((comNome m₁).bytes 0x82004 4) - 0x15 = 0 then none
          else some (((comNome m₁).bytes 0x82008 13).takeWhile (· ≠ 0),
            (comNome m₁).bytes 0x82015 (ofLe32 ((comNome m₁).bytes 0x82004 4) - 0x15).toNat), comNome m₁)
      else some (none, m₁) := by
  have hpoke : poke (0x82008 + 12) 0 m₁ = some ((), comNome m₁) := rfl
  rw [preparaArquivo, bind_eq hs]
  simp only [show (0x01 : UInt8) ≠ 0x00 by decide, show ¬ (0x01 : UInt8) < 1 by decide, if_false]
  rw [bind_eq hr]
  cases ok with
  | false => rfl
  | true =>
      simp only [Bool.not_true, Bool.false_eq_true, if_false, if_true]
      rw [bind_eq hpoke, bind_eq (get_eq _)]
      split <;> rfl

theorem bytes_comNome {m : Placa} {a n : Nat} (h : a + n ≤ 0x82008 + 12 ∨ 0x82008 + 12 < a) :
    (comNome m).bytes a n = m.bytes a n := by
  apply List.map_congr_left
  intro i hi
  have hlt := List.mem_range.mp hi
  exact Function.update_of_ne (by omega) _ _

theorem bytes_baixado {m : Placa} {destino a k : Nat} (h : a + k ≤ b.length) (hb : b.length < 2 ^ 16) :
    Placa.bytes { m with ram := baixado m b destino } (destino + a) k = (b.drop a).take k := by
  have hram : Placa.ram { m with ram := baixado m b destino } =
      gravado m.ram destino 0 b.length fun k => b.getD k 0 := by
    rw [← Nat.mod_eq_of_lt hb]
    rfl
  rw [bytes_gravado hram h]
  apply List.ext_getElem
  · simp
    omega
  · intro i hi hi'
    simp only [List.length_map, List.length_range] at hi
    simp only [List.getElem_map, List.getElem_range, List.getElem_take, List.getElem_drop]
    rw [List.getD_eq_getElem?_getD, List.getElem?_eq_getElem (by omega), Option.getD_some]

end Transfer

section Save

/-- No directory or write-protected file has the name. -/
def Gravavel : Entry → Prop
  | .none => True
  | .file readOnly _ => readOnly = false
  | .dir => False

theorem fOpen_novo {abre : Disk} {nome : Path} {v : Volume} (ha : abre.result = .ok) (hv : Gravavel (v nome)) :
    fOpen abre nome (faWrite ||| faCreateAlways) v =
      (.ok, ⟨nome, 0x0A, 0, .ok, true⟩, Function.update v nome (.file false ⟨[], by decide⟩)) := by
  have hmode : (faWrite ||| faCreateAlways) &&& 0x3F = 0x0A := by decide
  have hcreate : creates 0x0A = true := by decide
  have hnew : ¬ (0x0A : UInt8) &&& faCreateNew ≠ 0 := by decide
  have halways : (0x0A : UInt8) &&& faCreateAlways ≠ 0 := by decide
  have hend : ¬ (0x0A : UInt8) &&& faSeekEnd ≠ 0 := by decide
  cases he : v nome with
  | none => simp [fOpen, hmode, ha, he, openError, openEntry, hcreate, hend]
  | file readOnly d =>
      rw [he] at hv
      obtain rfl : readOnly = false := hv
      simp [fOpen, hmode, ha, he, openError, openEntry, hcreate, hnew, halways, hend]
  | dir =>
      rw [he] at hv
      exact hv.elim

theorem grava_eq {abre escreve fecha : Disk} {nome : Path} {dados : List UInt8} {v : Volume}
    (ha : abre.result = .ok) (he : escreve.result = .ok) (hroom : dados.length ≤ escreve.room)
    (hf : fecha.result = .ok) (hlen : dados.length < 2 ^ 32) (hv : Gravavel (v nome)) :
    gravaArquivo abre escreve fecha nome dados v =
      (true, Function.update v nome (.file false ⟨dados, hlen⟩)) := by
  have hall : accepted escreve ⟨nome, 0x0A, 0, .ok, true⟩ dados = dados := by
    rw [accepted, if_pos (by simpa using hlen), Nat.min_eq_left hroom, List.take_length]
  have hwrite : ¬ (0x0A : UInt8) &&& faWrite = 0 := by decide
  rw [gravaArquivo, fOpen_novo ha hv]
  simp only [ne_eq, not_true_eq_false, if_false, fWrite, validate, if_true, hwrite, hall, he, or_self]
  simp [fClose, hf, Volume.setBytes, Fil.bytes, Entry.setData, Entry.data, Bytes.overwrite]

def nomeCabecalho (b : List UInt8) : Path := ((b.drop 8).take 12).takeWhile (· ≠ 0)

/-- The file on the disk is the one that has been sent, whatever the memory held before. -/
def Salva (t : Pico) (nome : Path) (dados : List UInt8) : Prop :=
  ∀ (ram : Nat → UInt8) (v : Volume) (abre escreve fecha : Disk), Gravavel (v nome) →
    abre.result = .ok → escreve.result = .ok → dados.length ≤ escreve.room → fecha.result = .ok →
    ∃ ok m', doSave2 abre escreve fecha ⟨t, ram, v⟩ = some (ok, m') ∧
      ∃ d, m'.volume nome = .file false d ∧ d.val = dados

variable {t : Pico} {b : List UInt8}

theorem bytes_succ (m : Placa) (a n : Nat) : m.bytes a (n + 1) = m.bytes a n ++ [m.ram (a + n)] := by
  simp [Placa.bytes, List.range_succ]

theorem takeWhile_end (l : List UInt8) : (l ++ [0]).takeWhile (· ≠ 0) = l.takeWhile (· ≠ 0) := by
  induction l with
  | nil => rfl
  | cons a l ih =>
      rw [List.cons_append, List.takeWhile_cons, List.takeWhile_cons, ih]

theorem prepara_small (h : Publicado t.server b) (hN : 21 < b.length) (hb : b.length < 2 ^ 16)
    {m : Placa} (hm : m.pico = t) :
    ∃ m', preparaArquivo m = some (some (nomeCabecalho b, conteudo b), m') ∧ m'.volume = m.volume := by
  have hpos : 0 < b.length := by omega
  obtain ⟨p, hr⟩ := receber_eq h hpos 0x82000 hm
  rw [Nat.mod_eq_of_lt hb, if_neg (by omega)] at hr
  have h4 : ((UInt16.ofNat b.length).toUInt32 - 4).toNat = b.length - 4 := by
    have hlen : (UInt16.ofNat b.length).toUInt32.toNat = b.length := by
      rw [UInt16.toNat_toUInt32, UInt16.toNat_ofNat_of_lt' hb]
    have hfour : (4 : UInt32).toNat = 4 := rfl
    rw [UInt32.toNat_sub_of_le, hlen, hfour]
    rw [UInt32.le_iff_toNat_le, hlen, hfour]
    omega
  have hcrc : Placa.bytes { m with ram := baixado m b 0x82000 } 0x82004 (b.length - 4) = b.drop 4 := by
    refine (bytes_baixado (a := 4) (by omega) hb).trans ?_
    rw [List.take_of_length_le (by rw [List.length_drop])]
  rw [h4, hcrc, h.crc (by omega), beq_self_eq_true] at hr
  have hbytes {a n : Nat} (hlt : a + n ≤ b.length) (hout : a + n ≤ 20 ∨ 20 < a) :
      (comNome { m with pico := p, ram := baixado m b 0x82000 }).bytes (0x82000 + a) n = (b.drop a).take n := by
    rw [bytes_comNome (by omega)]
    exact bytes_baixado hlt hb
  have hsize : (comNome { m with pico := p, ram := baixado m b 0x82000 }).bytes 0x82004 4 =
      le32 t.server.arquivoTamanho :=
    (hbytes (a := 4) (by omega) (.inl (by omega))).trans (h.header (by omega))
  have hname : (comNome { m with pico := p, ram := baixado m b 0x82000 }).bytes 0x82008 13 =
      (b.drop 8).take 12 ++ [0] := by
    rw [bytes_succ, hbytes (a := 8) (n := 12) (by omega) (.inl (by omega))]
    rfl
  have htam : (t.server.arquivoTamanho - 0x15).toNat = b.length - 21 := by
    have h21 : (0x15 : UInt32).toNat = 21 := rfl
    rw [UInt32.toNat_sub_of_le, h.tamanho, h21]
    rw [UInt32.le_iff_toNat_le, h.tamanho, h21]
    omega
  have hne : t.server.arquivoTamanho - 0x15 ≠ 0 := by
    intro hz
    rw [hz] at htam
    have hzero : (0 : UInt32).toNat = 0 := rfl
    omega
  have hofLe : ofLe32 (le32 t.server.arquivoTamanho) = t.server.arquivoTamanho := by
    have hrest := ofLe32_le32 t.server.arquivoTamanho []
    rwa [List.append_nil] at hrest
  have hdata : (comNome { m with pico := p, ram := baixado m b 0x82000 }).bytes 0x82015 (b.length - 21) =
      conteudo b := by
    refine (hbytes (a := 21) (by omega) (.inr (by omega))).trans ?_
    rw [conteudo, List.take_of_length_le (by rw [List.length_drop])]
  refine ⟨comNome { m with pico := p, ram := baixado m b 0x82000 },
    (prepara_eq (status_pendente h hpos hm) hr).trans ?_, rfl⟩
  rw [if_pos rfl, hsize, hofLe, if_neg hne, htam, hdata, hname, nomeCabecalho, takeWhile_end]

theorem doSave2_eq {abre escreve fecha : Disk} {m m₁ : Placa} {nome : Path} {dados : List UInt8}
    (hp : preparaArquivo m = some (some (nome, dados), m₁)) : doSave2 abre escreve fecha m =
      some ((gravaArquivo abre escreve fecha nome dados m₁.volume).1,
        { m₁ with volume := (gravaArquivo abre escreve fecha nome dados m₁.volume).2 }) := by
  rw [doSave2, bind_eq hp]
  rfl

theorem salva_small (h : Publicado t.server b) (hN : 21 < b.length) (hb : b.length < 2 ^ 16) :
    Salva t (nomeCabecalho b) (conteudo b) := by
  intro ram v abre escreve fecha hv ha he hroom hf
  have hlen : (conteudo b).length < 2 ^ 32 := by
    rw [conteudo, List.length_drop]
    omega
  obtain ⟨m', hp, hvol⟩ := prepara_small h hN hb (m := ⟨t, ram, v⟩) rfl
  have hvol : m'.volume = v := hvol
  refine ⟨_, _, doSave2_eq hp, ⟨conteudo b, hlen⟩, ?_, rfl⟩
  rw [hvol, grava_eq ha he hroom hf hlen hv]
  exact Function.update_self _ _ _

theorem prepara_volume {m m₁ : Placa} {r : Option (Path × List UInt8)} (h : Publicado t.server b)
    (hpos : 0 < b.length) (hm : m.pico = t) (hp : preparaArquivo m = some (r, m₁)) :
    m₁.volume = m.volume := by
  obtain ⟨p, hr⟩ := receber_eq h hpos 0x82000 hm
  have hs := status_pendente h hpos hm
  by_cases hz : b.length % 2 ^ 16 = 0
  · rw [if_pos hz] at hr
    rw [prepara_eq hs hr] at hp
    cases hp
    rfl
  · rw [if_neg hz] at hr
    rw [prepara_eq hs hr] at hp
    split at hp <;> cases hp <;> rfl

theorem prepara_stale {m m₁ : Placa} {nome : Path} {dados : List UInt8} (h : Publicado t.server b)
    (hpos : 0 < b.length) (hm : m.pico = t) (hp : preparaArquivo m = some (some (nome, dados), m₁)) :
    dados.length < 2 ^ 32 ∧
      ∀ i < dados.length, b.length % 2 ^ 16 ≤ 0x15 + i → dados[i]? = some (m.ram (0x82015 + i)) := by
  obtain ⟨p, hr⟩ := receber_eq h hpos 0x82000 hm
  have hs := status_pendente h hpos hm
  by_cases hz : b.length % 2 ^ 16 = 0
  · rw [if_pos hz] at hr
    rw [prepara_eq hs hr, if_neg Bool.false_ne_true] at hp
    cases hp
  · rw [if_neg hz] at hr
    rw [prepara_eq hs hr] at hp
    split at hp
    swap
    · cases hp
    simp only [Option.some.injEq, Prod.mk.injEq] at hp
    obtain ⟨hp, rfl⟩ := hp
    split at hp
    · cases hp
    simp only [Option.some.injEq, Prod.mk.injEq] at hp
    obtain ⟨-, rfl⟩ := hp
    rw [Placa.bytes, List.length_map, List.length_range]
    constructor
    · exact UInt32.toNat_lt _
    · intro i hi hout
      rw [List.getElem?_map, List.getElem?_range hi, Option.map_some]
      simp only [comNome, baixado]
      rw [Function.update_of_ne (by omega), gravado, if_neg (by omega)]

theorem doSave2_none {abre escreve fecha : Disk} {m m₁ : Placa} (hp : preparaArquivo m = some (none, m₁)) :
    doSave2 abre escreve fecha m = some (false, m₁) := by
  rw [doSave2, bind_eq hp]
  rfl

def espacoso : Disk := ⟨.ok, 2 ^ 32, fun _ => 0⟩

theorem Salva.prepara {nome : Path} {dados : List UInt8} (hs : Salva t nome dados) (h : Publicado t.server b)
    (hpos : 0 < b.length) (hroom : dados.length ≤ 2 ^ 32) (ram : Nat → UInt8) :
    ∃ m₁, preparaArquivo ⟨t, ram, fun _ => .none⟩ = some (some (nome, dados), m₁) := by
  obtain ⟨ok, m', hdo, d, hd, hdata⟩ :=
    hs ram (fun _ => .none) espacoso espacoso espacoso trivial rfl rfl hroom rfl
  cases hp : preparaArquivo ⟨t, ram, fun _ => .none⟩ with
  | none =>
      rw [doSave2, bind_none hp] at hdo
      cases hdo
  | some r =>
      obtain ⟨_ | ⟨nome', dados'⟩, m₁⟩ := r
      · rw [doSave2_none hp] at hdo
        cases hdo
        rw [prepara_volume h hpos rfl hp] at hd
        cases hd
      · obtain ⟨hlen, -⟩ := prepara_stale h hpos rfl hp
        have hgrava : gravaArquivo espacoso espacoso espacoso nome' dados' (fun _ => .none) =
            (true, Function.update (fun _ => .none) nome' (.file false ⟨dados', hlen⟩)) :=
          grava_eq rfl rfl (Nat.le_of_lt hlen) rfl hlen trivial
        rw [doSave2_eq hp, prepara_volume h hpos rfl hp, hgrava] at hdo
        cases hdo
        change Function.update (fun _ => Entry.none) nome' (.file false ⟨dados', hlen⟩) nome = .file false d at hd
        by_cases hnome : nome = nome'
        swap
        · rw [Function.update_of_ne hnome] at hd
          cases hd
        rw [hnome, Function.update_self] at hd
        cases hd
        exact ⟨m₁, by rw [hnome, ← hdata]⟩

theorem not_salva_large (h : Publicado t.server b) (hb : 2 ^ 16 ≤ b.length) :
    ¬ Salva t (nomeCabecalho b) (conteudo b) := by
  intro hs
  have hcont : (conteudo b).length = b.length - 21 := by rw [conteudo, List.length_drop]
  have hlt32 : b.length < 2 ^ 32 := by
    rw [← h.tamanho]
    exact t.server.arquivoTamanho.toNat_lt
  have hlast : (conteudo b)[b.length - 22]? = some (b.getD (b.length - 1) 0) := by
    rw [conteudo, List.getElem?_drop, show 21 + (b.length - 22) = b.length - 1 by omega,
      List.getD_eq_getElem?_getD, List.getElem?_eq_getElem (by omega), Option.getD_some]
  -- memory holds nowhere the last byte of the file
  obtain ⟨m₁, hp⟩ := hs.prepara h (by omega) (by omega) fun _ => b.getD (b.length - 1) 0 + 1
  obtain ⟨-, hstale⟩ := prepara_stale h (by omega) rfl hp
  have hold := hstale (b.length - 22) (by omega) (by omega)
  have hne : b.getD (b.length - 1) 0 ≠ b.getD (b.length - 1) 0 + 1 := by simp
  exact hne (Option.some.inj (hlast.symm.trans hold))

theorem publicado_of_step (cartao : UInt16 → Setor) (es : List PicoBus.Event) {s t : Pico}
    (hs : run PicoBus.step es (PicoBus.inicial cartao) = some s) {e : PicoServer.Event}
    (ht : PicoBus.step (.rede e) s = some t) (hpub : t.server.publicacoes ≠ s.server.publicacoes)
    {p : FilePtr} {b : List UInt8} (hp : t.server.arquivoBuffer = some p)
    (hb : t.server.arquivos.cell p = some b) : Publicado t.server b := by
  have hinv : BusInv s := run_preserves (fun _ _ _ h ht => step_busInv h ht) (inicial_busInv cartao) hs
  obtain ⟨u, hu, rfl⟩ := Option.map_eq_some_iff.mp ht
  obtain ⟨b', hb'⟩ := step_publicado hinv.owners hinv.sizes hu hpub
  obtain ⟨p', hp', hcell⟩ := hb'.block
  cases hp.symm.trans hp'
  cases hb.symm.trans hcell
  exact hb'

/-- A file that has been published is saved as it is exactly when it and its header have fewer
than 64 KiB, so that the two registers of the size can hold it. -/
theorem download_saves_iff (cartao : UInt16 → Setor) (es : List PicoBus.Event) {s t : Pico}
    (hs : run PicoBus.step es (PicoBus.inicial cartao) = some s) {e : PicoServer.Event}
    (ht : PicoBus.step (.rede e) s = some t) (hpub : t.server.publicacoes ≠ s.server.publicacoes)
    {p : FilePtr} {b : List UInt8} (hp : t.server.arquivoBuffer = some p)
    (hb : t.server.arquivos.cell p = some b) (hN : 1 ≤ (conteudo b).length) :
    Salva t (nomeCabecalho b) (conteudo b) ↔ (conteudo b).length + 21 < 2 ^ 16 := by
  have h := publicado_of_step cartao es hs ht hpub hp hb
  have hlen : (conteudo b).length = b.length - 21 := by rw [conteudo, List.length_drop]
  constructor
  · intro hsalva
    by_contra hlarge
    exact not_salva_large h (by omega) hsalva
  · intro hsmall
    exact salva_small h (by omega) (by omega)

theorem download_saves_iff_one_byte :
    ∃ s t b, run PicoBus.step [.rede (.accept true true)] (PicoBus.inicial fun _ => Vector.replicate 512 0) = some s ∧
      PicoBus.step (.rede (.segment 0 ⟨⟨le32 1 ++ List.replicate 12 0x41 ++ [7], by decide⟩, []⟩ (some fun _ => 0))) s =
        some t ∧
      (conteudo b).length = 1 ∧
      (Salva t (nomeCabecalho b) (conteudo b) ↔ (conteudo b).length + 21 < 2 ^ 16) := by
  have hinv := (tcpServerAccept_inv inicial_inv true true).1
  have hexact : Exact (tcpServerAccept true true PicoServer.inicial) :=
    step_exact inicial_inv inicial_exact (e := .accept true true) rfl
  obtain ⟨b, hb⟩ := step_publicado hinv hexact (e := .segment 0
    ⟨⟨le32 1 ++ List.replicate 12 0x41 ++ [7], by decide⟩, []⟩ (some fun _ => 0)) rfl (by decide)
  obtain ⟨p, hp, hcell⟩ := hb.block
  have hlen : (conteudo b).length = 1 := by
    rw [conteudo, List.length_drop, ← hb.tamanho]
    rfl
  exact ⟨_, _, b, rfl, rfl, hlen, download_saves_iff (fun _ => Vector.replicate 512 0)
    [.rede (.accept true true)] rfl (e := .segment 0
      ⟨⟨le32 1 ++ List.replicate 12 0x41 ++ [7], by decide⟩, []⟩ (some fun _ => 0)) rfl (by decide) hp hcell hlen.ge⟩

theorem recebido_inteiro (cartao : UInt16 → Setor) {n : UInt32} {nome buffer : List UInt8}
    (hbuffer : buffer.length = n.toNat) (hnome : nome.length = 12) (hn : 16 + n.toNat < 2 ^ 16) :
    ∃ e s t p b, run PicoBus.step [.rede (.accept true true)] (PicoBus.inicial cartao) = some s ∧
      PicoBus.step (.rede e) s = some t ∧ t.server.publicacoes ≠ s.server.publicacoes ∧
      t.server.arquivoBuffer = some p ∧ t.server.arquivos.cell p = some b ∧
      conteudo b = buffer ∧ nomeArquivo b = strncpy nome 12 ++ [0] := by
  have hlen : (envia n nome buffer).length = 16 + n.toNat := by
    rw [envia, List.length_append, List.length_append, hnome, hbuffer]
    rfl
  let segmento : PbufChain := ⟨⟨envia n nome buffer, by omega⟩, []⟩
  have hinv := (tcpServerAccept_inv inicial_inv true true).1
  obtain ⟨ha, hc⟩ := accept_waits PicoServer.inicial
  have hsent : 16 ≤ segmento.first.payload.length := by
    change 16 ≤ (envia n nome buffer).length
    omega
  have hwhole : ∃ u, run PicoServer.step (segmentos 0 (fun _ => 0) [segmento])
      (tcpServerAccept true true PicoServer.inicial) = some u ∧
        Published (tcpServerAccept true true PicoServer.inicial) (strncpy nome 12) buffer u :=
    run_whole hinv (by omega) hbuffer hnome ha hc rfl hsent (List.append_nil _)
  obtain ⟨u, hu, hpub⟩ := hwhole
  obtain ⟨u', hstep, hu'⟩ := run_cons_eq_some.mp hu
  cases hu'
  obtain ⟨p, b, hp, hb, hcont, hname, -⟩ := hpub.block
  let pico : Server → Pico := fun s => { PicoBus.inicial cartao with server := s }
  refine ⟨.segment 0 segmento (some fun _ => 0), pico (tcpServerAccept true true PicoServer.inicial), pico u, p, b,
    rfl, congrArg (Option.map pico) hstep, ?_, hp, hb, hcont, hname⟩
  change u.publicacoes ≠ (tcpServerAccept true true PicoServer.inicial).publicacoes
  rw [hpub.once]
  exact Nat.succ_ne_self _

/-- A payload of 65515 bytes makes a file of 65536, whose size the registers show as 0. -/
theorem large_file_not_saved :
    ¬ ∀ (cartao : UInt16 → Setor) (es : List PicoBus.Event) (s t : Pico) (e : PicoServer.Event)
      (p : FilePtr) (b : List UInt8), run PicoBus.step es (PicoBus.inicial cartao) = some s →
      PicoBus.step (.rede e) s = some t → t.server.publicacoes ≠ s.server.publicacoes →
      t.server.arquivoBuffer = some p → t.server.arquivos.cell p = some b → 1 ≤ (conteudo b).length →
      Salva t (nomeCabecalho b) (conteudo b) := by
  intro h
  obtain ⟨buffer, hbuffer⟩ : ∃ buffer : List UInt8, buffer.length = (65515 : UInt32).toNat :=
    ⟨List.replicate 65515 0, List.length_replicate⟩
  obtain ⟨nome, hnome⟩ : ∃ nome : List UInt8, nome.length = 12 := ⟨List.replicate 12 0x41, rfl⟩
  obtain ⟨e, s, t, p, b, hs, ht, hpub, hp, hb, hcont, -⟩ :=
    recebido_inteiro (fun _ => Vector.replicate 512 0) hbuffer hnome (by decide)
  have hlen : (conteudo b).length = 65515 := by
    rw [hcont, hbuffer]
    rfl
  refine not_salva_large (publicado_of_step _ _ hs ht hpub hp hb) ?_ (h _ _ s t e p b hs ht hpub hp hb (by omega))
  rw [conteudo, List.length_drop] at hlen
  omega

end Save

end Orion68.Download
