import Orion68.Lib.Ownership
import Orion68.Lib.Runs
import Orion68.Pico.Crc32
import Mathlib.Algebra.Group.Nat.Defs

namespace Orion68.PicoServer

open Ownership PicoCrc32

abbrev tamanhoCabecalho : Nat := 16

/-- The size of a packed `file_t` without its `conteudo`. -/
def sizeofFile : UInt32 := 21

inductive Estado
  | esperaCabecalho
  | esperaDados
  | concluido
  deriving DecidableEq

abbrev EsPtr := Nat

abbrev FilePtr := Nat

/-- `bufferRam` points to the `conteudo` of a block. -/
structure ConexaoEstado where
  estado : Estado
  tamanhoTotal : UInt32
  bytesRecebidos : UInt32
  nomeArquivo : List UInt8
  bufferRam : Option FilePtr
  pfh : Option FilePtr

structure Pbuf where
  payload : List UInt8
  len_lt : payload.length < 2 ^ 16

structure PbufChain where
  first : Pbuf
  rest : List Pbuf

def PbufChain.bytes (p : PbufChain) : List UInt8 := p.first.payload ++ p.rest.flatMap Pbuf.payload

/-- A connection of lwIP; `recusado` holds the segment that `tcp_server_recv` returned an error
for, to be delivered again. -/
inductive Pcb
  | fechado
  | aberto
  | recusado (p : PbufChain)

/-- The memory and the globals of the server. `publicacoes` counts the assignments of a block to
`arquivo_buffer`, `overflow` records a write past the end of a block, and `misuse` the use of a
freed block or of a null pointer. -/
structure Server where
  conexoes : Heap ConexaoEstado
  arquivos : Heap (List UInt8)
  pcbs : EsPtr → Pcb
  arquivoBuffer : Option FilePtr
  arquivoTamanho : UInt32
  ponteiroLeitura : UInt32
  arquivoCrc32 : UInt32
  arquivoPronto : Bool
  publicacoes : Nat
  overflow : Bool
  misuse : Bool

def ofLe32 : List UInt8 → UInt32
  | a :: b :: c :: d :: _ =>
      a.toUInt32 ||| b.toUInt32 <<< 8 ||| c.toUInt32 <<< 16 ||| d.toUInt32 <<< 24
  | _ => 0

def le32 (n : UInt32) : List UInt8 :=
  [n.toUInt8, (n >>> 8).toUInt8, (n >>> 16).toUInt8, (n >>> 24).toUInt8]

def strncpy (src : List UInt8) (n : Nat) : List UInt8 :=
  let s := (src.take n).takeWhile (· ≠ 0)
  s ++ List.replicate (n - s.length) 0

/-- Overwrite the bytes of a block from `off` on, as far as it goes. -/
def store (off : Nat) (bytes block : List UInt8) : List UInt8 :=
  block.take off ++ bytes.take (block.length - off) ++ block.drop (off + bytes.length)

namespace Server

def write (p : FilePtr) (off : Nat) (bytes : List UInt8) (s : Server) : Server :=
  match s.arquivos.cell p with
  | none => { s with misuse := true }
  | some b =>
      { s with
        arquivos := s.arquivos.modify p (store off bytes)
        overflow := s.overflow || decide (b.length < off + bytes.length) }

def freeFile (p : FilePtr) (s : Server) : Server :=
  match s.arquivos.cell p with
  | none => { s with misuse := true }
  | some _ => { s with arquivos := s.arquivos.free p }

def deref (p : Option FilePtr) (f : FilePtr → Server → Server) (s : Server) : Server :=
  match p with
  | none => { s with misuse := true }
  | some p => f p s

def setEs (c : EsPtr) (es : ConexaoEstado) (s : Server) : Server :=
  { s with conexoes := s.conexoes.modify c fun _ => es }

def freeEs (c : EsPtr) (pcb : Pcb) (s : Server) : Server :=
  { s with conexoes := s.conexoes.free c, pcbs := Function.update s.pcbs c pcb }

end Server

/-- A header has come and `malloc` has returned a block that holds `memoria`. -/
def recebeCabecalho (dados : List UInt8) (memoria : Nat → UInt8) (s : Server) :
    ConexaoEstado × Server :=
  let tamanhoTotal := ofLe32 dados
  let nomeArquivo := (dados.drop 4).take 12 ++ [0]
  let p := s.arquivos.next
  let block := (List.range (sizeofFile + tamanhoTotal).toNat).map memoria
  let s := { s with arquivos := s.arquivos.alloc block }
  (⟨.esperaDados, tamanhoTotal, 0, nomeArquivo, some p, some p⟩,
    (s.write p 8 (strncpy nomeArquivo 12)).write p 20 [0])

/-- The file is complete: the block of the previous one is freed and this one takes its place. -/
def publica (es : ConexaoEstado) (p : FilePtr) (s : Server) : Server :=
  let s := s.arquivoBuffer.elim s fun q => { s.freeFile q with arquivoBuffer := none }
  let total := sizeofFile + es.tamanhoTotal
  let s := s.write p 4 (le32 total)
  let crc := crc32Calculate ((((s.arquivos.cell p).getD []).drop 4).take (total - 4).toNat)
  let s := s.write p 0 (le32 crc)
  { s with
    arquivoBuffer := some p
    arquivoTamanho := total
    arquivoCrc32 := crc
    ponteiroLeitura := 0
    arquivoPronto := true
    publicacoes := s.publicacoes + 1 }

def copia (dados : List UInt8) (es : ConexaoEstado) (s : Server) : ConexaoEstado × Server :=
  if dados = [] then (es, s)
  else
    ({ es with bytesRecebidos := es.bytesRecebidos + UInt32.ofNat dados.length },
      s.deref es.bufferRam fun p => Server.write p (sizeofFile.toNat + es.bytesRecebidos.toNat) dados)

def verifica (es : ConexaoEstado) (s : Server) : ConexaoEstado × Server :=
  if es.tamanhoTotal ≤ es.bytesRecebidos then
    ({ es with estado := .concluido }, s.deref es.pfh (publica es))
  else (es, s)

def recebeDados (dados : List UInt8) (es : ConexaoEstado) (s : Server) : ConexaoEstado × Server :=
  let r := copia dados es s
  verifica r.1 r.2

section Fields

variable (s : Server) (es : ConexaoEstado) (p : FilePtr) (dados : List UInt8)

theorem write_eq (off : Nat) (bytes : List UInt8) :
    s.write p off bytes =
      { s with
        arquivos := s.arquivos.modify p (store off bytes)
        overflow := s.overflow || (s.arquivos.cell p).any fun b => decide (b.length < off + bytes.length)
        misuse := s.misuse || (s.arquivos.cell p).isNone } := by
  rw [Server.write]
  cases hb : s.arquivos.cell p with
  | none => simp [Heap.modify_of_none hb]
  | some b => simp

theorem freeFile_eq :
    s.freeFile p =
      { s with
        arquivos := s.arquivos.free p
        misuse := s.misuse || (s.arquivos.cell p).isNone } := by
  rw [Server.freeFile]
  cases hb : s.arquivos.cell p with
  | none => simp [Heap.free_of_none hb]
  | some b => simp

@[simp] theorem arquivos_setEs (c : EsPtr) : (s.setEs c es).arquivos = s.arquivos := rfl

@[simp] theorem arquivoBuffer_setEs (c : EsPtr) : (s.setEs c es).arquivoBuffer = s.arquivoBuffer := rfl

@[simp] theorem misuse_setEs (c : EsPtr) : (s.setEs c es).misuse = s.misuse := rfl

theorem copia_eq (hb : es.bufferRam = some p) :
    copia dados es s = if dados = [] then (es, s) else
      ({ es with bytesRecebidos := es.bytesRecebidos + UInt32.ofNat dados.length },
        s.write p (sizeofFile.toNat + es.bytesRecebidos.toNat) dados) := by
  simp [copia, hb, Server.deref]

theorem copia_fst : (copia dados es s).1 =
    { es with bytesRecebidos := es.bytesRecebidos + UInt32.ofNat dados.length } := by
  by_cases hd : dados = []
  · have h0 : UInt32.ofNat 0 = 0 := rfl
    simp [copia, hd, h0]
  · simp [copia, hd]

theorem copia_frame : (copia dados es s).2 =
    { s with
      arquivos := (copia dados es s).2.arquivos
      overflow := (copia dados es s).2.overflow
      misuse := (copia dados es s).2.misuse } := by
  by_cases hd : dados = []
  · simp [copia, hd]
  · cases hb : es.bufferRam <;> simp [copia, hd, hb, Server.deref, write_eq]

@[simp] theorem copia_conexoes : (copia dados es s).2.conexoes = s.conexoes := by rw [copia_frame]

@[simp] theorem copia_pcbs : (copia dados es s).2.pcbs = s.pcbs := by rw [copia_frame]

@[simp] theorem copia_arquivoBuffer : (copia dados es s).2.arquivoBuffer = s.arquivoBuffer := by
  rw [copia_frame]

@[simp] theorem copia_publicacoes : (copia dados es s).2.publicacoes = s.publicacoes := by
  rw [copia_frame]

@[simp] theorem copia_estado : (copia dados es s).1.estado = es.estado := by rw [copia_fst]

@[simp] theorem copia_tamanhoTotal : (copia dados es s).1.tamanhoTotal = es.tamanhoTotal := by
  rw [copia_fst]

@[simp] theorem copia_bufferRam : (copia dados es s).1.bufferRam = es.bufferRam := by rw [copia_fst]

@[simp] theorem copia_pfh : (copia dados es s).1.pfh = es.pfh := by rw [copia_fst]

theorem copia_bytesRecebidos : (copia dados es s).1.bytesRecebidos.toNat =
    (es.bytesRecebidos.toNat + dados.length) % 2 ^ 32 := by
  rw [copia_fst, UInt32.toNat_add, UInt32.toNat_ofNat', Nat.add_mod_mod]

variable {s es p}

theorem copia_arquivos (hb : es.bufferRam = some p) :
    (copia dados es s).2.arquivos = if dados = [] then s.arquivos else
      s.arquivos.modify p (store (sizeofFile.toNat + es.bytesRecebidos.toNat) dados) := by
  rw [copia_eq s es p dados hb]
  split <;> simp [write_eq]

theorem copia_misuse (hb : es.bufferRam = some p) (hp : s.arquivos.Live p) :
    (copia dados es s).2.misuse = s.misuse := by
  rw [copia_eq s es p dados hb]
  split <;> simp [write_eq, hp.isNone_eq]

variable (s es p)

@[simp] theorem publica_conexoes : (publica es p s).conexoes = s.conexoes := by
  cases hq : s.arquivoBuffer <;> simp [publica, write_eq, freeFile_eq, hq]

@[simp] theorem publica_pcbs : (publica es p s).pcbs = s.pcbs := by
  cases hq : s.arquivoBuffer <;> simp [publica, write_eq, freeFile_eq, hq]

@[simp] theorem publica_arquivoBuffer : (publica es p s).arquivoBuffer = some p := rfl

@[simp] theorem publica_publicacoes : (publica es p s).publicacoes = s.publicacoes + 1 := by
  cases hq : s.arquivoBuffer <;> simp [publica, write_eq, freeFile_eq, hq]

theorem publica_arquivos :
    (publica es p s).arquivos = ((s.arquivoBuffer.elim s.arquivos s.arquivos.free).modify p
      (store 4 (le32 (sizeofFile + es.tamanhoTotal)))).modify p
        (store 0 (le32 (publica es p s).arquivoCrc32)) := by
  cases hq : s.arquivoBuffer <;> simp [publica, write_eq, freeFile_eq, hq]

@[simp] theorem recebeDados_conexoes : (recebeDados dados es s).2.conexoes = s.conexoes := by
  cases hp : es.pfh <;> simp only [recebeDados, verifica, copia_pfh, hp] <;> split <;>
    simp [Server.deref]

@[simp] theorem recebeDados_pcbs : (recebeDados dados es s).2.pcbs = s.pcbs := by
  cases hp : es.pfh <;> simp only [recebeDados, verifica, copia_pfh, hp] <;> split <;>
    simp [Server.deref]

variable {s p}

theorem publica_misuse (hp : s.arquivos.Live p)
    (hq : ∀ q, s.arquivoBuffer = some q → s.arquivos.Live q ∧ q ≠ p) :
    (publica es p s).misuse = s.misuse := by
  cases hb : s.arquivoBuffer with
  | none => simp [publica, write_eq, hb, hp.isNone_eq]
  | some q =>
      obtain ⟨hlive, hqp⟩ := hq q hb
      simp [publica, write_eq, freeFile_eq, hb, hp.isNone_eq, hlive.isNone_eq, hqp.symm]

end Fields

/-- `p` is `none` when the peer has closed; only the first buffer of a chain is looked at. -/
def tcpServerRecv (c : EsPtr) (p : Option PbufChain) (malloc : Option (Nat → UInt8)) (s : Server) :
    Server :=
  match s.conexoes.cell c with
  | none => { s with misuse := true }
  | some es =>
      match p with
      | none =>
          let s := if es.estado ≠ .concluido then es.pfh.elim s (Server.freeFile · s) else s
          s.freeEs c .fechado
      | some p =>
          let dados := p.first.payload
          match es.estado with
          | .esperaCabecalho =>
              if tamanhoCabecalho ≤ dados.length then
                match malloc with
                | none => s.freeEs c (.recusado p)
                | some memoria =>
                    let r := recebeCabecalho dados memoria s
                    let r := recebeDados (dados.drop tamanhoCabecalho) r.1 r.2
                    r.2.setEs c r.1
              else s
          | .esperaDados =>
              let r := recebeDados dados es s
              r.2.setEs c r.1
          | .concluido => s

def tcpServerAccept (ok calloc : Bool) (s : Server) : Server :=
  if ok && calloc then
    { s with
      conexoes := s.conexoes.alloc ⟨.esperaCabecalho, 0, 0, List.replicate 13 0, none, none⟩
      pcbs := Function.update s.pcbs s.conexoes.next .aberto }
  else s

inductive Event
  | accept (ok calloc : Bool)
  | segment (c : EsPtr) (p : PbufChain) (malloc : Option (Nat → UInt8))
  | redeliver (c : EsPtr) (malloc : Option (Nat → UInt8))
  | peerClose (c : EsPtr)

/-- The callbacks that lwIP makes; `arg` is the state that was registered at the accept. -/
def step : Event → Server → Option Server
  | .accept ok calloc, s => some (tcpServerAccept ok calloc s)
  | .segment c p malloc, s =>
      match s.pcbs c with
      | .aberto => some (tcpServerRecv c (some p) malloc s)
      | _ => some s
  | .redeliver c malloc, s =>
      match s.pcbs c with
      | .recusado p => some (tcpServerRecv c (some p) malloc s)
      | _ => some s
  | .peerClose c, s =>
      match s.pcbs c with
      | .fechado => some s
      | _ => some (tcpServerRecv c none none s)

def inicial : Server :=
  ⟨Heap.empty, Heap.empty, fun _ => .fechado, none, 0, 0, 0, false, 0, false, false⟩

end Orion68.PicoServer
