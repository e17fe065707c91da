import Orion68.Pico.BlockSizes

namespace Orion68.PicoBus

open Ownership Runs PicoCrc32 PicoServer PicoBlockOwners PicoBlockSizes

abbrev Setor := Vector UInt8 512

/-- `card` is false while the pointer to the card is null. -/
structure SectorDef where
  card : Bool
  buffer : Setor
  size : UInt16
  sector : UInt16

/-- The Pico: the server and its globals, the sector buffer, and the card. -/
structure Pico where
  server : Server
  sd : SectorDef
  ponteiroLeituraSetor : UInt16
  cartao : UInt16 → Setor

def initSdcard (sd : SectorDef) : SectorDef := { sd with card := true, size := 512, sector := 0 }

def getSdcardInstance (sd : SectorDef) : SectorDef := if sd.card then sd else initSdcard sd

/-- What the bus answers: a value, or the byte that a pointer leads to. -/
inductive Resposta
  | nenhuma
  | valor (b : UInt8)
  | arquivo (p : Option FilePtr) (k : UInt32)
  | setor (k : UInt16)
  deriving DecidableEq

def reg (pacote : UInt16) : UInt8 := (pacote >>> 8).toUInt8 &&& 0x3F

def dado (pacote : UInt16) : UInt8 := pacote.toUInt8

/-- What happens on every access, before the register is looked at. -/
def prologo (s : Server) : Server :=
  if s.arquivoPronto = false then s
  else if s.arquivoTamanho ≤ s.ponteiroLeitura then { s with ponteiroLeitura := 0, arquivoPronto := false }
  else s

/-- `leu` tells whether `read_blocks` succeeds; when it fails the buffer keeps its contents. -/
def lerSetor (leu : Bool) (s : Pico) : Pico :=
  let sd := getSdcardInstance s.sd
  let sd := if sd.card && leu then { sd with buffer := s.cartao sd.sector } else sd
  { s with sd := sd, server := { s.server with arquivoCrc32 := crc32Calculate sd.buffer.toList } }

def registro (r dado : UInt8) (leu : Bool) (s : Pico) : Resposta × Pico :=
  match r with
  | 0x00 => (.arquivo s.server.arquivoBuffer s.server.ponteiroLeitura,
      { s with server := { s.server with ponteiroLeitura := s.server.ponteiroLeitura + 1 } })
  | 0x01 => (.valor (if s.server.arquivoPronto = false then 0x00
      else if s.server.ponteiroLeitura < s.server.arquivoTamanho then 0x01 else 0x02), s)
  | 0x02 => (.valor (s.server.arquivoTamanho >>> 8).toUInt8, s)
  | 0x03 => (.valor s.server.arquivoTamanho.toUInt8, s)
  | 0x04 => (.valor (s.server.arquivoCrc32 >>> 24).toUInt8, s)
  | 0x05 => (.valor (s.server.arquivoCrc32 >>> 16).toUInt8, s)
  | 0x06 => (.valor (s.server.arquivoCrc32 >>> 8).toUInt8, s)
  | 0x07 => (.valor s.server.arquivoCrc32.toUInt8, s)
  | 0x08 => (.valor 0x0, { s with server := { s.server with arquivoPronto := false } })
  | 0x09 => (.nenhuma, s)
  | 0x0A => (.nenhuma, { s with
      sd := { getSdcardInstance s.sd with sector := dado.toUInt16 }
      ponteiroLeituraSetor := 0 })
  | 0x0B =>
      let sd := getSdcardInstance s.sd
      (.nenhuma, { s with
        sd := { sd with sector := sd.sector ||| (dado.toUInt16 <<< 8 &&& 0xFF00) }
        ponteiroLeituraSetor := 0 })
  | 0x0C => (.nenhuma, lerSetor leu s)
  | 0x0D => (.setor s.ponteiroLeituraSetor, { s with
      sd := getSdcardInstance s.sd
      ponteiroLeituraSetor := s.ponteiroLeituraSetor + 1 })
  | 0x15 => (.valor 0x0, s)
  | _ => (.valor 0xFF, s)

/-- One access of the 68k; reading and writing a register are not told apart. -/
def gerenciarBarramento (pacote : UInt16) (leu : Bool) (s : Pico) : Resposta × Pico :=
  registro (reg pacote) (dado pacote) leu { s with server := prologo s.server }

/-- The byte that the 68k gets, `none` when the pointer leads nowhere. -/
def Pico.carrega (s : Pico) : Resposta → Option UInt8
  | .nenhuma => none
  | .valor b => some b
  | .arquivo p k => (p.bind s.server.arquivos.cell).bind (·[k.toNat]?)
  | .setor k => s.sd.buffer[k.toNat]?

inductive Event
  | rede (e : PicoServer.Event)
  | acesso (pacote : UInt16) (leu : Bool)

/-- The network and the 68k take turns; a callback of lwIP is one step. -/
def step : Event → Pico → Option Pico
  | .rede e, s => (PicoServer.step e s.server).map fun t => { s with server := t }
  | .acesso pacote leu, s => some (gerenciarBarramento pacote leu s).2

def inicial (cartao : UInt16 → Setor) : Pico :=
  ⟨PicoServer.inicial, ⟨false, Vector.replicate 512 0, 0, 0⟩, 0, cartao⟩

section Frames

variable (r d : UInt8) (leu : Bool) (s : Pico)

theorem prologo_eq (s : Server) : prologo s =
    { s with
      ponteiroLeitura := if s.arquivoPronto ∧ s.arquivoTamanho ≤ s.ponteiroLeitura then 0 else s.ponteiroLeitura
      arquivoPronto := s.arquivoPronto && decide (s.ponteiroLeitura < s.arquivoTamanho) } := by
  rw [prologo]
  cases hp : s.arquivoPronto with
  | false =>
      simp only [if_true, Bool.false_eq_true, false_and, if_false, Bool.false_and]
      rw [← hp]
  | true =>
      by_cases hk : s.arquivoTamanho ≤ s.ponteiroLeitura
      · simp [hk]
      · rw [if_neg (by simp), if_neg hk]
        simp only [hk, and_false, if_false, Bool.true_and]
        rw [decide_eq_true (UInt32.not_le.mp hk), ← hp]

theorem registro_server : (registro r d leu s).2.server =
    { s.server with
      ponteiroLeitura := if r = 0x00 then s.server.ponteiroLeitura + 1 else s.server.ponteiroLeitura
      arquivoPronto := s.server.arquivoPronto && decide (r ≠ 0x08)
      arquivoCrc32 := (registro r d leu s).2.server.arquivoCrc32 } := by
  unfold registro
  split <;> simp_all [lerSetor]

theorem registro_arquivo {p : Option FilePtr} {k : UInt32}
    (h : (registro r d leu s).1 = .arquivo p k) :
    r = 0x00 ∧ p = s.server.arquivoBuffer ∧ k = s.server.ponteiroLeitura := by
  unfold registro at h
  split at h <;> simp_all

theorem registro_setor {k : UInt16} (h : (registro r d leu s).1 = .setor k) :
    r = 0x0D ∧ k = s.ponteiroLeituraSetor := by
  unfold registro at h
  split at h <;> simp_all

end Frames

end Orion68.PicoBus
