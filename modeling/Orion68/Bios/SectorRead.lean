import Orion68.Bios.PicoW

namespace Orion68.SectorRead

open PicoCrc32 PicoServer PicoBus PicoW

section Writes

theorem dado_pacote (e : Bool) (r d : UInt8) : dado (pacote e r d) = d := by
  apply UInt8.toBitVec_inj.mp
  apply BitVec.eq_of_getLsbD_eq
  intro i hi
  simp only [dado, pacote, UInt16.toBitVec_toUInt8, UInt16.toBitVec_or, UInt16.toBitVec_shiftLeft,
    UInt8.toBitVec_toUInt16]
  cases e <;> interval_cases i <;> simp

theorem reg_pacote (e : Bool) {r : UInt8} (d : UInt8) (hr : r &&& 0x3F = r) : reg (pacote e r d) = r := by
  rw [← hr]
  apply UInt8.toBitVec_inj.mp
  apply BitVec.eq_of_getLsbD_eq
  intro i hi
  simp only [reg, pacote, UInt16.toBitVec_toUInt8, UInt16.toBitVec_or, UInt16.toBitVec_shiftLeft,
    UInt8.toBitVec_toUInt16, UInt16.toBitVec_shiftRight, UInt8.toBitVec_and]
  cases e <;> interval_cases i <;> simp

theorem escreveRegistro_eq {r : UInt8} (d : UInt8) (leu : Bool) (m : Placa) (hr : r &&& 0x3F = r) :
    escreveRegistro r d leu m =
      some ((), { m with pico := (registro r d leu m.aposPrologo.pico).2 }) := by
  rw [escreveRegistro, gerenciarBarramento, reg_pacote true d hr, dado_pacote]
  rfl

/-- The sector buffer has been loaded, its CRC shows, and no byte of it has been fetched. -/
structure Carregado (b : Setor) (p : Pico) : Prop where
  card : p.sd.card = true
  buffer : p.sd.buffer = b
  ponteiro : p.ponteiroLeituraSetor = 0
  crc : p.server.arquivoCrc32 = crc32Calculate b.toList
  fixed : prologo p.server = p.server

/-- What the buffer holds once sector `n` has been asked for. -/
def lido (n : UInt16) (leu : Bool) (m : Placa) : Setor :=
  if leu then m.pico.cartao n else m.pico.sd.buffer

theorem getSdcardInstance_card (sd : SectorDef) : (getSdcardInstance sd).card = true := by
  rw [getSdcardInstance]
  split
  next h => exact h
  next => rfl

theorem getSdcardInstance_buffer (sd : SectorDef) : (getSdcardInstance sd).buffer = sd.buffer := by
  rw [getSdcardInstance]
  split <;> rfl

theorem getSdcardInstance_of_card {sd : SectorDef} (h : sd.card = true) : getSdcardInstance sd = sd := by
  rw [getSdcardInstance, if_pos h]

theorem sector_shifted (sector : UInt16) : (sector.toUInt32 <<< 8).toUInt8 = 0 := by
  apply UInt8.toBitVec_inj.mp
  apply BitVec.eq_of_getLsbD_eq
  intro i hi
  simp only [UInt32.toBitVec_toUInt8, UInt32.toBitVec_shiftLeft]
  interval_cases i <;> simp

theorem sector_low (sector : UInt16) : (sector &&& 0xFF).toUInt8.toUInt16 = sector &&& 0xFF := by
  apply UInt16.toBitVec_inj.mp
  apply BitVec.eq_of_getLsbD_eq
  intro i hi
  simp only [UInt8.toBitVec_toUInt16, UInt16.toBitVec_toUInt8, UInt16.toBitVec_and]
  interval_cases i <;> simp

theorem prologo_crc (s : Server) (c : UInt32) :
    prologo { s with arquivoCrc32 := c } = { prologo s with arquivoCrc32 := c } := by
  rw [prologo_eq, prologo_eq]

theorem pede_setor (sector : UInt16) (leu : Bool) (m : Placa) : ∃ p₁ p₂ p₃,
    escreveRegistro 0x0A (sector &&& 0xFF).toUInt8 leu m = some ((), { m with pico := p₁ }) ∧
    escreveRegistro 0x0B (sector.toUInt32 <<< 8).toUInt8 leu { m with pico := p₁ } =
      some ((), { m with pico := p₂ }) ∧
    escreveRegistro 0x0C 0xA5 leu { m with pico := p₂ } = some ((), { m with pico := p₃ }) ∧
    Carregado (lido (sector &&& 0xFF) leu m) p₃ := by
  refine ⟨_, _, _, escreveRegistro_eq _ leu m rfl, escreveRegistro_eq _ leu _ rfl,
    escreveRegistro_eq _ leu _ rfl, ?_⟩
  have hcard := getSdcardInstance_card m.pico.sd
  have hbuffer := getSdcardInstance_buffer m.pico.sd
  have hlow := sector_low sector
  rw [sector_shifted]
  generalize (sector &&& 0xFF).toUInt8 = low at hlow ⊢
  cases leu with
  | false =>
      constructor <;>
        simp [registro, lerSetor, Placa.aposPrologo, getSdcardInstance_of_card, hcard, hbuffer, lido,
          prologo_crc, prologo_prologo]
  | true =>
      constructor <;>
        simp [registro, lerSetor, Placa.aposPrologo, getSdcardInstance_of_card, hcard, lido, hlow,
          prologo_crc, prologo_prologo]

end Writes

section Transfer

variable {b : Setor} {p : Pico}

def noPonto (p : Pico) (k : Nat) : Pico := { p with ponteiroLeituraSetor := UInt16.ofNat k }

theorem leRegistro_setor (h : Carregado b p) {k : Nat} (hk : k < 512) (m : Placa) (hm : m.pico = noPonto p k) :
    leRegistro 0x0D m = some (b.toList.getD k 0, { m with pico := noPonto p (k + 1) }) := by
  have hk16 : (UInt16.ofNat k).toNat = k := UInt16.toNat_ofNat_of_lt' (Nat.lt_of_lt_of_le hk (by decide))
  have hstep : gerenciarBarramento (pacote false 0x0D 0) false (noPonto p k) =
      (.setor (UInt16.ofNat k), noPonto p (k + 1)) := by
    rw [gerenciarBarramento, reg_pacote false 0 rfl, dado_pacote]
    simp [registro, noPonto, h.fixed, getSdcardInstance_of_card h.card, UInt16.ofNat_add]
  rw [leRegistro, hm, hstep]
  simp [Pico.carrega, noPonto, hk16, h.buffer, hk]

theorem recebe_setor (h : Carregado b p) (destino : Nat) (m : Placa) (hm : m.pico = p) :
    leBytes 0x0D destino 0 512 m = some ((), { m with
      pico := noPonto p 512, ram := gravado m.ram destino 0 512 fun k => b.toList.getD k 0 }) := by
  have hstart : noPonto p 0 = p := by
    cases p
    simpa [noPonto] using h.ponteiro.symm
  exact leBytes_eq destino (fun k hk m hm => leRegistro_setor h hk m hm) 512 m (Nat.le_refl _)
    (hm.trans hstart.symm)

theorem bytes_setor {m : Placa} {ram : Nat → UInt8} {destino : Nat}
    (hm : m.ram = gravado ram destino 0 512 fun k => b.toList.getD k 0) :
    m.bytes destino 512 = b.toList := by
  have hbytes := bytes_gravado hm (a := 0) (k := 512) (Nat.le_refl _)
  rw [Nat.add_zero] at hbytes
  rw [hbytes]
  apply List.ext_getElem
  · simp
  · intro i hi hb
    simp only [List.getElem_map, List.getElem_range, Nat.zero_add]
    rw [List.getD_eq_getElem?_getD, List.getElem?_eq_getElem hb, Option.getD_some]

end Transfer

theorem receberSetor_eq (destino : Nat) (sector : UInt16) (leu : Bool) (m : Placa) :
    ∃ m', receberSetorDoPico destino sector leu m = some (true, m') ∧
      m'.bytes destino 512 = (lido (sector &&& 0xFF) leu m).toList := by
  obtain ⟨p₁, p₂, p₃, h₁, h₂, h₃, hc⟩ := pede_setor sector leu m
  have h₄ := recebe_setor hc destino { m with pico := p₃ } rfl
  obtain ⟨p₅, h₅⟩ := getCrc_eq { m with
    pico := noPonto p₃ 512
    ram := gravado m.ram destino 0 512 fun k => (lido (sector &&& 0xFF) leu m).toList.getD k 0 }
  have hbytes := bytes_setor (b := lido (sector &&& 0xFF) leu m) (m := { m with
    pico := p₅
    ram := gravado m.ram destino 0 512 fun k => (lido (sector &&& 0xFF) leu m).toList.getD k 0 }) rfl
  refine ⟨_, ?_, hbytes⟩
  rw [receberSetorDoPico, bind_eq h₁, bind_eq h₂, bind_eq h₃, bind_eq h₄, bind_eq h₅, bind_eq (get_eq _),
    hbytes, crc32CalculateBios_eq]
  have hcrc : (noPonto p₃ 512).server.arquivoCrc32 = _ := hc.crc
  rw [hcrc, beq_self_eq_true]
  rfl

def SetorCerto (destino : Nat) (sector : UInt16) (leu : Bool) (m : Placa) : Prop :=
  ∀ m', receberSetorDoPico destino sector leu m = some (true, m') →
    m'.bytes destino 512 = (m.pico.cartao sector).toList

/-- A successful read delivers the right sector exactly when the low byte of its number is enough
to find it, and a failed one when the buffer holds it by chance. -/
theorem sector_read_iff (destino : Nat) (sector : UInt16) (leu : Bool) (m : Placa) :
    SetorCerto destino sector leu m ↔
      if leu then m.pico.cartao (sector &&& 0xFF) = m.pico.cartao sector
      else m.pico.sd.buffer = m.pico.cartao sector := by
  obtain ⟨m', hm', hbytes⟩ := receberSetor_eq destino sector leu m
  have hsame : SetorCerto destino sector leu m ↔
      lido (sector &&& 0xFF) leu m = m.pico.cartao sector := by
    rw [← Vector.toList_inj, ← hbytes]
    constructor
    · intro h
      exact h m' hm'
    · intro h m'' hm''
      cases hm'.symm.trans hm''
      exact h
  rw [hsame]
  cases leu <;> rfl

/-- Sector 256 is asked for, and sector 0 arrives. -/
theorem high_sector_misread :
    ¬ ∀ (destino : Nat) (sector : UInt16) (leu : Bool) (m : Placa), SetorCerto destino sector leu m := by
  intro h
  let m : Placa := ⟨PicoBus.inicial fun n => Vector.replicate 512 (n >>> 8).toUInt8, fun _ => 0, fun _ => .none⟩
  obtain ⟨m', hm', hbytes⟩ := receberSetor_eq 0 256 true m
  have hright := h 0 256 true m m' hm'
  rw [hbytes, Vector.toList_inj] at hright
  have hfirst := congrArg (fun b : Setor => b[0]) hright
  simp only [lido, m, PicoBus.inicial, if_true, Vector.getElem_replicate] at hfirst
  exact absurd hfirst (by decide)

end Orion68.SectorRead
