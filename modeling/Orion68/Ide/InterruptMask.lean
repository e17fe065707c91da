import Orion68.Bios.Interrupts
import Orion68.Ide.Ata
import Orion68.Lib.Interactions

namespace Orion68.AtaInterruptMask

open Ata (ATA_CMD_READ_SECTORS ATA_CMD_WRITE_SECTORS ATA_CMD_SET_FEATURE ATA_ST_BUSY ATA_ST_DATA_READY ATA_ST_ERROR)
open Interrupts (mascara mascara_disable mascara_enable m68kDisableAllInterrupts m68kEnableAllInterrupts)
open Interactions

section Code

inductive Registro
  | data
  | dataByte
  | feature
  | error
  | sectorCount
  | sectorNum
  | cylLow
  | cylHigh
  | driveHead
  | status
  | command

/-- What the driver does to the device, and to the status register of the processor. -/
inductive Acao
  | le (r : Registro)
  | escreve (r : Registro) (v : UInt8)
  | lock
  | unlock

/-- A register of eight bits is the low byte of what is read. -/
abbrev Resposta : Acao → Type
  | .le _ => UInt16
  | _ => Unit

abbrev Programa := Prog Acao Resposta

def le (r : Registro) : Programa UInt16 := query (Acao.le r)

def escreve (r : Registro) (v : UInt8) : Programa Unit := query (Acao.escreve r v)

/-- `ATA_WAIT`, given up after `n` rounds. -/
def ataWait : ℕ → Programa Unit
  | 0 => .stuck
  | n + 1 => le .status >>= fun st => if st.toUInt8 &&& ATA_ST_BUSY ≠ 0 then ataWait n else pure ()

/-- `ATA_WAIT_FOR_DATA` -/
def ataWaitForData : ℕ → Programa Unit
  | 0 => .stuck
  | n + 1 => le .status >>= fun st => if st.toUInt8 &&& ATA_ST_DATA_READY = 0 then ataWaitForData n else pure ()

/-- The two modes; any other value of `ide_bus_mode` leaves the device as it is. -/
def go8bitsMode (n : ℕ) (mode : UInt8) : Programa Unit :=
  let pede (feature : UInt8) : Programa Unit := do
    escreve .feature feature
    escreve .command ATA_CMD_SET_FEATURE
    ataWait n
  if mode = 0 then pede 0x01 else if mode = 1 then pede 0x81 else pure ()

def sectorRegisters (sector : UInt32) (command : UInt8) : Programa Unit := do
  escreve .cylHigh (sector >>> 16).toUInt8
  escreve .cylLow (sector >>> 8).toUInt8
  escreve .sectorNum sector.toUInt8
  escreve .sectorCount 1
  escreve .command command

/-- The loop over bytes, at index `i` with `k` more to read. -/
def readBytes (n : ℕ) : ℕ → ℕ → (ℕ → UInt8) → Programa (ℕ → UInt8)
  | 0, _, buffer => pure buffer
  | k + 1, i, buffer => do
      let b ← le .dataByte
      ataWait n
      readBytes n k (i + 1) (Function.update buffer i b.toUInt8)

/-- The loop over words; each is rotated where it has been stored. -/
def readWords (n : ℕ) : ℕ → ℕ → (ℕ → UInt8) → Programa (ℕ → UInt8)
  | 0, _, buffer => pure buffer
  | k + 1, i, buffer => do
      let w ← le .data
      ataWait n
      readWords n k (i + 1)
        (Function.update (Function.update buffer (2 * i) w.toUInt8) (2 * i + 1) (w >>> 8).toUInt8)

def readTransfer (n : ℕ) (mode : UInt8) (sector : UInt32) (buffer : ℕ → UInt8) : Programa (ℕ × (ℕ → UInt8)) := do
  escreve .driveHead 0xE0
  go8bitsMode n mode
  sectorRegisters sector ATA_CMD_READ_SECTORS
  ataWait n
  let status ← le .status
  if status.toUInt8 &&& 0x01 ≠ 0 then
    let _ ← le .error
    return (0, buffer)
  else
    ataWait n
    ataWaitForData n
    let buffer ← if mode = 0 then readBytes n 512 0 buffer else readWords n 256 0 buffer
    return (512, buffer)

def writeBytes (n : ℕ) (buffer : ℕ → UInt8) : ℕ → ℕ → Programa Unit
  | 0, _ => pure ()
  | k + 1, i => do
      ataWait n
      escreve .dataByte (buffer i)
      writeBytes n buffer k (i + 1)

def writeTransfer (n : ℕ) (mode : UInt8) (sector : UInt32) (buffer : ℕ → UInt8) : Programa ℕ := do
  go8bitsMode n mode
  escreve .driveHead 0xE0
  sectorRegisters sector ATA_CMD_WRITE_SECTORS
  ataWait n
  let status ← le .status
  if status.toUInt8 &&& 0x01 ≠ 0 then
    let _ ← le .error
    return 0
  else
    ataWait n
    ataWaitForData n
    writeBytes n buffer 512 0
    ataWait n
    let status ← le .status
    if status.toUInt8 &&& ATA_ST_ERROR ≠ 0 then
      let _ ← le .error
      return 512
    else return 512

/-- `LOCK`, a transfer, and `UNLOCK`, which stands in front of each `return` and does not look at the status
register that `LOCK` has saved. -/
def protegido {α : Type} (p : Programa α) : Programa α := do
  query Acao.lock
  let r ← p
  query Acao.unlock
  return r

/-- All waiting loops are given up after `n` rounds. -/
def ataReadSector (n : ℕ) (mode : UInt8) (sector : UInt32) (buffer : ℕ → UInt8) : Programa (ℕ × (ℕ → UInt8)) :=
  protegido (readTransfer n mode sector buffer)

def ataWriteSector (n : ℕ) (mode : UInt8) (sector : UInt32) (buffer : ℕ → UInt8) : Programa ℕ :=
  protegido (writeTransfer n mode sector buffer)

end Code

section Eventos

abbrev Evento := Σ q, Resposta q

def srDepois (sr : UInt16) (e : Evento) : UInt16 :=
  match e.1 with
  | .lock => m68kDisableAllInterrupts sr
  | .unlock => m68kEnableAllInterrupts sr
  | _ => sr

/-- The status register after what a call has done so far. -/
def srApos (sr : UInt16) (es : List Evento) : UInt16 := es.foldl srDepois sr

/-- The call keeps the mask: it is never lower than at entry while the call goes on, and is that at
entry again when it returns. -/
structure Conserva {α : Type} (p : Programa α) (sr : UInt16) : Prop where
  durante : ∀ es r, Runs p es r → ∀ pre e post, es = pre ++ e :: post → mascara sr ≤ mascara (srApos sr pre)
  naVolta : ∀ es a, Runs p es (some a) → mascara (srApos sr es) = mascara sr

def DoDisco (e : Evento) : Prop := e.1 ≠ .lock ∧ e.1 ≠ .unlock

theorem mascara_le_disable (sr : UInt16) : mascara sr ≤ mascara (m68kDisableAllInterrupts sr) := by
  rw [mascara_disable]
  exact UInt16.left_le_or

theorem srDepois_of_doDisco {e : Evento} (h : DoDisco e) (sr : UInt16) : srDepois sr e = sr := by
  obtain ⟨q, a⟩ := e
  cases q with
  | le | escreve => rfl
  | lock => exact absurd rfl h.1
  | unlock => exact absurd rfl h.2

theorem srApos_of_doDisco {es : List Evento} (h : ∀ e ∈ es, DoDisco e) (sr : UInt16) : srApos sr es = sr := by
  induction es with
  | nil => rfl
  | cons e es ih =>
      obtain ⟨he, hes⟩ := List.forall_mem_cons.mp h
      rw [srApos, List.foldl_cons, srDepois_of_doDisco he]
      exact ih hes

end Eventos

section Protegido

variable {α : Type} {p : Programa α} {es : List Evento} {r : Option α}

theorem runs_protegido (h : Runs (protegido p) es r) :
    es = [] ∧ r = none ∨ (∃ es₁ r₁, es = ⟨.lock, ()⟩ :: es₁ ∧ r = none ∧ Runs p es₁ r₁) ∨
      ∃ es₁ a, es = ⟨.lock, ()⟩ :: (es₁ ++ [⟨.unlock, ()⟩]) ∧ Runs p es₁ (some a) := by
  rcases runs_ask_iff.mp h with ⟨hes, hr⟩ | ⟨⟨⟩, es', rfl, h'⟩
  · exact .inl ⟨hes, hr⟩
  · have hp : Runs (p >>= fun a => query Acao.unlock >>= fun _ => pure a) es' r := h'
    rcases runs_bind_iff.mp hp with ⟨hr, h₁⟩ | ⟨a, es₁, es₂, rfl, h₁, h₂⟩
    · exact .inr (.inl ⟨es', none, rfl, hr, h₁⟩)
    · rcases runs_ask_iff.mp h₂ with ⟨rfl, hr⟩ | ⟨⟨⟩, es₃, rfl, h₃⟩
      · exact .inr (.inl ⟨es₁ ++ [], some a, rfl, hr, by rwa [List.append_nil]⟩)
      · obtain ⟨rfl, -⟩ := runs_done_iff.mp h₃
        exact .inr (.inr ⟨es₁, a, rfl, h₁⟩)

theorem durante_protegido (hp : Asks DoDisco p) (h : Runs (protegido p) es r) (sr : UInt16) {pre post : List Evento}
    {e : Evento} (hes : es = pre ++ e :: post) : mascara sr ≤ mascara (srApos sr pre) := by
  have hlock : ∀ es₁ r₁, Runs p es₁ r₁ → ∀ pre' ⊆ es₁, mascara sr ≤ mascara (srApos sr (⟨.lock, ()⟩ :: pre')) := by
    intro es₁ r₁ h₁ pre' hsub
    have hpre : srApos (m68kDisableAllInterrupts sr) pre' = m68kDisableAllInterrupts sr :=
      srApos_of_doDisco (fun e he => hp es₁ r₁ h₁ e (hsub he)) _
    exact (mascara_le_disable sr).trans_eq (congrArg mascara hpre.symm)
  cases pre with
  | nil => exact UInt16.le_refl _
  | cons e₁ pre' =>
      rcases runs_protegido h with ⟨rfl, -⟩ | ⟨es₁, r₁, rfl, -, h₁⟩ | ⟨es₁, a, rfl, h₁⟩
      · cases hes
      · obtain ⟨rfl, rfl⟩ := List.cons.inj hes
        exact hlock _ r₁ h₁ pre' (List.subset_append_left _ _)
      · obtain ⟨rfl, htail⟩ : _ ∧ es₁ ++ [⟨.unlock, ()⟩] = pre' ++ e :: post := List.cons.inj hes
        obtain ⟨k, hk⟩ : pre' <+: es₁ := by
          refine List.prefix_of_prefix_length_le ⟨e :: post, htail.symm⟩ ⟨_, rfl⟩ ?_
          have hlen := congrArg List.length htail
          simp only [List.length_append, List.length_cons, List.length_nil] at hlen
          omega
        exact hlock es₁ _ h₁ pre' (hk ▸ List.subset_append_left _ _)

theorem naVolta_protegido {a : α} (h : Runs (protegido p) es (some a)) (sr : UInt16) : mascara (srApos sr es) = 0 := by
  rcases runs_protegido h with ⟨-, hr⟩ | ⟨-, -, -, hr, -⟩ | ⟨es₁, a, rfl, -⟩
  · cases hr
  · cases hr
  · rw [srApos, List.foldl_cons, List.foldl_append]
    exact mascara_enable _

theorem conserva_protegido (hp : Asks DoDisco p) {sr : UInt16} (hsr : mascara sr = 0) : Conserva (protegido p) sr where
  durante _ _ h _ _ _ hes := durante_protegido hp h sr hes
  naVolta _ _ h := (naVolta_protegido h sr).trans hsr.symm

theorem mascara_of_conserva {a : α} {sr : UInt16} (h : Conserva (protegido p) sr) (hes : Runs (protegido p) es (some a)) :
    mascara sr = 0 := by
  rw [← h.naVolta es a hes]
  exact naVolta_protegido hes sr

end Protegido

section Transferencias

theorem asks_le (r : Registro) : Asks DoDisco (le r) := asks_ask (fun _ => ⟨nofun, nofun⟩) asks_done

theorem asks_escreve (r : Registro) (v : UInt8) : Asks DoDisco (escreve r v) :=
  asks_ask (fun _ => ⟨nofun, nofun⟩) asks_done

theorem asks_ataWait (n : ℕ) : Asks DoDisco (ataWait n) := by
  induction n with
  | zero => exact asks_stuck
  | succ n ih =>
      refine (asks_le _).bind fun st => ?_
      split
      · exact ih
      · exact asks_done _

theorem asks_ataWaitForData (n : ℕ) : Asks DoDisco (ataWaitForData n) := by
  induction n with
  | zero => exact asks_stuck
  | succ n ih =>
      refine (asks_le _).bind fun st => ?_
      split
      · exact ih
      · exact asks_done _

theorem asks_go8bitsMode (n : ℕ) (mode : UInt8) : Asks DoDisco (go8bitsMode n mode) := by
  have hpede : ∀ feature, Asks DoDisco (do escreve .feature feature; escreve .command ATA_CMD_SET_FEATURE; ataWait n) :=
    fun feature => (asks_escreve _ _).bind fun _ => (asks_escreve _ _).bind fun _ => asks_ataWait n
  unfold go8bitsMode
  split
  · exact hpede 0x01
  · split
    · exact hpede 0x81
    · exact asks_done _

theorem asks_sectorRegisters (sector : UInt32) (command : UInt8) : Asks DoDisco (sectorRegisters sector command) :=
  (asks_escreve _ _).bind fun _ => (asks_escreve _ _).bind fun _ => (asks_escreve _ _).bind fun _ =>
    (asks_escreve _ _).bind fun _ => asks_escreve _ _

theorem asks_readBytes (n k i : ℕ) (buffer : ℕ → UInt8) : Asks DoDisco (readBytes n k i buffer) := by
  induction k generalizing i buffer with
  | zero => exact asks_done _
  | succ k ih => exact (asks_le _).bind fun b => (asks_ataWait n).bind fun _ => ih _ _

theorem asks_readWords (n k i : ℕ) (buffer : ℕ → UInt8) : Asks DoDisco (readWords n k i buffer) := by
  induction k generalizing i buffer with
  | zero => exact asks_done _
  | succ k ih => exact (asks_le _).bind fun w => (asks_ataWait n).bind fun _ => ih _ _

theorem asks_writeBytes (n : ℕ) (buffer : ℕ → UInt8) (k i : ℕ) : Asks DoDisco (writeBytes n buffer k i) := by
  induction k generalizing i with
  | zero => exact asks_done _
  | succ k ih => exact (asks_ataWait n).bind fun _ => (asks_escreve _ _).bind fun _ => ih _

theorem asks_readTransfer (n : ℕ) (mode : UInt8) (sector : UInt32) (buffer : ℕ → UInt8) :
    Asks DoDisco (readTransfer n mode sector buffer) := by
  refine (asks_escreve _ _).bind fun _ => (asks_go8bitsMode n mode).bind fun _ =>
    (asks_sectorRegisters sector _).bind fun _ => (asks_ataWait n).bind fun _ => (asks_le _).bind fun status => ?_
  split
  · exact (asks_le _).bind fun _ => asks_done _
  · refine (asks_ataWait n).bind fun _ => (asks_ataWaitForData n).bind fun _ => ?_
    split
    · exact (asks_readBytes n _ _ _).bind fun _ => asks_done _
    · exact (asks_readWords n _ _ _).bind fun _ => asks_done _

theorem asks_writeTransfer (n : ℕ) (mode : UInt8) (sector : UInt32) (buffer : ℕ → UInt8) :
    Asks DoDisco (writeTransfer n mode sector buffer) := by
  refine (asks_go8bitsMode n mode).bind fun _ => (asks_escreve _ _).bind fun _ =>
    (asks_sectorRegisters sector _).bind fun _ => (asks_ataWait n).bind fun _ => (asks_le _).bind fun status => ?_
  split
  · exact (asks_le _).bind fun _ => asks_done _
  · refine (asks_ataWait n).bind fun _ => (asks_ataWaitForData n).bind fun _ =>
      (asks_writeBytes n buffer _ _).bind fun _ => (asks_ataWait n).bind fun _ => (asks_le _).bind fun status => ?_
    split
    · exact (asks_le _).bind fun _ => asks_done _
    · exact asks_done _

/-- A device that answers every reading with the bit of the error. -/
def comErro : (q : Acao) → Unit → Resposta q × Unit
  | .le _, s => (1, s)
  | .escreve _ _, s => ((), s)
  | .lock, s => ((), s)
  | .unlock, s => ((), s)

theorem exec_le (r : Registro) (s : Unit) : exec comErro (le r) s = some (1, s) := rfl

theorem exec_escreve (r : Registro) (v : UInt8) (s : Unit) : exec comErro (escreve r v) s = some ((), s) := rfl

theorem exec_ataWait (s : Unit) : exec comErro (ataWait 1) s = some ((), s) := by
  have hbusy : ¬(1 : UInt16).toUInt8 &&& ATA_ST_BUSY ≠ 0 := by decide
  rw [ataWait, exec_bind, exec_le, Option.bind_some, if_neg hbusy]
  rfl

theorem exec_go8bitsMode (mode : UInt8) (s : Unit) : exec comErro (go8bitsMode 1 mode) s = some ((), s) := by
  unfold go8bitsMode
  split
  · simp only [exec_bind, exec_escreve, exec_ataWait, Option.bind_some]
  · split
    · simp only [exec_bind, exec_escreve, exec_ataWait, Option.bind_some]
    · rfl

theorem exec_sectorRegisters (sector : UInt32) (command : UInt8) (s : Unit) :
    exec comErro (sectorRegisters sector command) s = some ((), s) := rfl

theorem error_bit : (1 : UInt16).toUInt8 &&& 0x01 ≠ 0 := by decide

theorem exec_readTransfer (mode : UInt8) (sector : UInt32) (buffer : ℕ → UInt8) (s : Unit) :
    exec comErro (readTransfer 1 mode sector buffer) s = some ((0, buffer), s) := by
  simp only [readTransfer, exec_bind, exec_escreve, exec_go8bitsMode, exec_sectorRegisters, exec_ataWait, exec_le,
    Option.bind_some, if_pos error_bit]
  rfl

theorem exec_writeTransfer (mode : UInt8) (sector : UInt32) (buffer : ℕ → UInt8) (s : Unit) :
    exec comErro (writeTransfer 1 mode sector buffer) s = some (0, s) := by
  simp only [writeTransfer, exec_bind, exec_escreve, exec_go8bitsMode, exec_sectorRegisters, exec_ataWait, exec_le,
    Option.bind_some, if_pos error_bit]
  rfl

theorem protegido_returns {α : Type} {p : Programa α} {a : α} (h : exec comErro p () = some (a, ())) :
    ∃ es, Runs (protegido p) es (some a) := by
  have hexec : exec comErro (protegido p) () = some (a, ()) := by
    rw [protegido, exec_bind]
    change exec comErro (p >>= _) () = _
    rw [exec_bind, h]
    rfl
  exact runs_of_exec hexec

end Transferencias

/-- The two calls keep the mask exactly when they are entered with all interrupts enabled. -/
theorem interrupt_mask_iff (mode : UInt8) (sector : UInt32) (buffer : ℕ → UInt8) (sr : UInt16) :
    ((∀ n, Conserva (ataReadSector n mode sector buffer) sr) ↔ mascara sr = 0) ∧
      ((∀ n, Conserva (ataWriteSector n mode sector buffer) sr) ↔ mascara sr = 0) := by
  refine ⟨⟨fun h => ?_, fun h n => conserva_protegido (asks_readTransfer n mode sector buffer) h⟩,
    ⟨fun h => ?_, fun h n => conserva_protegido (asks_writeTransfer n mode sector buffer) h⟩⟩
  · obtain ⟨es, hes⟩ := protegido_returns (exec_readTransfer mode sector buffer ())
    exact mascara_of_conserva (h 1) hes
  · obtain ⟨es, hes⟩ := protegido_returns (exec_writeTransfer mode sector buffer ())
    exact mascara_of_conserva (h 1) hes

/-- In `Int2Handler`, at level 7. -/
theorem handler_enabled : mascara 0x2700 = 7 ∧
    (∃ es, Runs (ataWriteSector 1 0 2048 fun _ => 0) es (some 0) ∧ mascara (srApos 0x2700 es) = 0) ∧
    ¬Conserva (ataWriteSector 1 0 2048 fun _ => 0) 0x2700 := by
  obtain ⟨es, hes⟩ := protegido_returns (exec_writeTransfer 0 2048 (fun _ => 0) ())
  have hmask : mascara 0x2700 ≠ 0 := by decide
  exact ⟨rfl, ⟨es, hes, naVolta_protegido hes _⟩, fun h => hmask (mascara_of_conserva h hes)⟩

end Orion68.AtaInterruptMask
