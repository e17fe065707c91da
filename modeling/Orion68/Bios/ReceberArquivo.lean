import Orion68.Bios.PicoW
import Orion68.Lib.Interactions
import Orion68.Lib.Memory

namespace Orion68.ReceberArquivo

open Interactions Memory
open PicoCrc32 (crc32)
open PicoW (crc32CalculateBios crc32CalculateBios_eq)

section Code

inductive Registro
  | data
  | status
  | sizeHigh
  | sizeLow
  | crc3
  | crc2
  | crc1
  | crc0
  deriving DecidableEq

abbrev Programa := Prog Registro fun _ => UInt8

def PICO_STATE_IDLE : UInt8 := 0x00

/-- What a call returns, the memory it leaves, and what it has called `crc32_calculate` with. -/
structure Retorno where
  ok : Bool
  ram : Ram
  crc : Option (UInt32 × UInt32)

def bytes (ram : Ram) (a : UInt32) (n : ℕ) : List UInt8 := (List.range n).map fun k => ram (a + UInt32.ofNat k)

/-- The loop of the data, given up after `n` rounds. -/
def leDados (destinoRam : UInt32) (tamanhoArquivo : UInt16) : ℕ → UInt16 → Ram → Programa Ram
  | 0, _, _ => .stuck
  | n + 1, i, ram =>
      if i < tamanhoArquivo then do
        let b ← query Registro.data
        leDados destinoRam tamanhoArquivo n (i + 1) (write (destinoRam + i.toUInt32) [b] ram)
      else pure ram

def arqCrcRec (crc3 crc2 crc1 crc0 : UInt8) : UInt32 :=
  crc3.toUInt32 <<< 24 ||| (crc2.toUInt32 <<< 16 &&& (0x00FF0000 : UInt32)) |||
    (crc1.toUInt32 <<< 8 &&& (0x0000FF00 : UInt32)) ||| (crc0.toUInt32 &&& (0xFF : UInt32))

def tamanhoArquivo (tamanhoHigh tamanhoLow : UInt8) : UInt16 := tamanhoHigh.toUInt16 <<< 8 ||| tamanhoLow.toUInt16

/-- What `crc32_calculate` finds, and the result. -/
def confere (destinoRam : UInt32) (tamanho : UInt16) (ram : Ram) (arqCrcRec : UInt32) : Retorno :=
  let length := tamanho.toUInt32 - 4
  let arqCrc := crc32CalculateBios (bytes ram (destinoRam + 4) length.toNat)
  ⟨arqCrcRec == arqCrc, ram, some (destinoRam + 4, length)⟩

/-- From the size to the end. A 16-bit counter does not go more than 65536 rounds. -/
def noblkReceberArquivoDoPico (destinoRam : UInt32) (ram : Ram) : Programa Retorno := do
  let _ ← query Registro.sizeHigh
  let tamanhoHigh ← query Registro.sizeHigh
  let _ ← query Registro.sizeLow
  let tamanhoLow ← query Registro.sizeLow
  let tamanho := tamanhoArquivo tamanhoHigh tamanhoLow
  if tamanho = 0 then return ⟨false, ram, none⟩
  else
    let ram ← leDados destinoRam tamanho 65536 0 ram
    let crc3 ← query Registro.crc3
    let crc2 ← query Registro.crc2
    let crc1 ← query Registro.crc1
    let crc0 ← query Registro.crc0
    return confere destinoRam tamanho ram (arqCrcRec crc3 crc2 crc1 crc0)

/-- The polling, given up after `n` more readings. -/
def esperaStatus : ℕ → UInt8 → Programa UInt8
  | 0, status => if status = PICO_STATE_IDLE then .stuck else pure status
  | n + 1, status =>
      if status = PICO_STATE_IDLE then query Registro.status >>= esperaStatus n else pure status

def receberArquivoDoPico (n : ℕ) (destinoRam : UInt32) (ram : Ram) : Programa Retorno := do
  let status ← query Registro.status
  let status ← esperaStatus n status
  if status < 1 then return ⟨false, ram, none⟩ else noblkReceberArquivoDoPico destinoRam ram

end Code

section Traco

abbrev Leitura := Σ _ : Registro, UInt8

def ultimo (q : Registro) (es : List Leitura) : Option UInt8 := (es.reverse.find? fun e => e.1 = q).map (·.2)

def tamanho (es : List Leitura) : UInt16 := tamanhoArquivo ((ultimo .sizeHigh es).getD 0) ((ultimo .sizeLow es).getD 0)

def recebidos (es : List Leitura) : List UInt8 := (es.filter fun e => e.1 = .data).map (·.2)

def crcLido (es : List Leitura) : Option UInt32 := do
  let crc3 ← ultimo .crc3 es
  let crc2 ← ultimo .crc2 es
  let crc1 ← ultimo .crc1 es
  let crc0 ← ultimo .crc0 es
  return word32 crc3 crc2 crc1 crc0

/-- What is expected of a call that has made these readings. -/
structure Conforme (destinoRam : UInt32) (ram : Ram) (es : List Leitura) (r : Retorno) : Prop where
  completo : (recebidos es).length = (tamanho es).toNat
  gravado : r.ram = write destinoRam (recebidos es) ram
  crcSoDoRecebido : ∀ a n, r.crc = some (a, n) → (Span.mk a n.toNat).Within ⟨destinoRam, (tamanho es).toNat⟩
  ok_iff : r.ok = true ↔
    (crcLido es).map UInt32.toBitVec = some (crc32 (bytes r.ram (destinoRam + 4) ((tamanho es).toNat - 4)))

variable {es es₁ es₂ pre : List Leitura} {q : Registro}

theorem ultimo_append : ultimo q (es₁ ++ es₂) = (ultimo q es₂).or (ultimo q es₁) := by
  rw [ultimo, List.reverse_append, List.find?_append, Option.map_or]
  rfl

theorem ultimo_of_forall_ne (h : ∀ e ∈ es, e.1 ≠ q) : ultimo q es = none := by
  rw [ultimo, Option.map_eq_none_iff, List.find?_eq_none]
  intro e he
  simpa using h e (List.mem_reverse.mp he)

theorem ultimo_append_of_forall_ne (hpre : ∀ e ∈ pre, e.1 ≠ q) : ultimo q (pre ++ es) = ultimo q es := by
  rw [ultimo_append, ultimo_of_forall_ne hpre, Option.or_none]

/-- The readings of a call whose size is not 0. -/
def completa (h₀ hi l₀ lo : UInt8) (bs : List UInt8) (crc3 crc2 crc1 crc0 : UInt8) : List Leitura :=
  [⟨.sizeHigh, h₀⟩, ⟨.sizeHigh, hi⟩, ⟨.sizeLow, l₀⟩, ⟨.sizeLow, lo⟩] ++ bs.map (⟨.data, ·⟩) ++
    [⟨.crc3, crc3⟩, ⟨.crc2, crc2⟩, ⟨.crc1, crc1⟩, ⟨.crc0, crc0⟩]

variable {h₀ hi l₀ lo crc3 crc2 crc1 crc0 : UInt8} {bs : List UInt8}

theorem ultimo_dados (hq : q ≠ .data) : ultimo q (bs.map (⟨.data, ·⟩)) = none := by
  apply ultimo_of_forall_ne
  intro e he
  obtain ⟨b, -, rfl⟩ := List.mem_map.mp he
  exact hq.symm

theorem tamanho_completa : tamanho (completa h₀ hi l₀ lo bs crc3 crc2 crc1 crc0) = tamanhoArquivo hi lo := by
  have hhigh : ultimo .sizeHigh (completa h₀ hi l₀ lo bs crc3 crc2 crc1 crc0) = some hi := by
    rw [completa, ultimo_append, ultimo_append, ultimo_dados (by decide)]
    rfl
  have hlow : ultimo .sizeLow (completa h₀ hi l₀ lo bs crc3 crc2 crc1 crc0) = some lo := by
    rw [completa, ultimo_append, ultimo_append, ultimo_dados (by decide)]
    rfl
  rw [tamanho, hhigh, hlow]
  rfl

theorem recebidos_completa : recebidos (completa h₀ hi l₀ lo bs crc3 crc2 crc1 crc0) = bs := by
  have hall : (bs.map fun b => (⟨.data, b⟩ : Leitura)).filter (fun e => e.1 = .data) = bs.map (⟨.data, ·⟩) := by
    rw [List.filter_eq_self]
    intro e he
    obtain ⟨b, -, rfl⟩ := List.mem_map.mp he
    rfl
  have hsnd : (bs.map fun b => (⟨.data, b⟩ : Leitura)).map (·.2) = bs := by
    rw [List.map_map]
    exact List.map_id bs
  rw [recebidos, completa, List.filter_append, List.filter_append, hall, List.map_append, List.map_append, hsnd]
  exact List.append_nil bs

theorem crcLido_completa :
    crcLido (completa h₀ hi l₀ lo bs crc3 crc2 crc1 crc0) = some (word32 crc3 crc2 crc1 crc0) := by
  have hcrc : ∀ q b, ultimo q [⟨.crc3, crc3⟩, ⟨.crc2, crc2⟩, ⟨.crc1, crc1⟩, ⟨.crc0, crc0⟩] = some b →
      ultimo q (completa h₀ hi l₀ lo bs crc3 crc2 crc1 crc0) = some b := by
    intro q b h
    rw [completa, ultimo_append, h, Option.some_or]
  rw [crcLido, hcrc .crc3 crc3 rfl, hcrc .crc2 crc2 rfl, hcrc .crc1 crc1 rfl, hcrc .crc0 crc0 rfl]
  rfl

end Traco

theorem arqCrcRec_eq (crc3 crc2 crc1 crc0 : UInt8) : arqCrcRec crc3 crc2 crc1 crc0 = word32 crc3 crc2 crc1 crc0 := by
  apply UInt32.toBitVec_inj.mp
  apply BitVec.eq_of_getLsbD_eq
  intro i hi
  simp only [arqCrcRec, word32, UInt32.toBitVec_or, UInt32.toBitVec_and, UInt32.toBitVec_shiftLeft, UInt8.toBitVec_toUInt32]
  interval_cases i <;> simp

section Dados

variable {destinoRam : UInt32} {t i : UInt16} {n : ℕ} {ram ram' : Ram} {es : List Leitura}

theorem toUInt32_succ (h : i < t) : (i + 1).toUInt32 = i.toUInt32 + 1 := by
  apply UInt32.toNat_inj.mp
  have hi : i.toNat < t.toNat := h
  have := t.toNat_lt
  rw [UInt16.toNat_toUInt32, UInt16.toNat_add, UInt32.toNat_add, UInt16.toNat_toUInt32, UInt16.toNat_one, UInt32.toNat_one]
  omega

theorem leDados_ends (hn : t.toNat < i.toNat + n) (hi : i.toNat ≤ t.toNat) : Ends (leDados destinoRam t n i ram) := by
  induction n generalizing i ram with
  | zero => exact absurd hn (by omega)
  | succ n ih =>
      rw [leDados]
      split
      next hlt =>
        have hnat : i.toNat < t.toNat := hlt
        have hsucc : (i + 1).toNat = i.toNat + 1 := by
          have := t.toNat_lt
          rw [UInt16.toNat_add, UInt16.toNat_one]
          omega
        exact fun b => ih (by omega) (by omega)
      next => trivial

theorem runs_leDados (hi : i.toNat ≤ t.toNat) (h : Runs (leDados destinoRam t n i ram) es (some ram')) :
    ∃ bs : List UInt8, bs.length = t.toNat - i.toNat ∧ es = bs.map (⟨Registro.data, ·⟩) ∧
      ram' = write (destinoRam + i.toUInt32) bs ram := by
  induction n generalizing i ram es with
  | zero => cases h
  | succ n ih =>
      rw [leDados] at h
      split at h
      next hlt =>
        have hnat : i.toNat < t.toNat := hlt
        have ht := t.toNat_lt
        have hsucc : (i + 1).toNat = i.toNat + 1 := by
          rw [UInt16.toNat_add, UInt16.toNat_one]
          omega
        obtain ⟨b, es', rfl, h'⟩ := ended_query_bind_iff.mp h
        obtain ⟨bs, hlen, rfl, rfl⟩ := ih (by omega) h'
        refine ⟨b :: bs, by rw [List.length_cons]; omega, rfl, ?_⟩
        have happend := write_append (destinoRam + i.toUInt32) [b] bs ram (by rw [List.length_singleton]; omega)
          (by rw [List.length_singleton]; decide)
        rw [toUInt32_succ hlt, ← UInt32.add_assoc]
        exact happend
      next hge =>
        obtain ⟨rfl, rfl⟩ := ended_done_iff.mp h
        have hle : t.toNat ≤ i.toNat := UInt16.not_lt.mp hge
        exact ⟨[], by rw [List.length_nil]; omega, rfl, rfl⟩

end Dados

section Chamadas

variable {destinoRam : UInt32} {ram : Ram} {r : Retorno} {es : List Leitura} {n : ℕ}

theorem noblk_ends (destinoRam : UInt32) (ram : Ram) : Ends (noblkReceberArquivoDoPico destinoRam ram) := by
  intro _ h _ l
  change Ends (if tamanhoArquivo h l = 0 then _ else _)
  split
  next => trivial
  next =>
    have hlt := (tamanhoArquivo h l).toNat_lt
    apply Ends.bind (leDados_ends (by rw [UInt16.toNat_zero]; omega) (Nat.zero_le _))
    exact fun _ _ _ _ _ => trivial

/-- Everything that a call can do: it ends behind a size of 0, or stores as many bytes as the size
says and compares the CRC. -/
theorem runs_noblk (h : Runs (noblkReceberArquivoDoPico destinoRam ram) es (some r)) :
    ∃ h₀ hi l₀ lo, let t := tamanhoArquivo hi lo
      t = 0 ∧ es = [⟨.sizeHigh, h₀⟩, ⟨.sizeHigh, hi⟩, ⟨.sizeLow, l₀⟩, ⟨.sizeLow, lo⟩] ∧ r = ⟨false, ram, none⟩ ∨
        t ≠ 0 ∧ ∃ (bs : List UInt8) (crc3 crc2 crc1 crc0 : UInt8), bs.length = t.toNat ∧
          es = completa h₀ hi l₀ lo bs crc3 crc2 crc1 crc0 ∧
          r = confere destinoRam t (write destinoRam bs ram) (arqCrcRec crc3 crc2 crc1 crc0) := by
  obtain ⟨h₀, es₁, rfl, h₁⟩ := ended_query_bind_iff.mp h
  obtain ⟨hi, es₂, rfl, h₂⟩ := ended_query_bind_iff.mp h₁
  obtain ⟨l₀, es₃, rfl, h₃⟩ := ended_query_bind_iff.mp h₂
  obtain ⟨lo, es₄, rfl, h₄⟩ := ended_query_bind_iff.mp h₃
  refine ⟨h₀, hi, l₀, lo, ?_⟩
  dsimp only at h₄ ⊢
  split at h₄
  next hzero =>
    obtain ⟨rfl, rfl⟩ := ended_done_iff.mp h₄
    exact .inl ⟨hzero, rfl, rfl⟩
  next hne =>
    obtain ⟨ram', es₅, es₆, rfl, h₅, h₆⟩ := ended_bind_iff.mp h₄
    obtain ⟨bs, hlen, rfl, rfl⟩ := runs_leDados (Nat.zero_le _) h₅
    obtain ⟨crc3, es₇, rfl, h₇⟩ := ended_query_bind_iff.mp h₆
    obtain ⟨crc2, es₈, rfl, h₈⟩ := ended_query_bind_iff.mp h₇
    obtain ⟨crc1, es₉, rfl, h₉⟩ := ended_query_bind_iff.mp h₈
    obtain ⟨crc0, es₁₀, rfl, h₁₀⟩ := ended_query_bind_iff.mp h₉
    obtain ⟨rfl, rfl⟩ := ended_done_iff.mp h₁₀
    refine .inr ⟨hne, bs, crc3, crc2, crc1, crc0, hlen, ?_, ?_⟩
    · simp [completa]
    · rw [show (0 : UInt16).toUInt32 = 0 from rfl, UInt32.add_zero]

theorem toNat_sub_four {t : UInt16} (h : 4 ≤ t.toNat) : (t.toUInt32 - 4).toNat = t.toNat - 4 := by
  have ht := t.toNat_lt
  rw [UInt32.toNat_sub, UInt16.toNat_toUInt32]
  change (2 ^ 32 - 4 + t.toNat) % 2 ^ 32 = _
  omega

theorem toNat_sub_four_pos {t : UInt16} (h : t.toNat < 4) (hne : t ≠ 0) : 0 < (t.toUInt32 - 4).toNat := by
  have hpos : 0 < t.toNat := UInt16.pos_iff_ne_zero.mpr hne
  rw [UInt32.toNat_sub, UInt16.toNat_toUInt32]
  change 0 < (2 ^ 32 - 4 + t.toNat) % 2 ^ 32
  omega

theorem within_recebido {t : UInt16} (hne : t ≠ 0) : (Span.mk (destinoRam + 4) (t.toUInt32 - 4).toNat).Within
    ⟨destinoRam, t.toNat⟩ ↔ 4 ≤ t.toNat := by
  constructor
  · intro h
    by_contra hlt
    have hmem : destinoRam + 4 ∈ Span.mk destinoRam t.toNat := by
      apply h
      rw [Span.mem_iff, UInt32.sub_self]
      exact toNat_sub_four_pos (Nat.not_le.mp hlt) hne
    rw [Span.mem_iff, UInt32.add_comm, UInt32.add_sub_cancel] at hmem
    exact hlt (Nat.le_of_lt hmem)
  · intro h x hx
    rw [toNat_sub_four h] at hx
    change (x - (destinoRam + 4)).toNat < t.toNat - 4 at hx
    change (x - destinoRam).toNat < t.toNat
    rw [UInt32.toNat_sub, UInt32.toNat_add] at hx
    rw [UInt32.toNat_sub]
    change (2 ^ 32 - (destinoRam.toNat + 4) % 2 ^ 32 + x.toNat) % 2 ^ 32 < t.toNat - 4 at hx
    have := t.toNat_lt
    have := x.toNat_lt
    have := destinoRam.toNat_lt
    omega

theorem ok_iff_crc (c : UInt32) (l : List UInt8) :
    (c == crc32CalculateBios l) = true ↔ (some c).map UInt32.toBitVec = some (crc32 l) := by
  rw [beq_iff_eq, crc32CalculateBios_eq, Option.map_some, Option.some_inj, ← PicoCrc32.crc32Calculate_toBitVec,
    UInt32.toBitVec_inj]

theorem conforme_completa {h₀ hi l₀ lo crc3 crc2 crc1 crc0 : UInt8} {bs : List UInt8} (hne : tamanhoArquivo hi lo ≠ 0)
    (hlen : bs.length = (tamanhoArquivo hi lo).toNat) :
    Conforme destinoRam ram (completa h₀ hi l₀ lo bs crc3 crc2 crc1 crc0)
      (confere destinoRam (tamanhoArquivo hi lo) (write destinoRam bs ram) (arqCrcRec crc3 crc2 crc1 crc0)) ↔
        4 ≤ (tamanhoArquivo hi lo).toNat := by
  constructor
  · intro h
    have hwithin := h.crcSoDoRecebido _ _ rfl
    rw [tamanho_completa] at hwithin
    exact (within_recebido hne).mp hwithin
  · intro h
    refine ⟨by rw [recebidos_completa, tamanho_completa, hlen], by rw [recebidos_completa]; rfl, ?_, ?_⟩
    · intro a n he
      cases he
      rw [tamanho_completa]
      exact (within_recebido hne).mpr h
    · rw [crcLido_completa, tamanho_completa, ← arqCrcRec_eq, ← toNat_sub_four h]
      exact ok_iff_crc _ _

theorem conforme_noblk (h : Runs (noblkReceberArquivoDoPico destinoRam ram) es (some r)) :
    Conforme destinoRam ram es r ↔ tamanho es = 0 ∨ 4 ≤ (tamanho es).toNat := by
  obtain ⟨h₀, hi, l₀, lo, ⟨hzero, rfl, rfl⟩ | ⟨hne, bs, crc3, crc2, crc1, crc0, hlen, rfl, rfl⟩⟩ := runs_noblk h
  · have hsize : tamanho [⟨.sizeHigh, h₀⟩, ⟨.sizeHigh, hi⟩, ⟨.sizeLow, l₀⟩, ⟨.sizeLow, lo⟩] = 0 := hzero
    refine iff_of_true ⟨?_, rfl, nofun, ?_⟩ (.inl hsize)
    · rw [hsize]
      rfl
    · exact iff_of_false nofun nofun
  · rw [conforme_completa hne hlen, tamanho_completa, or_iff_right hne]

theorem runs_esperaStatus {status s : UInt8} (h : Runs (esperaStatus n status) es (some s)) :
    s ≠ PICO_STATE_IDLE ∧ ∀ e ∈ es, e.1 = .status := by
  induction n generalizing status es with
  | zero =>
      rw [esperaStatus] at h
      split at h
      next => cases h
      next hne =>
        obtain ⟨rfl, rfl⟩ := ended_done_iff.mp h
        exact ⟨hne, List.forall_mem_nil _⟩
  | succ n ih =>
      rw [esperaStatus] at h
      split at h
      next =>
        obtain ⟨b, es', rfl, h'⟩ := ended_query_bind_iff.mp h
        obtain ⟨hs, hall⟩ := ih h'
        exact ⟨hs, List.forall_mem_cons.mpr ⟨rfl, hall⟩⟩
      next hne =>
        obtain ⟨rfl, rfl⟩ := ended_done_iff.mp h
        exact ⟨hne, List.forall_mem_nil _⟩

theorem tamanho_append {pre : List Leitura} (hpre : ∀ e ∈ pre, e.1 = .status) : tamanho (pre ++ es) = tamanho es := by
  have hne : ∀ q, q ≠ .status → ∀ e ∈ pre, e.1 ≠ q := fun q hq e he heq => hq (heq.symm.trans (hpre e he))
  rw [tamanho, ultimo_append_of_forall_ne (hne _ (by decide)), ultimo_append_of_forall_ne (hne _ (by decide)), tamanho]

theorem conforme_append {pre : List Leitura} (hpre : ∀ e ∈ pre, e.1 = .status) :
    Conforme destinoRam ram (pre ++ es) r ↔ Conforme destinoRam ram es r := by
  have hne : ∀ q, q ≠ .status → ∀ e ∈ pre, e.1 ≠ q := fun q hq e he heq => hq (heq.symm.trans (hpre e he))
  have htamanho : tamanho (pre ++ es) = tamanho es := tamanho_append hpre
  have hcrc : crcLido (pre ++ es) = crcLido es := by
    rw [crcLido, ultimo_append_of_forall_ne (hne _ (by decide)), ultimo_append_of_forall_ne (hne _ (by decide)),
      ultimo_append_of_forall_ne (hne _ (by decide)), ultimo_append_of_forall_ne (hne _ (by decide)), crcLido]
  have hrecebidos : recebidos (pre ++ es) = recebidos es := by
    have hnone : pre.filter (fun e => e.1 = .data) = [] :=
      List.filter_eq_nil_iff.mpr fun e he => by simpa using hne .data (by decide) e he
    rw [recebidos, List.filter_append, hnone, List.nil_append, recebidos]
  constructor
  · rintro ⟨h₁, h₂, h₃, h₄⟩
    rw [htamanho, hrecebidos, hcrc] at *
    exact ⟨h₁, h₂, h₃, h₄⟩
  · rintro ⟨h₁, h₂, h₃, h₄⟩
    constructor
    · rwa [htamanho, hrecebidos]
    · rwa [hrecebidos]
    · rwa [htamanho]
    · rwa [htamanho, hcrc]

theorem runs_receber (h : Runs (receberArquivoDoPico n destinoRam ram) es (some r)) :
    ∃ pre es', es = pre ++ es' ∧ (∀ e ∈ pre, e.1 = .status) ∧ Runs (noblkReceberArquivoDoPico destinoRam ram) es' (some r) := by
  obtain ⟨s₀, es₁, rfl, h₁⟩ := ended_query_bind_iff.mp h
  obtain ⟨status, es₂, es₃, rfl, h₂, h₃⟩ := ended_bind_iff.mp h₁
  obtain ⟨hs, hall⟩ := runs_esperaStatus h₂
  have hge : ¬status < 1 := fun hlt => hs (UInt8.lt_one_iff.mp hlt)
  rw [if_neg hge] at h₃
  exact ⟨⟨.status, s₀⟩ :: es₂, es₃, rfl, List.forall_mem_cons.mpr ⟨rfl, hall⟩, h₃⟩

/-- Registers of which the `j`-th reading is answered with `resposta j`. -/
def fluxo (resposta : ℕ → UInt8) (_ : Registro) (j : ℕ) : UInt8 × ℕ := (resposta j, j + 1)

theorem exec_esperaStatus {resposta : ℕ → UInt8} {status : UInt8} {j : ℕ}
    (h : status ≠ PICO_STATE_IDLE ∨ ∃ k < n, resposta (j + k) ≠ PICO_STATE_IDLE) :
    ∃ s, exec (fluxo resposta) (esperaStatus n status) j = some s := by
  induction n generalizing status j with
  | zero =>
      have hs := h.resolve_right fun ⟨k, hk, _⟩ => Nat.not_lt_zero k hk
      rw [esperaStatus, if_neg hs]
      exact ⟨_, rfl⟩
  | succ n ih =>
      rw [esperaStatus]
      split
      next hidle =>
        obtain ⟨k, hk, hne⟩ := h.resolve_left (not_not_intro hidle)
        apply ih
        cases k with
        | zero => exact .inl hne
        | succ k =>
            refine .inr ⟨k, Nat.lt_of_succ_lt_succ hk, ?_⟩
            change resposta (j + 1 + k) ≠ _
            rwa [Nat.add_assoc, Nat.add_comm 1]
      next => exact ⟨_, rfl⟩

theorem receber_returns {resposta : ℕ → UInt8} (h : ∃ k ≤ n, resposta k ≠ PICO_STATE_IDLE) :
    ∃ r, exec (fluxo resposta) (receberArquivoDoPico n destinoRam ram) 0 = some r := by
  have hpoll : resposta 0 ≠ PICO_STATE_IDLE ∨ ∃ k < n, resposta (1 + k) ≠ PICO_STATE_IDLE := by
    obtain ⟨k, hk, hne⟩ := h
    cases k with
    | zero => exact .inl hne
    | succ k => exact .inr ⟨k, hk, by rwa [Nat.add_comm]⟩
  obtain ⟨⟨s, j⟩, hs⟩ := exec_esperaStatus hpoll
  change ∃ r, exec (fluxo resposta) (esperaStatus n (resposta 0) >>= _) 1 = some r
  rw [exec_bind, hs]
  dsimp only [Option.bind_some]
  split
  · exact ⟨_, rfl⟩
  · exact exec_of_ends (noblk_ends destinoRam ram) j

end Chamadas

/-- Both calls do what is expected of them exactly when the size is 0 or at least 4. -/
theorem recepcao_iff (n : ℕ) (destinoRam : UInt32) (ram : Ram) :
    (∀ resposta, (∃ k ≤ n, resposta k ≠ PICO_STATE_IDLE) →
      ∃ r, exec (fluxo resposta) (receberArquivoDoPico n destinoRam ram) 0 = some r) ∧
    Ends (noblkReceberArquivoDoPico destinoRam ram) ∧
    (∀ es r, Runs (receberArquivoDoPico n destinoRam ram) es (some r) →
      (Conforme destinoRam ram es r ↔ tamanho es = 0 ∨ 4 ≤ (tamanho es).toNat)) ∧
    ∀ es r, Runs (noblkReceberArquivoDoPico destinoRam ram) es (some r) →
      (Conforme destinoRam ram es r ↔ tamanho es = 0 ∨ 4 ≤ (tamanho es).toNat) := by
  refine ⟨fun resposta h => receber_returns h, noblk_ends destinoRam ram, fun es r h => ?_, fun es r h => conforme_noblk h⟩
  obtain ⟨pre, es', rfl, hpre, h'⟩ := runs_receber h
  rw [conforme_append hpre, tamanho_append hpre]
  exact conforme_noblk h'

/-- A file of one byte: the length for the CRC is 4294967293. -/
theorem one_byte_file : ∃ es r, Runs (noblkReceberArquivoDoPico 0x80000 fun _ => 0) es (some r) ∧
    tamanho es = 1 ∧ r.crc = some (0x80004, 4294967293) ∧ ¬Conforme 0x80000 (fun _ => 0) es r := by
  have hdados : Runs (leDados 0x80000 1 65536 0 fun _ => 0) [⟨.data, 0x55⟩]
      (some (write (0x80000 + (0 : UInt16).toUInt32) [0x55] fun _ => 0)) := by
    rw [leDados, if_pos (by decide)]
    refine .ask 0x55 ?_
    change Runs (leDados _ _ 65535 _ _) _ _
    rw [leDados, if_neg (by decide)]
    exact .done _
  refine ⟨completa 0 0 1 1 [0x55] 0 0 0 0, confere 0x80000 1 (write 0x80000 [0x55] fun _ => 0) (arqCrcRec 0 0 0 0), ?_,
    tamanho_completa, rfl, ?_⟩
  · refine ended_query_bind_iff.mpr ⟨0, _, rfl, ended_query_bind_iff.mpr ⟨0, _, rfl,
      ended_query_bind_iff.mpr ⟨1, _, rfl, ended_query_bind_iff.mpr ⟨1, _, rfl, ?_⟩⟩⟩⟩
    have hne : tamanhoArquivo 0 1 ≠ 0 := by decide
    dsimp only
    rw [if_neg hne]
    exact hdados.bind (.ask 0 (.ask 0 (.ask 0 (.ask 0 (.done _)))))
  · intro h
    have hiff : Conforme 0x80000 (fun _ => 0) (completa 0 0 1 1 [0x55] 0 0 0 0) _ ↔ 4 ≤ (tamanhoArquivo 0 1).toNat :=
      conforme_completa (by decide) rfl
    exact absurd (hiff.mp h) (by decide)

end Orion68.ReceberArquivo
