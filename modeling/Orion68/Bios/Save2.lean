import Orion68.Bios.ReceberArquivo

namespace Orion68.Save2

open Interactions Memory
open FatFs (Path)
open PicoCrc32 (crc32)
open ReceberArquivo

section Code

/-- What `do_save2` opens when the file has come, with the memory that it leaves. -/
def abreArquivo (ram : Ram) : Option Path × Ram :=
  let ram := write (0x82008 + 12) [0] ram
  let tamanho1 := word32 (ram 0x82007) (ram 0x82006) (ram 0x82005) (ram 0x82004)
  if tamanho1 - 0x15 = 0 then (none, ram) else (some (stringFrom 13 ram 0x82008), ram)

def doSave2 (ram : Ram) : Programa (Option Path × Ram) := do
  let status ← query Registro.status
  if status = PICO_STATE_IDLE then return (none, ram)
  else if status < 1 then return (none, ram)
  else
    let r ← noblkReceberArquivoDoPico 0x82000 ram
    return if r.ok then abreArquivo r.ram else (none, r.ram)

end Code

/-- Readings of the Pico that are a whole file: it is not idle, the size is not 0 and that many bytes
come, the CRC is theirs, and the name in them is that of a file with something in it. -/
def Entregue (ram : Ram) (nome : Path) (es : List Leitura) : Prop :=
  ∃ status h₀ hi l₀ lo bs crc3 crc2 crc1 crc0,
    es = ⟨.status, status⟩ :: completa h₀ hi l₀ lo bs crc3 crc2 crc1 crc0 ∧
    status ≠ PICO_STATE_IDLE ∧ tamanhoArquivo hi lo ≠ 0 ∧ bs.length = (tamanhoArquivo hi lo).toNat ∧
    (word32 crc3 crc2 crc1 crc0).toBitVec =
      crc32 (bytes (write 0x82000 bs ram) (0x82000 + 4) ((tamanhoArquivo hi lo).toUInt32 - 4).toNat) ∧
    (abreArquivo (write 0x82000 bs ram)).1 = some nome

variable {ram ram' : Ram} {nome : Path} {es : List Leitura} {destinoRam : UInt32} {n : ℕ}

theorem doSave2_ends (ram : Ram) : Ends (doSave2 ram) := by
  intro status
  change Ends (if status = PICO_STATE_IDLE then _ else _)
  split
  next => trivial
  next =>
    split
    next => trivial
    next =>
      exact Ends.bind (noblk_ends _ _) fun _ => trivial

theorem leDados_runs {t i : UInt16} {bs : List UInt8} (hlen : i.toNat + bs.length = t.toNat) (hn : bs.length < n) :
    Runs (leDados destinoRam t n i ram) (bs.map (⟨Registro.data, ·⟩))
      (some (write (destinoRam + i.toUInt32) bs ram)) := by
  induction n generalizing i ram bs with
  | zero => exact absurd hn (Nat.not_lt_zero _)
  | succ n ih =>
      rw [leDados]
      cases bs with
      | nil =>
          rw [if_neg (UInt16.not_lt.mpr (UInt16.le_iff_toNat_le.mpr (Nat.le_of_eq hlen.symm)))]
          exact .done _
      | cons b bs =>
          rw [List.length_cons] at hlen hn
          have hlt : i < t := UInt16.lt_iff_toNat_lt.mpr (by omega)
          have ht := t.toNat_lt
          have hsucc : (i + 1).toNat = i.toNat + 1 := by
            rw [UInt16.toNat_add, UInt16.toNat_one]
            omega
          have happend : write (destinoRam + i.toUInt32 + 1) bs (write (destinoRam + i.toUInt32) [b] ram) =
              write (destinoRam + i.toUInt32) (b :: bs) ram :=
            write_append (destinoRam + i.toUInt32) [b] bs ram (by rw [List.length_singleton]; omega)
              (by rw [List.length_singleton]; decide)
          have hrest : Runs (leDados destinoRam t n (i + 1) (write (destinoRam + i.toUInt32) [b] ram))
              (bs.map (⟨Registro.data, ·⟩)) _ := ih (by omega) (by omega)
          rw [toUInt32_succ hlt, ← UInt32.add_assoc, happend] at hrest
          rw [if_pos hlt]
          apply Runs.query_bind
          exact hrest

theorem noblk_runs {h₀ hi l₀ lo crc3 crc2 crc1 crc0 : UInt8} {bs : List UInt8} (hne : tamanhoArquivo hi lo ≠ 0)
    (hlen : bs.length = (tamanhoArquivo hi lo).toNat) :
    Runs (noblkReceberArquivoDoPico destinoRam ram) (completa h₀ hi l₀ lo bs crc3 crc2 crc1 crc0)
      (some (confere destinoRam (tamanhoArquivo hi lo) (write destinoRam bs ram) (arqCrcRec crc3 crc2 crc1 crc0))) := by
  apply Runs.query_bind
  apply Runs.query_bind
  apply Runs.query_bind
  apply Runs.query_bind
  dsimp only
  rw [if_neg hne]
  have hlt := (tamanhoArquivo hi lo).toNat_lt
  have hdados : Runs (leDados destinoRam (tamanhoArquivo hi lo) 65536 0 ram) (bs.map (⟨Registro.data, ·⟩)) _ :=
    leDados_runs (by rw [hlen, UInt16.toNat_zero, Nat.zero_add]) (by omega)
  rw [show (0 : UInt16).toUInt32 = 0 from rfl, UInt32.add_zero] at hdados
  refine hdados.bind ?_
  apply Runs.query_bind
  apply Runs.query_bind
  apply Runs.query_bind
  apply Runs.query_bind
  exact .done _

theorem confere_ok_iff {t : UInt16} {crc3 crc2 crc1 crc0 : UInt8} :
    (confere destinoRam t ram (arqCrcRec crc3 crc2 crc1 crc0)).ok = true ↔
      (word32 crc3 crc2 crc1 crc0).toBitVec = crc32 (bytes ram (destinoRam + 4) (t.toUInt32 - 4).toNat) := by
  rw [← arqCrcRec_eq]
  exact (ok_iff_crc _ _).trans Option.some_inj

theorem runs_doSave2_iff :
    (∃ ram', Runs (doSave2 ram) es (some (some nome, ram'))) ↔ Entregue ram nome es := by
  constructor
  · rintro ⟨ram', h⟩
    obtain ⟨status, es, rfl, hrest⟩ := ended_query_bind_iff.mp h
    split at hrest
    next => exact nomatch (ended_done_iff.mp hrest).2
    next hidle =>
      split at hrest
      next => exact nomatch (ended_done_iff.mp hrest).2
      next =>
        obtain ⟨r, es₁, es₂, rfl, h₁, h₂⟩ := ended_bind_iff.mp hrest
        obtain ⟨rfl, hopen⟩ := ended_done_iff.mp h₂
        split at hopen
        next hok =>
          obtain ⟨h₀, hi, l₀, lo, ⟨-, -, rfl⟩ | ⟨hne, bs, crc3, crc2, crc1, crc0, hlen, rfl, rfl⟩⟩ := runs_noblk h₁
          · cases hok
          · refine ⟨status, h₀, hi, l₀, lo, bs, crc3, crc2, crc1, crc0, by rw [List.append_nil], hidle, hne, hlen, ?_, ?_⟩
            · exact confere_ok_iff.mp hok
            · exact congrArg Prod.fst hopen
        next => cases hopen
  · rintro ⟨status, h₀, hi, l₀, lo, bs, crc3, crc2, crc1, crc0, rfl, hidle, hne, hlen, hcrc, hname⟩
    refine ⟨(abreArquivo (write 0x82000 bs ram)).2, ?_⟩
    have hpos : ¬status < 1 := by
      rw [UInt8.lt_one_iff]
      exact hidle
    have hnoblk : Runs (noblkReceberArquivoDoPico 0x82000 ram) (completa h₀ hi l₀ lo bs crc3 crc2 crc1 crc0)
        (some (confere 0x82000 (tamanhoArquivo hi lo) (write 0x82000 bs ram) (arqCrcRec crc3 crc2 crc1 crc0))) :=
      noblk_runs hne hlen
    have hresult : (some nome, (abreArquivo (write 0x82000 bs ram)).2) = abreArquivo (write 0x82000 bs ram) :=
      Prod.ext hname.symm rfl
    rw [doSave2]
    apply Runs.query_bind
    rw [if_neg hidle, if_neg hpos, hresult, ← List.append_nil (completa _ _ _ _ _ _ _ _ _)]
    refine hnoblk.bind ?_
    rw [if_pos (confere_ok_iff.mpr hcrc)]
    exact .done _

end Orion68.Save2
