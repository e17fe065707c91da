import Orion68.FatFs.Volume
import Orion68.Pico.BusRuns
import Mathlib.Tactic.IntervalCases

namespace Orion68.PicoW

open FatFs PicoCrc32 PicoServer PicoBus

/-- The 68k side: the Pico on its bus, the memory, and the disk. -/
structure Placa where
  pico : Pico
  ram : Nat → UInt8
  volume : Volume

abbrev M68k := StateT Placa Option

theorem bind_eq {α β : Type} {x : M68k α} {f : α → M68k β} {m m' : Placa} {a : α} (h : x m = some (a, m')) :
    (x >>= f) m = f a m' := by
  change (x m).bind _ = _
  rw [h]
  rfl

theorem bind_none {α β : Type} {x : M68k α} {f : α → M68k β} {m : Placa} (h : x m = none) : (x >>= f) m = none := by
  change (x m).bind _ = _
  rw [h]
  rfl

theorem get_eq (m : Placa) : (get : M68k Placa) m = some (m, m) := rfl

def poke (a : Nat) (b : UInt8) : M68k Unit := modify fun m => { m with ram := Function.update m.ram a b }

def Placa.bytes (m : Placa) (a n : Nat) : List UInt8 := (List.range n).map fun i => m.ram (a + i)

/-- What the bus shows of a byte-wide access to address `0xFF9101 + 2 * r`. -/
def pacote (escrita : Bool) (r d : UInt8) : UInt16 :=
  (if escrita then (0x0000 : UInt16) else 0x4000) ||| r.toUInt16 <<< 8 ||| d.toUInt16

def leRegistro (r : UInt8) : M68k UInt8 := fun m =>
  let a := gerenciarBarramento (pacote false r 0) false m.pico
  (m.pico.carrega a.1).map fun b => (b, { m with pico := a.2 })

def escreveRegistro (r d : UInt8) (leu : Bool) : M68k Unit := fun m =>
  some ((), { m with pico := (gerenciarBarramento (pacote true r d) leu m.pico).2 })

/-- The loop of `n` more bytes from register `r`, at index `i`. -/
def leBytes (r : UInt8) (destino : Nat) : Nat → Nat → M68k Unit
  | _, 0 => pure ()
  | i, n + 1 => do
      let b ← leRegistro r
      poke (destino + i) b
      leBytes r destino (i + 1) n

def getCrc : M68k UInt32 := do
  let crc3 ← leRegistro 0x04
  let crc2 ← leRegistro 0x05
  let crc1 ← leRegistro 0x06
  let crc0 ← leRegistro 0x07
  return crc3.toUInt32 <<< 24 ||| (crc2.toUInt32 <<< 16 &&& (0x00FF0000 : UInt32)) |||
    (crc1.toUInt32 <<< 8 &&& (0x0000FF00 : UInt32)) ||| (crc0.toUInt32 &&& (0xFF : UInt32))

def crc32Step (crc : UInt32) (b : UInt8) : UInt32 :=
  crc32Table ((crc ^^^ b.toUInt32) &&& 0xFF).toUInt8 ^^^ (crc >>> 8)

def crc32UpdateBios (crc : UInt32) : List UInt8 → UInt32
  | a :: b :: c :: d :: rest =>
      crc32UpdateBios (crc32Step (crc32Step (crc32Step (crc32Step crc a) b) c) d) rest
  | rest => rest.foldl crc32Step crc

def crc32CalculateBios (buffer : List UInt8) : UInt32 := crc32UpdateBios 0xFFFFFFFF buffer ^^^ 0xFFFFFFFF

def noblkReceberArquivoDoPico (destino : Nat) : M68k Bool := do
  let _ ← leRegistro 0x02
  let tamanhoHigh ← leRegistro 0x02
  let _ ← leRegistro 0x03
  let tamanhoLow ← leRegistro 0x03
  let tamanho : UInt16 := tamanhoHigh.toUInt16 <<< 8 ||| tamanhoLow.toUInt16
  if tamanho = 0 then
    return false
  leBytes 0x00 destino 0 tamanho.toNat
  let arqCrcRec ← getCrc
  let m ← get
  let arqCrc := crc32CalculateBios (m.bytes (destino + 4) (tamanho.toUInt32 - 4).toNat)
  return arqCrcRec == arqCrc

def receberSetorDoPico (destino : Nat) (sector : UInt16) (leu : Bool) : M68k Bool := do
  escreveRegistro 0x0A (sector &&& 0xFF).toUInt8 leu
  escreveRegistro 0x0B (sector.toUInt32 <<< 8).toUInt8 leu
  escreveRegistro 0x0C 0xA5 leu
  leBytes 0x0D destino 0 512
  let arqCrcRec ← getCrc
  let m ← get
  let arqCrc := crc32CalculateBios (m.bytes destino 512)
  return arqCrcRec == arqCrc

section Crc

theorem crc32Step_eq (crc : UInt32) (b : UInt8) :
    crc32Step crc b = crc32Table (crc ^^^ b.toUInt32).toUInt8 ^^^ (crc >>> 8) := by
  have hlow (x : UInt32) : (x &&& 0xFF).toUInt8 = x.toUInt8 := by
    apply UInt8.toNat_inj.mp
    rw [UInt32.toNat_toUInt8, UInt32.toNat_toUInt8, UInt32.toNat_and]
    change (x.toNat &&& 2 ^ 8 - 1) % 2 ^ 8 = x.toNat % 2 ^ 8
    rw [Nat.and_two_pow_sub_one_eq_mod, Nat.mod_mod]
  rw [crc32Step, hlow]

theorem crc32UpdateBios_foldl (crc : UInt32) (buffer : List UInt8) :
    crc32UpdateBios crc buffer = buffer.foldl crc32Step crc := by
  induction hlen : buffer.length using Nat.strong_induction_on generalizing crc buffer with
  | h n ih =>
      match buffer with
      | [] | [_] | [_, _] | [_, _, _] => rfl
      | a :: b :: c :: d :: rest =>
          have hlt : rest.length < n := by
            simp only [List.length_cons] at hlen
            omega
          simp only [crc32UpdateBios, ih rest.length hlt _ rest rfl, List.foldl_cons]

theorem crc32UpdateBios_eq (crc : UInt32) (buffer : List UInt8) :
    crc32UpdateBios crc buffer = crc32Update crc buffer := by
  rw [crc32UpdateBios_foldl, crc32Update]
  congr 1
  funext crc b
  exact crc32Step_eq crc b

theorem crc32CalculateBios_eq (buffer : List UInt8) : crc32CalculateBios buffer = crc32Calculate buffer := by
  rw [crc32CalculateBios, crc32UpdateBios_eq, crc32Calculate]

end Crc

section Reads

variable (m : Placa)

theorem prologo_prologo (s : Server) : prologo (prologo s) = prologo s := by
  by_cases hp : s.arquivoPronto = true ∧ s.arquivoTamanho ≤ s.ponteiroLeitura
  · have hfalse : (prologo s).arquivoPronto = false := by
      rw [prologo_eq]
      simp [UInt32.not_lt.mpr hp.2]
    rw [prologo, if_pos hfalse]
  · have hsame : prologo s = s := by
      rw [prologo]
      split
      · rfl
      next ht => rw [if_neg fun hle => hp ⟨by simpa using ht, hle⟩]
    rw [hsame, hsame]

def Placa.aposPrologo (m : Placa) : Placa :=
  { m with pico := { m.pico with server := prologo m.pico.server } }

theorem leRegistro_valor {r : UInt8} (v : Server → UInt8) (hr : reg (pacote false r 0) = r)
    (hv : ∀ d leu (s : Pico), registro r d leu s = (.valor (v s.server), s))
    (hp : ∀ s, v (prologo s) = v s) : leRegistro r m = some (v m.pico.server, m.aposPrologo) := by
  simp only [leRegistro, gerenciarBarramento, hr, hv, Pico.carrega, Option.map_some, hp]
  rfl

theorem leRegistro_sizeHigh :
    leRegistro 0x02 m = some ((m.pico.server.arquivoTamanho >>> 8).toUInt8, m.aposPrologo) :=
  leRegistro_valor m (fun s => (s.arquivoTamanho >>> 8).toUInt8) rfl (fun _ _ _ => rfl)
    fun s => by rw [prologo_eq]

theorem leRegistro_sizeLow :
    leRegistro 0x03 m = some (m.pico.server.arquivoTamanho.toUInt8, m.aposPrologo) :=
  leRegistro_valor m (fun s => s.arquivoTamanho.toUInt8) rfl (fun _ _ _ => rfl)
    fun s => by rw [prologo_eq]

theorem crc_bytes (c : UInt32) :
    (c >>> 24).toUInt8.toUInt32 <<< 24 ||| ((c >>> 16).toUInt8.toUInt32 <<< 16 &&& (0x00FF0000 : UInt32)) |||
      ((c >>> 8).toUInt8.toUInt32 <<< 8 &&& (0x0000FF00 : UInt32)) |||
      (c.toUInt8.toUInt32 &&& (0xFF : UInt32)) = c := by
  apply UInt32.toBitVec_inj.mp
  apply BitVec.eq_of_getLsbD_eq
  intro i hi
  simp only [UInt32.toBitVec_or, UInt32.toBitVec_and, UInt32.toBitVec_shiftLeft, UInt8.toBitVec_toUInt32,
    UInt32.toBitVec_toUInt8, UInt32.toBitVec_shiftRight]
  interval_cases i <;> simp

theorem getCrc_aposPrologo : getCrc m = some (m.pico.server.arquivoCrc32, m.aposPrologo) := by
  have hcrc (m : Placa) : m.aposPrologo.pico.server.arquivoCrc32 = m.pico.server.arquivoCrc32 := by
    simp only [Placa.aposPrologo]
    rw [prologo_eq]
  have hread {r : UInt8} {n : UInt32} (m : Placa) (hr : reg (pacote false r 0) = r)
      (hv : ∀ d leu (s : Pico), registro r d leu s = (.valor (s.server.arquivoCrc32 >>> n).toUInt8, s)) :
      leRegistro r m = some ((m.pico.server.arquivoCrc32 >>> n).toUInt8, m.aposPrologo) :=
    leRegistro_valor m (fun s => (s.arquivoCrc32 >>> n).toUInt8) hr hv fun s => by rw [prologo_eq]
  have h3 (m : Placa) := hread (r := 0x04) (n := 24) m rfl fun _ _ _ => rfl
  have h2 (m : Placa) := hread (r := 0x05) (n := 16) m rfl fun _ _ _ => rfl
  have h1 (m : Placa) := hread (r := 0x06) (n := 8) m rfl fun _ _ _ => rfl
  have h0 (m : Placa) : leRegistro 0x07 m = some (m.pico.server.arquivoCrc32.toUInt8, m.aposPrologo) :=
    leRegistro_valor m (fun s => s.arquivoCrc32.toUInt8) rfl (fun _ _ _ => rfl) fun s => by rw [prologo_eq]
  have hidem (m : Placa) : m.aposPrologo.aposPrologo = m.aposPrologo := by
    simp only [Placa.aposPrologo, prologo_prologo]
  rw [getCrc, bind_eq (h3 _), bind_eq (h2 _), bind_eq (h1 _), bind_eq (h0 _)]
  simp only [hcrc, hidem, crc_bytes]
  rfl

theorem getCrc_eq : ∃ p, getCrc m = some (m.pico.server.arquivoCrc32, { m with pico := p }) :=
  ⟨m.aposPrologo.pico, getCrc_aposPrologo m⟩

end Reads

section Loops

/-- Memory after `n` bytes of `f` have been stored from index `i` of a buffer on. -/
def gravado (ram : Nat → UInt8) (destino i n : Nat) (f : Nat → UInt8) : Nat → UInt8 := fun a =>
  if destino + i ≤ a ∧ a < destino + i + n then f (a - destino) else ram a

theorem leBytes_eq {r : UInt8} {σ : Nat → Pico} {f : Nat → UInt8} {fim : Nat} (destino : Nat)
    (hread : ∀ k < fim, ∀ m : Placa, m.pico = σ k →
      leRegistro r m = some (f k, { m with pico := σ (k + 1) })) (n : Nat) {i : Nat} (m : Placa)
    (hn : i + n ≤ fim) (hm : m.pico = σ i) :
    leBytes r destino i n m =
      some ((), { m with pico := σ (i + n), ram := gravado m.ram destino i n f }) := by
  induction n generalizing i m with
  | zero =>
      have hram : gravado m.ram destino i 0 f = m.ram := by
        funext a
        rw [gravado, if_neg (by omega)]
      rw [hram, Nat.add_zero, ← hm]
      rfl
  | succ n ih =>
      have hpoke : poke (destino + i) (f i) { m with pico := σ (i + 1) } =
          some ((), { m with pico := σ (i + 1), ram := Function.update m.ram (destino + i) (f i) }) := rfl
      rw [leBytes, bind_eq (hread i (by omega) m hm), bind_eq hpoke, ih _ (by omega) rfl]
      have hram : gravado (Function.update m.ram (destino + i) (f i)) destino (i + 1) n f =
          gravado m.ram destino i (n + 1) f := by
        funext a
        by_cases ha : a = destino + i
        · rw [gravado, gravado, if_neg (by omega), if_pos (by omega), ha, Function.update_self,
            Nat.add_sub_cancel_left]
        · rw [gravado, gravado, Function.update_of_ne ha]
          congr 1
          exact propext (by omega)
      rw [hram, Nat.add_right_comm i 1 n, Nat.add_assoc i n 1]

theorem bytes_gravado {m : Placa} {ram : Nat → UInt8} {destino n : Nat} {f : Nat → UInt8} {a k : Nat}
    (hm : m.ram = gravado ram destino 0 n f) (hk : a + k ≤ n) :
    m.bytes (destino + a) k = (List.range k).map fun i => f (a + i) := by
  apply List.map_congr_left
  intro i hi
  have hlt := List.mem_range.mp hi
  rw [hm, gravado, if_pos (by omega)]
  congr 1
  omega

end Loops

end Orion68.PicoW
