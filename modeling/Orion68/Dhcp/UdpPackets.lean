import Orion68.Dhcp.StaleBytes
import Orion68.Lib.Loops
import Mathlib.Tactic.IntervalCases

namespace Orion68.DhcpUdpPackets

open Receiver DhcpClient DhcpStaleBytes Loops

section Code

def S0_CR : ℕ := 0x0401
def S0_RX_RD : ℕ := 0x0428
def S0_RX_BASE : ℕ := 0x6000
def S0_MASK : ℕ := 0x07FF

def CR_RECV : UInt8 := 0x40

/-- The registers and the memory of the chip, by their offset. -/
abbrev Chip := ℕ → UInt8

def w5100Write16 (reg : ℕ) (val : UInt16) (c : Chip) : Chip :=
  Function.update (Function.update c reg (val >>> 8).toUInt8) (reg + 1) val.toUInt8

def w5100Read16 (reg : ℕ) (c : Chip) : UInt16 := (c reg).toUInt16 <<< 8 ||| (c (reg + 1)).toUInt16

/-- A call of `w5100_cmd`: the clock at its start, and in each round what `S0_CR` reads and the clock. -/
structure Comando where
  inicio : UInt32
  rodadas : List (UInt8 × UInt32)

/-- The loop of `w5100_cmd`; `none` when it goes on after the last of the rounds. -/
def cmdLoop (start : UInt32) : List (UInt8 × UInt32) → Option Bool
  | [] => none
  | (cr, tick) :: rodadas =>
      if cr = 0 then some true
      else if 500 < tick - start then some false
      else cmdLoop start rodadas

def w5100Cmd (c : Comando) : Option Bool := cmdLoop c.inicio c.rodadas

/-- What is around the calls: how the wait for the `n`-th command goes, and what the chip does
meanwhile. It leaves the read pointer to the program, and every wait ends: the chip takes the
command, or the clock goes on. -/
structure Ambiente where
  comando : ℕ → Comando
  depois : ℕ → Chip → Chip
  termina : ∀ n, (w5100Cmd (comando n)).isSome
  mantem : ∀ n c, w5100Read16 S0_RX_RD (depois n c) = w5100Read16 S0_RX_RD c

/-- The chip takes every command at once and stays as it is. -/
def aceitaLogo : Ambiente := ⟨fun _ => ⟨0, [(0, 0)]⟩, fun _ c => c, fun _ => rfl, fun _ _ => rfl⟩

/-- The chip, the number of commands it has been given, and the arrays that are written to. -/
structure Estado where
  chip : Chip
  comandos : ℕ
  buf : ℕ → UInt8
  udpHeader : ℕ → UInt8
  scratch : ℕ → UInt8

/-- The loop of `w5100_recv_bytes`, at index `i` with `n` more bytes to read. -/
def leAnel (c : Chip) (ptr : UInt16) : ℕ → ℕ → (ℕ → UInt8) → ℕ → UInt8
  | 0, _, buf => buf
  | n + 1, i, buf => leAnel c ptr n (i + 1) (Function.update buf i (c (S0_RX_BASE + ((ptr.toNat + i) &&& S0_MASK))))

def avanca (amb : Ambiente) (len : UInt16) (s : Estado) : Estado :=
  let ptr := w5100Read16 S0_RX_RD s.chip
  let chip := Function.update (w5100Write16 S0_RX_RD (ptr + len) s.chip) S0_CR CR_RECV
  { s with chip := amb.depois s.comandos chip, comandos := s.comandos + 1 }

/-- `w5100_recv_bytes` into an array: the array, and the chip. -/
def w5100RecvBytes (amb : Ambiente) (len : UInt16) (buf : ℕ → UInt8) (s : Estado) : Option ((ℕ → UInt8) × Estado) :=
  let ptr := w5100Read16 S0_RX_RD s.chip
  let buf := leAnel s.chip ptr len.toNat 0 buf
  (w5100Cmd (amb.comando s.comandos)).map fun _ => (buf, avanca amb len s)

/-- A round of the loop that discards what does not fit. -/
def descarta (amb : Ambiente) (r : UInt16 × Estado) : Option (UInt16 × Estado) := do
  let chunk := if r.1 < 32 then r.1 else 32
  let (scratch, s) ← w5100RecvBytes amb chunk r.2.scratch r.2
  return (r.1 - chunk, { s with scratch := scratch })

/-- `data_len` in the header of a datagram. -/
def dataLenDe (udpHeader : ℕ → UInt8) : UInt16 := (udpHeader 6).toUInt16 <<< 8 ||| (udpHeader 7).toUInt16

def copiaDados (amb : Ambiente) (toCopy : UInt16) (s : Estado) : Option Estado :=
  if 0 < toCopy then (w5100RecvBytes amb toCopy s.buf s).map fun r => { r.2 with buf := r.1 } else some s

/-- The loop has less than 65536 rounds. -/
def w5100RecvUdpPacket (amb : Ambiente) (bufCap : UInt16) (s : Estado) : Option (UInt16 × Estado) := do
  let (udpHeader, s) ← w5100RecvBytes amb 8 s.udpHeader s
  let s := { s with udpHeader := udpHeader }
  let dataLen := dataLenDe s.udpHeader
  let toCopy := if dataLen < bufCap then dataLen else bufCap
  let s ← copiaDados amb toCopy s
  let (_, s) ← whileLoop (fun r => 0 < r.1) (descarta amb) 65536 (dataLen - toCopy, s)
  return (dataLen, s)

end Code

section Bytes

variable {c : Chip} {ptr : UInt16} {n i j : ℕ} {buf : ℕ → UInt8}

def rxRd (s : Estado) : UInt16 := w5100Read16 S0_RX_RD s.chip

/-- Byte `k` of the ring from a pointer on. -/
def noAnel (c : Chip) (ptr k : ℕ) : UInt8 := c (S0_RX_BASE + (ptr + k) % 2048)

theorem leAnel_eq (c : Chip) (ptr : UInt16) (n i : ℕ) (buf : ℕ → UInt8) :
    leAnel c ptr n i buf = fun j => if i ≤ j ∧ j < i + n then noAnel c ptr.toNat j else buf j := by
  induction n generalizing i buf with
  | zero =>
      funext j
      rw [leAnel, if_neg (by omega)]
  | succ n ih =>
      have hmask : S0_MASK = 2 ^ 11 - 1 := rfl
      funext j
      rw [leAnel, ih]
      dsimp only
      by_cases hj : j = i
      · subst hj
        rw [if_neg (by omega), if_pos (by omega), Function.update_self, hmask, Nat.and_two_pow_sub_one_eq_mod]
        rfl
      · rw [Function.update_of_ne hj]
        congr 1
        exact propext (by omega)

theorem read16_write16 (reg : ℕ) (val : UInt16) (c : Chip) : w5100Read16 reg (w5100Write16 reg val c) = val := by
  have hval : (val >>> 8).toUInt8.toUInt16 <<< 8 ||| val.toUInt8.toUInt16 = val := by
    apply UInt16.toBitVec_inj.mp
    apply BitVec.eq_of_getLsbD_eq
    intro i hi
    simp only [UInt16.toBitVec_or, UInt16.toBitVec_shiftLeft, UInt8.toBitVec_toUInt16, UInt16.toBitVec_toUInt8,
      UInt16.toBitVec_shiftRight]
    interval_cases i <;> simp
  rw [w5100Read16, w5100Write16, Function.update_self, Function.update_of_ne (by omega), Function.update_self, hval]

theorem rxRd_avanca (amb : Ambiente) (len : UInt16) (s : Estado) : rxRd (avanca amb len s) = rxRd s + len := by
  have hkept (c : Chip) : w5100Read16 S0_RX_RD (Function.update c S0_CR CR_RECV) = w5100Read16 S0_RX_RD c := by
    rw [w5100Read16, w5100Read16, Function.update_of_ne (by decide), Function.update_of_ne (by decide)]
  rw [rxRd, avanca, amb.mantem, hkept, read16_write16]
  rfl

theorem recvBytes_eq (amb : Ambiente) (len : UInt16) (buf : ℕ → UInt8) (s : Estado) :
    w5100RecvBytes amb len buf s =
      some (fun j => if j < len.toNat then noAnel s.chip (rxRd s).toNat j else buf j, avanca amb len s) := by
  obtain ⟨b, hb⟩ := Option.isSome_iff_exists.mp (amb.termina s.comandos)
  rw [w5100RecvBytes, hb, leAnel_eq]
  simp only [Nat.zero_le, true_and, Nat.zero_add, Option.map_some]
  rfl

end Bytes

section Packets

variable {s t : Estado} {r : UInt16 × Estado}

/-- What is still to be read and what has been are as much as before, and of the arrays only the first
32 bytes of `scratch` may have changed. -/
structure Descartado (r t : UInt16 × Estado) : Prop where
  rxRd : rxRd t.2 + t.1 = rxRd r.2 + r.1
  buf : t.2.buf = r.2.buf
  udpHeader : t.2.udpHeader = r.2.udpHeader
  scratch : ∀ j, 32 ≤ j → t.2.scratch j = r.2.scratch j

theorem chunk_le (remaining : UInt16) : (if remaining < 32 then remaining else 32).toNat ≤ 32 := by
  split
  next hlt => exact Nat.le_of_lt (UInt16.lt_iff_toNat_lt.mp hlt)
  next => exact Nat.le_refl 32

theorem descarta_spec (amb : Ambiente) (h : 0 < r.1) :
    ∃ t, descarta amb r = some t ∧ Descartado r t ∧ t.1.toNat < r.1.toNat := by
  obtain ⟨hpos, hle⟩ := chunk_bounds h
  have hmax := chunk_le r.1
  rw [descarta]
  generalize (if r.1 < 32 then r.1 else 32) = chunk at *
  dsimp only
  rw [recvBytes_eq]
  refine ⟨_, rfl, ⟨?_, rfl, rfl, ?_⟩, ?_⟩
  · change DhcpUdpPackets.rxRd (avanca amb chunk r.2) + (r.1 - chunk) = _
    rw [rxRd_avanca, UInt16.add_assoc, UInt16.add_comm chunk, UInt16.sub_add_cancel]
  · intro j hj
    exact if_neg (by omega)
  · change (r.1 - chunk).toNat < _
    rw [UInt16.toNat_sub_of_le _ _ hle]
    have hpos' : 0 < chunk.toNat := UInt16.lt_iff_toNat_lt.mp hpos
    have hle' := UInt16.le_iff_toNat_le.mp hle
    omega

theorem Descartado.trans {u v : UInt16 × Estado} (h : Descartado r u) (h' : Descartado u v) : Descartado r v where
  rxRd := h'.rxRd.trans h.rxRd
  buf := h'.buf.trans h.buf
  udpHeader := h'.udpHeader.trans h.udpHeader
  scratch j hj := (h'.scratch j hj).trans (h.scratch j hj)

theorem descarta_loop (amb : Ambiente) (r : UInt16 × Estado) :
    ∃ t, whileLoop (fun r => 0 < r.1) (descarta amb) 65536 r = some t ∧ Descartado r t ∧ t.1 = 0 := by
  have hround (u : UInt16 × Estado) (hu : Descartado r u) (hc : decide (0 < u.1) = true) :
      ∃ t, descarta amb u = some t ∧ Descartado r t ∧ t.1.toNat < u.1.toNat := by
    obtain ⟨t, ht, hdesc, hlt⟩ := descarta_spec amb (of_decide_eq_true hc)
    exact ⟨t, ht, hu.trans hdesc, hlt⟩
  obtain ⟨t, ht, hdesc, hend⟩ := whileLoop_total (fun r : UInt16 × Estado => r.1.toNat) hround
    (s := r) ⟨rfl, rfl, rfl, fun _ _ => rfl⟩ r.1.toNat_lt
  exact ⟨t, ht, hdesc, UInt16.le_zero_iff.mp (UInt16.not_lt.mp (of_decide_eq_false hend))⟩

/-- The size in the header of the datagram at the read pointer. -/
def tamanho (s : Estado) : UInt16 := dataLenDe (noAnel s.chip (rxRd s).toNat)

/-- Byte `i` of its data, as the chip shows it once the header has been read. -/
def dado (amb : Ambiente) (s : Estado) (i : ℕ) : UInt8 := noAnel (avanca amb 8 s).chip (rxRd s).toNat (8 + i)

theorem noAnel_add (c : Chip) (ptr : UInt16) (i : ℕ) : noAnel c (ptr + 8).toNat i = noAnel c ptr.toNat (8 + i) := by
  have hptr : (ptr + 8).toNat = (ptr.toNat + 8) % 65536 := UInt16.toNat_add ptr 8
  rw [noAnel, noAnel, hptr]
  congr 2
  omega

theorem toCopy_toNat (dataLen bufCap : UInt16) :
    (if dataLen < bufCap then dataLen else bufCap).toNat = min dataLen.toNat bufCap.toNat := by
  simp only [UInt16.lt_iff_toNat_lt]
  split <;> omega

theorem copiaDados_spec (amb : Ambiente) (toCopy : UInt16) (s : Estado) :
    ∃ t, copiaDados amb toCopy s = some t ∧ rxRd t = rxRd s + toCopy ∧
      t.buf = (fun j => if j < toCopy.toNat then noAnel s.chip (rxRd s).toNat j else s.buf j) ∧
      t.udpHeader = s.udpHeader ∧ t.scratch = s.scratch := by
  rw [copiaDados]
  split
  next =>
    rw [recvBytes_eq]
    exact ⟨_, rfl, rxRd_avanca amb toCopy s, rfl, rfl, rfl⟩
  next hzero =>
    obtain rfl := UInt16.le_zero_iff.mp (UInt16.not_lt.mp hzero)
    exact ⟨s, rfl, (UInt16.add_zero _).symm, rfl, rfl, rfl⟩

def comCabecalho (amb : Ambiente) (s : Estado) : Estado :=
  { avanca amb 8 s with
    udpHeader := fun j => if j < (8 : UInt16).toNat then noAnel s.chip (rxRd s).toNat j else s.udpHeader j }

theorem rxRd_comCabecalho (amb : Ambiente) (s : Estado) : rxRd (comCabecalho amb s) = rxRd s + 8 := rxRd_avanca amb 8 s

/-- The read pointer goes on by the header and the data, the buffer gets the first bytes of the data,
as many as it takes, and nothing else is written than the header and 32 bytes of `scratch`. -/
theorem udp_packet_received (amb : Ambiente) (bufCap : UInt16) (s : Estado) :
    ∃ t, w5100RecvUdpPacket amb bufCap s = some (tamanho s, t) ∧ rxRd t = rxRd s + 8 + tamanho s ∧
      (∀ i < min (tamanho s).toNat bufCap.toNat, t.buf i = dado amb s i) ∧
      (∀ i, min (tamanho s).toNat bufCap.toNat ≤ i → t.buf i = s.buf i) ∧
      (∀ i, 8 ≤ i → t.udpHeader i = s.udpHeader i) ∧ ∀ i, 32 ≤ i → t.scratch i = s.scratch i := by
  obtain ⟨u, hcopy, hrd, hbuf, hheader, hscratch⟩ :=
    copiaDados_spec amb (if tamanho s < bufCap then tamanho s else bufCap) (comCabecalho amb s)
  obtain ⟨⟨rest, t⟩, hloop, hdesc, hrest⟩ :=
    descarta_loop amb (tamanho s - (if tamanho s < bufCap then tamanho s else bufCap), u)
  have hbuf' (i : ℕ) : t.buf i = if i < min (tamanho s).toNat bufCap.toNat then dado amb s i else s.buf i := by
    have hdado : noAnel (avanca amb 8 s).chip (rxRd s + 8).toNat i = dado amb s i := noAnel_add _ _ i
    rw [hdesc.buf, hbuf, toCopy_toNat, rxRd_comCabecalho, ← hdado]
    rfl
  refine ⟨t, ?_, ?_, ?_, ?_, ?_, ?_⟩
  · have hheaderRead : w5100RecvBytes amb 8 s.udpHeader s = some ((comCabecalho amb s).udpHeader, avanca amb 8 s) :=
      recvBytes_eq amb 8 s.udpHeader s
    rw [w5100RecvUdpPacket, hheaderRead]
    change (Option.bind (copiaDados amb (if tamanho s < bufCap then tamanho s else bufCap) (comCabecalho amb s)) _) = _
    rw [hcopy]
    change (Option.bind (whileLoop _ _ 65536 (tamanho s - (if tamanho s < bufCap then tamanho s else bufCap), u)) _) = _
    rw [hloop]
    rfl
  · have hzero : rest = 0 := hrest
    have hend := hdesc.rxRd
    rw [hzero, UInt16.add_zero, hrd, rxRd_comCabecalho, UInt16.add_assoc, UInt16.add_comm _ (tamanho s - _),
      UInt16.sub_add_cancel] at hend
    exact hend
  · intro i hi
    rw [hbuf', if_pos hi]
  · intro i hi
    rw [hbuf', if_neg (Nat.not_lt.mpr hi)]
  · intro i hi
    rw [hdesc.udpHeader, hheader]
    exact if_neg (Nat.not_lt.mpr hi)
  · intro i hi
    rw [hdesc.scratch i hi, hscratch]
    rfl

/-- The header of a packet of three bytes, which starts two bytes before the end of the ring. -/
def tresBytes : Estado :=
  ⟨fun a =>
      if a = S0_RX_BASE + 4 then 0 else if a = S0_RX_BASE + 5 then 3
      else if a = S0_RX_RD then 0x07 else if a = S0_RX_RD + 1 then 0xFE
      else UInt8.ofNat a,
    0, fun _ => 0, fun _ => 0, fun _ => 0⟩

theorem three_bytes_received : ∃ t, w5100RecvUdpPacket aceitaLogo 2 tresBytes = some (3, t) ∧
    rxRd t = 0x0809 ∧ (∀ i < 2, t.buf i = dado aceitaLogo tresBytes i) ∧ ∀ i, 2 ≤ i → t.buf i = 0 := by
  obtain ⟨t, hrecv, hrd, hbuf, hrest, -⟩ := udp_packet_received aceitaLogo 2 tresBytes
  have hsize : tamanho tresBytes = 3 := by decide +kernel
  rw [hsize] at hrecv hrd hbuf hrest
  exact ⟨t, hrecv, hrd.trans (by decide +kernel), hbuf, hrest⟩

def Mostra (c : Chip) (w : W5100) : Prop := ∀ x < 2048, c (S0_RX_BASE + x) = w.rx x

theorem Mostra.noAnel {c : Chip} {w : W5100} (h : Mostra c w) (ptr k : ℕ) :
    w.rx ((ptr + k) &&& s0Mask) = noAnel c ptr k := by
  have hmask : s0Mask = 2 ^ 11 - 1 := rfl
  rw [hmask, Nat.and_two_pow_sub_one_eq_mod]
  exact (h _ (Nat.mod_lt _ (by decide))).symm

theorem udp_packet_client (amb : Ambiente) (bufCap : UInt16) {s : Estado} {w : W5100} (hrd : rxRd s = w.rxRd)
    (h : Mostra s.chip w) (h' : Mostra (avanca amb 8 s).chip w) :
    (recvUdpPacket bufCap w).1 = tamanho s ∧
      (recvUdpPacket bufCap w).2.1 = (List.range (min (tamanho s).toNat bufCap.toNat)).map (dado amb s) ∧
      (recvUdpPacket bufCap w).2.2.rxRd = rxRd s + 8 + tamanho s := by
  have hsize : (recvUdpPacket bufCap w).1 = tamanho s := by
    have hbyte (k : ℕ) : w.rx ((w.rxRd.toNat + k) &&& s0Mask) = noAnel s.chip (rxRd s).toNat k := by
      rw [h.noAnel, hrd]
    rw [tamanho, dataLenDe, ← hbyte, ← hbyte]
    rfl
  have hcopied (toCopy : UInt16) : (if 0 < toCopy then (W5100.recvBytes 8 w).2.recvBytes toCopy
      else ([], (W5100.recvBytes 8 w).2)).1 = (List.range toCopy.toNat).map (dado amb s) := by
    have hdado (k : ℕ) : w.rx ((((w.rxRd + 8).toNat) + k) &&& s0Mask) = dado amb s k := by
      rw [h'.noAnel, noAnel_add, ← hrd, dado]
    split
    next =>
      apply List.map_congr_left
      intro k _
      exact hdado k
    next hzero =>
      obtain rfl := UInt16.le_zero_iff.mp (UInt16.not_lt.mp hzero)
      rfl
  refine ⟨hsize, ?_, ?_⟩
  · rw [← toCopy_toNat, ← hcopied, ← hsize]
    rfl
  · rw [recvUdpPacket_rxRd, hsize, hrd]

end Packets

end Orion68.DhcpUdpPackets
