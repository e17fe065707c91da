import Mathlib.Algebra.Ring.Parity
import Mathlib.Data.List.DropRight
import Mathlib.Data.List.GetD
import Orion68.Kbd.KbdUsb

namespace Orion68.KbdFrames

open Transducers KbdUsb

variable {alem : Keymap → UInt8 → UInt8} {s : Teclado}

section Bytes

/-- A byte that comes alone: `kbd_poll` reads it, and `get_char_nonblocking` takes the key. -/
def umByte (alem : Keymap → UInt8 → UInt8) (c : UInt8) (s : Teclado) : Teclado × Option UInt8 :=
  ({ recebeByte alem c s with kbdPendingChar := none }, (recebeByte alem c s).kbdPendingChar)

/-- The bytes of a stream one by one: the variables after it, and the characters that are delivered. -/
abbrev bytes (alem : Keymap → UInt8 → UInt8) : List UInt8 → Teclado → Teclado × List UInt8 := feed (umByte alem)

variable (alem) in
theorem kbdPendingChar_bytes (fluxo : List UInt8) (h : s.kbdPendingChar = none) :
    (bytes alem fluxo s).1.kbdPendingChar = none :=
  feed_preserves (I := fun s : Teclado => s.kbdPendingChar = none) (fun _ _ _ => rfl) fluxo h

theorem consome_pendente (h : s.kbdPendingChar = none) : { s with kbdPendingChar := none } = s := by
  cases s
  cases h
  rfl

theorem kbdPoll_eq (fifo : List UInt8) (h : s.kbdPendingChar = none) :
    poll (umByte alem) fifo s =
      ((getCharNonblocking (kbdPoll alem fifo s).2).2, (getCharNonblocking (kbdPoll alem fifo s).2).1,
        (kbdPoll alem fifo s).1) := by
  induction fifo generalizing s with
  | nil =>
      rw [poll, kbdPoll, getCharNonblocking, consome_pendente h, h]
  | cons c fifo ih =>
      rw [poll, kbdPoll, umByte]
      cases hp : (recebeByte alem c s).kbdPendingChar with
      | some ch =>
          dsimp only
          rw [if_pos (Option.some_ne_none ch), getCharNonblocking, hp]
      | none =>
          dsimp only
          rw [if_neg (not_not.mpr rfl), consome_pendente hp]
          exact ih hp

theorem voltas_eq (partes : List (List UInt8)) (fifo : List UInt8) (h : s.kbdPendingChar = none) :
    voltas alem partes fifo s = rounds (umByte alem) partes fifo s := by
  induction partes generalizing fifo s with
  | nil => rfl
  | cons chegam resto ih =>
      rw [voltas, rounds, kbdPoll_eq _ h]
      dsimp only
      rw [ih _ rfl]

/-- However the stream is split into calls of `kbd_poll`, the UART is empty after enough of them, and
once it is empty the characters are those that the stream delivers with one byte for each call. -/
theorem poll_chunk_independent (alem : Keymap → UInt8 → UInt8) (antes : List UInt8) (partes : List (List UInt8)) :
    let s := (bytes alem antes inicial).1
    (∃ n, (voltas alem (partes ++ List.replicate n []) [] s).1 = []) ∧
      ∀ n, (voltas alem (partes ++ List.replicate n []) [] s).1 = [] →
        (voltas alem (partes ++ List.replicate n []) [] s).2.2 =
          (voltas alem (partes.flatten.map fun c => [c]) [] s).2.2 := by
  have hnone := kbdPendingChar_bytes alem (s := inicial) antes rfl
  dsimp only
  generalize (bytes alem antes inicial).1 = s at hnone ⊢
  constructor
  · refine ⟨(rounds (umByte alem) partes [] s).1.length, ?_⟩
    rw [voltas_eq _ _ hnone, rounds_append]
    exact rounds_drain _ _ _ (Nat.le_refl _)
  · intro n hempty
    rw [voltas_eq _ _ hnone] at hempty
    rw [voltas_eq _ _ hnone, voltas_eq _ _ hnone, rounds_singletons]
    have hfeed := feed_rounds (umByte alem) (partes ++ List.replicate n []) [] s
    rw [hempty, feed_nil, List.append_nil, List.nil_append, List.flatten_append, List.flatten_replicate_nil,
      List.append_nil] at hfeed
    exact (congrArg Prod.snd hfeed).symm

end Bytes

section Reports

/-- A report of the keyboard; its size is sent in one byte. -/
structure Relatorio where
  payload : List UInt8
  cabe : payload.length < 256

namespace Relatorio

def quadro (r : Relatorio) : List UInt8 := [0x57, 0xAB, 0x88, UInt8.ofNat r.payload.length] ++ r.payload

/-- What `key_buffer` holds at the end of the report. -/
def buffer (r : Relatorio) : ℕ → UInt8
  | 0 => 0
  | j + 1 => r.payload.getD j 0

def modificadores (r : Relatorio) : UInt8 := r.buffer 2

def codigo (r : Relatorio) : UInt8 := r.buffer 4

/-- The variables when `kbd_finish_0x88` is called for the report. -/
def lido (r : Relatorio) (s : Teclado) : Teclado :=
  { s with keyBuffer := r.buffer, kbdSize := UInt8.ofNat r.payload.length, kbdIndex := r.payload.length + 1 }

/-- The report decoded: the variables after it, and the key that it delivers, if any. -/
def decodificado (alem : Keymap → UInt8 → UInt8) (r : Relatorio) (s : Teclado) : Teclado × List UInt8 :=
  ({ kbdFinish0x88 alem (r.lido s) with kbdPendingChar := none },
    (kbdFinish0x88 alem (r.lido s)).kbdPendingChar.toList)

end Relatorio

variable (alem) in
theorem kbdFinish0x88_kbdState (q : KbdState) :
    kbdFinish0x88 alem { s with kbdState := q } = { kbdFinish0x88 alem s with kbdState := q } := by
  simp only [kbdFinish0x88, nenhumaTecla, decodifica, modificador, capslock, sendCmdKeyboard, getKbdKey]
  grind

/-- Bytes `d` in the buffer from `i` on. -/
def guarda (i : ℕ) (d : List UInt8) (b : ℕ → UInt8) : ℕ → UInt8 := fun j =>
  if i ≤ j ∧ j < i + d.length then d.getD (j - i) 0 else b j

theorem guarda_cons (i : ℕ) (c : UInt8) (d : List UInt8) (b : ℕ → UInt8) :
    guarda (i + 1) d (Function.update b i c) = guarda i (c :: d) b := by
  funext j
  rw [guarda, guarda, List.length_cons]
  by_cases hj : j = i
  · subst j
    rw [if_neg (by omega), if_pos (by omega), Nat.sub_self, Function.update_self]
    rfl
  · rw [Function.update_of_ne hj]
    by_cases hin : i + 1 ≤ j ∧ j < i + 1 + d.length
    · obtain ⟨k, rfl⟩ := Nat.exists_eq_add_of_le hin.1
      have hleft : i + 1 + k - (i + 1) = k := by omega
      have hright : i + 1 + k - i = k + 1 := by omega
      rw [if_pos hin, if_pos (by omega), hleft, hright, List.getD_cons_succ]
    · rw [if_neg hin, if_neg (by omega)]

theorem guarda_nil (i : ℕ) (b : ℕ → UInt8) : guarda i [] b = b := by
  funext j
  exact if_neg (by rw [List.length_nil]; omega)

variable (alem) in
theorem recebeByte_payload (c : UInt8) {i : ℕ} (hs : s.kbdState = .kbd88ReadPayload) (hi : s.kbdIndex = i)
    (hn : i ≤ s.kbdSize.toNat) :
    recebeByte alem c s =
      let t := { s with keyBuffer := Function.update s.keyBuffer i c, kbdIndex := i + 1 }
      if i = s.kbdSize.toNat then { kbdFinish0x88 alem t with kbdState := .kbdWaitHdr1 } else t := by
  have hsize := s.kbdSize.toNat_lt
  rw [recebeByte, hs]
  dsimp only
  rw [hi, if_pos (show i < 1048 by omega)]
  by_cases hlast : i = s.kbdSize.toNat
  · rw [if_pos (show i + 1 > s.kbdSize.toNat by omega), if_pos hlast]
  · rw [if_neg (show ¬ i + 1 > s.kbdSize.toNat by omega), if_neg hlast]

variable (alem) in
theorem bytes_payload {d : List UInt8} {i : ℕ} (hd : d ≠ []) (hs : s.kbdState = .kbd88ReadPayload)
    (hi : s.kbdIndex = i) (hn : s.kbdSize.toNat + 1 = i + d.length) (hp : s.kbdPendingChar = none) :
    bytes alem d s =
      let t := kbdFinish0x88 alem { s with keyBuffer := guarda i d s.keyBuffer, kbdIndex := i + d.length }
      ({ t with kbdState := .kbdWaitHdr1, kbdPendingChar := none }, t.kbdPendingChar.toList) := by
  induction d generalizing s i with
  | nil => exact absurd rfl hd
  | cons c d ih =>
      rw [List.length_cons] at hn
      have hbyte := recebeByte_payload alem c hs hi (by omega)
      cases d with
      | nil =>
          rw [List.length_nil] at hn
          rw [bytes, feed_cons, umByte, hbyte, ← guarda_cons, guarda_nil]
          dsimp only
          rw [if_pos (by omega), feed_nil, List.append_nil]
          rfl
      | cons c' d =>
          rw [List.length_cons] at hn
          rw [if_neg (by omega)] at hbyte
          have hround : umByte alem c s =
              ({ s with keyBuffer := Function.update s.keyBuffer i c, kbdIndex := i + 1 }, none) := by
            rw [umByte, hbyte]
            dsimp only
            rw [hp]
          have hrest := ih (s := { s with keyBuffer := Function.update s.keyBuffer i c, kbdIndex := i + 1 })
            (i := i + 1) (List.cons_ne_nil c' d) hs rfl (by rw [List.length_cons]; dsimp only; omega) hp
          have hindex : i + 1 + (c' :: d).length = i + (c :: c' :: d).length := by
            rw [@List.length_cons _ c (c' :: d)]
            omega
          dsimp only at hrest
          rw [guarda_cons, hindex] at hrest
          exact (feed_cons_none hround (c' :: d)).trans hrest

theorem buffer_eq (r : Relatorio) : r.buffer = guarda 1 r.payload fun _ => 0 := by
  funext j
  cases j with
  | zero => exact (if_neg (by omega)).symm
  | succ j =>
      rw [guarda, Nat.add_sub_cancel]
      by_cases hj : j < r.payload.length
      · rw [if_pos (by omega)]
        rfl
      · rw [if_neg (by omega)]
        exact List.getD_eq_default _ _ (Nat.le_of_not_lt hj)

variable (alem) in
theorem bytes_size (r : Relatorio) (hp : s.kbdPendingChar = none) :
    bytes alem (UInt8.ofNat r.payload.length :: r.payload) { s with kbdState := .kbd88WaitSize } =
      r.decodificado alem { s with kbdState := .kbdWaitHdr1 } := by
  have hsize : (UInt8.ofNat r.payload.length).toNat = r.payload.length := UInt8.toNat_ofNat_of_lt' r.cabe
  by_cases hempty : r.payload = []
  · have hzero : UInt8.ofNat r.payload.length = 0 := by
      rw [hempty]
      rfl
    have hbuffer : r.buffer = fun _ => 0 := by
      rw [buffer_eq, hempty, guarda_nil]
    rw [Relatorio.decodificado, Relatorio.lido, hbuffer, hzero, hempty, bytes, feed_cons, feed_nil, List.append_nil]
    rfl
  · have hpos : 0 < UInt8.ofNat r.payload.length := by
      rw [UInt8.lt_iff_toNat_lt, hsize]
      exact List.length_pos_iff.mpr hempty
    have hround : umByte alem (UInt8.ofNat r.payload.length) { s with kbdState := .kbd88WaitSize } =
        ({ s with kbdState := .kbd88ReadPayload, kbdSize := UInt8.ofNat r.payload.length, kbdIndex := 1
                  keyBuffer := fun _ => 0 }, none) := by
      rw [umByte, recebeByte]
      dsimp only
      rw [if_neg (UInt8.pos_iff_ne_zero.mp hpos), if_pos hpos, hp]
    have hstate := kbdFinish0x88_kbdState alem .kbdWaitHdr1
      (s := { s with kbdState := .kbd88ReadPayload, kbdSize := UInt8.ofNat r.payload.length
                     kbdIndex := r.payload.length + 1, keyBuffer := r.buffer })
    have hpayload := bytes_payload alem (i := 1)
      (s := { s with kbdState := .kbd88ReadPayload, kbdSize := UInt8.ofNat r.payload.length, kbdIndex := 1
                     keyBuffer := fun _ => 0 }) hempty rfl rfl (by dsimp only; omega) hp
    dsimp only at hpayload hstate
    rw [← buffer_eq, Nat.add_comm 1] at hpayload
    refine (feed_cons_none hround r.payload).trans (hpayload.trans ?_)
    rw [Relatorio.decodificado, Relatorio.lido, hstate]

theorem bytes_quadro (r : Relatorio) (hs : s.kbdState = .kbdWaitHdr1) (hp : s.kbdPendingChar = none) :
    bytes alem r.quadro s = r.decodificado alem s := by
  have hround (q q' : KbdState) (c : UInt8)
      (h : recebeByte alem c { s with kbdState := q } = { s with kbdState := q' }) :
      umByte alem c { s with kbdState := q } = ({ s with kbdState := q' }, none) := by
    rw [umByte, h]
    dsimp only
    rw [hp]
  have hs' : { s with kbdState := .kbdWaitHdr1 } = s := by rw [← hs]
  have hheader (d : List UInt8) :
      bytes alem (0x57 :: 0xAB :: 0x88 :: d) { s with kbdState := .kbdWaitHdr1 } =
        bytes alem d { s with kbdState := .kbd88WaitSize } := by
    refine (feed_cons_none (hround _ _ 0x57 rfl) _).trans ?_
    refine (feed_cons_none (hround _ _ 0xAB rfl) _).trans ?_
    exact feed_cons_none (hround _ _ 0x88 rfl) _
  have hdecoded := (hheader _).trans (bytes_size alem r hp)
  rwa [hs'] at hdecoded

end Reports

end Orion68.KbdFrames
