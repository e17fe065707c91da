import Mathlib.Data.UInt
import Orion68.Lib.Rings
import Orion68.Lib.Runs

namespace Orion68.RingBuffer

open Runs Rings

section Model

/-- `ringbuffer_t`, with the 256 bytes of its buffer. -/
structure Ringbuffer where
  buffer : UInt8 → UInt8
  head : UInt8
  tail : UInt8

def ringBufInit (buffer : UInt8 → UInt8) : Ringbuffer := ⟨buffer, 0, 0⟩

def ringBufPut (c : UInt8) (rb : Ringbuffer) : Ringbuffer :=
  let nextHead := rb.head + 1
  if nextHead = rb.tail then rb
  else { rb with buffer := Function.update rb.buffer rb.head c, head := nextHead }

/-- Where the consumer is in `ring_buf_is_empty` and in the `ring_buf_get` after it. -/
inductive Ponto
  | fora
  | leuHead (head : UInt8)
  | naoVazio
  | leuTail (tail : UInt8)
  | leuSlot (ret : UInt8)
  | incrementa (ret tail : UInt8)

structure Estado where
  rb : Ringbuffer
  ponto : Ponto

/-- The next access of the consumer to a variable of the buffer. -/
def consome (s : Estado) : Estado :=
  match s.ponto with
  | .fora => { s with ponto := .leuHead s.rb.head }
  | .leuHead head => { s with ponto := if head = s.rb.tail then .fora else .naoVazio }
  | .naoVazio => { s with ponto := .leuTail s.rb.tail }
  | .leuTail tail => { s with ponto := .leuSlot (s.rb.buffer tail) }
  | .leuSlot ret => { s with ponto := .incrementa ret s.rb.tail }
  | .incrementa _ tail => { rb := { s.rb with tail := tail + 1 }, ponto := .fora }

/-- The interrupt handler runs with all interrupts off, so its `ring_buf_put` lands between two accesses
of the consumer. -/
inductive Evento
  | put (c : UInt8)
  | consome

def step : Evento → Estado → Option Estado
  | .put c, s => some { s with rb := ringBufPut c s.rb }
  | .consome, s => some (consome s)

/-- The byte that a `ring_buf_put` takes. -/
def aceito : Evento → Estado → List UInt8
  | .put c, s => if s.rb.head + 1 = s.rb.tail then [] else [c]
  | .consome, _ => []

/-- The byte that a `ring_buf_get` returns. -/
def devolvido : Evento → Estado → List UInt8
  | .consome, ⟨_, .incrementa ret _⟩ => [ret]
  | _, _ => []

def acessos : List Evento → ℕ
  | [] => 0
  | .put _ :: es => acessos es
  | .consome :: es => acessos es + 1

end Model

section Fifo

variable {s : Estado} {q : List UInt8} {first : ℕ}

theorem round_uint8 : Round 256 UInt8.ofNat := by
  intro i j
  rw [← UInt8.toNat_inj, UInt8.toNat_ofNat', UInt8.toNat_ofNat']
  rfl

theorem ofNat_succ (i : ℕ) : UInt8.ofNat i + 1 = UInt8.ofNat (i + 1) := (UInt8.ofNat_add i 1).symm

/-- What the consumer knows where it is; `q` has not been fully consumed. -/
def Sabe (q : List UInt8) (rb : Ringbuffer) : Ponto → Prop
  | .fora => True
  | .leuHead head => head ≠ rb.tail → q ≠ []
  | .naoVazio => q ≠ []
  | .leuTail tail => tail = rb.tail ∧ q ≠ []
  | .leuSlot ret => q.head? = some ret
  | .incrementa ret tail => tail = rb.tail ∧ q.head? = some ret

/-- The bytes that have not been fully consumed are in the buffer from `tail` up to `head`. -/
structure Pendente (s : Estado) (q : List UInt8) : Prop where
  cabe : q.length ≤ 255
  guardado : ∃ first, s.rb.tail = UInt8.ofNat first ∧ s.rb.head = UInt8.ofNat (first + q.length) ∧
    Holds UInt8.ofNat first q s.rb.buffer
  sabe : Sabe q s.rb s.ponto

theorem Sabe.snoc {rb rb' : Ringbuffer} {p : Ponto} (h : Sabe q rb p) (htail : rb'.tail = rb.tail) (c : UInt8) :
    Sabe (q ++ [c]) rb' p := by
  have hne : q ++ [c] ≠ [] := List.append_ne_nil_of_right_ne_nil q (List.cons_ne_nil c [])
  have hhead {ret : UInt8} (h : q.head? = some ret) : (q ++ [c]).head? = some ret := by
    rw [List.head?_append, h]
    rfl
  cases p with
  | fora => trivial
  | leuHead head => exact fun _ => hne
  | naoVazio => exact hne
  | leuTail tail => exact ⟨h.1.trans htail.symm, hne⟩
  | leuSlot ret => exact hhead h
  | incrementa ret tail => exact ⟨h.1.trans htail.symm, hhead h.2⟩

theorem Pendente.cheio_iff (h : Pendente s q) : s.rb.head + 1 = s.rb.tail ↔ q.length = 255 := by
  obtain ⟨first, htail, hhead, -⟩ := h.guardado
  have hle := h.cabe
  rw [htail, hhead, ofNat_succ]
  constructor
  · intro heq
    by_contra hlt
    exact round_uint8.ne (show first < first + q.length + 1 by omega) (by omega) heq.symm
  · intro hfull
    rw [hfull, Nat.add_assoc]
    exact (round_uint8 _ _).mpr (Nat.add_modEq_right)

theorem Pendente.put (h : Pendente s q) (c : UInt8) :
    Pendente { s with rb := ringBufPut c s.rb } (q ++ aceito (.put c) s) := by
  rw [ringBufPut, aceito]
  by_cases hfull : s.rb.head + 1 = s.rb.tail
  · rw [if_pos hfull, if_pos hfull, List.append_nil]
    exact h
  · have hlt : q.length < 255 := Nat.lt_of_le_of_ne h.cabe fun heq => hfull (h.cheio_iff.mpr heq)
    obtain ⟨first, htail, hhead, hholds⟩ := h.guardado
    rw [if_neg hfull, if_neg hfull]
    refine ⟨?_, ⟨first, htail, ?_, ?_⟩, h.sabe.snoc rfl c⟩
    · rw [List.length_append, List.length_singleton]
      exact hlt
    · rw [hhead, ofNat_succ, List.length_append, List.length_singleton, Nat.add_assoc]
    · rw [hhead]
      exact hholds.push round_uint8 (by omega) c

theorem Pendente.ne_nil (h : Pendente s q) (hne : s.rb.head ≠ s.rb.tail) : q ≠ [] := by
  rintro rfl
  obtain ⟨first, htail, hhead, -⟩ := h.guardado
  exact hne (hhead.trans htail.symm)

/-- An access of the consumer keeps what is pending, up to the byte that `ring_buf_get` returns. -/
theorem Pendente.consome (h : Pendente s q) :
    ∃ q', Pendente (RingBuffer.consome s) q' ∧ q = devolvido .consome s ++ q' := by
  obtain ⟨rb, p⟩ := s
  obtain ⟨first, htail, hhead, hholds⟩ := h.guardado
  have hsabe := h.sabe
  cases p with
  | fora => exact ⟨q, ⟨h.cabe, ⟨first, htail, hhead, hholds⟩, h.ne_nil⟩, rfl⟩
  | leuHead head =>
      refine ⟨q, ⟨h.cabe, ⟨first, htail, hhead, hholds⟩, ?_⟩, rfl⟩
      dsimp only [RingBuffer.consome]
      split
      next => trivial
      next hne => exact hsabe hne
  | naoVazio => exact ⟨q, ⟨h.cabe, ⟨first, htail, hhead, hholds⟩, rfl, hsabe⟩, rfl⟩
  | leuTail tail =>
      obtain ⟨hread, hne⟩ : tail = rb.tail ∧ q ≠ [] := hsabe
      obtain ⟨ret, q, rfl⟩ := List.exists_cons_of_ne_nil hne
      refine ⟨ret :: q, ⟨h.cabe, ⟨first, htail, hhead, hholds⟩, ?_⟩, rfl⟩
      dsimp only [RingBuffer.consome, Sabe]
      rw [hread, htail, hholds.head]
      rfl
  | leuSlot ret => exact ⟨q, ⟨h.cabe, ⟨first, htail, hhead, hholds⟩, rfl, hsabe⟩, rfl⟩
  | incrementa ret tail =>
      obtain ⟨hread, hret⟩ : tail = rb.tail ∧ q.head? = some ret := hsabe
      obtain ⟨q, rfl⟩ := List.head?_eq_some_iff.mp hret
      have hcabe := h.cabe
      rw [List.length_cons] at hcabe
      refine ⟨q, ⟨by omega, ⟨first + 1, ?_, ?_, hholds.tail⟩, trivial⟩, rfl⟩
      · rw [← ofNat_succ, ← htail, ← hread]
        rfl
      · rw [Nat.add_right_comm, Nat.add_assoc]
        exact hhead

theorem pendente_init (buffer : UInt8 → UInt8) : Pendente ⟨ringBufInit buffer, .fora⟩ [] :=
  ⟨Nat.zero_le 255, ⟨0, rfl, rfl, holds_nil⟩, trivial⟩

/-- What a put keeps, and an access of the consumer takes on from one place to the next, holds after as
many places as there have been accesses. -/
theorem run_acessos {P : ℕ → Estado → Prop} (hput : ∀ k c s, P k s → P k { s with rb := ringBufPut c s.rb })
    (hconsome : ∀ k s, P k s → P (k + 1) (consome s)) {es : List Evento} {k : ℕ} {s t : Estado} (hs : P k s)
    (hr : run step es s = some t) : P (k + acessos es) t := by
  induction es generalizing k s with
  | nil =>
      cases hr
      exact hs
  | cons e es ih =>
      obtain ⟨u, hu, ht⟩ := run_cons_eq_some.mp hr
      cases e with
      | put c =>
          cases hu
          exact ih (hput k c s hs) ht
      | consome =>
          cases hu
          rw [acessos, Nat.add_comm (acessos es), ← Nat.add_assoc]
          exact ih (hconsome k s hs) ht

theorem ringBufPut_tail (c : UInt8) (rb : Ringbuffer) : (ringBufPut c rb).tail = rb.tail := by
  rw [ringBufPut]
  split <;> rfl

/-- The byte at `tail` is one that has not been consumed. -/
structure Primeiro (c : UInt8) (rb : Ringbuffer) : Prop where
  haByte : rb.head ≠ rb.tail
  byte : rb.buffer rb.tail = c

theorem Primeiro.put {c : UInt8} {rb : Ringbuffer} (h : Primeiro c rb) (novo : UInt8) :
    Primeiro c (ringBufPut novo rb) := by
  rw [ringBufPut]
  split
  next => exact h
  next hne => exact ⟨hne, (Function.update_of_ne h.haByte.symm _ _).trans h.byte⟩

/-- Where the consumer is behind its first access, which has read `head` as `lido`, and so many more, when
`tail` is `cauda`. -/
def Testa (lido cauda : UInt8) : ℕ → Estado → Prop
  | 0, s => s.rb.tail = cauda ∧ s.ponto = .leuHead lido
  | 1, s => s.ponto = if lido = cauda then .fora else .naoVazio
  | _, _ => True

/-- The same up to the last access of `ring_buf_get`, when `c` is the first byte. -/
def Busca (c : UInt8) : ℕ → Estado → Prop
  | 0, s => Primeiro c s.rb ∧ ∃ head, head ≠ s.rb.tail ∧ s.ponto = .leuHead head
  | 1, s => Primeiro c s.rb ∧ s.ponto = .naoVazio
  | 2, s => Primeiro c s.rb ∧ s.ponto = .leuTail s.rb.tail
  | 3, s => s.ponto = .leuSlot c
  | 4, s => ∃ tail, s.ponto = .incrementa c tail
  | _, _ => True

theorem testa_run {es : List Evento} {s t : Estado} (hs : s.ponto = .fora) (hr : run step (.consome :: es) s = some t)
    (hn : acessos es = 1) : t.ponto = if s.rb.head = s.rb.tail then .fora else .naoVazio := by
  have hstart : Testa s.rb.head s.rb.tail 0 (consome s) := by
    rw [consome, hs]
    exact ⟨rfl, rfl⟩
  have hlast := run_acessos (P := Testa s.rb.head s.rb.tail) ?_ ?_ hstart hr
  · rw [hn] at hlast
    exact hlast
  · intro k c u hu
    match k with
    | 0 => exact ⟨(ringBufPut_tail c u.rb).trans hu.1, hu.2⟩
    | 1 => exact hu
    | k + 2 => trivial
  · intro k u hu
    match k with
    | 0 =>
        obtain ⟨htail, hponto⟩ := hu
        rw [Testa, consome, hponto, ← htail]
    | k + 1 => trivial

theorem busca_run {es : List Evento} {s t : Estado} {c : UInt8} (hs : s.ponto = .fora) (hc : Primeiro c s.rb)
    (hr : run step (.consome :: es) s = some t) (hn : acessos es = 4) : devolvido .consome t = [c] := by
  have hstart : Busca c 0 (consome s) := by
    rw [consome, hs]
    exact ⟨hc, _, hc.haByte, rfl⟩
  have hlast := run_acessos (P := Busca c) ?_ ?_ hstart hr
  · rw [hn] at hlast
    obtain ⟨rb, p⟩ := t
    obtain ⟨tail, rfl⟩ : ∃ tail, p = .incrementa c tail := hlast
    rfl
  · intro k novo u hu
    match k with
    | 0 =>
        obtain ⟨hprimeiro, head, hne, hponto⟩ := hu
        exact ⟨hprimeiro.put novo, head, by rw [ringBufPut_tail]; exact hne, hponto⟩
    | 1 => exact ⟨hu.1.put novo, hu.2⟩
    | 2 => exact ⟨hu.1.put novo, by rw [ringBufPut_tail]; exact hu.2⟩
    | 3 | 4 => exact hu
    | k + 5 => trivial
  · intro k u hu
    match k with
    | 0 =>
        obtain ⟨hprimeiro, head, hne, hponto⟩ := hu
        rw [Busca, consome, hponto]
        exact ⟨hprimeiro, if_neg hne⟩
    | 1 =>
        rw [Busca, consome, hu.2]
        exact ⟨hu.1, rfl⟩
    | 2 =>
        rw [Busca, consome, hu.2]
        exact congrArg Ponto.leuSlot hu.1.byte
    | 3 =>
        rw [Busca, consome, hu]
        exact ⟨_, rfl⟩
    | k + 4 => trivial

theorem Pendente.vazio_iff (h : Pendente s q) : s.rb.head = s.rb.tail ↔ q = [] := by
  refine ⟨fun heq => ?_, fun hq => ?_⟩
  · by_contra hne
    obtain ⟨first, htail, hhead, -⟩ := h.guardado
    have hpos := List.length_pos_iff.mpr hne
    have hle := h.cabe
    rw [htail, hhead] at heq
    exact round_uint8.ne (show first < first + q.length by omega) (by omega) heq.symm
  · by_contra hne
    exact h.ne_nil hne hq

theorem Pendente.primeiro {c : UInt8} (h : Pendente s (c :: q)) : Primeiro c s.rb := by
  refine ⟨fun heq => List.cons_ne_nil c q (h.vazio_iff.mp heq), ?_⟩
  obtain ⟨first, htail, -, hholds⟩ := h.guardado
  rw [htail]
  exact hholds.head

/-- However puts fall between the accesses of the consumer, the bytes that are returned are those that
were accepted, in order, up to those that are pending; a put is refused only when these are 255. The
consumer is told that there is none exactly when none was pending as `head` was read, and otherwise
returns the first that was. -/
theorem ring_buf_fifo (buffer : UInt8 → UInt8) (es : List Evento) :
    ∃ s q, run step es ⟨ringBufInit buffer, .fora⟩ = some s ∧
      outputs step aceito es ⟨ringBufInit buffer, .fora⟩ =
        outputs step devolvido es ⟨ringBufInit buffer, .fora⟩ ++ q ∧
      q.length ≤ 255 ∧ (∀ c, aceito (.put c) s = [] → q.length = 255) ∧
      (s.ponto = .fora → ∀ es' t, run step (.consome :: es') s = some t →
        (acessos es' = 1 → t.ponto = if q = [] then .fora else .naoVazio) ∧
        (acessos es' = 4 → ∀ c, q.head? = some c → devolvido .consome t = [c])) := by
  have hstep (e : Evento) (s t : Estado) (q : List UInt8) (h : Pendente s q) (ht : step e s = some t) :
      ∃ q', Pendente t q' ∧ q ++ aceito e s = devolvido e s ++ q' := by
    cases e with
    | put c =>
        obtain rfl := Option.some.inj ht
        exact ⟨q ++ aceito (.put c) s, h.put c, rfl⟩
    | consome =>
        obtain rfl := Option.some.inj ht
        obtain ⟨q', hq', heq⟩ := h.consome
        exact ⟨q', hq', (List.append_nil q).trans heq⟩
  have htotal (e : Evento) (s : Estado) : ∃ t, step e s = some t := by
    cases e <;> exact ⟨_, rfl⟩
  obtain ⟨s, hrun, -⟩ := run_total (I := fun _ => True)
    (fun e s _ => (htotal e s).imp fun _ ht => ⟨ht, trivial⟩) es (s := ⟨ringBufInit buffer, .fora⟩) trivial
  obtain ⟨q, hq, heq⟩ := run_fifo hstep (pendente_init buffer) hrun
  rw [List.nil_append] at heq
  refine ⟨s, q, hrun, heq, hq.cabe, fun c hc => hq.cheio_iff.mp ?_, fun hs es' t hr => ⟨fun hn => ?_, fun hn c hc => ?_⟩⟩
  · by_contra hne
    rw [aceito, if_neg hne] at hc
    cases hc
  · rw [testa_run hs hr hn]
    simp only [hq.vazio_iff]
  · obtain ⟨q', rfl⟩ := List.head?_eq_some_iff.mp hc
    exact busca_run hs hq.primeiro hr hn

end Fifo

end Orion68.RingBuffer
