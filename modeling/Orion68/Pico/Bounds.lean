import Orion68.Pico.BlockOwners

namespace Orion68.PicoBounds

open Ownership Runs PicoServer PicoBlockOwners

theorem store_length (off : Nat) (bytes block : List UInt8) :
    (store off bytes block).length = block.length := by
  simp only [store, List.length_append, List.length_take, List.length_drop]
  omega

theorem strncpy_length (src : List UInt8) (n : Nat) : (strncpy src n).length = n := by
  have hle : ((src.take n).takeWhile (· ≠ 0)).length ≤ n :=
    Nat.le_trans (List.takeWhile_sublist _).length_le (by rw [List.length_take]; omega)
  simp only [strncpy, List.length_append, List.length_replicate]
  omega

theorem sizeofFile_add {n : UInt32} (hn : n.toNat + 21 < 2 ^ 32) :
    (sizeofFile + n).toNat = 21 + n.toNat := by
  have h21 : sizeofFile.toNat = 21 := rfl
  rw [UInt32.toNat_add, h21]
  exact Nat.mod_eq_of_lt (by omega)

theorem sizeofFile_add_wraps {n : UInt32} (hn : 2 ^ 32 ≤ n.toNat + 21) :
    (sizeofFile + n).toNat < 21 := by
  have h21 : sizeofFile.toNat = 21 := rfl
  have hlt := n.toNat_lt
  rw [UInt32.toNat_add, h21]
  omega

/-- A block that a connection receives into holds the file it has declared, and the bytes
received so far fit. -/
def Sized (es : ConexaoEstado) (block : List UInt8) : Prop :=
  block.length = 21 + es.tamanhoTotal.toNat ∧ es.tamanhoTotal.toNat + 21 < 2 ^ 32 ∧
    es.bytesRecebidos.toNat ≤ es.tamanhoTotal.toNat

/-- The header declares so little that the size of the block does not wrap around, and the
bytes fit into what is left of the declared size. -/
def FitsEs (es : ConexaoEstado) (dados : List UInt8) (malloc : Option (Nat → UInt8)) : Prop :=
  match es.estado with
  | .esperaCabecalho => tamanhoCabecalho ≤ dados.length → malloc.isSome →
      (ofLe32 dados).toNat + 21 < 2 ^ 32 ∧ dados.length - tamanhoCabecalho ≤ (ofLe32 dados).toNat
  | .esperaDados => es.bytesRecebidos.toNat + dados.length ≤ es.tamanhoTotal.toNat
  | .concluido => True

def Fits : Event → Server → Prop
  | .segment c p malloc, s => s.pcbs c = .aberto → ∀ es, s.conexoes.cell c = some es →
      FitsEs es p.first.payload malloc
  | _, _ => True

section Writes

variable {s : Server} {es : ConexaoEstado} {p : FilePtr} {b : List UInt8}

theorem copia_overflow (hb : es.bufferRam = some p) (hp : s.arquivos.cell p = some b)
    (hs : Sized es b) (dados : List UInt8) :
    (copia dados es s).2.overflow =
      (s.overflow || decide (es.tamanhoTotal.toNat < es.bytesRecebidos.toNat + dados.length)) := by
  obtain ⟨hlen, -, hle⟩ := hs
  have h21 : sizeofFile.toNat = 21 := rfl
  rw [copia_eq s es p dados hb]
  split
  next hd =>
    subst hd
    have hn : ¬ es.tamanhoTotal.toNat < es.bytesRecebidos.toNat := by omega
    simp [hn]
  next =>
    simp only [write_eq, hp, Option.any_some, hlen, h21]
    congr 2
    exact propext (by omega)

theorem publica_overflow (hp : s.arquivos.cell p = some b) (hq : s.arquivoBuffer ≠ some p)
    (hb : 8 ≤ b.length) : (publica es p s).overflow = s.overflow := by
  have h8 : ¬ b.length < 8 := by omega
  have h4 : ¬ b.length < 4 := by omega
  cases hbuf : s.arquivoBuffer with
  | none => simp [publica, write_eq, hbuf, hp, le32, store_length, h8, h4]
  | some q =>
      have hqp : p ≠ q := by
        rintro rfl
        exact hq hbuf
      simp [publica, write_eq, freeFile_eq, hbuf, hp, hqp, le32, store_length, h8, h4]

theorem copia_block (hb : es.bufferRam = some p) (hp : s.arquivos.cell p = some b) (dados : List UInt8) :
    ∃ b', (copia dados es s).2.arquivos.cell p = some b' ∧ b'.length = b.length := by
  rw [copia_arquivos dados hb]
  split
  · exact ⟨b, hp, rfl⟩
  · exact ⟨store (sizeofFile.toNat + es.bytesRecebidos.toNat) dados b, by simp [hp], store_length _ _ _⟩

theorem copia_other (hb : es.bufferRam = some p) {q : FilePtr} (hqp : q ≠ p) (dados : List UInt8) :
    (copia dados es s).2.arquivos.cell q = s.arquivos.cell q := by
  rw [copia_arquivos dados hb]
  split
  · rfl
  · simp [hqp]

theorem publica_other {q : FilePtr} (hqp : q ≠ p) (h : (publica es p s).arquivos.cell q = some b) :
    s.arquivos.cell q = some b := by
  rw [publica_arquivos] at h
  cases hbuf : s.arquivoBuffer with
  | none => simpa [hbuf, hqp] using h
  | some q' =>
      by_cases hq' : q = q'
      · subst hq'
        simp [hbuf, hqp] at h
      · simpa [hbuf, hqp, hq'] using h

theorem overflow_mono {dados : List UInt8} (h : s.overflow = true) :
    (recebeDados dados es s).2.overflow = true := by
  have hcopia : (copia dados es s).2.overflow = true := by
    rw [copia]
    split
    · exact h
    · cases es.bufferRam <;> simp [Server.deref, write_eq, h]
  have hpublica {es : ConexaoEstado} {p : FilePtr} {s : Server} (h : s.overflow = true) :
      (publica es p s).overflow = true := by
    cases hq : s.arquivoBuffer <;> simp [publica, write_eq, freeFile_eq, hq, h]
  simp only [recebeDados, verifica]
  split
  · cases hp : (copia dados es s).1.pfh with
    | none => exact hcopia
    | some p => exact hpublica hcopia
  · exact hcopia

end Writes

def AllSized (s : Server) : Prop :=
  ∀ ⦃c es p b⦄, s.conexoes.cell c = some es → es.estado = .esperaDados → es.pfh = some p →
    s.arquivos.cell p = some b → Sized es b

section Writeback

variable {s s' : Server} {c : EsPtr} {es es' : ConexaoEstado} {p : FilePtr}

variable (es) in
theorem sized_setEs (hlive : s.conexoes.Live c) (h : AllSized (s.setEs c es))
    (hcon : s'.conexoes = s.conexoes)
    (hne : ∀ d q, d ≠ c → owner (s.setEs c es) (some d) = some q → q ≠ p)
    (hkeep : ∀ q b, q ≠ p → s'.arquivos.cell q = some b → s.arquivos.cell q = some b)
    (hnew : es'.estado = .esperaDados → es'.pfh = some p ∧
      ∀ b, s'.arquivos.cell p = some b → Sized es' b) : AllSized (s'.setEs c es') := by
  have hlive' : s'.conexoes.Live c := hcon ▸ hlive
  intro d e q b hd he hq hb
  rw [cell_setEs hlive'] at hd
  by_cases hdc : d = c
  · obtain rfl : es' = e := by simpa [hdc] using hd
    obtain ⟨hp, hs⟩ := hnew he
    obtain rfl : p = q := by simpa [hp] using hq
    exact hs b hb
  · rw [if_neg hdc, hcon] at hd
    have hd' : (s.setEs c es).conexoes.cell d = some e := by rw [cell_setEs hlive, if_neg hdc, hd]
    exact h hd' he hq (hkeep q b (hne d q hdc (by simp [owner, hd', he, hq])) hb)

theorem recebeDados_sized (h : Inv (s.setEs c es)) (hs : AllSized (s.setEs c es))
    (hlive : s.conexoes.Live c) (he : es.estado = .esperaDados) (dados : List UInt8) :
    let r := recebeDados dados es s
    r.2.overflow = (s.overflow || decide (es.tamanhoTotal.toNat < es.bytesRecebidos.toNat + dados.length)) ∧
      (es.bytesRecebidos.toNat + dados.length ≤ es.tamanhoTotal.toNat → AllSized (r.2.setEs c r.1)) := by
  obtain ⟨p, hp, hb, hown, hpl⟩ := h.block hlive he
  obtain ⟨b, hblock⟩ := Option.isSome_iff_exists.mp hpl
  have hcell : (s.setEs c es).conexoes.cell c = some es := by simp [cell_setEs hlive]
  have hsized : Sized es b := hs hcell he hp hblock
  have hover := copia_overflow hb hblock hsized dados
  have hq : s.arquivoBuffer ≠ some p := fun hq => by cases h.own.inj hown (show owner _ none = _ from hq)
  obtain ⟨b₁, hb₁, hlen₁⟩ := copia_block hb hblock dados
  have hne : ∀ d q, d ≠ c → owner (s.setEs c es) (some d) = some q → q ≠ p := by
    rintro d q hdc hd rfl
    exact hdc (Option.some.inj (h.own.inj hd hown))
  obtain ⟨hlen, hn, hle⟩ := hsized
  simp only [recebeDados, verifica]
  split
  next =>
    simp only [copia_pfh, hp, Server.deref]
    refine ⟨?_, fun hfit => sized_setEs es hlive hs (by simp) hne ?_ (fun hc => by cases hc)⟩
    · rw [publica_overflow hb₁ (by simpa using hq) (by omega), hover]
    · intro q b' hqp hq
      rw [← copia_other hb hqp dados]
      exact publica_other hqp hq
  next =>
    refine ⟨hover, fun hfit => sized_setEs es hlive hs (by simp) hne
      (fun q b' hqp hq => by rwa [copia_other hb hqp] at hq) fun _ => ⟨by simpa using hp, ?_⟩⟩
    intro b' hb'
    obtain rfl : b₁ = b' := by simpa [hb₁] using hb'
    refine ⟨by rw [hlen₁, hlen, copia_tamanhoTotal], by simpa using hn, ?_⟩
    rw [copia_bytesRecebidos, Nat.mod_eq_of_lt (by omega), copia_tamanhoTotal]
    exact hfit

theorem freeEs_sized (hs : AllSized s) {pcb : Pcb} : AllSized (s.freeEs c pcb) := by
  intro d e q b hd
  by_cases hdc : d = c
  · simp [Server.freeEs, hdc] at hd
  · exact hs (by simpa [Server.freeEs, hdc] using hd)

theorem recebeCabecalho_sized (h : Inv s) (hs : AllSized s) (hc : s.conexoes.cell c = some es)
    (dados : List UInt8) (memoria : Nat → UInt8) :
    let r := recebeCabecalho dados memoria s
    r.2.overflow = (s.overflow || decide (2 ^ 32 ≤ (ofLe32 dados).toNat + 21)) ∧
      ((ofLe32 dados).toNat + 21 < 2 ^ 32 → AllSized (r.2.setEs c r.1)) := by
  have hlive : s.conexoes.Live c := .of_cell hc
  have hwrap : (sizeofFile + ofLe32 dados).toNat < 21 ↔ 2 ^ 32 ≤ (ofLe32 dados).toNat + 21 := by
    refine ⟨?_, sizeofFile_add_wraps⟩
    intro hlt
    by_contra hn
    rw [sizeofFile_add (by omega)] at hlt
    omega
  refine ⟨?_, fun hn => sized_setEs es (p := s.arquivos.next) hlive (by rwa [setEs_self hc])
    (by simp [recebeCabecalho, write_eq]) ?_ ?_ fun _ => ⟨rfl, ?_⟩⟩
  · simp only [recebeCabecalho, write_eq, Heap.cell_alloc, Heap.cell_modify, Function.update_self,
      Option.map_some, Option.any_some, store_length, strncpy_length, List.length_map,
      List.length_range, List.length_singleton, Bool.or_assoc]
    congr 1
    generalize (sizeofFile + ofLe32 dados).toNat = m at hwrap ⊢
    rw [← Bool.decide_or, decide_eq_decide]
    omega
  · intro d q _ hd
    rw [setEs_self hc] at hd
    exact (Nat.ne_of_lt (h.own.live hd).lt_next)
  · intro q b hq hb
    simpa [recebeCabecalho, write_eq, hq] using hb
  · intro b hb
    have hlen : b.length = (sizeofFile + ofLe32 dados).toNat := by
      simp only [recebeCabecalho, write_eq, Heap.cell_alloc, Heap.cell_modify, Function.update_self,
        Option.map_some, Option.some.injEq] at hb
      rw [← hb, store_length, store_length, List.length_map, List.length_range]
    rw [sizeofFile_add hn] at hlen
    exact ⟨hlen, hn, Nat.zero_le _⟩

theorem cabecalho_dados_sized (h : Inv s) (hs : AllSized s) (hc : s.conexoes.cell c = some es)
    (he : es.estado = .esperaCabecalho) (dados : List UInt8) (memoria : Nat → UInt8) :
    let r := recebeCabecalho dados memoria s
    let r' := recebeDados (dados.drop tamanhoCabecalho) r.1 r.2
    let fits := (ofLe32 dados).toNat + 21 < 2 ^ 32 ∧
      dados.length - tamanhoCabecalho ≤ (ofLe32 dados).toNat
    (fits → AllSized (r'.2.setEs c r'.1) ∧ r'.2.overflow = s.overflow) ∧
      (¬ fits → r'.2.overflow = true) := by
  obtain ⟨h₁, hcon, -⟩ := recebeCabecalho_inv h hc he dados memoria
  obtain ⟨hover₁, hsized₁⟩ := recebeCabecalho_sized h hs hc dados memoria
  have hlive : (recebeCabecalho dados memoria s).2.conexoes.Live c := by simp [hcon, Heap.Live, hc]
  by_cases hn : (ofLe32 dados).toNat + 21 < 2 ^ 32
  · obtain ⟨hover, hsized⟩ := recebeDados_sized h₁ (hsized₁ hn) hlive rfl (dados.drop tamanhoCabecalho)
    have htotal : (recebeCabecalho dados memoria s).1.tamanhoTotal.toNat = (ofLe32 dados).toNat := rfl
    have hnone : (recebeCabecalho dados memoria s).1.bytesRecebidos.toNat = 0 := rfl
    rw [htotal, hnone, Nat.zero_add, List.length_drop] at hover hsized
    rw [hover₁, decide_eq_false (Nat.not_le.mpr hn), Bool.or_false] at hover
    constructor
    · intro hfit
      rw [decide_eq_false (Nat.not_lt.mpr hfit.2), Bool.or_false] at hover
      exact ⟨hsized hfit.2, hover⟩
    · intro hfit
      have hmore : (ofLe32 dados).toNat < dados.length - tamanhoCabecalho := by
        by_contra hle
        exact hfit ⟨hn, Nat.not_lt.mp hle⟩
      rw [decide_eq_true hmore, Bool.or_true] at hover
      exact hover
  · constructor
    · intro hfit
      exact absurd hfit.1 hn
    · intro _
      apply overflow_mono
      rw [hover₁, decide_eq_true (Nat.not_lt.mp hn), Bool.or_true]

theorem segment_sized (h : Inv s) (hs : AllSized s) (hc : s.conexoes.cell c = some es)
    (p : PbufChain) (malloc : Option (Nat → UInt8)) :
    let s' := tcpServerRecv c (some p) malloc s
    (FitsEs es p.first.payload malloc → AllSized s' ∧ s'.overflow = s.overflow) ∧
      (¬ FitsEs es p.first.payload malloc → s'.overflow = true) := by
  cases he : es.estado with
  | concluido => simpa [tcpServerRecv, hc, he, FitsEs] using hs
  | esperaDados =>
      have hlive : s.conexoes.Live c := .of_cell hc
      obtain ⟨hover, hsized⟩ := recebeDados_sized (by rwa [setEs_self hc]) (by rwa [setEs_self hc])
        hlive he p.first.payload
      simp only [tcpServerRecv, hc, he, FitsEs]
      constructor
      · intro hfit
        rw [decide_eq_false (Nat.not_lt.mpr hfit), Bool.or_false] at hover
        exact ⟨hsized hfit, hover⟩
      · intro hfit
        rw [decide_eq_true (Nat.not_le.mp hfit), Bool.or_true] at hover
        exact hover
  | esperaCabecalho =>
      by_cases hlen : tamanhoCabecalho ≤ p.first.payload.length
      swap
      · simpa [tcpServerRecv, hc, he, FitsEs, hlen] using hs
      cases malloc with
      | none =>
          simp only [tcpServerRecv, hc, he, hlen, if_true, FitsEs]
          exact ⟨fun _ => ⟨freeEs_sized hs, rfl⟩, fun hn => absurd (by simp) hn⟩
      | some memoria =>
          simp only [tcpServerRecv, hc, he, hlen, if_true, FitsEs, Option.isSome_some, forall_const]
          exact cabecalho_dados_sized h hs hc he p.first.payload memoria

theorem close_sized (hs : AllSized s) (malloc : Option (Nat → UInt8)) :
    AllSized (tcpServerRecv c none malloc s) ∧ (tcpServerRecv c none malloc s).overflow = s.overflow := by
  have hfile {p : FilePtr} : AllSized (s.freeFile p) := by
    intro d e q b hd he hq hb
    rw [freeFile_eq] at hd hb
    by_cases hqp : q = p
    · simp [hqp] at hb
    · exact hs hd he hq (by simpa [hqp] using hb)
  cases hc : s.conexoes.cell c with
  | none =>
      simp only [tcpServerRecv, hc]
      exact ⟨hs, trivial⟩
  | some es =>
      simp only [tcpServerRecv, hc]
      split
      · cases es.pfh with
        | none => exact ⟨freeEs_sized hs, rfl⟩
        | some p => exact ⟨freeEs_sized hfile, by simp [Server.freeEs, freeFile_eq]⟩
      · exact ⟨freeEs_sized hs, rfl⟩

end Writeback

theorem accept_sized {s : Server} (hs : AllSized s) (ok calloc : Bool) :
    AllSized (tcpServerAccept ok calloc s) ∧ (tcpServerAccept ok calloc s).overflow = s.overflow := by
  rw [tcpServerAccept]
  split
  · refine ⟨?_, rfl⟩
    intro d e q b hd he
    by_cases hdn : d = s.conexoes.next
    · obtain rfl := by simpa [hdn] using hd
      cases he
    · exact hs (by simpa [hdn] using hd) he
  · exact ⟨hs, rfl⟩

/-- Every write has landed in the block it was meant for, and no freed block has been used. -/
structure InBounds (s : Server) : Prop where
  overflow : s.overflow = false
  misuse : s.misuse = false

theorem step_fits {s s' : Server} (h : Inv s) (hs : AllSized s) {e : Event} (hF : Fits e s)
    (hU : Unrefused e s) (hstep : step e s = some s') : AllSized s' ∧ s'.overflow = s.overflow := by
  cases e with
  | accept ok calloc =>
      obtain rfl := Option.some.inj hstep
      exact accept_sized hs ok calloc
  | segment c p malloc =>
      cases hp : s.pcbs c <;> simp only [step, hp, Option.some.injEq] at hstep <;> subst hstep
      · exact ⟨hs, rfl⟩
      · obtain ⟨es, hc⟩ := Option.isSome_iff_exists.mp ((h.aberto c).mpr hp)
        exact (segment_sized h hs hc p malloc).1 (hF hp es hc)
      · exact ⟨hs, rfl⟩
  | redeliver c malloc =>
      cases hp : s.pcbs c <;> simp only [step, hp, Option.some.injEq] at hstep
      · exact hstep ▸ ⟨hs, rfl⟩
      · exact hstep ▸ ⟨hs, rfl⟩
      · exact absurd hp (hU _)
  | peerClose c =>
      cases hp : s.pcbs c <;> simp only [step, hp, Option.some.injEq] at hstep
      · exact hstep ▸ ⟨hs, rfl⟩
      · exact hstep ▸ close_sized hs none
      · exact absurd hp (hU _)

theorem step_overflows {s s' : Server} (h : Inv s) (hs : AllSized s) {e : Event} (hF : ¬ Fits e s)
    (hstep : step e s = some s') : s'.overflow = true := by
  cases e with
  | segment c p malloc =>
      simp only [Fits, not_forall] at hF
      obtain ⟨hp, es, hc, hfit⟩ := hF
      simp only [step, hp, Option.some.injEq] at hstep
      exact hstep ▸ (segment_sized h hs hc p malloc).2 hfit
  | accept ok calloc => exact absurd trivial hF
  | redeliver c malloc => exact absurd trivial hF
  | peerClose c => exact absurd trivial hF

/-- Nothing is written outside the blocks in exactly the runs in which no peer sends more than it
has declared or declares so much that the size of the block wraps around, and no connection is
called back after its state has been freed. -/
theorem writes_in_bounds_iff (es : List Event) :
    Throughout step InBounds es inicial ↔
      Along step (fun e s => Fits e s ∧ Unrefused e s) es inicial := by
  refine throughout_iff_along (I := fun s => (Inv s ∧ AllSized s) ∧ InBounds s) (fun s h => h.2) ?_ ?_
    es ⟨⟨inicial_inv, fun c es p b hc => by simp [inicial, Heap.empty] at hc⟩, rfl, rfl⟩
  · rintro e s ⟨⟨h, hs⟩, hb⟩ ⟨hF, hU⟩
    obtain ⟨s', hstep, h'⟩ := step_inv h e
    obtain ⟨hs', hover⟩ := step_fits h hs hF hU hstep
    exact ⟨s', hstep, ⟨h', hs'⟩, hover.trans hb.overflow, step_unrefused h hb.misuse hU hstep⟩
  · rintro e s s' ⟨⟨h, hs⟩, -⟩ hC hstep hb
    by_cases hF : Fits e s
    · have := step_refused h (fun hU => hC ⟨hF, hU⟩) hstep
      simp [hb.misuse] at this
    · have := step_overflows h hs hF hstep
      simp [hb.overflow] at this

/-- The header declares an empty file, and one byte of payload follows in the same segment. -/
theorem undeclared_byte_overflows : ¬ ∀ es, Throughout step InBounds es inicial := by
  intro h
  have hrun : ∃ s, run step [.accept true true,
      .segment 0 ⟨⟨List.replicate 17 0, by decide⟩, []⟩ (some fun _ => 0)] inicial = some s ∧
      s.overflow = true := ⟨_, rfl, by decide +kernel⟩
  obtain ⟨s, hs, ho⟩ := hrun
  have := ((h _).last hs).overflow
  simp [ho] at this

end Orion68.PicoBounds
