import Orion68.Pico.Server

namespace Orion68.PicoBlockOwners

open Ownership Runs PicoServer

/-- Who has to free a block: the global pointer, or a connection that is still receiving. -/
def owner (s : Server) : Option EsPtr → Option FilePtr
  | none => s.arquivoBuffer
  | some c => (s.conexoes.cell c).bind fun es => if es.estado = .esperaDados then es.pfh else none

structure Inv (s : Server) : Prop where
  own : Exclusive (owner s) s.arquivos
  receiving : ∀ {c es}, s.conexoes.cell c = some es → es.estado = .esperaDados →
    ∃ p, es.pfh = some p ∧ es.bufferRam = some p
  waiting : ∀ {c es}, s.conexoes.cell c = some es → es.estado = .esperaCabecalho → es.pfh = none
  aberto : ∀ c, s.conexoes.Live c ↔ s.pcbs c = .aberto

theorem inicial_inv : Inv inicial :=
  ⟨.empty fun i => by cases i <;> rfl, fun h => by simp [inicial, Heap.empty] at h,
    fun h => by simp [inicial, Heap.empty] at h, fun c => by simp [inicial, Heap.empty, Heap.Live]⟩

section Receive

variable {s : Server} {c : EsPtr} {es : ConexaoEstado}

theorem setEs_self (hc : s.conexoes.cell c = some es) : s.setEs c es = s := by
  have he : (s.conexoes.modify c fun _ => es) = s.conexoes :=
    Heap.eq_of_cell (by rw [Heap.cell_modify, hc, Option.map_some, ← hc, Function.update_eq_self]) rfl
  simp [Server.setEs, he]

theorem freeEs_inv (h : Inv s) {s' : Server} {pcb : Pcb} (hpcb : pcb ≠ .aberto)
    (hs : s'.conexoes = s.conexoes ∧ s'.pcbs = s.pcbs ∧ s'.arquivoBuffer = s.arquivoBuffer)
    (ha : s'.arquivos = (owner s (some c)).elim s.arquivos s.arquivos.free) :
    Inv (s'.freeEs c pcb) := by
  obtain ⟨hcon, hpcbs, hbuf⟩ := hs
  have hown : owner (s'.freeEs c pcb) = Function.update (owner s) (some c) none := by
    funext i
    cases i with
    | none => exact hbuf
    | some d => by_cases hd : d = c <;> simp [owner, Server.freeEs, hcon, hd]
  have hcell {d : EsPtr} {es' : ConexaoEstado} (hd : (s'.freeEs c pcb).conexoes.cell d = some es') :
      s.conexoes.cell d = some es' := by
    by_cases hdc : d = c
    · simp [Server.freeEs, hdc] at hd
    · simpa [Server.freeEs, hcon, hdc] using hd
  refine ⟨?_, fun hd => h.receiving (hcell hd), fun hd => h.waiting (hcell hd), ?_⟩
  · rw [hown]
    change Exclusive _ s'.arquivos
    rw [ha]
    cases hp : owner s (some c) with
    | none =>
        have hsame : Function.update (owner s) (some c) none = owner s := by
          rw [← hp, Function.update_eq_self]
        rw [hsame]
        exact h.own
    | some p => exact h.own.free hp
  · intro d
    change (s'.conexoes.free c).Live d ↔ Function.update s'.pcbs c pcb d = .aberto
    rw [hcon, hpcbs, Heap.live_free, h.aberto d]
    by_cases hdc : d = c <;> simp [hdc, hpcb]

end Receive

section Writeback

variable {s s' : Server} {c : EsPtr} {es es' : ConexaoEstado} (hc : s.conexoes.Live c)
include hc

theorem cell_setEs (es : ConexaoEstado) (d : EsPtr) :
    (s.setEs c es).conexoes.cell d = if d = c then some es else s.conexoes.cell d := by
  obtain ⟨es₀, h₀⟩ := Option.isSome_iff_exists.mp hc
  by_cases hd : d = c <;> simp [Server.setEs, hd, h₀]

variable (es) in
theorem owner_setEs (hcon : s'.conexoes = s.conexoes) :
    owner (s'.setEs c es') = Function.update (Function.update (owner (s.setEs c es)) none
      s'.arquivoBuffer) (some c) (if es'.estado = .esperaDados then es'.pfh else none) := by
  have hc' : s'.conexoes.Live c := hcon ▸ hc
  funext i
  cases i with
  | none => rfl
  | some d => by_cases hd : d = c <;> simp [owner, cell_setEs hc, cell_setEs hc', hcon, hd]

theorem setEs_inv (h : Inv (s.setEs c es)) (hcon : s'.conexoes = s.conexoes)
    (hpcbs : s'.pcbs = s.pcbs) (hown : Exclusive (owner (s'.setEs c es')) s'.arquivos)
    (hrec : es'.estado = .esperaDados → ∃ p, es'.pfh = some p ∧ es'.bufferRam = some p)
    (hwait : es'.estado = .esperaCabecalho → es'.pfh = none) : Inv (s'.setEs c es') := by
  have hc' : s'.conexoes.Live c := hcon ▸ hc
  have hcell {d : EsPtr} {e : ConexaoEstado} (hd : (s'.setEs c es').conexoes.cell d = some e) :
      (d = c ∧ e = es') ∨ (s.setEs c es).conexoes.cell d = some e := by
    rw [cell_setEs hc'] at hd
    by_cases hdc : d = c
    · exact .inl ⟨hdc, by simpa [hdc, eq_comm] using hd⟩
    · exact .inr (by rw [cell_setEs hc]; simpa [hdc, hcon] using hd)
  refine ⟨hown, ?_, ?_, ?_⟩
  · intro d e hd he
    rcases hcell hd with ⟨-, rfl⟩ | hd
    · exact hrec he
    · exact h.receiving hd he
  · intro d e hd he
    rcases hcell hd with ⟨-, rfl⟩ | hd
    · exact hwait he
    · exact h.waiting hd he
  · intro d
    have hd := h.aberto d
    simp only [Server.setEs, Heap.live_modify] at hd ⊢
    rw [hcon, hpcbs, hd]

end Writeback

section Data

variable {s : Server} {c : EsPtr} {es : ConexaoEstado}

theorem recebeCabecalho_inv (h : Inv s) (hc : s.conexoes.cell c = some es)
    (he : es.estado = .esperaCabecalho) (dados : List UInt8) (memoria : Nat → UInt8) :
    let r := recebeCabecalho dados memoria s
    Inv (r.2.setEs c r.1) ∧ r.2.conexoes = s.conexoes ∧ r.2.misuse = s.misuse := by
  have hlive : s.conexoes.Live c := .of_cell hc
  have hnone : owner s (some c) = none := by simp [owner, hc, he]
  have h' : Inv (s.setEs c es) := by rwa [setEs_self hc]
  refine ⟨setEs_inv hlive h' ?_ ?_ ?_ ?_ ?_, ?_, ?_⟩
  · simp [recebeCabecalho, write_eq]
  · simp [recebeCabecalho, write_eq]
  · rw [owner_setEs es hlive (by simp [recebeCabecalho, write_eq]), setEs_self hc]
    have hbuf : Function.update (owner s) none s.arquivoBuffer = owner s :=
      Function.update_eq_self none (owner s)
    have hex := (h.own.alloc hnone
      ((List.range (sizeofFile + ofLe32 dados).toNat).map memoria)).modify s.arquivos.next
      (store 8 (strncpy ((dados.drop 4).take 12 ++ [0]) 12)) |>.modify s.arquivos.next (store 20 [0])
    simpa [recebeCabecalho, write_eq, hbuf] using hex
  · intro _
    exact ⟨s.arquivos.next, rfl, rfl⟩
  · intro hw
    cases hw
  · simp [recebeCabecalho, write_eq]
  · simp [recebeCabecalho, write_eq]

theorem Inv.block (h : Inv (s.setEs c es)) (hlive : s.conexoes.Live c) (he : es.estado = .esperaDados) :
    ∃ p, es.pfh = some p ∧ es.bufferRam = some p ∧ owner (s.setEs c es) (some c) = some p ∧
      s.arquivos.Live p := by
  have hcell : (s.setEs c es).conexoes.cell c = some es := by simp [cell_setEs hlive]
  obtain ⟨p, hp, hb⟩ := h.receiving hcell he
  have hown : owner (s.setEs c es) (some c) = some p := by simp [owner, hcell, he, hp]
  exact ⟨p, hp, hb, hown, h.own.live hown⟩

theorem copia_inv (h : Inv (s.setEs c es)) (hlive : s.conexoes.Live c) (he : es.estado = .esperaDados)
    (dados : List UInt8) :
    let r := copia dados es s
    Inv (r.2.setEs c r.1) ∧ r.2.misuse = s.misuse := by
  obtain ⟨p, hp, hb, hown, hpl⟩ := h.block hlive he
  have hbuf : Function.update (owner (s.setEs c es)) none s.arquivoBuffer = owner (s.setEs c es) :=
    Function.update_eq_self none _
  refine ⟨setEs_inv hlive h (by simp) (by simp) ?_ (fun _ => ⟨p, by simp [hp], by simp [hb]⟩)
    (fun hw => by simp [he] at hw), ?_⟩
  · rw [owner_setEs es hlive (by simp)]
    simp only [copia_estado, he, if_true, copia_pfh, hp, copia_arquivoBuffer, hbuf]
    rw [← hown, Function.update_eq_self, copia_arquivos dados hb]
    split
    · exact h.own
    · exact h.own.modify _ _
  · exact copia_misuse dados hb hpl

/-- The previous file is freed once, and the block passes from the connection to the global pointer. -/
theorem publica_inv (h : Inv (s.setEs c es)) (hlive : s.conexoes.Live c) (he : es.estado = .esperaDados)
    {p : FilePtr} (hp : es.pfh = some p) :
    Inv ((publica es p s).setEs c { es with estado := .concluido }) ∧
      (publica es p s).misuse = s.misuse := by
  obtain ⟨p', hp', -, hown, hpl⟩ := h.block hlive he
  obtain rfl : p = p' := by simpa [hp] using hp'
  have hbuf : owner (s.setEs c es) none = s.arquivoBuffer := rfl
  refine ⟨setEs_inv hlive h (by simp) (by simp) ?_ (fun hw => by cases hw) (fun hw => by cases hw), ?_⟩
  · rw [owner_setEs es hlive (by simp), publica_arquivos]
    simp only [publica_arquivoBuffer, reduceCtorEq, if_false]
    refine Exclusive.modify (Exclusive.modify ?_ _ _) _ _
    cases hq : s.arquivoBuffer with
    | none =>
        rw [Function.update_comm (by simp)]
        exact h.own.give hown (hbuf.trans hq)
    | some q =>
        have hfree := h.own.free (hbuf.trans hq)
        have hgive := hfree.give (i := some c) (j := none) (p := p) (by simpa using hown) (by simp)
        rw [Function.update_comm (by simp)] at hgive
        simpa using hgive
  · refine publica_misuse es hpl fun q hq => ⟨h.own.live (hbuf.trans hq), ?_⟩
    rintro rfl
    cases h.own.inj hown (hbuf.trans hq)

theorem recebeDados_inv (h : Inv (s.setEs c es)) (hlive : s.conexoes.Live c)
    (he : es.estado = .esperaDados) (dados : List UInt8) :
    let r := recebeDados dados es s
    Inv (r.2.setEs c r.1) ∧ r.2.misuse = s.misuse := by
  obtain ⟨h₁, hm⟩ := copia_inv h hlive he dados
  have hlive₁ : (copia dados es s).2.conexoes.Live c := by rwa [copia_conexoes]
  have he₁ : (copia dados es s).1.estado = .esperaDados := by rwa [copia_estado]
  obtain ⟨p, hp, -⟩ := h₁.block hlive₁ he₁
  simp only [recebeDados, verifica]
  split
  next =>
    obtain ⟨h₂, hm₂⟩ := publica_inv h₁ hlive₁ he₁ hp
    simp only [hp, Server.deref]
    rw [hp] at h₂
    exact ⟨h₂, hm₂.trans hm⟩
  next => exact ⟨h₁, hm⟩

end Data

section Callbacks

variable {s : Server} {c : EsPtr} {es : ConexaoEstado} (h : Inv s) (hc : s.conexoes.cell c = some es)
include h hc

theorem close_inv (malloc : Option (Nat → UInt8)) :
    Inv (tcpServerRecv c none malloc s) ∧ (tcpServerRecv c none malloc s).misuse = s.misuse := by
  have hlive : s.conexoes.Live c := .of_cell hc
  cases he : es.estado with
  | esperaCabecalho =>
      have hpfh := h.waiting hc he
      simp only [tcpServerRecv, hc, he, hpfh]
      exact ⟨freeEs_inv h (by simp) ⟨rfl, rfl, rfl⟩ (by simp [owner, hc, he]), rfl⟩
  | esperaDados =>
      have h' : Inv (s.setEs c es) := by rwa [setEs_self hc]
      obtain ⟨p, hp, -, hown, hpl⟩ := h'.block hlive he
      rw [setEs_self hc] at hown
      simp only [tcpServerRecv, hc, he, hp]
      exact ⟨freeEs_inv h (by simp) (by simp [freeFile_eq]) (by simp [freeFile_eq, hown]),
        by simp [Server.freeEs, freeFile_eq, hpl.isNone_eq]⟩
  | concluido =>
      simp only [tcpServerRecv, hc, he]
      exact ⟨freeEs_inv h (by simp) ⟨rfl, rfl, rfl⟩ (by simp [owner, hc, he]), rfl⟩

theorem segment_inv (p : PbufChain) (malloc : Option (Nat → UInt8)) :
    Inv (tcpServerRecv c (some p) malloc s) ∧
      (tcpServerRecv c (some p) malloc s).misuse = s.misuse := by
  have hlive : s.conexoes.Live c := .of_cell hc
  cases he : es.estado with
  | concluido => simpa [tcpServerRecv, hc, he] using h
  | esperaDados =>
      have h' : Inv (s.setEs c es) := by rwa [setEs_self hc]
      simp only [tcpServerRecv, hc, he]
      exact recebeDados_inv h' hlive he p.first.payload
  | esperaCabecalho =>
      by_cases hlen : tamanhoCabecalho ≤ p.first.payload.length
      swap
      · simpa [tcpServerRecv, hc, he, hlen] using h
      cases malloc with
      | none =>
          simp only [tcpServerRecv, hc, he, hlen, if_true]
          exact ⟨freeEs_inv h (by simp) ⟨rfl, rfl, rfl⟩ (by simp [owner, hc, he]), rfl⟩
      | some memoria =>
          obtain ⟨h₁, hcon, hm₁⟩ := recebeCabecalho_inv h hc he p.first.payload memoria
          obtain ⟨h₂, hm₂⟩ := recebeDados_inv h₁ (hcon ▸ hlive) rfl
            (p.first.payload.drop tamanhoCabecalho)
          simp only [tcpServerRecv, hc, he, hlen, if_true]
          exact ⟨h₂, hm₂.trans hm₁⟩

end Callbacks

theorem tcpServerRecv_inv {s : Server} (h : Inv s) (c : EsPtr) (p : Option PbufChain)
    (malloc : Option (Nat → UInt8)) :
    Inv (tcpServerRecv c p malloc s) ∧
      (tcpServerRecv c p malloc s).misuse = (s.misuse || (s.conexoes.cell c).isNone) := by
  cases hc : s.conexoes.cell c with
  | none =>
      simp only [tcpServerRecv, hc]
      exact ⟨⟨h.own, h.receiving, h.waiting, h.aberto⟩, by simp⟩
  | some es =>
      rw [Option.isNone_some, Bool.or_false]
      cases p with
      | none => exact close_inv h hc malloc
      | some p => exact segment_inv h hc p malloc

theorem tcpServerAccept_inv {s : Server} (h : Inv s) (ok calloc : Bool) :
    Inv (tcpServerAccept ok calloc s) ∧ (tcpServerAccept ok calloc s).misuse = s.misuse := by
  rw [tcpServerAccept]
  split
  swap
  · exact ⟨h, rfl⟩
  have hfresh : s.conexoes.cell s.conexoes.next = none := s.conexoes.fresh _ (Nat.le_refl _)
  have hcell {d : EsPtr} {es : ConexaoEstado} {new : ConexaoEstado} (hn : new.estado = .esperaCabecalho)
      (hd : (s.conexoes.alloc new).cell d = some es) :
      (d = s.conexoes.next ∧ es = new) ∨ s.conexoes.cell d = some es := by
    by_cases hdn : d = s.conexoes.next
    · exact .inl ⟨hdn, by simpa [hdn, eq_comm] using hd⟩
    · exact .inr (by simpa [hdn] using hd)
  refine ⟨⟨?_, ?_, ?_, ?_⟩, rfl⟩
  · convert h.own using 1
    funext i
    cases i with
    | none => rfl
    | some d => by_cases hd : d = s.conexoes.next <;> simp [owner, hd, hfresh]
  · intro d e hd he
    rcases hcell rfl hd with ⟨-, rfl⟩ | hd
    · cases he
    · exact h.receiving hd he
  · intro d e hd he
    rcases hcell rfl hd with ⟨-, rfl⟩ | hd
    · rfl
    · exact h.waiting hd he
  · intro d
    change (s.conexoes.alloc _).Live d ↔ Function.update s.pcbs s.conexoes.next .aberto d = .aberto
    rw [Heap.live_alloc, h.aberto d]
    by_cases hd : d = s.conexoes.next <;> simp [hd]

theorem step_inv {s : Server} (h : Inv s) (e : Event) : ∃ s', step e s = some s' ∧ Inv s' := by
  cases e with
  | accept ok calloc => exact ⟨_, rfl, (tcpServerAccept_inv h ok calloc).1⟩
  | segment c p malloc =>
      cases hp : s.pcbs c <;> simp only [step, hp]
      · exact ⟨s, rfl, h⟩
      · exact ⟨_, rfl, (tcpServerRecv_inv h c (some p) malloc).1⟩
      · exact ⟨s, rfl, h⟩
  | redeliver c malloc =>
      cases hp : s.pcbs c <;> simp only [step, hp]
      · exact ⟨s, rfl, h⟩
      · exact ⟨s, rfl, h⟩
      · exact ⟨_, rfl, (tcpServerRecv_inv h c _ malloc).1⟩
  | peerClose c =>
      cases hp : s.pcbs c <;> simp only [step, hp]
      · exact ⟨s, rfl, h⟩
      · exact ⟨_, rfl, (tcpServerRecv_inv h c none none).1⟩
      · exact ⟨_, rfl, (tcpServerRecv_inv h c none none).1⟩

/-- No freed block has been used, the published block is allocated, and when all connections
are closed it is the only one. -/
structure Sound (s : Server) : Prop where
  misuse : s.misuse = false
  published : ∀ p, s.arquivoBuffer = some p → s.arquivos.Live p
  closed : (∀ c, s.pcbs c ≠ .aberto) →
    (∀ c, ¬ s.conexoes.Live c) ∧ ∀ p, s.arquivos.Live p → s.arquivoBuffer = some p

/-- The callback is not made on a connection whose segment has been refused. -/
def Unrefused : Event → Server → Prop
  | .redeliver c _, s | .peerClose c, s => ∀ p, s.pcbs c ≠ .recusado p
  | _, _ => True

theorem Inv.sound {s : Server} (h : Inv s) (hm : s.misuse = false) : Sound s := by
  refine ⟨hm, fun p hp => h.own.live (show owner s none = some p from hp), ?_⟩
  intro hclosed
  have hdead : ∀ c, ¬ s.conexoes.Live c := fun c hc => hclosed c ((h.aberto c).mp hc)
  refine ⟨hdead, ?_⟩
  intro p hp
  obtain ⟨i, hi⟩ := h.own.owned hp
  cases i with
  | none => exact hi
  | some c =>
      have hc : s.conexoes.cell c = none := Heap.not_live_iff.mp (hdead c)
      simp [owner, hc] at hi

theorem Inv.isSome_of_aberto {s : Server} (h : Inv s) {c : EsPtr} (hc : s.pcbs c = .aberto) :
    (s.conexoes.cell c).isNone = false :=
  ((h.aberto c).mpr hc).isNone_eq

theorem Inv.isNone_of_recusado {s : Server} (h : Inv s) {c : EsPtr} {p : PbufChain}
    (hc : s.pcbs c = .recusado p) : (s.conexoes.cell c).isNone = true := by
  have hdead : ¬ s.conexoes.Live c := by simp [h.aberto c, hc]
  simpa [Heap.Live] using hdead

theorem step_unrefused {s s' : Server} (h : Inv s) (hm : s.misuse = false) {e : Event}
    (hC : Unrefused e s) (hs : step e s = some s') : s'.misuse = false := by
  cases e with
  | accept ok calloc =>
      obtain rfl := Option.some.inj hs
      exact (tcpServerAccept_inv h ok calloc).2.trans hm
  | segment c p malloc =>
      cases hp : s.pcbs c <;> simp only [step, hp, Option.some.injEq] at hs <;> subst hs
      · exact hm
      · rw [(tcpServerRecv_inv h c (some p) malloc).2, hm, h.isSome_of_aberto hp]
        rfl
      · exact hm
  | redeliver c malloc =>
      cases hp : s.pcbs c <;> simp only [step, hp, Option.some.injEq] at hs
      · exact hs ▸ hm
      · exact hs ▸ hm
      · exact absurd hp (hC _)
  | peerClose c =>
      cases hp : s.pcbs c <;> simp only [step, hp, Option.some.injEq] at hs
      · exact hs ▸ hm
      · rw [← hs, (tcpServerRecv_inv h c none none).2, hm, h.isSome_of_aberto hp]
        rfl
      · exact absurd hp (hC _)

theorem step_refused {s s' : Server} (h : Inv s) {e : Event} (hC : ¬ Unrefused e s)
    (hs : step e s = some s') : s'.misuse = true := by
  cases e with
  | accept ok calloc => exact absurd trivial hC
  | segment c p malloc => exact absurd trivial hC
  | redeliver c malloc =>
      obtain ⟨p, hp⟩ := not_forall.mp hC
      simp only [step, not_not.mp hp, Option.some.injEq] at hs
      rw [← hs, (tcpServerRecv_inv h c _ malloc).2, h.isNone_of_recusado (not_not.mp hp), Bool.or_true]
  | peerClose c =>
      obtain ⟨p, hp⟩ := not_forall.mp hC
      simp only [step, not_not.mp hp, Option.some.injEq] at hs
      rw [← hs, (tcpServerRecv_inv h c none none).2, h.isNone_of_recusado (not_not.mp hp), Bool.or_true]

/-- Blocks keep their one owner in exactly the runs in which no callback is made on a connection
that ran out of memory. -/
theorem blocks_sound_iff (es : List Event) :
    Throughout step Sound es inicial ↔ Along step Unrefused es inicial :=
  throughout_iff_along (I := fun s => Inv s ∧ s.misuse = false) (fun _ h => h.1.sound h.2)
    (fun e s ⟨h, hm⟩ hC => by
      obtain ⟨s', hs, h'⟩ := step_inv h e
      exact ⟨s', hs, h', step_unrefused h hm hC hs⟩)
    (fun e s s' ⟨h, _⟩ hC hs hsound => by
      have := step_refused h hC hs
      simp [hsound.misuse] at this)
    es ⟨inicial_inv, rfl⟩

/-- There is no memory for a file; the segment is delivered again, to a connection whose state
has been freed. -/
theorem refused_segment_misused :
    ¬ ∀ es, Throughout step Sound es inicial := by
  intro h
  have hrun : ∃ s, run step [.accept true true,
      .segment 0 ⟨⟨List.replicate 16 0, by decide⟩, []⟩ none, .redeliver 0 none] inicial = some s ∧
      s.misuse = true := ⟨_, rfl, rfl⟩
  obtain ⟨s, hs, hm⟩ := hrun
  have := ((h _).last hs).misuse
  simp [hm] at this

end Orion68.PicoBlockOwners
