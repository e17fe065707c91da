import Orion68.Pico.Bounds

namespace Orion68.PicoBlockSizes

open Ownership Runs PicoServer PicoBlockOwners PicoBounds

/-- The size that has been announced for the block of each owner. -/
def declarado (s : Server) : Option EsPtr → UInt32
  | none => s.arquivoTamanho
  | some c => sizeofFile + (s.conexoes.cell c).elim 0 ConexaoEstado.tamanhoTotal

def Exact (s : Server) : Prop :=
  ∀ ⦃i p b⦄, owner s i = some p → s.arquivos.cell p = some b → b.length = (declarado s i).toNat

theorem inicial_exact : Exact inicial := by
  intro i p b hi
  cases i <;> simp [owner, inicial, Heap.empty] at hi

/-- Blocks keep their lengths from `s` to `s'`. -/
def KeepsLengths (s s' : Server) : Prop :=
  ∀ ⦃q b'⦄, s'.arquivos.cell q = some b' → ∃ b, s.arquivos.cell q = some b ∧ b'.length = b.length

theorem KeepsLengths.trans {s t u : Server} (h : KeepsLengths s t) (h' : KeepsLengths t u) :
    KeepsLengths s u := by
  intro q b hb
  obtain ⟨b₁, hb₁, hlen₁⟩ := h' hb
  obtain ⟨b₂, hb₂, hlen₂⟩ := h hb₁
  exact ⟨b₂, hb₂, hlen₁.trans hlen₂⟩

section Lengths

variable (s : Server) (es : ConexaoEstado) (p : FilePtr)

theorem write_keepsLengths (off : Nat) (bytes : List UInt8) : KeepsLengths s (s.write p off bytes) := by
  intro q b' hq
  rw [write_eq] at hq
  by_cases hqp : q = p
  · subst hqp
    obtain ⟨b, hb, rfl⟩ := Option.map_eq_some_iff.mp (by simpa using hq)
    exact ⟨b, hb, store_length _ _ _⟩
  · exact ⟨b', by simpa [hqp] using hq, rfl⟩

theorem free_keepsLengths : KeepsLengths s (s.freeFile p) := by
  intro q b hq
  rw [freeFile_eq] at hq
  by_cases hqp : q = p
  · simp [hqp] at hq
  · exact ⟨b, by simpa [hqp] using hq, rfl⟩

theorem copia_keepsLengths (dados : List UInt8) : KeepsLengths s (copia dados es s).2 := by
  by_cases hd : dados = []
  · intro q b hq
    exact ⟨b, by simpa [copia, hd] using hq, rfl⟩
  · cases hb : es.bufferRam with
    | none =>
        intro q b hq
        exact ⟨b, by simpa [copia, hd, hb, Server.deref] using hq, rfl⟩
    | some p =>
        rw [copia_eq s es p dados hb, if_neg hd]
        exact write_keepsLengths s p _ _

theorem publica_keepsLengths : KeepsLengths s (publica es p s) := by
  have hfreed : KeepsLengths s
      (s.arquivoBuffer.elim s fun q => { s.freeFile q with arquivoBuffer := none }) := by
    cases s.arquivoBuffer with
    | none => exact fun q b hq => ⟨b, hq, rfl⟩
    | some q => exact free_keepsLengths s q
  exact (hfreed.trans (write_keepsLengths _ p 4 _)).trans (write_keepsLengths _ p 0 _)

end Lengths

section Writeback

variable {s s' : Server} {c : EsPtr} {es es' : ConexaoEstado}

variable (es) in
theorem exact_setEs (hlive : s.conexoes.Live c) (h : Exact (s.setEs c es)) (hcon : s'.conexoes = s.conexoes)
    (hother : ∀ d q b', d ≠ c → owner (s.setEs c es) (some d) = some q → s'.arquivos.cell q = some b' →
      ∃ b, s.arquivos.cell q = some b ∧ b'.length = b.length)
    (hpublished : ∀ q b, s'.arquivoBuffer = some q → s'.arquivos.cell q = some b →
      b.length = s'.arquivoTamanho.toNat)
    (hself : es'.estado = .esperaDados → ∀ q b, es'.pfh = some q → s'.arquivos.cell q = some b →
      b.length = (sizeofFile + es'.tamanhoTotal).toNat) : Exact (s'.setEs c es') := by
  have hlive' : s'.conexoes.Live c := hcon ▸ hlive
  intro i q b hi hb
  cases i with
  | none => exact hpublished q b hi hb
  | some d =>
      by_cases hdc : d = c
      · subst hdc
        have hcell : (s'.setEs d es').conexoes.cell d = some es' := by simp [cell_setEs hlive']
        simp only [owner, declarado, hcell, Option.bind_some, Option.elim_some] at hi ⊢
        split at hi
        next he => exact hself he q b hi hb
        next => cases hi
      · have hcell : (s'.setEs c es').conexoes.cell d = (s.setEs c es).conexoes.cell d := by
          rw [cell_setEs hlive', cell_setEs hlive, if_neg hdc, if_neg hdc, hcon]
        have hown : owner (s.setEs c es) (some d) = some q := by
          simpa only [owner, hcell] using hi
        obtain ⟨b₀, hb₀, hlen⟩ := hother d q b hdc hown hb
        rw [hlen, h hown hb₀, declarado, declarado, hcell]

theorem recebeCabecalho_exact (h : Inv s) (hs : Exact s) (hc : s.conexoes.cell c = some es)
    (dados : List UInt8) (memoria : Nat → UInt8) :
    let r := recebeCabecalho dados memoria s
    Exact (r.2.setEs c r.1) := by
  have hlive : s.conexoes.Live c := .of_cell hc
  have hold {i : Option EsPtr} {q : FilePtr} {b : List UInt8} (hi : owner s i = some q)
      (hb : (recebeCabecalho dados memoria s).2.arquivos.cell q = some b) :
      s.arquivos.cell q = some b := by
    have hne : q ≠ s.arquivos.next := Nat.ne_of_lt (h.own.live hi).lt_next
    simpa [recebeCabecalho, write_eq, hne] using hb
  refine exact_setEs es hlive (by rwa [setEs_self hc]) (by simp [recebeCabecalho, write_eq]) ?_ ?_ ?_
  · intro d q b _ hd hb
    rw [setEs_self hc] at hd
    exact ⟨b, hold hd hb, rfl⟩
  · intro q b hq hb
    have hq' : s.arquivoBuffer = some q := by simpa [recebeCabecalho, write_eq] using hq
    have htam : (recebeCabecalho dados memoria s).2.arquivoTamanho = s.arquivoTamanho := by
      simp [recebeCabecalho, write_eq]
    rw [htam]
    exact hs (i := none) hq' (hold (i := none) hq' hb)
  · intro _ q b hq hb
    obtain rfl : s.arquivos.next = q := Option.some.inj hq
    simp only [recebeCabecalho, write_eq, Heap.cell_alloc, Heap.cell_modify, Function.update_self,
      Option.map_some, Option.some.injEq] at hb
    rw [← hb, store_length, store_length, List.length_map, List.length_range]
    rfl

theorem recebeDados_exact (h : Inv (s.setEs c es)) (hs : Exact (s.setEs c es))
    (hlive : s.conexoes.Live c) (he : es.estado = .esperaDados) (dados : List UInt8) :
    let r := recebeDados dados es s
    Exact (r.2.setEs c r.1) := by
  have hcell : (s.setEs c es).conexoes.cell c = some es := by simp [cell_setEs hlive]
  obtain ⟨p, hp, -, hown, -⟩ := h.block hlive he
  have hblock {s' : Server} (hkeep : KeepsLengths s s') {b : List UInt8} (hb : s'.arquivos.cell p = some b) :
      b.length = (sizeofFile + es.tamanhoTotal).toNat := by
    obtain ⟨b₀, hb₀, hlen⟩ := hkeep hb
    rw [hlen, hs hown hb₀, declarado, hcell, Option.elim_some]
  have hcopia := copia_keepsLengths s es dados
  simp only [recebeDados, verifica]
  split
  next =>
    simp only [copia_pfh, hp, Server.deref]
    have hkeep := hcopia.trans (publica_keepsLengths (copia dados es s).2 (copia dados es s).1 p)
    refine exact_setEs es hlive hs (by simp) (fun d q b _ _ hb => hkeep hb) ?_ (fun hc => by cases hc)
    intro q b hq hb
    obtain rfl : p = q := Option.some.inj hq
    change _ = (sizeofFile + (copia dados es s).1.tamanhoTotal).toNat
    rw [hblock hkeep hb, copia_tamanhoTotal]
  next =>
    refine exact_setEs es hlive hs (by simp) (fun d q b _ _ hb => hcopia hb) ?_ ?_
    · intro q b hq hb
      have hq' : s.arquivoBuffer = some q := by simpa using hq
      have htam : (copia dados es s).2.arquivoTamanho = s.arquivoTamanho := by rw [copia_frame]
      obtain ⟨b₀, hb₀, hlen⟩ := hcopia hb
      rw [htam, hlen]
      exact hs (i := none) hq' hb₀
    · intro _ q b hq hb
      obtain rfl : p = q := by simpa [hp] using hq
      rw [hblock hcopia hb, copia_tamanhoTotal]

theorem freeEs_exact (hs : Exact s) {pcb : Pcb} : Exact (s.freeEs c pcb) := by
  intro i q b hi hb
  cases i with
  | none => exact hs (show owner s none = some q from hi) hb
  | some d =>
      by_cases hdc : d = c
      · simp [owner, Server.freeEs, hdc] at hi
      · have hcell : (s.freeEs c pcb).conexoes.cell d = s.conexoes.cell d := by simp [Server.freeEs, hdc]
        rw [hs (show owner s (some d) = some q by simpa only [owner, hcell] using hi) hb, declarado,
          declarado, hcell]

theorem freeFile_exact (hs : Exact s) (p : FilePtr) : Exact (s.freeFile p) := by
  intro i q b hi hb
  obtain ⟨b₀, hb₀, hlen⟩ := free_keepsLengths s p hb
  have hfields : owner (s.freeFile p) i = owner s i ∧ declarado (s.freeFile p) i = declarado s i := by
    cases i <;> simp [owner, declarado, freeFile_eq]
  rw [hlen, hfields.2]
  exact hs (hfields.1 ▸ hi) hb₀

end Writeback

theorem tcpServerRecv_exact {s : Server} (h : Inv s) (hs : Exact s) (c : EsPtr) (p : Option PbufChain)
    (malloc : Option (Nat → UInt8)) : Exact (tcpServerRecv c p malloc s) := by
  cases hc : s.conexoes.cell c with
  | none =>
      simp only [tcpServerRecv, hc]
      exact hs
  | some es =>
      have hlive : s.conexoes.Live c := .of_cell hc
      have h' : Inv (s.setEs c es) := by rwa [setEs_self hc]
      have hs' : Exact (s.setEs c es) := by rwa [setEs_self hc]
      cases p with
      | none =>
          simp only [tcpServerRecv, hc]
          split
          · cases es.pfh with
            | none => exact freeEs_exact hs
            | some p => exact freeEs_exact (freeFile_exact hs p)
          · exact freeEs_exact hs
      | some p =>
          cases he : es.estado with
          | concluido => simpa [tcpServerRecv, hc, he] using hs
          | esperaDados =>
              simp only [tcpServerRecv, hc, he]
              exact recebeDados_exact h' hs' hlive he _
          | esperaCabecalho =>
              by_cases hlen : tamanhoCabecalho ≤ p.first.payload.length
              swap
              · simpa [tcpServerRecv, hc, he, hlen] using hs
              cases malloc with
              | none =>
                  simp only [tcpServerRecv, hc, he, hlen, if_true]
                  exact freeEs_exact hs
              | some memoria =>
                  obtain ⟨h₁, hcon, -⟩ := recebeCabecalho_inv h hc he p.first.payload memoria
                  simp only [tcpServerRecv, hc, he, hlen, if_true]
                  exact recebeDados_exact h₁ (recebeCabecalho_exact h hs hc _ _) (hcon ▸ hlive) rfl _

theorem tcpServerAccept_exact {s : Server} (hs : Exact s) (ok calloc : Bool) :
    Exact (tcpServerAccept ok calloc s) := by
  rw [tcpServerAccept]
  split
  · intro i q b hi hb
    cases i with
    | none => exact hs (show owner s none = some q from hi) hb
    | some d =>
        by_cases hdn : d = s.conexoes.next
        · simp [owner, hdn] at hi
        · have hd : owner s (some d) = some q := by simpa [owner, hdn] using hi
          rw [hs hd hb]
          simp [declarado, hdn]
  · exact hs

theorem step_exact {s s' : Server} (h : Inv s) (hs : Exact s) {e : Event} (hstep : step e s = some s') :
    Exact s' := by
  cases e with
  | accept ok calloc => exact Option.some.inj hstep ▸ tcpServerAccept_exact hs ok calloc
  | segment c p malloc =>
      cases hp : s.pcbs c <;> simp only [step, hp, Option.some.injEq] at hstep <;> subst hstep
      · exact hs
      · exact tcpServerRecv_exact h hs c (some p) malloc
      · exact hs
  | redeliver c malloc =>
      cases hp : s.pcbs c <;> simp only [step, hp, Option.some.injEq] at hstep <;> subst hstep
      · exact hs
      · exact hs
      · exact tcpServerRecv_exact h hs c _ malloc
  | peerClose c =>
      cases hp : s.pcbs c <;> simp only [step, hp, Option.some.injEq] at hstep <;> subst hstep
      · exact hs
      · exact tcpServerRecv_exact h hs c none none
      · exact tcpServerRecv_exact h hs c none none

theorem Exact.published {s : Server} (h : Inv s) (hs : Exact s) {p : FilePtr} (hp : s.arquivoBuffer = some p) :
    ∃ b, s.arquivos.cell p = some b ∧ b.length = s.arquivoTamanho.toNat := by
  have hown : owner s none = some p := hp
  obtain ⟨b, hb⟩ := Option.isSome_iff_exists.mp (h.own.live hown)
  exact ⟨b, hb, hs hown hb⟩

end Orion68.PicoBlockSizes
