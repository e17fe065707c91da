import Orion68.Receiver.W5100
import Mathlib.Data.List.GetD

namespace Orion68.ReceiverChunks

open Runs FatFs Shell Receiver
open PicoServer (ofLe32)

section Chip

variable {w w' : W5100} {d : List UInt8}

/-- What has come and has not been read. -/
def unread (w : W5100) : List UInt8 := (List.range w.rsr.toNat).map fun i => w.rx ((w.rxRd.toNat + i) % 2048)

theorem length_unread (w : W5100) : (unread w).length = w.rsr.toNat := by
  rw [unread, List.length_map, List.length_range]

theorem rsr_toNat (w : W5100) : (w.rxRd.toNat + w.rsr.toNat) % 2 ^ 16 = w.rxWr.toNat := by
  rw [W5100.rsr, UInt16.toNat_sub]
  have := w.rxRd.toNat_lt
  have := w.rxWr.toNat_lt
  omega

theorem unread_chega (h : w.chega d = some w') : unread w' = unread w ++ d := by
  rw [W5100.chega] at h
  split at h
  next hle =>
    cases h
    have hwr := rsr_toNat w
    have hlen := length_unread w
    have hrd := w.rxRd.toNat_lt
    have hnew : (W5100.rsr { w with
        rx := fun x => if x < 2048 then d.getD ((x + 65536 - w.rxWr.toNat) % 2048) (w.rx x) else w.rx x
        rxWr := w.rxWr + UInt16.ofNat d.length }).toNat = w.rsr.toNat + d.length := by
      rw [W5100.rsr, UInt16.toNat_sub, UInt16.toNat_add, UInt16.toNat_ofNat_of_lt' (by simp [UInt16.size]; omega)]
      dsimp only
      omega
    apply List.ext_getElem
    · rw [length_unread, hnew, List.length_append, hlen]
    · intro i hi _
      rw [length_unread, hnew] at hi
      simp only [unread, List.getElem_map, List.getElem_range]
      rw [if_pos (Nat.mod_lt _ (by omega))]
      by_cases hlt : i < w.rsr.toNat
      · rw [List.getD_eq_default _ _ (by omega), List.getElem_append_left (by simpa using hlt), List.getElem_map,
          List.getElem_range]
      · have hoff : ((w.rxRd.toNat + i) % 2048 + 65536 - w.rxWr.toNat) % 2048 = i - w.rsr.toNat := by omega
        rw [hoff, List.getD_eq_getElem _ _ (by omega), List.getElem_append_right (by simpa using hlt)]
        simp only [List.length_map, List.length_range]
  next => cases h

theorem chega_isSome (h : w.rsr.toNat + d.length ≤ 2048) : ∃ w', w.chega d = some w' := by
  rw [W5100.chega, if_pos h]
  exact ⟨_, rfl⟩

theorem unread_chegam {ds : List (List UInt8)} (h : w.chegam ds = some w') : unread w' = unread w ++ ds.flatten := by
  induction ds generalizing w with
  | nil =>
      cases h
      rw [List.flatten_nil, List.append_nil]
  | cons d ds ih =>
      obtain ⟨w₁, h₁, h₂⟩ := Option.bind_eq_some_iff.mp h
      rw [ih h₂, unread_chega h₁, List.flatten_cons, List.append_assoc]

theorem getRxSize_spec {ds : List (List UInt8)} {n : UInt16} (h : w.getRxSize ds = some (n, w')) :
    unread w' = unread w ++ ds.flatten ∧ (unread w).length ≤ n.toNat ∧ n.toNat ≤ (unread w').length := by
  induction ds generalizing w with
  | nil =>
      cases h
      rw [List.flatten_nil, List.append_nil, length_unread]
      exact ⟨rfl, Nat.le_refl _, Nat.le_refl _⟩
  | cons d ds ih =>
      rw [W5100.getRxSize] at h
      split at h
      next h0 =>
        obtain ⟨w₁, h₁, he⟩ := Option.map_eq_some_iff.mp h
        cases he
        rw [unread_chegam h₁, length_unread, h0]
        exact ⟨rfl, Nat.le_refl _, Nat.zero_le _⟩
      next =>
        obtain ⟨w₁, h₁, h₂⟩ := Option.bind_eq_some_iff.mp h
        have hlen := congrArg List.length (unread_chega h₁)
        rw [List.length_append] at hlen
        rw [List.flatten_cons, ← List.append_assoc, ← unread_chega h₁]
        split at h₂
        next he =>
          obtain ⟨w₂, hw₂, he₂⟩ := Option.map_eq_some_iff.mp h₂
          cases he₂
          rw [unread_chegam hw₂, List.length_append, length_unread, length_unread, he]
          exact ⟨rfl, Nat.le_refl _, Nat.le_add_right _ _⟩
        next =>
          obtain ⟨hu, hlow, hhigh⟩ := ih h₂
          exact ⟨hu, by omega, hhigh⟩

theorem recvBytes_spec {n : UInt16} (h : n.toNat ≤ (unread w).length) :
    (w.recvBytes n).1 = (unread w).take n.toNat ∧ unread (w.recvBytes n).2 = (unread w).drop n.toNat := by
  have hmask (i : Nat) : i &&& s0Mask = i % 2048 := Nat.and_two_pow_sub_one_eq_mod i 11
  rw [length_unread] at h
  have hwr := rsr_toNat w
  have hrd := w.rxRd.toNat_lt
  have hrsr := w.rsr.toNat_lt
  constructor
  · rw [W5100.recvBytes, unread, ← List.map_take, List.take_range, Nat.min_eq_left h]
    simp only [hmask]
  · have hnew : (W5100.rsr (w.recvBytes n).2).toNat = w.rsr.toNat - n.toNat := by
      rw [W5100.rsr, W5100.recvBytes, UInt16.toNat_sub, UInt16.toNat_add]
      dsimp only
      omega
    apply List.ext_getElem
    · rw [length_unread, hnew, List.length_drop, length_unread]
    · intro i _ _
      simp only [unread, List.getElem_drop, List.getElem_map, List.getElem_range]
      rw [W5100.recvBytes, UInt16.toNat_add]
      dsimp only
      congr 1
      omega

end Chip

section Buffer

theorem guarda_nil (a : Nat) (ram : Nat → UInt8) : guarda a [] ram = ram := by
  funext x
  rw [guarda]
  split <;> rfl

theorem guarda_append (a : Nat) (d d' : List UInt8) (ram : Nat → UInt8) :
    guarda (a + d.length) d' (guarda a d ram) = guarda a (d ++ d') ram := by
  funext x
  simp only [guarda]
  by_cases hax : a ≤ x
  · rw [if_pos hax, if_pos hax]
    by_cases hlt : x - a < d.length
    · rw [if_neg (by omega), List.getD_append _ _ _ _ hlt]
    · rw [if_pos (by omega), List.getD_append_right _ _ _ _ (by omega), List.getD_eq_default d _ (by omega),
        Nat.sub_add_eq]
  · rw [if_neg hax, if_neg (by omega), if_neg hax]

theorem guarda_inside {a i : Nat} {d : List UInt8} (ram : Nat → UInt8) (h : i < d.length) :
    guarda a d ram (a + i) = d[i] := by
  rw [guarda, if_pos (Nat.le_add_right a i), Nat.add_sub_cancel_left, List.getD_eq_getElem _ _ h]

theorem guarda_outside {a x : Nat} {d : List UInt8} (ram : Nat → UInt8) (h : x < a ∨ a + d.length ≤ x) :
    guarda a d ram x = ram x := by
  rw [guarda]
  split
  · exact List.getD_eq_default _ _ (by omega)
  · rfl

end Buffer

section Loop

variable {r t : Receptor}

/-- The counters of a receiver that goes on agree with what it has read from this connection. -/
structure Coerente (r : Receptor) : Prop where
  fim : r.fim = false
  header : r.estado = .header → r.lidos = []
  payload : r.estado = .payload → 21 ≤ r.lidos.length ∧ r.bytesRecebidos.toNat = r.lidos.length ∧
    r.tamanhoTotal = ofLe32 r.lidos ∧
    (r.lidos.length < r.tamanhoTotal.toNat ∨ r.lidos.length = 21 ∧ r.tamanhoTotal.toNat ≤ 21)

/-- A receiver that has read all that its header declares. -/
structure Completo (r : Receptor) : Prop where
  fim : r.fim = true
  cabecalho : 21 ≤ r.lidos.length
  tamanho : r.tamanhoTotal = ofLe32 r.lidos
  total : r.tamanhoTotal.toNat ≤ r.lidos.length
  exato : 21 < r.tamanhoTotal.toNat → r.lidos.length = r.tamanhoTotal.toNat

theorem ofLe32_append {l : List UInt8} (h : 4 ≤ l.length) (l' : List UInt8) : ofLe32 (l ++ l') = ofLe32 l := by
  match l, h with
  | a :: b :: c :: d :: _, _ => rfl

/-- What a poll does with what has come: it reads some of it into the buffer. -/
structure Poll (lido : List UInt8) (r t : Receptor) : Prop where
  stream : unread r.w = lido ++ unread t.w
  lidos : t.lidos = r.lidos ++ lido
  ram : t.ram = guarda (bufferArquivo + r.lidos.length) lido r.ram
  result : (Coerente t ∧ t.enviados = r.enviados) ∨
    (Completo t ∧ t.enviados = r.enviados ++ [text "Arq lido"])

theorem faseCabecalho_poll (h : Coerente r) (he : r.estado = .header) {n : UInt16}
    (hn : n.toNat ≤ (unread r.w).length) :
    ∃ lido, Poll lido r (faseCabecalho n r) ∧
      (21 ≤ n.toNat → (faseCabecalho n r).estado = .payload ∧ lido.length = 21 ∧ (faseCabecalho n r).fim = false) := by
  have h21 : (21 : UInt16).toNat = 21 := rfl
  have hle : 21 ≤ n ↔ 21 ≤ n.toNat := UInt16.le_iff_toNat_le
  have hnil := h.header he
  rw [faseCabecalho]
  by_cases hge : 21 ≤ n
  · have hge' := hle.mp hge
    rw [if_pos hge]
    obtain ⟨hbytes, hrest⟩ := recvBytes_spec (n := 21) (w := r.w) (by omega)
    rw [h21] at hbytes hrest
    have hlen : (r.w.recvBytes 21).1.length = 21 := by
      rw [hbytes, List.length_take]
      omega
    refine ⟨(r.w.recvBytes 21).1, ⟨?_, rfl, ?_, ?_⟩, fun _ => ⟨rfl, hlen, h.fim⟩⟩
    · rw [hbytes, hrest, List.take_append_drop]
    · rw [hnil]
      rfl
    · left
      refine ⟨⟨h.fim, fun hno => Estado.noConfusion hno, ?_⟩, rfl⟩
      intro _
      dsimp only
      rw [hnil, List.nil_append, hlen]
      refine ⟨Nat.le_refl _, rfl, rfl, ?_⟩
      omega
  · rw [if_neg hge]
    refine ⟨[], ⟨rfl, (List.append_nil _).symm, (guarda_nil _ _).symm, .inl ⟨h, rfl⟩⟩, ?_⟩
    intro hn21
    exact absurd (hle.mpr hn21) hge

/-- A block of the payload: not more than has come, nor more than is missing. -/
structure Bloco (n : UInt16) (total recebidos : UInt32) (k : UInt16) : Prop where
  chegou : k.toNat ≤ n.toNat
  soma : (recebidos + k.toUInt32).toNat = recebidos.toNat + k.toNat
  falta : recebidos.toNat < total.toNat → recebidos.toNat + k.toNat ≤ total.toNat ∧
    (total.toNat ≤ recebidos.toNat + n.toNat → recebidos.toNat + k.toNat = total.toNat)
  tudo : recebidos.toNat + k.toNat < total.toNat → k.toNat = n.toNat

theorem bloco (n : UInt16) {total recebidos : UInt32} (h : recebidos.toNat < total.toNat ∨ recebidos.toNat = 21) :
    Bloco n total recebidos (if n.toUInt32 < total - recebidos then n else (total - recebidos).toUInt16) := by
  have := n.toNat_lt
  have := total.toNat_lt
  have := recebidos.toNat_lt
  have hsub := UInt32.toNat_sub total recebidos
  split
  next hless =>
    rw [UInt32.lt_iff_toNat_lt, UInt16.toNat_toUInt32, hsub] at hless
    constructor
    · exact Nat.le_refl _
    · rw [UInt32.toNat_add, UInt16.toNat_toUInt32]
      omega
    · omega
    · exact fun _ => rfl
  next hless =>
    rw [UInt32.lt_iff_toNat_lt, UInt16.toNat_toUInt32, hsub] at hless
    have hk : (total - recebidos).toUInt16.toNat = (total - recebidos).toNat % 65536 := UInt32.toNat_toUInt16 _
    constructor
    · omega
    · rw [UInt32.toNat_add, UInt16.toNat_toUInt32]
      omega
    · omega
    · omega

theorem fasePayload_poll (h : Coerente r) (he : r.estado = .payload) {n : UInt16}
    (hn : n.toNat ≤ (unread r.w).length) :
    ∃ lido, Poll lido r (fasePayload n r) ∧ ((fasePayload n r).fim = false → lido.length = n.toNat) ∧
      (0 < n.toNat → r.tamanhoTotal.toNat ≤ r.lidos.length + n.toNat → (fasePayload n r).fim = true) := by
  obtain ⟨h21, hbytes, htotal, hlt⟩ := h.payload he
  have hpos : 0 < n ↔ 0 < n.toNat := UInt16.lt_iff_toNat_lt
  rw [fasePayload]
  by_cases hgt : 0 < n
  · rw [if_pos hgt]
    have hblock := bloco n (hbytes ▸ hlt.imp_right And.left)
    dsimp only
    generalize (if n.toUInt32 < r.tamanhoTotal - r.bytesRecebidos then n
      else (r.tamanhoTotal - r.bytesRecebidos).toUInt16) = k at hblock ⊢
    obtain ⟨hkn, hsum, hmore, hall⟩ := hblock
    rw [hbytes] at hsum hmore hall
    obtain ⟨hread, hrest⟩ := recvBytes_spec (n := k) (w := r.w) (Nat.le_trans hkn hn)
    have hlen : (r.w.recvBytes k).1.length = k.toNat := by
      rw [hread, List.length_take]
      omega
    have hof : ofLe32 (r.lidos ++ (r.w.recvBytes k).1) = r.tamanhoTotal := by
      rw [ofLe32_append (by omega), htotal]
    have hfull : r.tamanhoTotal ≤ r.bytesRecebidos + k.toUInt32 ↔
        r.tamanhoTotal.toNat ≤ r.lidos.length + k.toNat := by rw [UInt32.le_iff_toNat_le, hsum]
    refine ⟨(r.w.recvBytes k).1, ?_⟩
    by_cases hdone : r.tamanhoTotal ≤ r.bytesRecebidos + k.toUInt32
    · rw [if_pos hdone]
      refine ⟨⟨?_, rfl, ?_, ?_⟩, fun hno => Bool.noConfusion hno, fun _ _ => rfl⟩
      · rw [hread, hrest, List.take_append_drop]
      · rw [← hbytes]
      · right
        refine ⟨⟨rfl, ?_, hof.symm, ?_, ?_⟩, rfl⟩
        all_goals
          dsimp only
          rw [List.length_append, hlen]
          have := hfull.mp hdone
          omega
    · have hless := Nat.lt_of_not_le fun hle => hdone (hfull.mpr hle)
      rw [if_neg hdone]
      refine ⟨⟨?_, rfl, ?_, ?_⟩, fun _ => hlen.trans (hall hless), ?_⟩
      · rw [hread, hrest, List.take_append_drop]
      · rw [← hbytes]
      · left
        refine ⟨⟨h.fim, fun hno => absurd (he.symm.trans hno) (by decide), ?_⟩, rfl⟩
        intro _
        dsimp only
        rw [List.length_append, hlen, hsum]
        refine ⟨by omega, rfl, hof.symm, ?_⟩
        exact .inl hless
      · intro _ hle
        refine absurd (hfull.mpr ?_) hdone
        rcases hlt with hless | ⟨hlen21, hle21⟩
        · exact ((hmore hless).2 hle).ge
        · omega
  · have hn0 : n.toNat = 0 := Nat.eq_zero_of_not_pos fun hn0 => hgt (hpos.mpr hn0)
    rw [if_neg hgt]
    refine ⟨[], ⟨rfl, (List.append_nil _).symm, (guarda_nil _ _).symm, .inl ⟨h, rfl⟩⟩, fun _ => hn0.symm, ?_⟩
    intro hn
    omega

theorem established_poll (h : Coerente r) {ds : List (List UInt8)}
    (hs : step (.sonda sockEstablished ds) r = some t) :
    ∃ lido n w, r.w.getRxSize ds = some (n, w) ∧ Poll lido { r with w := w } t ∧
      (r.estado = .header → 21 ≤ n.toNat → t.estado = .payload ∧ lido.length = 21 ∧ t.fim = false) ∧
      (r.estado = .payload → (t.fim = false → lido.length = n.toNat) ∧
        (0 < n.toNat → r.tamanhoTotal.toNat ≤ r.lidos.length + n.toNat → t.fim = true)) := by
  have hmap : (r.w.getRxSize ds).map (fun p => atende p.1 { r with w := p.2 }) = some t := by
    rw [step, h.fim] at hs
    exact hs
  obtain ⟨⟨n, w⟩, hsize, rfl⟩ := Option.map_eq_some_iff.mp hmap
  obtain ⟨-, -, hn⟩ := getRxSize_spec hsize
  have hw : Coerente { r with w := w } := ⟨h.fim, h.header, h.payload⟩
  by_cases he : r.estado = .header
  · have hat : atende n { r with w := w } = faseCabecalho n { r with w := w } := by
      rw [atende]
      dsimp only
      rw [he]
    obtain ⟨lido, hpoll, hnext⟩ := faseCabecalho_poll hw he hn
    rw [← hat] at hpoll hnext
    exact ⟨lido, n, w, hsize, hpoll, fun _ => hnext, fun hno => Estado.noConfusion (he.symm.trans hno)⟩
  · have hpay : r.estado = .payload := by
      cases hcases : r.estado with
      | header => exact absurd hcases he
      | payload => rfl
    have hat : atende n { r with w := w } = fasePayload n { r with w := w } := by
      rw [atende]
      dsimp only
      rw [hpay]
    obtain ⟨lido, hpoll, hnext⟩ := fasePayload_poll hw hpay hn
    rw [← hat] at hpoll hnext
    exact ⟨lido, n, w, hsize, hpoll, fun hno => absurd hno he, fun _ => hnext⟩

end Loop

section Runs

/-- The peer's data come, and the socket stays connected. -/
def Conectado : Evento → Prop
  | .chega _ => True
  | .sonda sr _ => sr = sockEstablished

def chegado : Evento → List UInt8
  | .chega d => d
  | .sonda _ ds => ds.flatten

/-- Of the bytes `a` that have come, a first part is in the buffer, and the rest waits in the chip or is left over. -/
structure Reune (ram : Nat → UInt8) (a : List UInt8) (r : Receptor) : Prop where
  ram : r.ram = guarda bufferArquivo r.lidos ram
  stream : (Coerente r ∧ r.enviados = [] ∧ a = r.lidos ++ unread r.w) ∨
    (Completo r ∧ r.enviados = [text "Arq lido"] ∧ r.lidos <+: a)

variable {ram : Nat → UInt8} {a s : List UInt8} {r t : Receptor} {e : Evento} {es : List Evento}

theorem step_fim (h : r.fim = true) (e : Evento) : step e r = some r := by
  cases e <;> simp [step, h]

theorem step_chega (h : r.fim = false) (d : List UInt8) :
    step (.chega d) r = (r.w.chega d).map fun w => { r with w := w } := by
  simp [step, h]

theorem reune_inicial (rx : Nat → UInt8) (ptr : UInt16) (ram : Nat → UInt8) :
    Reune ram [] (Receptor.inicial rx ptr ram) := by
  have hnone : unread ⟨rx, ptr, ptr⟩ = [] := by
    rw [unread, W5100.rsr, UInt16.sub_self]
    rfl
  refine ⟨(guarda_nil _ _).symm, .inl ⟨⟨rfl, fun _ => rfl, fun hno => Estado.noConfusion hno⟩, rfl, ?_⟩⟩
  exact hnone.symm

theorem reune_step (h : Reune ram a r) (hc : Conectado e) (hs : step e r = some t) : Reune ram (a ++ chegado e) t := by
  rcases h.stream with ⟨hco, henv, hstream⟩ | ⟨hco, henv, hpre⟩
  · cases e with
    | chega d =>
        rw [step_chega hco.fim] at hs
        obtain ⟨w, hw, rfl⟩ := Option.map_eq_some_iff.mp hs
        refine ⟨h.ram, .inl ⟨⟨hco.fim, hco.header, hco.payload⟩, henv, ?_⟩⟩
        rw [unread_chega hw, ← List.append_assoc, ← hstream]
        rfl
    | sonda sr ds =>
        obtain rfl : sr = sockEstablished := hc
        obtain ⟨lido, n, w, hsize, hpoll, -, -⟩ := established_poll hco hs
        have hsplit : a ++ ds.flatten = t.lidos ++ unread t.w := by
          have hunread := (getRxSize_spec hsize).1.symm.trans hpoll.stream
          rw [hpoll.lidos, hstream, List.append_assoc, List.append_assoc, hunread]
        constructor
        · rw [hpoll.ram, hpoll.lidos, h.ram, guarda_append]
        · rcases hpoll.result with ⟨hco', henv'⟩ | ⟨hco', henv'⟩
          · exact .inl ⟨hco', henv'.trans henv, hsplit⟩
          · refine .inr ⟨hco', ?_, ?_⟩
            · rw [henv', henv, List.nil_append]
            · exact ⟨unread t.w, hsplit.symm⟩
  · cases (step_fim hco.fim e).symm.trans hs
    exact ⟨h.ram, .inr ⟨hco, henv, hpre.trans (List.prefix_append _ _)⟩⟩

theorem reune_run (h : Reune ram a r) (hc : ∀ e ∈ es, Conectado e) (hr : run step es r = some t) :
    Reune ram (a ++ es.flatMap chegado) t := by
  induction es generalizing a r with
  | nil =>
      cases hr
      rwa [List.flatMap_nil, List.append_nil]
  | cons e es ih =>
      obtain ⟨u, hu, ht⟩ := run_cons_eq_some.mp hr
      rw [List.forall_mem_cons] at hc
      rw [List.flatMap_cons, ← List.append_assoc]
      exact ih (reune_step h hc.1 hu) hc.2 ht

theorem reune_ends (h : Reune ram a r) (h21 : 21 < (ofLe32 a).toNat) (hlen : (ofLe32 a).toNat ≤ a.length) :
    ∃ t, run step [.sonda sockEstablished [], .sonda sockEstablished []] r = some t ∧ t.fim = true := by
  have hpoll (r : Receptor) (hf : r.fim = false) : ∃ t, step (.sonda sockEstablished []) r = some t := by
    rw [step, hf]
    exact ⟨_, rfl⟩
  -- The payload is read whole by one poll.
  have hpayload {r : Receptor} (hco : Coerente r) (he : r.estado = .payload) (hs : a = r.lidos ++ unread r.w) :
      ∃ t, step (.sonda sockEstablished []) r = some t ∧ t.fim = true := by
    obtain ⟨t, ht⟩ := hpoll r hco.fim
    obtain ⟨lido, n, w, hsize, -, -, hend⟩ := established_poll hco ht
    obtain ⟨-, hlow, -⟩ := getRxSize_spec hsize
    obtain ⟨hl21, -, htotal, hlt⟩ := hco.payload he
    have hof : ofLe32 a = r.tamanhoTotal := by rw [hs, ofLe32_append (by omega), htotal]
    have halen : a.length = r.lidos.length + (unread r.w).length := by rw [hs, List.length_append]
    rw [hof] at h21 hlen
    exact ⟨t, ht, (hend he).2 (by omega) (by omega)⟩
  rcases h.stream with ⟨hco, -, hstream⟩ | ⟨hco, -, -⟩
  · cases he : r.estado with
    | header =>
        obtain ⟨u, hu⟩ := hpoll r hco.fim
        obtain ⟨lido, n, w, hsize, hp, hnext, -⟩ := established_poll hco hu
        obtain ⟨hw, hlow, -⟩ := getRxSize_spec hsize
        have hnil := hco.header he
        have halen : a.length = (unread r.w).length := by rw [hstream, hnil, List.nil_append]
        obtain ⟨hest, hlido, hfim⟩ := hnext he (by omega)
        have hco' : Coerente u := by
          rcases hp.result with ⟨hco', -⟩ | ⟨hco', -⟩
          · exact hco'
          · rw [hco'.fim] at hfim
            cases hfim
        have hstream' : a = u.lidos ++ unread u.w := by
          rw [hp.lidos, hstream, hnil, List.append_assoc, ← hp.stream, hw, List.flatten_nil, List.append_nil]
        obtain ⟨t, ht, htf⟩ := hpayload hco' hest hstream'
        exact ⟨t, by rw [run_cons_of_step hu, run_cons_of_step ht, run_nil], htf⟩
    | payload =>
        obtain ⟨t, ht, htf⟩ := hpayload hco he hstream
        exact ⟨t, by rw [run_cons_of_step ht, run_cons_of_step (step_fim htf _), run_nil], htf⟩
  · have hstay := step_fim hco.fim (.sonda sockEstablished [])
    exact ⟨r, by rw [run_cons_of_step hstay, run_cons_of_step hstay, run_nil], hco.fim⟩

theorem ofLe32_of_prefixed (h : a <+: s) (h4 : 4 ≤ a.length) : ofLe32 s = ofLe32 a := by
  obtain ⟨b, rfl⟩ := h
  exact ofLe32_append h4 b

theorem Reune.prefixed (h : Reune ram a r) (hs : a <+: s) : r.lidos <+: s := by
  rcases h.stream with ⟨-, -, hstream⟩ | ⟨-, -, hpre⟩
  · exact (hstream ▸ List.prefix_append _ _).trans hs
  · exact hpre.trans hs

theorem Reune.length_le (h : Reune ram a r) (hs : a <+: s) (h21 : 21 < (ofLe32 s).toNat) :
    r.lidos.length ≤ (ofLe32 s).toNat := by
  have hpre := h.prefixed hs
  rcases h.stream with ⟨hco, -, -⟩ | ⟨hco, -, -⟩
  · cases he : r.estado with
    | header =>
        rw [hco.header he]
        exact Nat.zero_le _
    | payload =>
        obtain ⟨hl21, -, htotal, hlt⟩ := hco.payload he
        rw [ofLe32_of_prefixed hpre (by omega), ← htotal] at h21 ⊢
        omega
  · rw [ofLe32_of_prefixed hpre (by have := hco.cabecalho; omega), ← hco.tamanho] at h21 ⊢
    exact (hco.exato h21).le

theorem Reune.outside (h : Reune ram a r) (hs : a <+: s) (h21 : 21 < (ofLe32 s).toNat) {x : Nat}
    (hx : x < bufferArquivo ∨ bufferArquivo + (ofLe32 s).toNat ≤ x) : r.ram x = ram x := by
  have hle := h.length_le hs h21
  rw [h.ram]
  exact guarda_outside ram (by omega)

/-- Up to 442368 declared bytes, only the memory between the start of the buffer and the stack is written. -/
theorem stores_below_stack (rx : Nat → UInt8) (ptr : UInt16) (h21 : 21 < (ofLe32 s).toNat)
    (hroom : (ofLe32 s).toNat ≤ stackStart - bufferArquivo) (hc : ∀ e ∈ es, Conectado e)
    (hs : es.flatMap chegado <+: s) (hr : run step es (Receptor.inicial rx ptr ram) = some t) {x : Nat}
    (hx : t.ram x ≠ ram x) : bufferArquivo ≤ x ∧ x < stackStart := by
  have h := reune_run (reune_inicial rx ptr ram) hc hr
  have hbuffer : bufferArquivo ≤ stackStart := by decide
  by_contra hout
  exact hx (h.outside hs h21 (by omega))

/-- Whatever the chunks in which the stream comes, its first `total` bytes end in the buffer, nothing
else is written, and the answer is sent once. -/
theorem chunks_reassembled (rx : Nat → UInt8) (ptr : UInt16) (h21 : 21 < (ofLe32 s).toNat)
    (hlen : (ofLe32 s).toNat ≤ s.length) (hc : ∀ e ∈ es, Conectado e) (hs : es.flatMap chegado <+: s)
    (hr : run step es (Receptor.inicial rx ptr ram) = some t) :
    (t.fim = false → t.enviados = []) ∧
      (t.fim = true → t.enviados = [text "Arq lido"] ∧
        ∀ i (hi : i < (ofLe32 s).toNat), t.ram (bufferArquivo + i) = s[i]) ∧
      (∀ x, x < bufferArquivo ∨ bufferArquivo + (ofLe32 s).toNat ≤ x → t.ram x = ram x) ∧
      ((ofLe32 s).toNat ≤ (es.flatMap chegado).length →
        ∃ u, run step [.sonda sockEstablished [], .sonda sockEstablished []] t = some u ∧ u.fim = true) := by
  have h := reune_run (reune_inicial rx ptr ram) hc hr
  rw [List.nil_append] at h
  have hpre := h.prefixed hs
  refine ⟨?_, ?_, ?_, ?_⟩
  · intro hf
    rcases h.stream with ⟨-, henv, -⟩ | ⟨hco, -, -⟩
    · exact henv
    · rw [hco.fim] at hf
      cases hf
  · intro hf
    rcases h.stream with ⟨hco, -, -⟩ | ⟨hco, henv, -⟩
    · rw [hco.fim] at hf
      cases hf
    · refine ⟨henv, ?_⟩
      intro i hi
      have hof := ofLe32_of_prefixed hpre (by have := hco.cabecalho; omega)
      rw [hof, ← hco.tamanho] at h21 hi
      have hi' : i < t.lidos.length := by rw [hco.exato h21]; exact hi
      rw [h.ram, guarda_inside ram hi']
      exact hpre.getElem hi'
  · exact fun x hx => h.outside hs h21 hx
  · intro hall
    have hof := ofLe32_of_prefixed hs (by omega)
    rw [hof] at h21 hall
    exact reune_ends h h21 hall

def vinteTres : List UInt8 := [23, 0, 0] ++ List.replicate 19 0 ++ [8]

/-- 23 bytes in three chunks, and a poll before the header is whole. -/
def emPedacos : List Evento :=
  [.chega [23, 0, 0], .sonda sockEstablished [], .sonda sockEstablished [List.replicate 19 0],
    .sonda sockEstablished [], .sonda sockEstablished [], .chega [8], .sonda sockEstablished []]

theorem emPedacos_reassembled :
    ∃ t, run step emPedacos (Receptor.inicial (fun _ => 0) 65530 fun _ => 1) = some t ∧ t.fim = true ∧
      ∀ i (hi : i < 23), t.ram (bufferArquivo + i) = vinteTres[i] := by
  have hsome : (run step emPedacos (Receptor.inicial (fun _ => 0) 65530 fun _ => 1)).any (·.fim) = true := by
    decide +kernel
  obtain ⟨t, ht, hf⟩ := (Option.any_eq_true _ _).mp hsome
  have h := chunks_reassembled (s := vinteTres) (fun _ => 0) 65530 (by decide) (by decide)
    (by simp [emPedacos, Conectado]) (List.prefix_refl _) ht
  exact ⟨t, ht, hf, (h.2.1 hf).2⟩

end Runs

end Orion68.ReceiverChunks
