import Orion68.Receiver.Chunks

namespace Orion68.ReceiverTransfer

open Runs FatFs Download Shell Receiver ReceiverChunks
open PicoServer (ofLe32 le32)

section Sender

/-- `tam` is an `int` that takes the low half of the size. -/
def tam (conteudo : List UInt8) : UInt32 := UInt32.ofNat conteudo.length

/-- The buffer of `sender2`: the size, four bytes that are never set, the name in 13 bytes, and the
file. -/
def bufferDados (nome : Path) (lixo : Fin 4 → UInt8) (conteudo : List UInt8) : List UInt8 :=
  le32 (tam conteudo) ++ List.ofFn lixo ++ (nome ++ List.replicate (13 - nome.length) 0) ++ conteudo

/-- What `main` of `sender2` sends: `tam` bytes of the buffer. A negative `tam` is a huge `size_t`,
and the buffer is followed by what comes after it. -/
def enviado (nome : Path) (lixo : Fin 4 → UInt8) (conteudo alem : List UInt8) : List UInt8 :=
  if (tam conteudo).toNat < 2 ^ 31 then (bufferDados nome lixo conteudo).take (tam conteudo).toNat
  else bufferDados nome lixo conteudo ++ alem

/-- The name as it may be given to `sender2`. -/
def NomeCurto (nome : Path) : Prop := nome.length ≤ 12 ∧ ∀ b ∈ nome, b ≠ 0

end Sender

/-- `saving_file` leaves the file on any disk that takes it, under the name that is in the buffer. -/
def Salva (nome : Path) (conteudo : List UInt8) (r : Receptor) : Prop :=
  Nomeia r.ram nome ∧ ∀ (v : Volume) (abre escreve fecha : Disk), Gravavel (v nome) →
    abre.result = .ok → escreve.result = .ok → conteudo.length ≤ escreve.room → fecha.result = .ok →
    ∃ d, (savingFile abre escreve fecha nome r v).2 nome = .file false d ∧ d.val = conteudo

def sonda : Evento := .sonda sockEstablished []

/-- However the stream is cut up, a receiver that ends saves the file, and it ends once all has come. -/
def Transfere (nome : Path) (lixo : Fin 4 → UInt8) (conteudo alem : List UInt8) (ram : Nat → UInt8) : Prop :=
  ∀ rx ptr es t, (∀ e ∈ es, Conectado e) → es.flatMap chegado <+: enviado nome lixo conteudo alem →
    run step es (Receptor.inicial rx ptr ram) = some t →
      (t.fim = true → Salva nome conteudo t) ∧
      (es.flatMap chegado = enviado nome lixo conteudo alem →
        ∃ n u, run step (List.replicate n sonda) t = some u ∧ u.fim = true)

section Stream

variable {nome : Path} (lixo : Fin 4 → UInt8) (conteudo alem : List UInt8)

theorem length_bufferDados (hn : NomeCurto nome) : (bufferDados nome lixo conteudo).length = 21 + conteudo.length := by
  have hle : (le32 (tam conteudo)).length = 4 := rfl
  have := hn.1
  simp only [bufferDados, List.length_append, hle, List.length_ofFn, List.length_replicate]
  omega

theorem tam_toNat : (tam conteudo).toNat = conteudo.length % 2 ^ 32 := UInt32.toNat_ofNat'

theorem take_enviado (hn : NomeCurto nome) :
    (bufferDados nome lixo conteudo).take (tam conteudo).toNat <+: enviado nome lixo conteudo alem ∧
      ((bufferDados nome lixo conteudo).take (tam conteudo).toNat).length = (tam conteudo).toNat := by
  have hlen := length_bufferDados lixo conteudo hn
  have htam := tam_toNat conteudo
  have hmod := Nat.mod_le conteudo.length (2 ^ 32)
  constructor
  · rw [enviado]
    split
    · exact List.prefix_refl _
    · exact (List.take_prefix _ _).trans (List.prefix_append _ _)
  · rw [List.length_take, hlen]
    omega

theorem ofLe32_bufferDados : ofLe32 (bufferDados nome lixo conteudo) = tam conteudo := by
  rw [bufferDados, List.append_assoc, List.append_assoc]
  exact PicoReassembly.ofLe32_le32 _ _

end Stream

section Progress

variable {s : List UInt8} {r t : Receptor}

theorem sonda_step (h : r.fim = false) : step sonda r = some (atende r.w.rsr r) := by
  rw [sonda, step, h]
  rfl

/-- A receiver that has too little to go on with. -/
structure Parado (r : Receptor) : Prop where
  coerente : Coerente r
  few : (unread r.w).length ≤ 21
  none : r.estado = .payload → unread r.w = []

theorem parado_step (h : Parado r) (hs : step sonda r = some t) : Parado t := by
  have hsize := length_unread r.w
  rw [sonda_step h.coerente.fim] at hs
  cases he : r.estado with
  | payload =>
      have hnone := h.none he
      have h0 : r.w.rsr = 0 := by
        rw [hnone] at hsize
        exact UInt16.toNat_inj.mp hsize.symm
      have hat : atende r.w.rsr r = r := by
        rw [atende, he, h0]
        rfl
      rw [hat] at hs
      cases hs
      exact h
  | header =>
      have hat : atende r.w.rsr r = faseCabecalho r.w.rsr r := by rw [atende, he]
      rw [hat] at hs
      cases hs
      by_cases h21 : 21 ≤ r.w.rsr
      · obtain ⟨lido, hpoll, hnext⟩ := faseCabecalho_poll h.coerente he hsize.ge
        obtain ⟨-, hlido, hfim⟩ := hnext (UInt16.le_iff_toNat_le.mp h21)
        have hunread : unread (faseCabecalho r.w.rsr r).w = [] := by
          have hlen := congrArg List.length hpoll.stream
          rw [List.length_append] at hlen
          have := h.few
          exact List.eq_nil_of_length_eq_zero (by omega)
        refine ⟨?_, by rw [hunread]; exact Nat.zero_le _, fun _ => hunread⟩
        rcases hpoll.result with ⟨hco, -⟩ | ⟨hco, -⟩
        · exact hco
        · rw [hco.fim] at hfim
          cases hfim
      · rw [faseCabecalho, if_neg h21]
        exact h

theorem parado_run (h : Parado r) (n : Nat) (hr : run step (List.replicate n sonda) r = some t) : t.fim = false := by
  induction n generalizing r with
  | zero =>
      cases hr
      exact h.coerente.fim
  | succ n ih =>
      obtain ⟨u, hu, ht⟩ := run_cons_eq_some.mp hr
      exact ih (parado_step h hu) ht

theorem sonda_poll (h : Coerente r) :
    ∃ t lido, step sonda r = some t ∧ Poll lido r t ∧
      (r.estado = .header → 21 ≤ (unread r.w).length → t.estado = .payload ∧ lido.length = 21 ∧ t.fim = false) ∧
      (r.estado = .payload → t.fim = false → unread t.w = []) := by
  have hstep := sonda_step h.fim
  obtain ⟨lido, n, w, hsize, hpoll, hhead, hpay⟩ := established_poll h hstep
  obtain ⟨rfl, rfl⟩ : n = r.w.rsr ∧ w = r.w := by
    cases hsize
    exact ⟨rfl, rfl⟩
  have hlen := congrArg List.length hpoll.stream
  rw [List.length_append, length_unread] at hlen
  dsimp only at hlen
  refine ⟨_, lido, hstep, hpoll, by rwa [length_unread], ?_⟩
  intro he hf
  have hlido := (hpay he).1 hf
  exact List.eq_nil_of_length_eq_zero (by omega)

theorem chega_coerente (h : Coerente r) {d : List UInt8} (hd : r.w.rsr.toNat + d.length ≤ 2048) :
    ∃ u, step (.chega d) r = some u ∧ Coerente u ∧ u.estado = r.estado ∧ u.lidos = r.lidos ∧
      unread u.w = unread r.w ++ d := by
  obtain ⟨w, hw⟩ := chega_isSome hd
  refine ⟨{ r with w := w }, ?_, ⟨h.fim, h.header, h.payload⟩, rfl, rfl, unread_chega hw⟩
  rw [step_chega h.fim, hw]
  rfl

/-- A receiver that has taken all that has come, and waits for more. -/
def Vazio (r : Receptor) : Prop := r.fim = true ∨ Coerente r ∧ r.estado = .payload ∧ unread r.w = []

theorem vazio_byte (h : Vazio r) (b : UInt8) : ∃ t, run step [.chega [b], sonda] r = some t ∧ Vazio t := by
  rcases h with hf | ⟨hco, he, hnil⟩
  · exact ⟨r, by rw [run_cons_of_step (step_fim hf _), run_cons_of_step (step_fim hf _), run_nil], .inl hf⟩
  · have h0 : r.w.rsr.toNat = 0 := by rw [← length_unread, hnil, List.length_nil]
    have hroom : r.w.rsr.toNat + [b].length ≤ 2048 := by
      rw [h0, List.length_singleton]
      decide
    obtain ⟨u, hu, hcou, heu, hlidos, -⟩ := chega_coerente hco hroom
    obtain ⟨t, lido, ht, hpoll, -, hpay⟩ := sonda_poll hcou
    refine ⟨t, by rw [run_cons_of_step hu, run_cons_of_step ht, run_nil], ?_⟩
    rcases hpoll.result with ⟨hres, -⟩ | ⟨hres, -⟩
    · right
      refine ⟨hres, ?_, hpay (heu.trans he) hres.fim⟩
      cases hest : t.estado with
      | payload => rfl
      | header =>
          obtain ⟨h21, -⟩ := hco.payload he
          have hlen := congrArg List.length (hpoll.lidos.symm.trans (hres.header hest))
          rw [List.length_append, hlidos, List.length_nil] at hlen
          omega
    · exact .inl hres.fim

theorem vazio_bytes (h : Vazio r) (l : List UInt8) :
    ∃ t, run step (l.flatMap fun b => [.chega [b], sonda]) r = some t ∧ Vazio t := by
  induction l generalizing r with
  | nil => exact ⟨r, rfl, h⟩
  | cons b l ih =>
      obtain ⟨u, hu, hv⟩ := vazio_byte h b
      obtain ⟨t, ht, hvt⟩ := ih hv
      exact ⟨t, by rw [List.flatMap_cons, run_append_of_run hu, ht], hvt⟩

theorem vazio_header (rx : Nat → UInt8) (ptr : UInt16) (ram : Nat → UInt8) (hs : s.length = 21) :
    ∃ t, run step [.chega s, sonda] (Receptor.inicial rx ptr ram) = some t ∧ Vazio t := by
  have hrsr : (Receptor.inicial rx ptr ram).w.rsr = 0 := UInt16.sub_self ptr
  have hini : Coerente (Receptor.inicial rx ptr ram) := ⟨rfl, fun _ => rfl, fun hno => Estado.noConfusion hno⟩
  have hroom : (Receptor.inicial rx ptr ram).w.rsr.toNat + s.length ≤ 2048 := by
    rw [hrsr, hs]
    decide
  obtain ⟨u, hu, hco, he, -, hunread⟩ := chega_coerente hini hroom
  have hlen : (unread u.w).length = 21 := by
    rw [hunread, List.length_append, length_unread, hrsr, hs]
    rfl
  obtain ⟨t, lido, ht, hpoll, hhead, -⟩ := sonda_poll hco
  obtain ⟨hest, hlido, hfim⟩ := hhead he hlen.ge
  refine ⟨t, by rw [run_cons_of_step hu, run_cons_of_step ht, run_nil], .inr ⟨?_, hest, ?_⟩⟩
  · rcases hpoll.result with ⟨hres, -⟩ | ⟨hres, -⟩
    · exact hres
    · rw [hres.fim] at hfim
      cases hfim
  · have hl := congrArg List.length hpoll.stream
    rw [List.length_append] at hl
    exact List.eq_nil_of_length_eq_zero (by omega)

/-- The stream can be brought to the receiver, byte after byte behind the header, so that it ends. -/
theorem exists_complete (rx : Nat → UInt8) (ptr : UInt16) (ram : Nat → UInt8) (h21 : 21 < (ofLe32 s).toNat)
    (hlen : (ofLe32 s).toNat ≤ s.length) :
    ∃ es t, (∀ e ∈ es, Conectado e) ∧ es.flatMap chegado <+: s ∧
      run step es (Receptor.inicial rx ptr ram) = some t ∧ t.fim = true := by
  have hini := reune_inicial rx ptr ram
  have hlen21 : (s.take 21).length = 21 := by
    rw [List.length_take]
    omega
  obtain ⟨u, hu, hvazio⟩ := vazio_header rx ptr ram hlen21
  obtain ⟨v, hv, -⟩ := vazio_bytes hvazio ((s.take (ofLe32 s).toNat).drop 21)
  have hbytes (l : List UInt8) : (l.flatMap fun b => [Evento.chega [b], sonda]).flatMap chegado = l := by
    induction l with
    | nil => rfl
    | cons b l ih =>
        rw [List.flatMap_cons, List.flatMap_append, ih]
        rfl
  have hconn (l : List UInt8) : ∀ e ∈ [Evento.chega (s.take 21), sonda] ++ l.flatMap fun b => [.chega [b], sonda],
      Conectado e := by
    intro e he
    simp only [List.mem_append, List.mem_cons, List.not_mem_nil, or_false, List.mem_flatMap] at he
    rcases he with (rfl | rfl) | ⟨b, -, rfl | rfl⟩
    · trivial
    · rfl
    · trivial
    · rfl
  have hall : ([Evento.chega (s.take 21), sonda] ++
      ((s.take (ofLe32 s).toNat).drop 21).flatMap fun b => [.chega [b], sonda]).flatMap chegado =
        s.take (ofLe32 s).toNat := by
    have htake : s.take 21 = (s.take (ofLe32 s).toNat).take 21 := by rw [List.take_take, Nat.min_eq_left (by omega)]
    have hhead (x : List UInt8) : [Evento.chega x, sonda].flatMap chegado = x := List.append_nil x
    rw [List.flatMap_append, hbytes, hhead, htake]
    exact List.take_append_drop 21 _
  have hrun := (run_append_of_run hu
    (((s.take (ofLe32 s).toNat).drop 21).flatMap fun b => [.chega [b], sonda])).trans hv
  have hreune := reune_run hini (hconn _) hrun
  rw [List.nil_append, hall] at hreune
  have hof := ofLe32_of_prefixed (List.take_prefix (ofLe32 s).toNat s) (by rw [List.length_take]; omega)
  obtain ⟨t, ht, hf⟩ := reune_ends hreune (by rwa [← hof]) (by rw [← hof, List.length_take]; omega)
  refine ⟨_ ++ [sonda, sonda], t, ?_, ?_, (run_append_of_run hrun _).trans ht, hf⟩
  · intro e he
    rcases List.mem_append.mp he with he | he
    · exact hconn _ e he
    · simp only [List.mem_cons, List.not_mem_nil, or_false] at he
      rcases he with rfl | rfl <;> rfl
  · rw [List.flatMap_append, hall]
    exact (List.append_nil (s.take _)).symm ▸ List.take_prefix _ s

end Progress

section Saved

variable {nome : Path} {lixo : Fin 4 → UInt8} {conteudo alem : List UInt8} {ram : Nat → UInt8} {t : Receptor}

/-- A receiver that has stored `tam` bytes of the buffer over what `ram` held. -/
structure Recebido (nome : Path) (lixo : Fin 4 → UInt8) (conteudo : List UInt8) (ram : Nat → UInt8)
    (t : Receptor) : Prop where
  tamanho : t.tamanhoTotal = tam conteudo
  ram : t.ram = guarda bufferArquivo ((bufferDados nome lixo conteudo).take (tam conteudo).toNat) ram

theorem recebido_of_reune {a : List UInt8} (hn : NomeCurto nome) (h22 : 22 ≤ (tam conteudo).toNat)
    (h : Reune ram a t) (ha : a <+: enviado nome lixo conteudo alem) (hf : t.fim = true) :
    Recebido nome lixo conteudo ram t := by
  rcases h.stream with ⟨hco, -, -⟩ | ⟨hco, -, hpre⟩
  · rw [hco.fim] at hf
    cases hf
  · obtain ⟨htake, hlen⟩ := take_enviado lixo conteudo alem hn
    have h4 : 4 ≤ t.lidos.length := by
      have := hco.cabecalho
      omega
    have htotal : t.tamanhoTotal = tam conteudo := by
      have hpart := List.take_prefix (tam conteudo).toNat (bufferDados nome lixo conteudo)
      have hwhole := ofLe32_of_prefixed hpart (by omega)
      rw [hco.tamanho, ← ofLe32_of_prefixed (hpre.trans ha) h4, ofLe32_of_prefixed htake (by omega), ← hwhole]
      exact ofLe32_bufferDados lixo conteudo
    have hlidos := hco.exato (by rw [htotal]; omega)
    rw [htotal] at hlidos
    have heq : t.lidos = (bufferDados nome lixo conteudo).take (tam conteudo).toNat :=
      (List.prefix_of_prefix_length_le (hpre.trans ha) htake (by omega)).eq_of_length (by omega)
    exact ⟨htotal, heq ▸ h.ram⟩

variable (lixo conteudo) in
theorem bufferDados_nome (hn : NomeCurto nome) {i : Nat} (hi : i < 13) :
    (bufferDados nome lixo conteudo)[8 + i]? = some (nome.getD i 0) := by
  have hhead : (le32 (tam conteudo) ++ List.ofFn lixo).length = 8 := by
    rw [List.length_append, List.length_ofFn]
    rfl
  have hname : (nome ++ List.replicate (13 - nome.length) 0).length = 13 := by
    have := hn.1
    rw [List.length_append, List.length_replicate]
    omega
  rw [bufferDados, List.append_assoc, List.append_assoc, ← List.append_assoc,
    List.getElem?_append_right (by omega), hhead, Nat.add_sub_cancel_left, List.getElem?_append_left (by omega)]
  by_cases hlt : i < nome.length
  · rw [List.getElem?_append_left hlt, List.getD_eq_getElem _ _ hlt, List.getElem?_eq_getElem hlt]
  · rw [List.getElem?_append_right (by omega), List.getD_eq_default _ _ (by omega), List.getElem?_replicate]
    exact if_pos (by omega)

variable (lixo conteudo) in
theorem drop_bufferDados (hn : NomeCurto nome) : (bufferDados nome lixo conteudo).drop 21 = conteudo := by
  have hlen := length_bufferDados lixo [] hn
  rw [bufferDados, List.append_nil, List.length_nil, Nat.add_zero] at hlen
  rw [bufferDados]
  exact List.drop_left' hlen

theorem recebido_nomeia (hn : NomeCurto nome) (h22 : 22 ≤ (tam conteudo).toNat)
    (h : Recebido nome lixo conteudo ram t) : Nomeia t.ram nome := by
  obtain ⟨-, hlen⟩ := take_enviado lixo conteudo [] hn
  have hbyte {i : Nat} (hi : i < 13) : t.ram (bufferArquivo + 8 + i) = nome.getD i 0 := by
    have hi' : 8 + i < ((bufferDados nome lixo conteudo).take (tam conteudo).toNat).length := by omega
    have hget := bufferDados_nome lixo conteudo hn hi
    rw [h.ram, Nat.add_assoc, guarda_inside ram hi', List.getElem_take]
    exact (List.getElem?_eq_some_iff.mp hget).2
  have hshort := hn.1
  constructor
  · intro i hi
    rw [hbyte (by omega), List.getD_eq_getElem _ _ hi]
  · rw [hbyte (by omega), List.getD_eq_default _ _ (Nat.le_refl _)]

/-- What is saved lacks the last 21 bytes, and what the memory held behind the buffer takes their place. -/
theorem recebido_dados (hn : NomeCurto nome) (h22 : 22 ≤ (tam conteudo).toNat)
    (h : Recebido nome lixo conteudo ram t) :
    (List.range t.tamanhoTotal.toNat).map (fun i => t.ram (bufferArquivo + 21 + i)) =
      conteudo.take ((tam conteudo).toNat - 21) ++
        (List.range 21).map fun i => ram (bufferArquivo + (tam conteudo).toNat + i) := by
  obtain ⟨-, hlen⟩ := take_enviado lixo conteudo [] hn
  have hbuf := length_bufferDados lixo conteudo hn
  have hmod := Nat.mod_le conteudo.length (2 ^ 32)
  rw [← tam_toNat] at hmod
  have hkept : (conteudo.take ((tam conteudo).toNat - 21)).length = (tam conteudo).toNat - 21 := by
    rw [List.length_take]
    omega
  rw [h.tamanho]
  apply List.ext_getElem
  · rw [List.length_append, hkept]
    simp only [List.length_map, List.length_range]
    omega
  · intro i hi _
    rw [List.length_map, List.length_range] at hi
    rw [List.getElem_map, List.getElem_range, h.ram]
    by_cases hlt : i < (tam conteudo).toNat - 21
    · have hi' : 21 + i < ((bufferDados nome lixo conteudo).take (tam conteudo).toNat).length := by omega
      have hdrop := drop_bufferDados lixo conteudo hn
      rw [Nat.add_assoc, guarda_inside ram hi', List.getElem_append_left (by omega), List.getElem_take,
        List.getElem_take]
      have hget : ((bufferDados nome lixo conteudo).drop 21)[i]? = conteudo[i]? := by rw [hdrop]
      rw [List.getElem?_drop, List.getElem?_eq_getElem (by omega), List.getElem?_eq_getElem (by omega)] at hget
      exact Option.some_inj.mp hget
    · rw [guarda_outside ram (by omega), List.getElem_append_right (by omega), List.getElem_map, List.getElem_range]
      congr 1
      omega

theorem recebido_salva_iff (hn : NomeCurto nome) (h22 : 22 ≤ (tam conteudo).toNat)
    (h : Recebido nome lixo conteudo ram t) :
    Salva nome conteudo t ↔ conteudo.length < 2 ^ 32 ∧
      conteudo.drop (conteudo.length - 21) =
        (List.range 21).map fun i => ram (bufferArquivo + conteudo.length + i) := by
  have htam := tam_toNat conteudo
  have hne : t.tamanhoTotal ≠ 0 := by
    rw [h.tamanho]
    intro hzero
    rw [hzero] at h22
    exact absurd h22 (by decide)
  have hdados := recebido_dados hn h22 h
  have hlen := congrArg List.length hdados
  rw [List.length_map, List.length_range, h.tamanho] at hlen
  have hsaved {v : Volume} {escreve : Disk} (abre fecha : Disk) (hv : Gravavel (v nome)) (ha : abre.result = .ok)
      (he : escreve.result = .ok) (hroom : (tam conteudo).toNat ≤ escreve.room) (hf : fecha.result = .ok) :
      ∃ d, (savingFile abre escreve fecha nome t v).2 nome = .file false d ∧
        d.val = conteudo.take ((tam conteudo).toNat - 21) ++
          (List.range 21).map fun i => ram (bufferArquivo + (tam conteudo).toNat + i) := by
    have hlt := (tam conteudo).toNat_lt
    have hsave := grava_eq ha he (hlen ▸ hroom) hf (hlen ▸ hlt) hv
    refine ⟨⟨_, hlen ▸ hlt⟩, ?_, rfl⟩
    rw [savingFile, if_neg hne, hdados, hsave]
    exact Function.update_self _ _ _
  have hsplit : conteudo.length < 2 ^ 32 →
      (conteudo.take ((tam conteudo).toNat - 21) ++
          (List.range 21).map (fun i => ram (bufferArquivo + (tam conteudo).toNat + i)) = conteudo ↔
        conteudo.drop (conteudo.length - 21) =
          (List.range 21).map fun i => ram (bufferArquivo + conteudo.length + i)) := by
    intro hlt
    rw [htam, Nat.mod_eq_of_lt hlt]
    have hwhole := List.take_append_drop (conteudo.length - 21) conteudo
    constructor
    · intro heq
      exact (List.append_cancel_left (heq.trans hwhole.symm)).symm
    · intro heq
      rw [← heq]
      exact hwhole
  constructor
  · rintro ⟨-, hall⟩
    let vazio : Volume := fun _ => .none
    have hempty : Gravavel (vazio nome) := trivial
    let disco : Disk := ⟨.ok, conteudo.length, fun _ => 0⟩
    obtain ⟨d, hd, hval⟩ := hall vazio disco disco disco hempty rfl rfl (Nat.le_refl _) rfl
    have hlt : conteudo.length < 2 ^ 32 := hval ▸ d.property
    have hroom : (tam conteudo).toNat ≤ disco.room := by
      rw [htam]
      exact Nat.mod_le _ _
    obtain ⟨d', hd', hval'⟩ := hsaved disco disco hempty rfl rfl hroom rfl
    cases hd.symm.trans hd'
    exact ⟨hlt, (hsplit hlt).mp (hval'.symm.trans hval)⟩
  · rintro ⟨hlt, htail⟩
    refine ⟨recebido_nomeia hn h22 h, ?_⟩
    intro v abre escreve fecha hv ha he hroom hf
    obtain ⟨d, hd, hval⟩ := hsaved _ _ hv ha he (by rw [htam, Nat.mod_eq_of_lt hlt]; exact hroom) hf
    exact ⟨d, hd, hval.trans ((hsplit hlt).mpr htail)⟩

end Saved

section Transfer

variable {nome : Path} {lixo : Fin 4 → UInt8} {conteudo alem : List UInt8} {ram : Nat → UInt8}

theorem small_never_ends (hn : NomeCurto nome) (h22 : (tam conteudo).toNat < 22) :
    ¬ Transfere nome lixo conteudo alem ram := by
  intro h
  have hsent : enviado nome lixo conteudo alem = (bufferDados nome lixo conteudo).take (tam conteudo).toNat := by
    rw [enviado, if_pos (by omega)]
  obtain ⟨-, hlen⟩ := take_enviado lixo conteudo alem hn
  rw [← hsent] at hlen
  let r := Receptor.inicial (fun _ => 0) 0 ram
  have hco : Coerente r := ⟨rfl, fun _ => rfl, fun hno => Estado.noConfusion hno⟩
  have hrsr : r.w.rsr.toNat = 0 := congrArg UInt16.toNat (UInt16.sub_self 0)
  obtain ⟨t, ht, hcot, het, -, hunread⟩ := chega_coerente (d := enviado nome lixo conteudo alem) hco (by omega)
  have hempty : unread r.w = [] := List.eq_nil_of_length_eq_zero (by rw [length_unread, hrsr])
  rw [hempty, List.nil_append] at hunread
  have hparado : Parado t := ⟨hcot, by rw [hunread]; omega, fun hno => Estado.noConfusion (het.symm.trans hno)⟩
  have hrun : run step [.chega (enviado nome lixo conteudo alem)] r = some t := by rw [run_cons_of_step ht, run_nil]
  have hflat : [Evento.chega (enviado nome lixo conteudo alem)].flatMap chegado = enviado nome lixo conteudo alem :=
    List.append_nil _
  obtain ⟨n, u, hu, hf⟩ := (h _ _ _ t (by rintro e he; cases List.mem_singleton.mp he; trivial)
    (by rw [hflat]) hrun).2 hflat
  rw [parado_run hparado n hu] at hf
  cases hf

variable (lixo alem) in
theorem ofLe32_enviado (hn : NomeCurto nome) (h22 : 22 ≤ (tam conteudo).toNat) :
    ofLe32 (enviado nome lixo conteudo alem) = tam conteudo := by
  obtain ⟨htake, hlen⟩ := take_enviado lixo conteudo alem hn
  rw [ofLe32_of_prefixed htake (by omega), ← ofLe32_of_prefixed (List.take_prefix _ _) (by omega)]
  exact ofLe32_bufferDados lixo conteudo

theorem transfere_tail (hn : NomeCurto nome) (h : Transfere nome lixo conteudo alem ram) :
    22 ≤ conteudo.length ∧ conteudo.length < 2 ^ 32 ∧
      conteudo.drop (conteudo.length - 21) =
        (List.range 21).map fun i => ram (bufferArquivo + conteudo.length + i) := by
  have htam := tam_toNat conteudo
  have hmod := Nat.mod_le conteudo.length (2 ^ 32)
  obtain ⟨htake, hlen⟩ := take_enviado lixo conteudo alem hn
  have hle := htake.length_le
  have h22 : 22 ≤ (tam conteudo).toNat := Nat.le_of_not_lt fun hlt => small_never_ends hn hlt h
  have hof := ofLe32_enviado lixo alem hn h22
  obtain ⟨es, t, hc, hpre, hr, hf⟩ := exists_complete (s := enviado nome lixo conteudo alem) (fun _ => 0) 0 ram
    (by rw [hof]; omega) (by rw [hof]; omega)
  have hreune := reune_run (reune_inicial _ _ ram) hc hr
  have hrec := recebido_of_reune hn h22 hreune (by rwa [List.nil_append]) hf
  obtain ⟨hlt, htail⟩ := (recebido_salva_iff hn h22 hrec).mp ((h _ _ es t hc hpre hr).1 hf)
  exact ⟨by omega, hlt, htail⟩

/-- The size does not count the header, but no more bytes than that are sent, the header's among them. -/
theorem transfer_iff (hn : NomeCurto nome) :
    Transfere nome lixo conteudo alem ram ↔ 22 ≤ conteudo.length ∧ conteudo.length < 2 ^ 32 ∧
      conteudo.drop (conteudo.length - 21) =
        (List.range 21).map fun i => ram (bufferArquivo + conteudo.length + i) := by
  constructor
  · exact transfere_tail hn
  · rintro ⟨h22, hlt, htail⟩ rx ptr es t hc hpre hr
    have htam := tam_toNat conteudo
    rw [Nat.mod_eq_of_lt hlt] at htam
    obtain ⟨htake, hlen⟩ := take_enviado lixo conteudo alem hn
    have hle := htake.length_le
    have hof := ofLe32_enviado lixo alem hn (by omega : 22 ≤ (tam conteudo).toNat)
    have hreune := reune_run (reune_inicial rx ptr ram) hc hr
    rw [List.nil_append] at hreune
    constructor
    · intro hf
      exact (recebido_salva_iff hn (by omega) (recebido_of_reune hn (by omega) hreune hpre hf)).mpr ⟨hlt, htail⟩
    · intro hall
      rw [hall] at hreune
      exact ⟨2, reune_ends hreune (by rw [hof]; omega) (by rw [hof]; omega)⟩

def nomeUm : Path := text "A"

theorem nomeUm_curto : NomeCurto nomeUm := ⟨by decide, text_ne_zero (by decide)⟩

theorem zeros_over_zeros :
    Transfere nomeUm (fun _ => 0) (List.replicate 30 0) [] (fun _ => 0) :=
  (transfer_iff nomeUm_curto).mpr ⟨by decide, by decide, by decide⟩

theorem ones_over_zeros :
    ¬ Transfere nomeUm (fun _ => 0) (List.replicate 30 1) [] (fun _ => 0) ∧
      ¬ Transfere nomeUm (fun _ => 0) [] [] (fun _ => 0) := by
  constructor
  · intro h
    exact absurd (transfere_tail nomeUm_curto h).2.2 (by decide)
  · exact small_never_ends nomeUm_curto (by decide)

end Transfer

end Orion68.ReceiverTransfer
