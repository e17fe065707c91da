import Orion68.Kbd.Modifiers

namespace Orion68.KbdBounds

open Transducers KbdUsb KbdFrames Relatorio KbdModifiers

section Accesses

/-- An access to `key_buffer`, or a lookup in a keymap. -/
inductive Acesso
  | keyBuffer (i : ℕ)
  | keymap (m : Keymap) (code : UInt8)

def Acesso.Dentro : Acesso → Prop
  | keyBuffer i => i < 1048
  | keymap m code => code.toNat < m.tabela.length

/-- The keymap in which `get_kbd_key` looks. -/
def consulta (s : Teclado) : Option Keymap :=
  if s.specialKeyStatus = 0x00 ∧ s.modCaps = 0x00 then some .base
  else if s.specialKeyStatus &&& KEY_SHIFT ≠ 0 then
    if s.modCaps = 2 then some .base else some .shift
  else if s.specialKeyStatus &&& KEY_CTRL ≠ 0 then some .ctrl
  else if s.specialKeyStatus &&& KEY_ALT ≠ 0 then some .alt
  else if s.specialKeyStatus &&& KEY_ALTGR ≠ 0 then some .altgr
  else if s.modCaps ≠ 0 then some .shift
  else none

def acessosDecodifica (s : Teclado) : List Acesso :=
  .keyBuffer 4 ::
    if s.keyBuffer 4 > 0 then .keyBuffer 4 :: ((consulta s).map fun m => .keymap m (s.keyBuffer 4)).toList else []

/-- The accesses of `kbd_finish_0x88`; those that are made twice are given once. -/
def acessosFinish (s : Teclado) : List Acesso :=
  .keyBuffer 2 :: .keyBuffer 4 ::
    if s.keyBuffer 2 = 0x00 ∧ s.keyBuffer 4 = 0x00 then []
    else if s.keyBuffer 2 = 0x01 ∨ s.keyBuffer 2 = 0x10 then acessosDecodifica (modificador KEY_CTRL s)
    else if s.keyBuffer 2 = 0x02 ∨ s.keyBuffer 2 = 0x20 then acessosDecodifica (modificador KEY_SHIFT s)
    else if s.keyBuffer 2 = 0x04 then acessosDecodifica (modificador KEY_ALT s)
    else if s.keyBuffer 2 = 0x40 then acessosDecodifica (modificador KEY_ALTGR s)
    else if s.keyBuffer 4 = 0x39 then []
    else acessosDecodifica { s with keyDown := true, keyUp := false }

/-- The accesses of `kbd_poll` for one byte. -/
def acessosByte (c : UInt8) (s : Teclado) : List Acesso :=
  match s.kbdState with
  | .kbd88WaitSize =>
      (List.range 1048).map .keyBuffer ++ if c = 0 then acessosFinish { s with keyBuffer := fun _ => 0 } else []
  | .kbd88ReadPayload =>
      (if s.kbdIndex < 1048 then [.keyBuffer s.kbdIndex] else []) ++
        if s.kbdIndex + 1 > s.kbdSize.toNat then
          acessosFinish { s with
            keyBuffer := if s.kbdIndex < 1048 then Function.update s.keyBuffer s.kbdIndex c else s.keyBuffer }
        else []
  | _ => []

def acessos (alem : Keymap → UInt8 → UInt8) : List UInt8 → Teclado → List Acesso
  | [], _ => []
  | c :: fluxo, s => acessosByte c s ++ acessos alem fluxo (umByte alem c s).1

variable {alem alem' : Keymap → UInt8 → UInt8} {s : Teclado} {fluxo fluxo' : List UInt8} {c : UInt8}

theorem length_tabela (m : Keymap) : m.tabela.length = 128 := by
  cases m <;> rfl

theorem keyBuffer_dentro {i : ℕ} (h : i < 1048) : (Acesso.keyBuffer i).Dentro := h

theorem keymap_dentro {m : Keymap} {k : UInt8} : (Acesso.keymap m k).Dentro ↔ k < 0x80 := by
  rw [Acesso.Dentro, length_tabela, UInt8.lt_iff_toNat_lt]
  rfl

theorem getKbdKey_eq (code : UInt8) (s : Teclado) :
    getKbdKey alem code s = (consulta s).elim 0 fun m => m.tecla alem code := by
  rw [getKbdKey, consulta]
  split_ifs <;> rfl

theorem acessosFinish_eq (s : Teclado) :
    acessosFinish s = .keyBuffer 2 :: .keyBuffer 4 ::
      if s.keyBuffer 2 = 0 ∧ s.keyBuffer 4 = 0 then []
      else
        match statusDe (s.keyBuffer 2) with
        | some status => acessosDecodifica (modificador status s)
        | none =>
            if s.keyBuffer 4 = 0x39 then [] else acessosDecodifica { s with keyDown := true, keyUp := false } := by
  rw [acessosFinish, statusDe]
  split_ifs <;> rfl

theorem mem_acessosDecodifica {a : Acesso} : a ∈ acessosDecodifica s ↔
    a = .keyBuffer 4 ∨ 0 < s.keyBuffer 4 ∧ ∃ m, consulta s = some m ∧ a = .keymap m (s.keyBuffer 4) := by
  rw [acessosDecodifica, List.mem_cons]
  apply or_congr_right'
  intro hne
  split
  next hpos =>
    rw [List.mem_cons, or_iff_right hne, Option.mem_toList, Option.map_eq_some_iff]
    constructor
    · rintro ⟨m, hm, rfl⟩
      exact ⟨hpos, m, hm, rfl⟩
    · rintro ⟨-, m, hm, rfl⟩
      exact ⟨m, hm, rfl⟩
  next hpos => simp [hpos]

variable (alem s fluxo) in
def Seguro : Prop := ∀ a ∈ acessos alem fluxo s, a.Dentro

theorem seguro_nil : Seguro alem s [] := fun _ ha => absurd ha List.not_mem_nil

theorem seguro_cons :
    Seguro alem s (c :: fluxo) ↔ (∀ a ∈ acessosByte c s, a.Dentro) ∧ Seguro alem (umByte alem c s).1 fluxo :=
  List.forall_mem_append

theorem seguro_append :
    Seguro alem s (fluxo ++ fluxo') ↔ Seguro alem s fluxo ∧ Seguro alem (bytes alem fluxo s).1 fluxo' := by
  induction fluxo generalizing s with
  | nil => exact (and_iff_right seguro_nil).symm
  | cons c fluxo ih => rw [List.cons_append, seguro_cons, seguro_cons, ih, and_assoc]; rfl

end Accesses

section Tables

variable {alem alem' : Keymap → UInt8 → UInt8} {s : Teclado} {fluxo : List UInt8} {c : UInt8}

theorem tecla_congr {m : Keymap} {code : UInt8} (h : (Acesso.keymap m code).Dentro) :
    m.tecla alem code = m.tecla alem' code := by
  rw [Keymap.tecla, Keymap.tecla, List.getD_eq_getElem _ _ h, List.getD_eq_getElem _ _ h]

theorem decodifica_congr (h : ∀ a ∈ acessosDecodifica s, a.Dentro) : decodifica alem s = decodifica alem' s := by
  rw [decodifica, decodifica, getKbdKey_eq, getKbdKey_eq]
  rw [acessosDecodifica] at h
  split
  next hpos =>
    rw [if_pos hpos] at h
    cases hm : consulta s with
    | none => rfl
    | some m =>
        rw [Option.elim_some, Option.elim_some, tecla_congr (h (.keymap m (s.keyBuffer 4)) (by simp [hm]))]
  next => rfl

theorem kbdFinish0x88_congr (h : ∀ a ∈ acessosFinish s, a.Dentro) : kbdFinish0x88 alem s = kbdFinish0x88 alem' s := by
  rw [kbdFinish0x88_eq, kbdFinish0x88_eq]
  rw [acessosFinish_eq] at h
  split
  next => rfl
  next hkey =>
    rw [if_neg hkey] at h
    cases hst : statusDe (s.keyBuffer 2) with
    | some status =>
        rw [hst] at h
        exact decodifica_congr fun a ha => h a (by simp [ha])
    | none =>
        rw [hst] at h
        dsimp only at h ⊢
        split
        next => rfl
        next hcaps =>
          rw [if_neg hcaps] at h
          exact decodifica_congr fun a ha => h a (by simp [ha])

theorem recebeByte_congr (h : ∀ a ∈ acessosByte c s, a.Dentro) : recebeByte alem c s = recebeByte alem' c s := by
  rw [recebeByte, recebeByte]
  cases hs : s.kbdState <;> rw [acessosByte, hs] at h <;> dsimp only at h ⊢
  case kbd88WaitSize =>
    split
    next hc =>
      rw [if_pos hc] at h
      exact kbdFinish0x88_congr fun a ha => h a (List.mem_append_right _ ha)
    next => rfl
  case kbd88ReadPayload =>
    split
    next hfull =>
      rw [if_pos hfull] at h
      refine congrArg (fun t : Teclado => { t with kbdState := .kbdWaitHdr1 }) ?_
      exact kbdFinish0x88_congr fun a ha => h a (List.mem_append_right _ ha)
    next => rfl

theorem bytes_congr (h : Seguro alem s fluxo) : bytes alem fluxo s = bytes alem' fluxo s := by
  induction fluxo generalizing s with
  | nil => rfl
  | cons c fluxo ih =>
      rw [seguro_cons] at h
      have hbyte : umByte alem c s = umByte alem' c s := by rw [umByte, umByte, recebeByte_congr h.1]
      have hrest := ih h.2
      rw [hbyte] at hrest
      rw [bytes, bytes, feed_cons, feed_cons, hbyte]
      dsimp only [bytes] at hrest
      rw [hrest]

end Tables

section Payload

variable {alem : Keymap → UInt8 → UInt8} {s : Teclado} {c n : UInt8} {d : List UInt8} {i : ℕ}

theorem consulta_ne_none (hstatus : s.specialKeyStatus ∈ [0, KEY_CTRL, KEY_SHIFT, KEY_ALT, KEY_ALTGR])
    (hcaps : s.modCaps ∈ [0, 2]) : consulta s ≠ none := by
  simp only [List.mem_cons, List.not_mem_nil, or_false] at hstatus hcaps
  rw [consulta]
  rcases hstatus with h | h | h | h | h <;> rcases hcaps with h' | h' <;> rw [h, h'] <;> decide

theorem acessosDecodifica_dentro (h : consulta s ≠ none) :
    (∀ a ∈ acessosDecodifica s, a.Dentro) ↔ s.keyBuffer 4 < 0x80 := by
  obtain ⟨m, hm⟩ := Option.ne_none_iff_exists'.mp h
  constructor
  · intro hall
    by_cases hk : s.keyBuffer 4 = 0
    · rw [hk]
      decide
    · rw [← keymap_dentro (m := m)]
      exact hall _ (mem_acessosDecodifica.mpr (.inr ⟨UInt8.pos_iff_ne_zero.mpr hk, m, hm, rfl⟩))
  · intro hcode a ha
    obtain rfl | ⟨-, m', -, rfl⟩ := mem_acessosDecodifica.mp ha
    · exact keyBuffer_dentro (by decide)
    · exact keymap_dentro.mpr hcode

theorem acessosFinish_dentro (hstatus : s.specialKeyStatus ∈ [0, KEY_CTRL, KEY_SHIFT, KEY_ALT, KEY_ALTGR])
    (hcaps : s.modCaps ∈ [0, 2]) : (∀ a ∈ acessosFinish s, a.Dentro) ↔ s.keyBuffer 4 < 0x80 := by
  have hnil : ∀ a ∈ ([] : List Acesso), a.Dentro := fun _ ha => absurd ha List.not_mem_nil
  rw [acessosFinish_eq, List.forall_mem_cons, List.forall_mem_cons,
    and_iff_right (keyBuffer_dentro (by decide)), and_iff_right (keyBuffer_dentro (by decide))]
  split
  next hkey =>
    rw [hkey.2]
    exact iff_of_true hnil (by decide)
  next =>
    cases hst : statusDe (s.keyBuffer 2) with
    | some status =>
        exact acessosDecodifica_dentro (s := modificador status s) (consulta_ne_none (statusDe_mem hst) hcaps)
    | none =>
        dsimp only
        split
        next hk =>
          rw [hk]
          exact iff_of_true hnil (by decide)
        next =>
          exact acessosDecodifica_dentro (s := { s with keyDown := true, keyUp := false })
            (consulta_ne_none hstatus hcaps)

theorem acessosByte_payload (c : UInt8) (hs : s.kbdState = .kbd88ReadPayload) (hi : s.kbdIndex = i)
    (hn : i ≤ s.kbdSize.toNat) :
    acessosByte c s = .keyBuffer i ::
      if i = s.kbdSize.toNat then acessosFinish { s with keyBuffer := Function.update s.keyBuffer i c } else [] := by
  have hsize := s.kbdSize.toNat_lt
  rw [acessosByte, hs]
  dsimp only
  rw [hi, if_pos (show i < 1048 by omega), if_pos (show i < 1048 by omega)]
  by_cases hlast : i = s.kbdSize.toNat
  · rw [if_pos (show i + 1 > s.kbdSize.toNat by omega), if_pos hlast, List.singleton_append, ← hs]
  · rw [if_neg (show ¬ i + 1 > s.kbdSize.toNat by omega), if_neg hlast, List.append_nil]

variable (alem) in
/-- Bytes of a payload from the `i`th on; the key code is looked at when they are the last ones. -/
theorem seguro_payload (hs : s.kbdState = .kbd88ReadPayload) (hi : s.kbdIndex = i) (hlt : i ≤ s.kbdSize.toNat)
    (hn : i + d.length ≤ s.kbdSize.toNat + 1)
    (hstatus : s.specialKeyStatus ∈ [0, KEY_CTRL, KEY_SHIFT, KEY_ALT, KEY_ALTGR]) (hcaps : s.modCaps ∈ [0, 2]) :
    Seguro alem s d ↔ (i + d.length = s.kbdSize.toNat + 1 → guarda i d s.keyBuffer 4 < 0x80) := by
  induction d generalizing s i with
  | nil => exact iff_of_true seguro_nil fun h => absurd h (by rw [List.length_nil]; omega)
  | cons c d ih =>
      rw [List.length_cons] at hn
      have hsize := s.kbdSize.toNat_lt
      rw [seguro_cons, acessosByte_payload c hs hi hlt, List.forall_mem_cons,
        and_iff_right (keyBuffer_dentro (by omega))]
      by_cases hlast : i = s.kbdSize.toNat
      · have hd : d = [] := List.length_eq_zero_iff.mp (by omega)
        subst hd
        have hfinish := acessosFinish_dentro (s := { s with keyBuffer := Function.update s.keyBuffer i c })
          hstatus hcaps
        rw [if_pos hlast, and_iff_left seguro_nil, hfinish, ← guarda_cons, guarda_nil]
        exact ⟨fun hcode _ => hcode, fun hcode => hcode (by rw [hlast]; rfl)⟩
      · have hround : (umByte alem c s).1 =
            { s with keyBuffer := Function.update s.keyBuffer i c, kbdIndex := i + 1, kbdPendingChar := none } := by
          rw [umByte, recebeByte_payload alem c hs hi hlt, if_neg hlast]
        have hrest := ih (s := (umByte alem c s).1) (i := i + 1) (by rw [hround]; exact hs) (by rw [hround])
          (by rw [hround]; dsimp only; omega) (by rw [hround]; dsimp only; omega) (by rw [hround]; exact hstatus)
          (by rw [hround]; exact hcaps)
        rw [if_neg hlast, and_iff_right fun _ ha => absurd ha List.not_mem_nil, hrest, hround]
        dsimp only
        rw [guarda_cons, List.length_cons, Nat.add_assoc, Nat.add_comm 1]

theorem seguro_size (h : EntreRelatorios { s with kbdState := .kbdWaitHdr1 }) (hn : d.length ≤ n.toNat) :
    Seguro alem { s with kbdState := .kbd88WaitSize } (n :: d) ↔
      (d.length = n.toNat → guarda 1 d (fun _ => 0) 4 < 0x80) := by
  have hmemset : ∀ a ∈ (List.range 1048).map Acesso.keyBuffer, a.Dentro := by
    intro a ha
    obtain ⟨i, hi, rfl⟩ := List.mem_map.mp ha
    exact List.mem_range.mp hi
  rw [seguro_cons, acessosByte]
  dsimp only
  rw [List.forall_mem_append, and_iff_right hmemset]
  by_cases hzero : n = 0
  · subst hzero
    obtain rfl : d = [] := List.length_eq_zero_iff.mp (Nat.le_zero.mp hn)
    have hfinish := acessosFinish_dentro (s := { s with kbdState := .kbd88WaitSize, keyBuffer := fun _ => 0 })
      h.status h.caps
    rw [if_pos rfl, and_iff_left seguro_nil, guarda_nil, hfinish]
    exact ⟨fun hcode _ => hcode, fun hcode => hcode rfl⟩
  · have hpos : 0 < n := UInt8.pos_iff_ne_zero.mpr hzero
    let t := { s with kbdState := .kbd88ReadPayload, kbdSize := n, kbdIndex := 1, keyBuffer := fun _ => 0
                      kbdPendingChar := none }
    have hround : (umByte alem n { s with kbdState := .kbd88WaitSize }).1 = t := by
      rw [umByte, recebeByte]
      dsimp only
      rw [if_neg hzero, if_pos hpos]
    have hpayload := seguro_payload alem (s := t) (d := d) (i := 1) rfl rfl (UInt8.lt_iff_toNat_lt.mp hpos)
      (by rw [Nat.add_comm]; exact Nat.succ_le_succ hn) h.status h.caps
    rw [if_neg hzero, and_iff_right fun _ ha => absurd ha List.not_mem_nil, hround, hpayload, Nat.add_comm 1,
      Nat.add_right_cancel_iff]

end Payload

section Reader

def relatorio : List UInt8 → Option Relatorio × List UInt8
  | [] => (none, [])
  | n :: d =>
      if n.toNat ≤ d.length then
        (some ⟨d.take n.toNat, Nat.lt_of_le_of_lt (List.length_take_le _ _) n.toNat_lt⟩, d.drop n.toNat)
      else (none, [])

def comando : List UInt8 → Option Relatorio × List UInt8
  | [] => (none, [])
  | c :: d =>
      if c = 0x88 then relatorio d
      else if c = 0x81 then (none, d.drop (2 + (d.getD 1 0).toNat))
      else if c = 0x82 ∨ c = 0x85 then (none, d.drop 1)
      else (none, d)

def cabecalho : List UInt8 → Option Relatorio × List UInt8
  | [] => (none, [])
  | c :: d => if c = 0xAB then comando d else (none, d)

/-- The first packet of a stream: its report, if it is one and complete, and what follows. -/
def primeiro : List UInt8 → Option Relatorio × List UInt8
  | [] => (none, [])
  | c :: d => if c = 0x57 then cabecalho d else (none, d)

theorem relatorio_length (d : List UInt8) : (relatorio d).2.length ≤ d.length := by
  cases d with
  | nil => exact Nat.le_refl _
  | cons n d =>
      rw [relatorio]
      split
      · exact Nat.le_succ_of_le (List.drop_sublist _ _).length_le
      · exact Nat.zero_le _

theorem comando_length (d : List UInt8) : (comando d).2.length ≤ d.length := by
  cases d with
  | nil => exact Nat.le_refl _
  | cons c d =>
      have hdrop (n : ℕ) : (d.drop n).length ≤ d.length + 1 := Nat.le_succ_of_le (List.drop_sublist _ _).length_le
      rw [comando, List.length_cons]
      split
      · exact Nat.le_succ_of_le (relatorio_length d)
      · split
        · exact hdrop _
        · split
          · exact hdrop 1
          · exact Nat.le_succ _

theorem cabecalho_length (d : List UInt8) : (cabecalho d).2.length ≤ d.length := by
  cases d with
  | nil => exact Nat.le_refl _
  | cons c d =>
      rw [cabecalho]
      split
      · exact Nat.le_succ_of_le (comando_length d)
      · exact Nat.le_succ _

theorem primeiro_length (c : UInt8) (d : List UInt8) : (primeiro (c :: d)).2.length ≤ d.length := by
  rw [primeiro]
  split
  · exact cabecalho_length d
  · exact Nat.le_refl _

def relatorios : List UInt8 → List Relatorio
  | [] => []
  | c :: d => (primeiro (c :: d)).1.toList ++ relatorios (primeiro (c :: d)).2
termination_by fluxo => fluxo.length
decreasing_by exact Nat.lt_succ_of_le (primeiro_length c d)

end Reader

section Streams

variable {alem : Keymap → UInt8 → UInt8} {s t : Teclado} {c : UInt8} {d fluxo : List UInt8}
  {p : Option Relatorio × List UInt8}

variable (alem s fluxo p) in
/-- The parser reads a packet, and looks up the key code of its report. -/
def Trata : Prop :=
  ∃ lidos, fluxo = lidos ++ p.2 ∧ (p.2 = [] ∨ EntreRelatorios (bytes alem lidos s).1) ∧
    (Seguro alem s lidos ↔ ∀ r ∈ p.1, codigo r < 0x80)

theorem Trata.fim : Trata alem s [] (none, []) :=
  ⟨[], rfl, .inl rfl, iff_of_true seguro_nil fun _ hr => absurd hr (Option.not_mem_none _)⟩

theorem Trata.volta (h : EntreRelatorios s) : Trata alem s d (none, d) :=
  ⟨[], rfl, .inr h, iff_of_true seguro_nil fun _ hr => absurd hr (Option.not_mem_none _)⟩

theorem Trata.cons (hbyte : (umByte alem c s).1 = t) (hno : acessosByte c s = []) (h : Trata alem t d p) :
    Trata alem s (c :: d) p := by
  obtain ⟨lidos, hsplit, hentre, hseguro⟩ := h
  refine ⟨c :: lidos, by rw [hsplit, List.cons_append], ?_, ?_⟩
  · rw [bytes, feed_cons, hbyte]
    exact hentre
  · rw [seguro_cons, hno, hbyte, hseguro]
    exact and_iff_right fun _ ha => absurd ha List.not_mem_nil

theorem trata_relatorio (h : EntreRelatorios { s with kbdState := .kbdWaitHdr1 }) :
    Trata alem { s with kbdState := .kbd88WaitSize } d (relatorio d) := by
  cases d with
  | nil => exact .fim
  | cons n d =>
      rw [relatorio]
      split
      next hn =>
        have hlength : (d.take n.toNat).length = n.toNat := List.length_take_of_le hn
        have hcabe : (d.take n.toNat).length < 256 := by rw [hlength]; exact n.toNat_lt
        refine ⟨n :: d.take n.toNat, by rw [List.cons_append, List.take_append_drop], .inr ?_, ?_⟩
        · have hbytes := bytes_size alem (s := s) ⟨d.take n.toNat, hcabe⟩ h.pendente
          dsimp only at hbytes
          rw [hlength, UInt8.ofNat_toNat] at hbytes
          rw [hbytes]
          exact h.decodificado _
        · rw [seguro_size h (Nat.le_of_eq hlength), forall_prop_of_true hlength]
          simp only [Option.mem_some_iff, forall_eq', codigo, buffer_eq]
      next hn =>
        refine ⟨n :: d, (List.append_nil _).symm, .inl rfl, ?_⟩
        rw [seguro_size h (Nat.le_of_not_le hn)]
        exact iff_of_true (fun hlength => absurd (Nat.le_of_eq hlength.symm) hn)
          fun _ hr => absurd hr (Option.not_mem_none _)

variable (alem) in
theorem trata_salta (i n : ℕ) (h : EntreRelatorios { s with kbdState := .kbdWaitHdr1 })
    (hs : s.kbdState = .kbd81SkipPayload) (hi : s.kbdIndex = i) (hn : s.length.toNat = i + (n + 1)) :
    Trata alem s d (none, d.drop (n + 1)) := by
  induction n generalizing s d i with
  | zero =>
      cases d with
      | nil => exact .fim
      | cons c d =>
          refine .cons (t := { s with kbdState := .kbdWaitHdr1, kbdIndex := i + 1, kbdPendingChar := none }) ?_ ?_
            (.volta ⟨rfl, rfl, h.status, h.caps⟩)
          · rw [umByte, recebeByte, hs]
            dsimp only
            rw [hi, if_pos (by omega)]
          · rw [acessosByte, hs]
  | succ n ih =>
      cases d with
      | nil => exact .fim
      | cons c d =>
          refine .cons (t := { s with kbdIndex := i + 1, kbdPendingChar := none }) ?_ ?_
            (ih (s := { s with kbdIndex := i + 1, kbdPendingChar := none }) (i + 1) ⟨rfl, rfl, h.status, h.caps⟩ hs rfl
              (by dsimp only; omega))
          · rw [umByte, recebeByte, hs]
            dsimp only
            rw [hi, if_neg (by omega)]
          · rw [acessosByte, hs]

theorem trata_byte (q : KbdState) (h : EntreRelatorios { s with kbdState := .kbdWaitHdr1 })
    (hq : ∀ (c : UInt8) (s : Teclado), recebeByte alem c { s with kbdState := q } = { s with kbdState := .kbdWaitHdr1 })
    (hno : ∀ (c : UInt8) (s : Teclado), acessosByte c { s with kbdState := q } = []) :
    Trata alem { s with kbdState := q } d (none, d.drop 1) := by
  cases d with
  | nil => exact .fim
  | cons c d =>
      refine .cons (t := { s with kbdState := .kbdWaitHdr1, kbdPendingChar := none }) ?_ (hno c s)
        (.volta ⟨rfl, rfl, h.status, h.caps⟩)
      rw [umByte, hq]

theorem trata_tipo (h : EntreRelatorios { s with kbdState := .kbdWaitHdr1 }) :
    Trata alem { s with kbdState := .kbd81WaitType } d (none, d.drop (2 + (d.getD 1 0).toNat)) := by
  cases d with
  | nil => exact .fim
  | cons type d =>
      refine .cons (t := { s with kbdState := .kbd81WaitLen, type := type, kbdPendingChar := none }) rfl rfl ?_
      cases d with
      | nil => exact .fim
      | cons n d =>
          have hdrop : (type :: n :: d).drop (2 + ((type :: n :: d).getD 1 0).toNat) = d.drop n.toNat := by
            rw [List.getD_cons_succ, List.getD_cons_zero, Nat.add_comm]
            rfl
          rw [hdrop]
          let t := { s with type := type, length := n, kbdIndex := 0, kbdPendingChar := none }
          by_cases hn : n = 0
          · subst hn
            exact .cons (t := { t with kbdState := .kbdWaitHdr1 }) rfl rfl (.volta ⟨rfl, rfl, h.status, h.caps⟩)
          · have hpos := UInt8.pos_iff_ne_zero.mpr hn
            obtain ⟨k, hk⟩ := Nat.exists_eq_add_of_le' (UInt8.lt_iff_toNat_lt.mp hpos)
            have hskip := trata_salta alem (s := { t with kbdState := .kbd81SkipPayload }) (d := d) 0 k
              ⟨rfl, rfl, h.status, h.caps⟩ rfl rfl (by rw [Nat.zero_add]; exact hk)
            rw [hk]
            refine .cons ?_ rfl hskip
            rw [umByte, recebeByte]
            dsimp only
            rw [if_pos hpos]

theorem trata_comando (h : EntreRelatorios { s with kbdState := .kbdWaitHdr1 }) :
    Trata alem { s with kbdState := .kbdWaitCmd } d (comando d) := by
  cases d with
  | nil => exact .fim
  | cons c d =>
      let t := { s with kbdPendingChar := none }
      have ht : EntreRelatorios { t with kbdState := .kbdWaitHdr1 } := ⟨rfl, rfl, h.status, h.caps⟩
      rw [comando]
      by_cases h88 : c = 0x88
      · subst h88
        exact .cons (t := { t with kbdState := .kbd88WaitSize }) rfl rfl (trata_relatorio ht)
      rw [if_neg h88]
      by_cases h81 : c = 0x81
      · subst h81
        exact .cons (t := { t with kbdState := .kbd81WaitType }) rfl rfl (trata_tipo ht)
      rw [if_neg h81]
      by_cases h82 : c = 0x82
      · subst h82
        exact .cons (t := { t with kbdState := .kbd82WaitByte }) rfl rfl
          (trata_byte _ ht (fun _ _ => rfl) fun _ _ => rfl)
      by_cases h85 : c = 0x85
      · subst h85
        exact .cons (t := { t with kbdState := .kbd85WaitByte }) rfl rfl
          (trata_byte _ ht (fun _ _ => rfl) fun _ _ => rfl)
      rw [if_neg (not_or.mpr ⟨h82, h85⟩)]
      refine .cons (t := { t with kbdState := .kbdWaitHdr1 }) ?_ rfl (.volta ht)
      rw [umByte, recebeByte]
      dsimp only
      rw [if_neg h81, if_neg h82, if_neg h85, if_neg h88, ite_self]

theorem trata_cabecalho (h : EntreRelatorios { s with kbdState := .kbdWaitHdr1 }) :
    Trata alem { s with kbdState := .kbdWaitHdr2 } d (cabecalho d) := by
  cases d with
  | nil => exact .fim
  | cons c d =>
      rw [cabecalho]
      split
      next hc =>
        subst hc
        exact .cons (t := { s with kbdState := .kbdWaitCmd, kbdPendingChar := none }) rfl rfl
          (trata_comando (s := { s with kbdPendingChar := none }) ⟨rfl, rfl, h.status, h.caps⟩)
      next hc =>
        refine .cons (t := { s with kbdState := .kbdWaitHdr1, kbdPendingChar := none }) ?_ rfl
          (.volta ⟨rfl, rfl, h.status, h.caps⟩)
        rw [umByte, recebeByte]
        dsimp only
        rw [if_neg hc]

variable (alem fluxo) in
theorem trata_primeiro (h : EntreRelatorios s) : Trata alem s fluxo (primeiro fluxo) := by
  have hs : { s with kbdState := .kbdWaitHdr1 } = s := by rw [← h.kbdState]
  rw [← hs] at h ⊢
  cases fluxo with
  | nil => exact .fim
  | cons c d =>
      rw [primeiro]
      split
      next hc =>
        subst hc
        exact .cons (t := { s with kbdState := .kbdWaitHdr2, kbdPendingChar := none }) rfl rfl
          (trata_cabecalho (s := { s with kbdPendingChar := none }) ⟨rfl, rfl, h.status, h.caps⟩)
      next hc =>
        refine .cons (t := { s with kbdState := .kbdWaitHdr1, kbdPendingChar := none }) ?_ rfl
          (.volta ⟨rfl, rfl, h.status, h.caps⟩)
        rw [umByte, recebeByte]
        dsimp only
        rw [if_neg hc]

theorem seguro_iff (hs : EntreRelatorios s) : Seguro alem s fluxo ↔ ∀ r ∈ relatorios fluxo, codigo r < 0x80 := by
  induction fluxo using relatorios.induct generalizing s with
  | case1 =>
      rw [relatorios]
      exact iff_of_true seguro_nil fun _ hr => absurd hr List.not_mem_nil
  | case2 c d ih =>
      obtain ⟨lidos, hsplit, hentre, hseguro⟩ := trata_primeiro alem (c :: d) hs
      have hrest : Seguro alem (bytes alem lidos s).1 (primeiro (c :: d)).2 ↔
          ∀ r ∈ relatorios (primeiro (c :: d)).2, codigo r < 0x80 := by
        rcases hentre with hnil | hentre
        · rw [hnil, relatorios]
          exact iff_of_true seguro_nil fun _ hr => absurd hr List.not_mem_nil
        · exact ih hentre
      rw [relatorios, List.forall_mem_append]
      conv_lhs => rw [hsplit]
      rw [seguro_append, hseguro, hrest]
      simp only [Option.mem_toList, Option.mem_def]

/-- Every access is within the bounds exactly when the key codes of all complete reports are. -/
theorem accesses_within_iff (alem : Keymap → UInt8 → UInt8) (fluxo : List UInt8) :
    (∀ a ∈ acessos alem fluxo inicial, a.Dentro) ↔ ∀ r ∈ relatorios fluxo, codigo r < 0x80 :=
  seguro_iff entreRelatorios_inicial

/-- A report with the key code 0x87. -/
theorem keymap_overrun :
    ¬ ∀ (alem : Keymap → UInt8 → UInt8) (fluxo : List UInt8), ∀ a ∈ acessos alem fluxo inicial, a.Dentro := by
  intro hall
  have hcodes := (seguro_iff entreRelatorios_inicial).mp (hall (fun _ _ => 0) (quadro (relato 0 0x87)))
  have hread : relato 0 0x87 ∈ relatorios (0x57 :: [0xAB, 0x88, 4, 0, 0, 0, 0x87]) := by
    rw [relatorios]
    exact List.mem_cons_self
  have hcode : (0x87 : UInt8) < 0x80 := hcodes (relato 0 0x87) hread
  exact absurd hcode (by decide)

end Streams

end Orion68.KbdBounds
