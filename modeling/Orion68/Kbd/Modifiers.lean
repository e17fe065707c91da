import Orion68.Kbd.Frames

namespace Orion68.KbdModifiers

open Transducers KbdUsb KbdFrames Relatorio

section Runs

variable (alem : Keymap → UInt8 → UInt8)

def depois (h : List Relatorio) : Teclado := (bytes alem (h.flatMap Relatorio.quadro) inicial).1

def entregue (h : List Relatorio) (r : Relatorio) : List UInt8 := (bytes alem r.quadro (depois alem h)).2

/-- What a report delivers depends on its modifier byte, its key code and the state of caps lock only. -/
def SoDoRelatorio (m k : UInt8) : Prop :=
  ∀ (h h' : List Relatorio) (r r' : Relatorio), modificadores r = m → modificadores r' = m → codigo r = k →
    codigo r' = k → (depois alem h).modCaps = (depois alem h').modCaps → entregue alem h r = entregue alem h' r'

end Runs

section Finish

variable {alem : Keymap → UInt8 → UInt8} {s t : Teclado} {r : Relatorio}

/-- The status that a report sets when one modifier is down, and no other. -/
def statusDe (m : UInt8) : Option UInt8 :=
  if m = 0x01 ∨ m = 0x10 then some KEY_CTRL
  else if m = 0x02 ∨ m = 0x20 then some KEY_SHIFT
  else if m = 0x04 then some KEY_ALT
  else if m = 0x40 then some KEY_ALTGR
  else none

theorem statusDe_mem {m status : UInt8} (h : statusDe m = some status) :
    status ∈ [0, KEY_CTRL, KEY_SHIFT, KEY_ALT, KEY_ALTGR] := by
  simp only [statusDe, List.mem_cons, List.not_mem_nil, or_false] at h ⊢
  grind

theorem kbdFinish0x88_eq (alem : Keymap → UInt8 → UInt8) (s : Teclado) :
    kbdFinish0x88 alem s =
      if s.keyBuffer 2 = 0 ∧ s.keyBuffer 4 = 0 then nenhumaTecla s
      else
        match statusDe (s.keyBuffer 2) with
        | some status => decodifica alem (modificador status s)
        | none =>
            if s.keyBuffer 4 = 0x39 then capslock s
            else decodifica alem { s with keyDown := true, keyUp := false } := by
  rw [kbdFinish0x88, statusDe]
  split_ifs <;> rfl

/-- The variables with the status under which a report with this modifier byte is decoded. -/
def comStatus (m : UInt8) (s : Teclado) : Teclado :=
  { s with specialKeyStatus := (statusDe m).getD s.specialKeyStatus }

theorem getKbdKey_congr (code : UInt8) (hstatus : s.specialKeyStatus = t.specialKeyStatus)
    (hcaps : s.modCaps = t.modCaps) : getKbdKey alem code s = getKbdKey alem code t := by
  rw [getKbdKey, getKbdKey, hstatus, hcaps]

theorem decodifica_pendente (hp : s.kbdPendingChar = none) :
    (decodifica alem s).kbdPendingChar =
      if s.keyBuffer 4 = 0 then none else some (getKbdKey alem (s.keyBuffer 4) s) := by
  rw [decodifica]
  by_cases hk : s.keyBuffer 4 = 0
  · rw [if_pos hk, if_neg, hp]
    rw [hk]
    decide
  · rw [if_neg hk, if_pos (UInt8.pos_iff_ne_zero.mpr hk)]

theorem kbdFinish0x88_pendente (hp : s.kbdPendingChar = none) (hk : s.keyBuffer 4 ≠ 0x39) :
    (kbdFinish0x88 alem s).kbdPendingChar =
      if s.keyBuffer 4 = 0 then none
      else some (getKbdKey alem (s.keyBuffer 4)
        (comStatus (s.keyBuffer 2) s)) := by
  have hdecoded (status : UInt8) :
      (decodifica alem (modificador status s)).kbdPendingChar =
        if s.keyBuffer 4 = 0 then none
        else some (getKbdKey alem (s.keyBuffer 4) { s with specialKeyStatus := status }) :=
    decodifica_pendente (s := modificador status s) hp
  rw [kbdFinish0x88_eq]
  by_cases hnone : s.keyBuffer 2 = 0x00 ∧ s.keyBuffer 4 = 0x00
  · rw [if_pos hnone, if_pos hnone.2, nenhumaTecla]
    split <;> exact hp
  · rw [if_neg hnone, comStatus]
    cases statusDe (s.keyBuffer 2) with
    | some status => exact hdecoded status
    | none =>
        dsimp only
        rw [if_neg hk]
        exact decodifica_pendente (s := { s with keyDown := true, keyUp := false }) hp

/-- The key under the modifier of the report or, when it has not exactly one, under that of an earlier one. -/
theorem entrega_eq (hp : s.kbdPendingChar = none) (hk : codigo r ≠ 0x39) :
    (r.decodificado alem s).2 =
      if codigo r = 0 then []
      else [getKbdKey alem (codigo r) (comStatus (modificadores r) s)] := by
  rw [Relatorio.decodificado, kbdFinish0x88_pendente (s := r.lido s) hp hk]
  change (if codigo r = 0 then none else some _).toList = _
  split
  next => rfl
  next => rfl

end Finish

section Reachable

variable {alem : Keymap → UInt8 → UInt8} {s : Teclado} {r : Relatorio} {h : List Relatorio}

/-- Between two reports: at most one modifier is remembered. -/
structure EntreRelatorios (s : Teclado) : Prop where
  kbdState : s.kbdState = .kbdWaitHdr1
  pendente : s.kbdPendingChar = none
  status : s.specialKeyStatus ∈ [0, KEY_CTRL, KEY_SHIFT, KEY_ALT, KEY_ALTGR]
  caps : s.modCaps ∈ [0, 2]

theorem entreRelatorios_inicial : EntreRelatorios inicial := ⟨rfl, rfl, List.mem_cons_self, List.mem_cons_self⟩

variable (alem) in
theorem kbdFinish0x88_status (hs : s.specialKeyStatus ∈ [0, KEY_CTRL, KEY_SHIFT, KEY_ALT, KEY_ALTGR])
    (hc : s.modCaps ∈ [0, 2]) :
    (kbdFinish0x88 alem s).specialKeyStatus ∈ [0, KEY_CTRL, KEY_SHIFT, KEY_ALT, KEY_ALTGR] ∧
      (kbdFinish0x88 alem s).modCaps ∈ [0, 2] := by
  have hdecoded (t : Teclado) : (decodifica alem t).specialKeyStatus = t.specialKeyStatus ∧
      (decodifica alem t).modCaps = t.modCaps := by
    rw [decodifica]
    split <;> exact ⟨rfl, rfl⟩
  have hset (status : UInt8) (hstatus : status ∈ [0, KEY_CTRL, KEY_SHIFT, KEY_ALT, KEY_ALTGR]) :
      (decodifica alem (modificador status s)).specialKeyStatus ∈ [0, KEY_CTRL, KEY_SHIFT, KEY_ALT, KEY_ALTGR] ∧
        (decodifica alem (modificador status s)).modCaps ∈ [0, 2] := by
    rw [(hdecoded _).1, (hdecoded _).2]
    exact ⟨hstatus, hc⟩
  rw [kbdFinish0x88_eq]
  split
  next =>
    rw [nenhumaTecla]
    split
    · exact ⟨List.mem_cons_self, hc⟩
    · exact ⟨hs, hc⟩
  next =>
    cases hst : statusDe (s.keyBuffer 2) with
    | some status => exact hset status (statusDe_mem hst)
    | none =>
        dsimp only
        split
        next =>
          rw [capslock]
          split
          · exact ⟨hs, hc⟩
          · refine ⟨hs, ?_⟩
            dsimp only [sendCmdKeyboard]
            split <;> decide
        next =>
          rw [(hdecoded _).1, (hdecoded _).2]
          exact ⟨hs, hc⟩

theorem EntreRelatorios.decodificado (hs : EntreRelatorios s) (r : Relatorio) :
    EntreRelatorios (r.decodificado alem s).1 := by
  have hstate := kbdFinish0x88_kbdState alem (s := r.lido s) .kbdWaitHdr1
  have hsame : { r.lido s with kbdState := .kbdWaitHdr1 } = r.lido s := by
    rw [← hs.kbdState]
    rfl
  rw [hsame] at hstate
  obtain ⟨hstatus, hcaps⟩ := kbdFinish0x88_status alem (s := r.lido s) hs.status hs.caps
  exact ⟨congrArg Teclado.kbdState hstate, rfl, hstatus, hcaps⟩

theorem depois_snoc_of_entreRelatorios (hs : EntreRelatorios (depois alem h)) (r : Relatorio) :
    depois alem (h ++ [r]) = (r.decodificado alem (depois alem h)).1 := by
  rw [depois, List.flatMap_append, List.flatMap_singleton, bytes, feed_append]
  change (bytes alem r.quadro (depois alem h)).1 = _
  exact congrArg Prod.fst (bytes_quadro r hs.kbdState hs.pendente)

variable (alem) in
theorem depois_entreRelatorios (h : List Relatorio) : EntreRelatorios (depois alem h) := by
  induction h using List.reverseRecOn with
  | nil => exact entreRelatorios_inicial
  | append_singleton h r ih =>
      rw [depois_snoc_of_entreRelatorios ih]
      exact ih.decodificado r

variable (alem) in
theorem depois_snoc (h : List Relatorio) (r : Relatorio) :
    depois alem (h ++ [r]) = (r.decodificado alem (depois alem h)).1 :=
  depois_snoc_of_entreRelatorios (depois_entreRelatorios alem h) r

theorem entregue_eq (hk : codigo r ≠ 0x39) :
    entregue alem h r =
      if codigo r = 0 then []
      else [getKbdKey alem (codigo r) (comStatus (modificadores r) (depois alem h))] := by
  have hs := depois_entreRelatorios alem h
  rw [entregue, bytes_quadro r hs.kbdState hs.pendente, entrega_eq hs.pendente hk]

theorem exists_keymap (hstatus : s.specialKeyStatus ∈ [0, KEY_CTRL, KEY_SHIFT, KEY_ALT, KEY_ALTGR])
    (hcaps : s.modCaps ∈ [0, 2]) (code : UInt8) : ∃ m : Keymap, getKbdKey alem code s = m.tecla alem code := by
  simp only [List.mem_cons, List.not_mem_nil, or_false] at hstatus hcaps
  rw [getKbdKey]
  rcases hstatus with h | h | h | h | h <;> rcases hcaps with h' | h' <;> rw [h, h']
  · exact ⟨.base, rfl⟩
  · exact ⟨.shift, rfl⟩
  · exact ⟨.ctrl, rfl⟩
  · exact ⟨.ctrl, rfl⟩
  · exact ⟨.shift, rfl⟩
  · exact ⟨.base, rfl⟩
  · exact ⟨.alt, rfl⟩
  · exact ⟨.alt, rfl⟩
  · exact ⟨.altgr, rfl⟩
  · exact ⟨.altgr, rfl⟩

def relato (m k : UInt8) : Relatorio := ⟨[0, m, 0, k], by simp⟩

/-- Reports after which a key without a modifier of its own is looked up in the table. -/
def historicoDe : Keymap → List Relatorio
  | .base => []
  | .shift => [relato 0x02 0]
  | .ctrl => [relato 0x01 0]
  | .alt => [relato 0x04 0]
  | .altgr => [relato 0x40 0]

theorem statusDe_zero : statusDe 0 = none := rfl

variable (alem) in
theorem depois_relato {m status : UInt8} (hm : statusDe m = some status) :
    (depois alem [relato m 0]).specialKeyStatus = status ∧ (depois alem [relato m 0]).modCaps = 0 := by
  have hrun : depois alem [relato m 0] = ((relato m 0).decodificado alem inicial).1 := by
    rw [depois, List.flatMap_singleton, bytes_quadro _ rfl rfl]
  have hbuffer : ((relato m 0).lido inicial).keyBuffer 2 = m ∧ ((relato m 0).lido inicial).keyBuffer 4 = 0 :=
    ⟨rfl, rfl⟩
  have hne : ¬ (m = 0 ∧ (0 : UInt8) = 0) := by
    rintro ⟨rfl, -⟩
    rw [statusDe_zero] at hm
    cases hm
  have hset (status : UInt8) :
      (decodifica alem (modificador status ((relato m 0).lido inicial))).specialKeyStatus = status ∧
        (decodifica alem (modificador status ((relato m 0).lido inicial))).modCaps = 0 := ⟨rfl, rfl⟩
  rw [hrun, Relatorio.decodificado, kbdFinish0x88_eq, hbuffer.1, hbuffer.2, if_neg hne, hm]
  exact hset status

theorem getKbdKey_historicoDe (a : Keymap) (code : UInt8) :
    getKbdKey alem code (depois alem (historicoDe a)) = a.tecla alem code ∧
      (depois alem (historicoDe a)).modCaps = 0 := by
  cases a with
  | base => exact ⟨rfl, rfl⟩
  | shift =>
      obtain ⟨hstatus, hcaps⟩ := depois_relato alem (m := 0x02) rfl
      rw [historicoDe, getKbdKey, hstatus, hcaps]
      exact ⟨rfl, rfl⟩
  | ctrl =>
      obtain ⟨hstatus, hcaps⟩ := depois_relato alem (m := 0x01) rfl
      rw [historicoDe, getKbdKey, hstatus, hcaps]
      exact ⟨rfl, rfl⟩
  | alt =>
      obtain ⟨hstatus, hcaps⟩ := depois_relato alem (m := 0x04) rfl
      rw [historicoDe, getKbdKey, hstatus, hcaps]
      exact ⟨rfl, rfl⟩
  | altgr =>
      obtain ⟨hstatus, hcaps⟩ := depois_relato alem (m := 0x40) rfl
      rw [historicoDe, getKbdKey, hstatus, hcaps]
      exact ⟨rfl, rfl⟩

theorem statusDe_ne_none (m : UInt8) : statusDe m ≠ none ↔ m ∈ [0x01, 0x10, 0x02, 0x20, 0x04, 0x40] := by
  simp only [statusDe, List.mem_cons, List.not_mem_nil, or_false]
  grind

variable (alem) in
theorem exists_keymap_comStatus (m : UInt8) (h : List Relatorio) (code : UInt8) :
    ∃ a : Keymap, getKbdKey alem code (comStatus m (depois alem h)) = a.tecla alem code := by
  have hs := depois_entreRelatorios alem h
  refine exists_keymap (s := comStatus m (depois alem h)) ?_ hs.caps code
  rw [comStatus]
  dsimp only
  cases hst : statusDe m with
  | none => exact hs.status
  | some status => exact statusDe_mem hst

/-- For a key other than caps lock the claim of `SoDoRelatorio` holds exactly when one modifier alone is
down, or the tables have the same key for the code. -/
theorem char_of_report_iff (alem : Keymap → UInt8 → UInt8) (m k : UInt8) (hk : k ≠ 0x39) :
    SoDoRelatorio alem m k ↔
      m ∈ [0x01, 0x10, 0x02, 0x20, 0x04, 0x40] ∨ ∀ a b : Keymap, a.tecla alem k = b.tecla alem k := by
  rw [← statusDe_ne_none]
  constructor
  · intro h
    by_contra hnot
    rw [not_or, not_not] at hnot
    obtain ⟨hnone, hdiffer⟩ := hnot
    apply hdiffer
    by_cases hzero : k = 0
    · subst k
      intro a b
      cases a <;> cases b <;> rfl
    intro a b
    have hcode : codigo (relato m k) = k := rfl
    have hm : modificadores (relato m k) = m := rfl
    have hkept (s : Teclado) : comStatus m s = s := by
      rw [comStatus, hnone]
      rfl
    have hsame := h (historicoDe a) (historicoDe b) (relato m k) (relato m k) hm hm hcode hcode
      ((getKbdKey_historicoDe a k).2.trans (getKbdKey_historicoDe b k).2.symm)
    rw [entregue_eq (by rwa [hcode]), entregue_eq (by rwa [hcode]), hcode, if_neg hzero, if_neg hzero, hm,
      List.cons.injEq, hkept, hkept] at hsame
    rw [← (getKbdKey_historicoDe a k).1, ← (getKbdKey_historicoDe b k).1]
    exact hsame.1
  · rintro hcond h h' r r' rfl hm hk' hcode hcaps
    rw [entregue_eq (by rwa [hk']), entregue_eq (by rwa [hcode]), hk', hcode, hm]
    split
    next => rfl
    next =>
      rcases hcond with hsome | hsame
      · obtain ⟨status, hstatus⟩ := Option.ne_none_iff_exists'.mp hsome
        have hset (h : List Relatorio) :
            (comStatus (modificadores r) (depois alem h)).specialKeyStatus = status := by
          rw [comStatus, hstatus]
          rfl
        rw [getKbdKey_congr k ((hset h).trans (hset h').symm) hcaps]
      · obtain ⟨a, ha⟩ := exists_keymap_comStatus alem (modificadores r) h k
        obtain ⟨b, hb⟩ := exists_keymap_comStatus alem (modificadores r) h' k
        rw [ha, hb, hsame a b]

theorem char_of_report_left_shift : SoDoRelatorio (fun _ _ => 0) 0x02 0x04 :=
  (char_of_report_iff (fun _ _ => 0) 0x02 0x04 (by decide)).mpr (.inl (by decide))

/-- The key `a` without a modifier, first, and after Shift has been pressed with another key that is
still held when Shift is released. -/
theorem released_shift_sticks :
    ¬ ∀ (alem : Keymap → UInt8 → UInt8) (m k : UInt8), k ≠ 0x39 → SoDoRelatorio alem m k := by
  intro h
  have hsame := h (fun _ _ => 0) 0 0x04 (by decide) [] [relato 0x02 0x05] (relato 0 0x04) (relato 0 0x04) rfl rfl rfl
    rfl (by decide)
  exact absurd hsame (by decide)

end Reachable

end Orion68.KbdModifiers
