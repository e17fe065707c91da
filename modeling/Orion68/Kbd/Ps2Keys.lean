import Orion68.Kbd.Ps2
import Orion68.Lib.HeldKeys
import Orion68.Lib.Runs

namespace Orion68.Ps2Keys

open Transducers HeldKeys Runs Ps2Keyboard

section Keys

/-- A key, with its scan code; some codes come with the prefix E0. -/
structure Tecla where
  e0 : Bool
  code : UInt8
  code_ne : code ≠ 0xE0 ∧ code ≠ 0xF0
  deriving DecidableEq

def Tecla.prefixo (k : Tecla) : List UInt8 := if k.e0 then [0xE0] else []

def codes : Stroke Tecla → List UInt8
  | .down k => k.prefixo ++ [k.code]
  | .up k => k.prefixo ++ [0xF0, k.code]

def Shift (k : Tecla) : Prop := k.e0 = false ∧ (k.code = 0x12 ∨ k.code = 0x59)

def Control (k : Tecla) : Prop := k.code = 0x14

def capsLock : Tecla := ⟨false, 0x58, by decide⟩

instance : DecidablePred Shift := fun _ => inferInstanceAs (Decidable (_ ∧ _))

instance : DecidablePred Control := fun _ => inferInstanceAs (Decidable (_ = _))

/-- The keys that are held, and caps lock, which each press of its key turns over. -/
structure Teclas where
  held : Finset Tecla
  caps : Bool

def Teclas.aplica (e : Stroke Tecla) (a : Teclas) : Teclas where
  held := e.apply a.held
  caps := if e.Presses capsLock a.held then !a.caps else a.caps

def Letra (k : Tecla) : Prop :=
  let ascii := ps2ToAsciiLower.getD (k.code &&& 0x7F).toNat 0
  0x61 ≤ ascii ∧ ascii ≤ 0x7A

instance : DecidablePred Letra := fun _ => inferInstanceAs (Decidable (_ ∧ _))

/-- What stands for the key in the tables under the modifiers that are held. -/
def simbolo (a : Teclas) (k : Tecla) : UInt8 :=
  let tabela :=
    if ∃ k' ∈ a.held, Control k' then ps2ToAsciiCntl
    else if (∃ k' ∈ a.held, Shift k') ∨ a.caps ∧ Letra k then ps2ToAsciiUpper
    else ps2ToAsciiLower
  tabela.getD (k.code &&& 0x7F).toNat 0

def Modificadora (k : Tecla) : Prop := Shift k ∨ Control k ∨ k = capsLock

instance : DecidablePred Modificadora := fun _ => inferInstanceAs (Decidable (_ ∨ _))

/-- An ordinary key puts out its character, where it has one, whenever it goes down. -/
def emite (a : Teclas) : Stroke Tecla → Option UInt8
  | .down k => if Modificadora k ∨ simbolo a k = 0 then none else some (simbolo a k)
  | .up _ => none

/-- The decoder is right after the codes of `e`. -/
structure Certo (e : Stroke Tecla) (p : Ps2 × Teclas) : Prop where
  shift : (chegam (codes e) p.1).1.shift = true ↔ ∃ k ∈ (p.2.aplica e).held, Shift k
  cntl : (chegam (codes e) p.1).1.cntl = true ↔ ∃ k ∈ (p.2.aplica e).held, Control k
  caps : (chegam (codes e) p.1).1.caps = (p.2.aplica e).caps
  emitido : (chegam (codes e) p.1).2 = (emite p.2 e).toList

def passo (e : Stroke Tecla) (p : Ps2 × Teclas) : Option (Ps2 × Teclas) :=
  some ((chegam (codes e) p.1).1, p.2.aplica e)

def inicio : Ps2 × Teclas := (initPS2, ⟨∅, false⟩)

end Keys

section Codes

def AgeShift (k : Tecla) : Prop := k.code = 0x12 ∨ k.code = 0x59

def AgeCaps (k : Tecla) : Prop := k.code = 0x58

instance : DecidablePred AgeShift := fun _ => inferInstanceAs (Decidable (_ ∨ _))

instance : DecidablePred AgeCaps := fun _ => inferInstanceAs (Decidable (_ = _))

def caracteres (s : Ps2) : Stroke Tecla → List UInt8
  | .down k => if tabelado (k.code &&& 0x7F) s = 0 then [] else [tabelado (k.code &&& 0x7F) s]
  | .up _ => []

/-- What the codes of `e` do to the flags, and what they put out. -/
structure Efeito (e : Stroke Tecla) (s : Ps2) (r : Ps2 × List UInt8) : Prop where
  release : r.1.release = false
  shift : r.1.shift = latch AgeShift e s.shift
  cntl : r.1.cntl = latch Control e s.cntl
  caps : r.1.caps = toggle AgeCaps e s.caps
  emitido : r.2 = caracteres s e

variable {s : Ps2} {k : Tecla} {e : Stroke Tecla}

theorem tabelado_age (h : AgeCaps k ∨ AgeShift k ∨ Control k) : tabelado (k.code &&& 0x7F) s = 0 := by
  rcases h with h | (h | h) | h
  all_goals
    rw [h]
    exact tabelado_zero rfl rfl rfl

theorem not_control_of_ageShift (h : AgeShift k) : ¬ Control k := by
  rcases h with h | h
  all_goals
    rw [Control, h]
    decide

theorem not_age_of_ageCaps (h : AgeCaps k) : ¬ AgeShift k ∧ ¬ Control k := by
  rw [AgeShift, Control, show k.code = 0x58 from h]
  decide

theorem kbdIntOn_flags (s : Ps2) :
    (kbdIntOn s).shift = s.shift ∧ (kbdIntOn s).cntl = s.cntl ∧ (kbdIntOn s).caps = s.caps := by
  rw [kbdIntOn]
  split <;> exact ⟨rfl, rfl, rfl⟩

theorem recebe_code (k : Tecla) (s : Ps2) :
    Efeito (if s.release then .up k else .down k) s ((recebe k.code s).1, (recebe k.code s).2.toList) := by
  rw [recebe, if_neg k.code_ne.2]
  by_cases h58 : k.code = 0x58
  · obtain ⟨hshift, hcntl⟩ := not_age_of_ageCaps h58
    have hzero := tabelado_age (s := s) (.inl h58)
    rw [if_pos h58]
    cases s.release
    · exact ⟨rfl, (if_neg hshift).symm, (if_neg hcntl).symm, (if_pos h58).symm, (if_pos hzero).symm⟩
    · exact ⟨rfl, (if_neg hshift).symm, (if_neg hcntl).symm, rfl, rfl⟩
  rw [if_neg h58]
  by_cases hshift : k.code = 0x12 ∨ k.code = 0x59
  · have hcntl := not_control_of_ageShift hshift
    have hzero := tabelado_age (s := s) (.inr (.inl hshift))
    rw [if_pos hshift]
    cases s.release
    · exact ⟨rfl, (if_pos hshift).symm, (if_neg hcntl).symm, (if_neg h58).symm, (if_pos hzero).symm⟩
    · exact ⟨rfl, (if_pos hshift).symm, (if_neg hcntl).symm, rfl, rfl⟩
  rw [if_neg hshift]
  by_cases hcntl : k.code = 0x14
  · have hzero := tabelado_age (s := s) (.inr (.inr hcntl))
    rw [if_pos hcntl]
    cases s.release
    · exact ⟨rfl, (if_neg hshift).symm, (if_pos hcntl).symm, (if_neg h58).symm, (if_pos hzero).symm⟩
    · exact ⟨rfl, (if_neg hshift).symm, (if_pos hcntl).symm, rfl, rfl⟩
  rw [if_neg hcntl]
  obtain ⟨hkshift, hkcntl, hkcaps⟩ := kbdIntOn_flags s
  cases s.release
  · dsimp only
    rw [if_neg Bool.false_ne_true, if_neg Bool.false_ne_true]
    by_cases hzero : tabelado (k.code &&& 0x7F) s = 0
    · rw [if_neg (not_not.mpr hzero)]
      exact ⟨rfl, (if_neg hshift).symm, (if_neg hcntl).symm, (if_neg h58).symm, (if_pos hzero).symm⟩
    · rw [if_pos hzero]
      exact ⟨rfl, hkshift.trans (if_neg hshift).symm, hkcntl.trans (if_neg hcntl).symm,
        hkcaps.trans (if_neg h58).symm, (if_neg hzero).symm⟩
  · exact ⟨rfl, (if_neg hshift).symm, (if_neg hcntl).symm, rfl, rfl⟩

theorem chegam_prefixo (h : s.release = false) (k : Tecla) (cs : List UInt8) :
    chegam (k.prefixo ++ cs) s = chegam cs s := by
  have hsame : chega 0xE0 s = (s, none) := by
    rw [chega_eq, recebe_prefixo, ← h]
  rw [Tecla.prefixo]
  cases k.e0 with
  | false => rfl
  | true => exact feed_cons_none hsame cs

theorem chegam_singleton (code : UInt8) (s : Ps2) :
    chegam [code] s = ((recebe code s).1, (recebe code s).2.toList) := by
  rw [chegam, feed_cons, chega_eq, feed_nil, List.append_nil]

theorem chegam_codes (h : s.release = false) (e : Stroke Tecla) : Efeito e s (chegam (codes e) s) := by
  cases e with
  | down k =>
      have heffect := recebe_code k s
      rw [h, if_neg Bool.false_ne_true] at heffect
      rw [codes, chegam_prefixo h, chegam_singleton]
      exact heffect
  | up k =>
      have hrelease : chega 0xF0 s = ({ s with release := true }, none) := chega_eq 0xF0 s
      have hcodes : chegam [0xF0, k.code] s = chegam [k.code] { s with release := true } := feed_cons_none hrelease _
      have heffect := recebe_code k { s with release := true }
      rw [codes, chegam_prefixo h, hcodes, chegam_singleton]
      exact ⟨heffect.release, heffect.shift, heffect.cntl, heffect.caps, heffect.emitido⟩

end Codes

section Runs

/-- The flags tell which modifiers are held. -/
structure Acompanha (p : Ps2 × Teclas) : Prop where
  release : p.1.release = false
  shift : Tracks Shift p.2.held p.1.shift
  cntl : Tracks Control p.2.held p.1.cntl
  caps : p.1.caps = p.2.caps

/-- Neither Shift nor Control comes up while another one is held, caps lock is not repeated, and no other
key with one of their codes is used where it matters. -/
structure Cuidado (e : Stroke Tecla) (p : Ps2 × Teclas) : Prop where
  shift : LatchSafe AgeShift Shift p.2.held e
  cntl : LatchSafe Control Control p.2.held e
  caps : ToggleSafe AgeCaps capsLock p.2.held e

variable {p q : Ps2 × Teclas} {k : Tecla} {e : Stroke Tecla}

theorem Shift.age (h : Shift k) : AgeShift k := h.2

theorem tabelado_eq (h : Acompanha p) (k : Tecla) : tabelado (k.code &&& 0x7F) p.1 = simbolo p.2 k := by
  have hindex : (k.code &&& 0x7F).toNat < 128 := by
    rw [UInt8.toNat_and]
    exact Nat.lt_succ_of_le Nat.and_le_right
  rw [tabelado, simbolo]
  by_cases hc : ∃ k' ∈ p.2.held, Control k'
  · rw [if_pos hc, if_pos (h.cntl.mpr hc)]
  rw [if_neg hc, if_neg (mt h.cntl.mp hc)]
  by_cases hs : ∃ k' ∈ p.2.held, Shift k'
  · have hupper : (∃ k' ∈ p.2.held, Shift k') ∨ p.2.caps ∧ Letra k := .inl hs
    rw [if_pos hupper, if_pos (h.shift.mpr hs)]
  rw [if_neg (mt h.shift.mp hs), h.caps]
  by_cases hl : p.2.caps ∧ Letra k
  · have hupper : (∃ k' ∈ p.2.held, Shift k') ∨ p.2.caps ∧ Letra k := .inr hl
    rw [if_pos hupper]
    exact (if_pos hl).trans (maiuscula hindex hl.2)
  · rw [if_neg (not_or.mpr ⟨hs, hl⟩)]
    exact if_neg hl

theorem emite_eq (h : Acompanha p) (e : Stroke Tecla) : (chegam (codes e) p.1).2 = (emite p.2 e).toList := by
  have heffect := (chegam_codes h.release e).emitido
  cases e with
  | up k => exact heffect
  | down k =>
      rw [heffect, caracteres, emite, tabelado_eq h]
      by_cases hzero : simbolo p.2 k = 0
      · rw [if_pos hzero, if_pos (.inr hzero)]
        rfl
      · have hordinary : ¬ Modificadora k := by
          rintro (hm | hm | rfl)
          all_goals
            apply hzero
            rw [← tabelado_eq h]
            apply tabelado_age
          · exact .inr (.inl hm.age)
          · exact .inr (.inr hm)
          · exact .inl rfl
        rw [if_neg hzero, if_neg (not_or.mpr ⟨hordinary, hzero⟩)]
        rfl

theorem certo_iff (h : Acompanha p) (e : Stroke Tecla) : Certo e p ↔ Cuidado e p := by
  have heffect := chegam_codes h.release e
  have hshift := h.shift.latch_iff (fun _ => Shift.age) e
  have hcntl := h.cntl.latch_iff (fun _ => id) e
  have hcaps : toggle AgeCaps e p.1.caps = (if e.Presses capsLock p.2.held then !p.1.caps else p.1.caps) ↔
      ToggleSafe AgeCaps capsLock p.2.held e := toggle_eq_iff (show AgeCaps capsLock from rfl) e p.1.caps
  rw [← heffect.shift] at hshift
  rw [← heffect.cntl] at hcntl
  rw [← heffect.caps, h.caps] at hcaps
  constructor
  · intro hright
    exact ⟨hshift.mp hright.shift, hcntl.mp hright.cntl, hcaps.mp hright.caps⟩
  · intro hcare
    exact ⟨hshift.mpr hcare.shift, hcntl.mpr hcare.cntl, hcaps.mpr hcare.caps, emite_eq h e⟩

theorem Acompanha.passo (h : Acompanha p) (hcare : Cuidado e p) (hstep : passo e p = some q) : Acompanha q := by
  obtain rfl := Option.some.inj hstep
  have hright := (certo_iff h e).mpr hcare
  exact ⟨(chegam_codes h.release e).release, hright.shift, hright.cntl, hright.caps⟩

theorem acompanha_inicio : Acompanha inicio := by
  refine ⟨rfl, ?_, ?_, rfl⟩
  all_goals
    rw [Tracks]
    decide

/-- Along every run of the keyboard the decoder is right exactly when every stroke is of the kind that it
can tell. -/
theorem decoder_right_iff (es : List (Stroke Tecla)) : Along passo Certo es inicio ↔ Along passo Cuidado es inicio :=
  along_iff_along (fun _ _ _ h hcare hstep => h.passo hcare hstep) (fun e _ h => certo_iff h e) es acompanha_inicio

/-- The left Shift is pressed, then the right one, and the left one comes up. -/
theorem shift_released_early : ¬ ∀ es : List (Stroke Tecla), Along passo Certo es inicio := by
  intro hall
  let left : Tecla := ⟨false, 0x12, by decide⟩
  let right : Tecla := ⟨false, 0x59, by decide⟩
  obtain ⟨-, h₁⟩ := hall [.down left, .down right, .up left]
  obtain ⟨-, h₂⟩ := h₁ _ rfl
  obtain ⟨hlast, -⟩ := h₂ _ rfl
  have hheld := hlast.shift.mpr ⟨right, by decide, by decide⟩
  exact absurd hheld (by decide)

end Runs

end Orion68.Ps2Keys
