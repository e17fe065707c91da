import Orion68.Kbd.Modifiers
import Orion68.Lib.MaximalRuns

namespace Orion68.KbdCapsLock

open KbdUsb KbdFrames Relatorio KbdModifiers MaximalRuns

section Presses

variable (alem : Keymap → UInt8 → UInt8)

def Caps (r : Relatorio) : Prop := codigo r = 0x39

/-- Nothing is held. -/
def Solta (r : Relatorio) : Prop := modificadores r = 0 ∧ codigo r = 0

/-- Caps lock, where `kbd_finish_0x88` looks at it: not together with one modifier alone. -/
def Alterna (r : Relatorio) : Prop := Caps r ∧ modificadores r ∉ [0x01, 0x10, 0x02, 0x20, 0x04, 0x40]

def Muda (h : List Relatorio) (r : Relatorio) : Prop := (depois alem (h ++ [r])).modCaps ≠ (depois alem h).modCaps

instance (h : List Relatorio) (r : Relatorio) : Decidable (Muda alem h r) := inferInstanceAs (Decidable (_ ≠ _))

/-- How often caps lock changes in the reports that follow `h`. -/
def trocas : List Relatorio → List Relatorio → ℕ
  | _, [] => 0
  | h, r :: rs => (if Muda alem h r then 1 else 0) + trocas (h ++ [r]) rs

/-- Caps lock changes once for each run of reports with its code, and at no other report. -/
structure UmaPorRajada (h : List Relatorio) : Prop where
  rajadas : ∀ pre run post, MaximalRun Caps h pre run post → trocas alem pre run = 1
  outros : ∀ pre r post, h = pre ++ r :: post → ¬ Caps r → ¬ Muda alem pre r

/-- Each run has a report without one modifier alone, and between two runs there is a report with
nothing held. -/
structure Separadas (h : List Relatorio) : Prop where
  livre : ∀ pre run post, MaximalRun Caps h pre run post →
    ∃ r ∈ run, modificadores r ∉ [0x01, 0x10, 0x02, 0x20, 0x04, 0x40]
  solta : ∀ pre r meio r' post, h = pre ++ r :: (meio ++ r' :: post) → Caps r → Caps r' → meio ≠ [] →
    (∀ q ∈ meio, ¬ Caps q) → ∃ q ∈ meio, Solta q

end Presses

section Steps

variable {alem : Keymap → UInt8 → UInt8} {s : Teclado} {r : Relatorio} {h run : List Relatorio}

variable (alem) in
theorem kbdFinish0x88_caps (hm : statusDe (s.keyBuffer 2) = none) (hk : s.keyBuffer 4 = 0x39) :
    kbdFinish0x88 alem s = capslock s := by
  have hkey : ¬ (s.keyBuffer 2 = 0 ∧ s.keyBuffer 4 = 0) := by
    rw [hk]
    exact fun h => absurd h.2 (by decide)
  rw [kbdFinish0x88_eq, if_neg hkey, hm]
  exact if_pos hk

variable (alem) in
theorem kbdFinish0x88_outro (h : ¬ (statusDe (s.keyBuffer 2) = none ∧ s.keyBuffer 4 = 0x39)) :
    (kbdFinish0x88 alem s).modCaps = s.modCaps ∧
      (kbdFinish0x88 alem s).capslockJaPressionado =
        (s.capslockJaPressionado && !decide (s.keyBuffer 2 = 0 ∧ s.keyBuffer 4 = 0)) := by
  have hdecoded (t : Teclado) (hcaps : t.modCaps = s.modCaps)
      (hflag : t.capslockJaPressionado = s.capslockJaPressionado) :
      (decodifica alem t).modCaps = s.modCaps ∧
        (decodifica alem t).capslockJaPressionado = s.capslockJaPressionado := by
    rw [decodifica]
    split <;> exact ⟨hcaps, hflag⟩
  rw [kbdFinish0x88_eq]
  by_cases hnone : s.keyBuffer 2 = 0 ∧ s.keyBuffer 4 = 0
  · rw [if_pos hnone, decide_eq_true hnone, Bool.not_true, Bool.and_false, nenhumaTecla]
    split <;> exact ⟨rfl, rfl⟩
  · rw [if_neg hnone, decide_eq_false hnone, Bool.not_false, Bool.and_true]
    cases hst : statusDe (s.keyBuffer 2) with
    | some status => exact hdecoded _ rfl rfl
    | none =>
        dsimp only
        rw [if_neg fun hk => h ⟨hst, hk⟩]
        exact hdecoded _ rfl rfl

theorem statusDe_eq_none (m : UInt8) : statusDe m = none ↔ m ∉ [0x01, 0x10, 0x02, 0x20, 0x04, 0x40] := by
  rw [← statusDe_ne_none, not_not]

theorem depois_alterna (hr : Alterna r) :
    (depois alem (h ++ [r])).capslockJaPressionado = true ∧
      (Muda alem h r ↔ (depois alem h).capslockJaPressionado = false) := by
  have hfinish := kbdFinish0x88_caps alem (s := r.lido (depois alem h)) ((statusDe_eq_none _).mpr hr.2) hr.1
  rw [Muda, depois_snoc, Relatorio.decodificado, hfinish, capslock]
  have hflag : (r.lido (depois alem h)).capslockJaPressionado = (depois alem h).capslockJaPressionado := rfl
  cases hp : (depois alem h).capslockJaPressionado with
  | true =>
      rw [if_pos (hflag.trans hp)]
      refine ⟨hflag.trans hp, ?_⟩
      simp [Relatorio.lido]
  | false =>
      rw [if_neg (by simp [hflag, hp])]
      refine ⟨rfl, ?_⟩
      have hcaps : (r.lido (depois alem h)).modCaps = (depois alem h).modCaps := rfl
      dsimp only [sendCmdKeyboard]
      rw [hcaps]
      by_cases hzero : (depois alem h).modCaps = 0
      · simp [hzero]
      · simp [hzero, Ne.symm hzero]

theorem depois_outro (hr : ¬ Alterna r) :
    ((depois alem (h ++ [r])).capslockJaPressionado = true ↔
      (depois alem h).capslockJaPressionado = true ∧ ¬ Solta r) ∧ ¬ Muda alem h r := by
  have hother := kbdFinish0x88_outro alem (s := r.lido (depois alem h))
    fun h => hr ⟨h.2, (statusDe_eq_none _).mp h.1⟩
  rw [Muda, depois_snoc, Relatorio.decodificado]
  dsimp only
  rw [hother.1, hother.2]
  refine ⟨?_, not_not.mpr rfl⟩
  rw [Bool.and_eq_true, Bool.not_eq_true', decide_eq_false_iff_not]
  rfl

theorem muda_iff : Muda alem h r ↔ Alterna r ∧ (depois alem h).capslockJaPressionado = false := by
  by_cases hr : Alterna r
  · rw [(depois_alterna hr).2]
    exact ⟨fun hp => ⟨hr, hp⟩, And.right⟩
  · exact ⟨fun hm => absurd hm (depois_outro hr).2, fun hm => absurd hm.1 hr⟩

theorem pressionado_iff (alem : Keymap → UInt8 → UInt8) (h : List Relatorio) :
    (depois alem h).capslockJaPressionado = true ↔
      ∃ a r b, h = a ++ r :: b ∧ Alterna r ∧ ∀ q ∈ b, ¬ Solta q := by
  induction h using List.reverseRecOn with
  | nil =>
      refine ⟨fun hp => absurd hp Bool.false_ne_true, ?_⟩
      rintro ⟨a, r, b, hnil, -⟩
      exact absurd hnil.symm (by simp)
  | append_singleton h r ih =>
      by_cases hr : Alterna r
      · exact ⟨fun _ => ⟨h, r, [], rfl, hr, by simp⟩, fun _ => (depois_alterna hr).1⟩
      · rw [(depois_outro hr).1, ih]
        constructor
        · rintro ⟨⟨a, q, b, rfl, hq, hb⟩, hs⟩
          refine ⟨a, q, b ++ [r], by simp, hq, ?_⟩
          intro x hx
          rcases List.mem_append.mp hx with hx | hx
          · exact hb x hx
          · rwa [List.mem_singleton.mp hx]
        · rintro ⟨a, q, b, heq, hq, hb⟩
          rcases List.eq_nil_or_concat b with rfl | ⟨b, x, rfl⟩
          · obtain ⟨-, hlast⟩ := List.append_inj' heq rfl
            cases hlast
            exact absurd hq hr
          · rw [List.concat_eq_append, ← List.cons_append, ← List.append_assoc] at heq
            obtain ⟨rfl, hlast⟩ := List.append_inj' heq rfl
            cases hlast
            refine ⟨⟨a, q, b, rfl, hq, fun x hx => hb x (by simp [hx])⟩, hb r (by simp)⟩

theorem Caps.not_solta (hr : Caps r) : ¬ Solta r := by
  intro hs
  have hzero : (0 : UInt8) = 0x39 := hs.2.symm.trans hr
  exact absurd hzero (by decide)

theorem trocas_pressionado (hrun : ∀ r ∈ run, Caps r) (hp : (depois alem h).capslockJaPressionado = true) :
    trocas alem h run = 0 := by
  induction run generalizing h with
  | nil => rfl
  | cons r run ih =>
      obtain ⟨hcaps, hrun⟩ := List.forall_mem_cons.mp hrun
      have hmuda : ¬ Muda alem h r := by
        rw [muda_iff, hp]
        exact fun hm => Bool.false_ne_true hm.2.symm
      have hnext : (depois alem (h ++ [r])).capslockJaPressionado = true := by
        by_cases hr : Alterna r
        · exact (depois_alterna hr).1
        · exact (depois_outro hr).1.mpr ⟨hp, hcaps.not_solta⟩
      rw [trocas, if_neg hmuda, ih hrun hnext]

theorem trocas_run (hrun : ∀ r ∈ run, Caps r) :
    trocas alem h run = 1 ↔ (∃ r ∈ run, Alterna r) ∧ (depois alem h).capslockJaPressionado = false := by
  induction run generalizing h with
  | nil => simp [trocas]
  | cons r run ih =>
      cases hp : (depois alem h).capslockJaPressionado with
      | true =>
          rw [trocas_pressionado hrun hp]
          simp
      | false =>
          obtain ⟨hcaps, hrun⟩ := List.forall_mem_cons.mp hrun
          rw [trocas]
          by_cases hr : Alterna r
          · rw [if_pos (muda_iff.mpr ⟨hr, hp⟩), trocas_pressionado hrun (depois_alterna hr).1]
            simp [hr]
          · have hnext : (depois alem (h ++ [r])).capslockJaPressionado = false := by
              apply Bool.eq_false_of_not_eq_true
              rw [(depois_outro hr).1, hp]
              exact fun hm => Bool.false_ne_true hm.1
            rw [if_neg (depois_outro hr).2, Nat.zero_add, ih hrun, hnext]
            simp [hr]

end Steps

section Runs

variable {alem : Keymap → UInt8 → UInt8} {h pre run post : List Relatorio}

theorem alterna_of_caps (hall : ∀ r ∈ run, Caps r) :
    (∃ r ∈ run, Alterna r) ↔ ∃ r ∈ run, modificadores r ∉ [0x01, 0x10, 0x02, 0x20, 0x04, 0x40] :=
  ⟨fun ⟨r, hr, halt⟩ => ⟨r, hr, halt.2⟩, fun ⟨r, hr, hm⟩ => ⟨r, hr, hall r hr, hm⟩⟩

theorem Separadas.released (hs : Separadas h) (hrun : MaximalRun Caps h pre run post) :
    (depois alem pre).capslockJaPressionado = false := by
  apply Bool.eq_false_of_not_eq_true
  rw [pressionado_iff]
  rintro ⟨a, r, b, rfl, hr, hb⟩
  obtain ⟨a', q, meio, hlast, hq, hmeio⟩ := exists_last Caps (l := r :: b) ⟨r, List.mem_cons_self, hr.1⟩
  obtain ⟨r', run', rfl⟩ := List.exists_cons_of_ne_nil hrun.ne_nil
  have hne : meio ≠ [] := by
    rintro rfl
    apply hrun.before q _ hq
    rw [hlast]
    simp
  have hsplit : h = (a ++ a') ++ q :: (meio ++ r' :: (run' ++ post)) := by
    rw [hrun.eq, hlast]
    simp
  obtain ⟨x, hx, hsolta⟩ := hs.solta _ q meio r' _ hsplit hq (hrun.all r' List.mem_cons_self) hne hmeio
  have hxb : x ∈ r :: b := by
    rw [hlast]
    simp [hx]
  rcases List.mem_cons.mp hxb with rfl | hxb
  · exact hr.1.not_solta hsolta
  · exact hb x hxb hsolta

theorem UmaPorRajada.solta (hu : UmaPorRajada alem h) {r r' : Relatorio} {meio : List Relatorio}
    (hh : h = pre ++ r :: (meio ++ r' :: post)) (hr : Caps r) (hr' : Caps r') (hne : meio ≠ [])
    (hmeio : ∀ q ∈ meio, ¬ Caps q) : ∃ q ∈ meio, Solta q := by
  obtain ⟨pre₁, run₁, hfirst, hrun₁⟩ := exists_maximalRun_last (a := pre) (b := meio ++ r' :: post) hr (by
    intro y hy
    obtain ⟨q, meio, rfl⟩ := List.exists_cons_of_ne_nil hne
    obtain rfl := Option.some.inj hy
    exact hmeio q List.mem_cons_self)
  obtain ⟨run₂, post₂, -, hrun₂⟩ := exists_maximalRun_first (a := pre ++ [r] ++ meio) (b := post) hr' (by
    intro y hy
    rw [List.getLast?_append_of_ne_nil _ hne] at hy
    exact hmeio y (List.mem_of_getLast? hy))
  have hh' : h = pre ++ [r] ++ meio ++ r' :: post := by
    rw [hh]
    simp
  rw [← hh] at hrun₁
  rw [← hh'] at hrun₂
  obtain ⟨q, hq, halt⟩ := ((trocas_run hrun₁.all).mp (hu.rajadas _ _ _ hrun₁)).1
  have hreleased := ((trocas_run hrun₂.all).mp (hu.rajadas _ _ _ hrun₂)).2
  by_contra hnone
  obtain ⟨c, d, rfl⟩ := List.append_of_mem hq
  have hpressed : (depois alem (pre ++ [r] ++ meio)).capslockJaPressionado = true := by
    rw [pressionado_iff]
    refine ⟨pre₁ ++ c, q, d ++ meio, by rw [hfirst]; simp, halt, ?_⟩
    intro x hx hsolta
    rcases List.mem_append.mp hx with hx | hx
    · exact (hrun₁.all x (by simp [hx])).not_solta hsolta
    · exact hnone ⟨x, hx, hsolta⟩
  exact Bool.false_ne_true (hreleased.symm.trans hpressed)

/-- Caps lock changes once for each run exactly when the runs are told apart and can be seen. -/
theorem caps_once_iff (alem : Keymap → UInt8 → UInt8) (h : List Relatorio) :
    UmaPorRajada alem h ↔ Separadas h := by
  constructor
  · intro hu
    refine ⟨?_, ?_⟩
    · intro pre run post hrun
      exact (alterna_of_caps hrun.all).mp ((trocas_run hrun.all).mp (hu.rajadas pre run post hrun)).1
    · intro pre r meio r' post hh hr hr' hne hmeio
      exact hu.solta hh hr hr' hne hmeio
  · intro hs
    refine ⟨?_, ?_⟩
    · intro pre run post hrun
      exact (trocas_run hrun.all).mpr ⟨(alterna_of_caps hrun.all).mpr (hs.livre pre run post hrun), hs.released hrun⟩
    · intro pre r post _ hr hm
      exact hr (muda_iff.mp hm).1.1

/-- Caps lock is pressed, released while `a` is held, and pressed again. -/
theorem second_press_lost :
    ¬ UmaPorRajada (fun _ _ => 0) [relato 0 0x39, relato 0 0x04, relato 0 0x39] := by
  intro hu
  have hsplit : [relato 0 0x39, relato 0 0x04, relato 0 0x39] =
      [] ++ relato 0 0x39 :: ([relato 0 0x04] ++ relato 0 0x39 :: []) := rfl
  obtain ⟨q, hq, hsolta⟩ := hu.solta hsplit rfl rfl (by simp) (by
    intro q hq
    rw [List.mem_singleton.mp hq]
    intro hcaps
    have hcode : (0x04 : UInt8) = 0x39 := hcaps
    exact absurd hcode (by decide))
  rw [List.mem_singleton.mp hq] at hsolta
  exact absurd hsolta.2 (by decide)

end Runs

end Orion68.KbdCapsLock
