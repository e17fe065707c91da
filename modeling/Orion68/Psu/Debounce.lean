import Orion68.Psu.Holds

namespace Orion68.PsuDebounce

open Psu Controller PsuSteps PsuHolds

section Filters

/-- A sample of an input, with the time when it is taken. -/
structure Leitura extends Reading where
  t : ℕ

/-- When `millis` is called the second time. -/
def Leitura.fim (l : Leitura) : ℕ := l.t + l.d₀ + l.d₁

def filtra (period : UInt32) (f : Filter) (l : Leitura) : Filter := filtered period l.toReading l.t f

/-- The samples end with a stretch of samples `v`; `millis` has given `since` after the first of them. -/
def Trecho (v : Bool) (since : UInt32) (ls : List Leitura) : Prop :=
  ∃ old first recent, ls = old ++ first :: recent ∧ (∀ l ∈ first :: recent, l.raw = v) ∧
    since = millis (first.t + first.d₀)

/-- What the variables of a filter tell about its samples. -/
def Acompanha (f : Filter) (ls : List Leitura) : Prop :=
  (f.stableState = HIGH ∧ f.lastRaw = HIGH) ∨ Trecho f.lastRaw f.lastChangeTime ls

variable {period : UInt32} {f : Filter} {l : Leitura} {ls : List Leitura} {v : Bool} {since : UInt32}

theorem Trecho.snoc (h : Trecho v since ls) (hl : l.raw = v) : Trecho v since (ls ++ [l]) := by
  obtain ⟨old, first, recent, rfl, hraw, hsince⟩ := h
  refine ⟨old, first, recent ++ [l], by simp, ?_, hsince⟩
  intro a ha
  rw [← List.cons_append, List.mem_append, List.mem_singleton] at ha
  rcases ha with ha | rfl
  · exact hraw a ha
  · exact hl

theorem observe_lastRaw (raw : Bool) (now : UInt32) (f : Filter) : (f.observe raw now).lastRaw = raw := by
  rw [Filter.observe]
  split
  next => rfl
  next h => exact (not_not.mp h).symm

theorem observe_stableState (raw : Bool) (now : UInt32) (f : Filter) :
    (f.observe raw now).stableState = f.stableState := by
  rw [Filter.observe]
  split <;> rfl

theorem Acompanha.observe (h : Acompanha f ls) (l : Leitura) :
    Acompanha (f.observe l.raw (millis (l.t + l.d₀))) (ls ++ [l]) := by
  rw [Filter.observe]
  by_cases hraw : l.raw = f.lastRaw
  · rw [if_neg (not_not.mpr hraw)]
    exact h.imp_right fun hs => hs.snoc hraw
  · rw [if_pos hraw]
    refine .inr ⟨ls, l, [], rfl, ?_, rfl⟩
    intro a ha
    rw [List.mem_singleton.mp ha]

theorem Acompanha.accept (h : Acompanha f ls) (hraw : f.lastRaw = v) (now : UInt32) :
    Acompanha (f.accept period v now) ls := by
  rw [Filter.accept]
  split
  next => exact h.imp_left fun hs => ⟨hraw.symm.trans hs.2, hs.2⟩
  next => exact h

theorem Acompanha.filtra (h : Acompanha f ls) (period : UInt32) (l : Leitura) :
    Acompanha (filtra period f l) (ls ++ [l]) :=
  (h.observe l).accept (observe_lastRaw ..) _

theorem acompanha_foldl (period : UInt32) (ls : List Leitura) : Acompanha (ls.foldl (filtra period) {}) ls := by
  induction ls using List.reverseRecOn with
  | nil => exact .inl ⟨rfl, rfl⟩
  | append_singleton ls l ih =>
      rw [List.foldl_append]
      exact ih.filtra period l

/-- Each sample is taken after the one before has been processed. -/
def Ordenadas (ls : List Leitura) : Prop := ls.Pairwise fun a b => a.fim ≤ b.t

theorem Ordenadas.first_le {old recent : List Leitura} {first : Leitura} (h : Ordenadas (ls ++ [l]))
    (hls : ls ++ [l] = old ++ first :: recent) : first.t + first.d₀ ≤ l.fim := by
  have hmem : l ∈ first :: recent := by
    have hlast := congrArg List.getLast? hls
    rw [List.getLast?_append_of_ne_nil _ (List.cons_ne_nil l []), List.getLast?_singleton,
      List.getLast?_append_of_ne_nil _ (List.cons_ne_nil first recent)] at hlast
    exact List.mem_of_getLast? hlast.symm
  rcases List.mem_cons.mp hmem with rfl | hmem
  · exact Nat.le_add_right _ _
  · rw [Ordenadas, hls, List.pairwise_append, List.pairwise_cons] at h
    have hfirst := h.2.1.1 l hmem
    rw [Leitura.fim] at hfirst ⊢
    omega

/-- The sample by which the filter changes to `v` ends a stretch of samples `v` that is long enough. -/
theorem filtra_changes (hord : Ordenadas (ls ++ [l])) (hbefore : (ls.foldl (filtra period) {}).stableState ≠ v)
    (hafter : (filtra period (ls.foldl (filtra period) {}) l).stableState = v) :
    ∃ old first recent, ls ++ [l] = old ++ first :: recent ∧ (∀ a ∈ first :: recent, a.raw = v) ∧
      first.t + period.toNat ≤ l.fim := by
  have h := (acompanha_foldl period ls).observe l
  have hraw := observe_lastRaw l.raw (millis (l.t + l.d₀)) (ls.foldl (filtra period) {})
  rw [← observe_stableState l.raw (millis (l.t + l.d₀))] at hbefore
  rw [filtra, filtered, Filter.accept] at hafter
  generalize (ls.foldl (filtra period) {}).observe l.raw (millis (l.t + l.d₀)) = g at h hraw hbefore hafter
  split at hafter
  next helapsed =>
    have hv : l.raw = v := hafter
    rcases h with ⟨hs, hlast⟩ | ⟨old, first, recent, hls, hall, hsince⟩
    · exact absurd (hs.trans (hlast.symm.trans (hraw.trans hv))) hbefore
    · refine ⟨old, first, recent, hls, ?_, ?_⟩
      · intro a ha
        rw [hall a ha, hraw, hv]
      · rw [hsince] at helapsed
        have hlong := millis_sub (hord.first_le hls) helapsed
        omega
  next => exact absurd hafter hbefore

end Filters

section Inputs

inductive Entrada
  | key
  | cpuFb
  | cpuPD

def filtro : Entrada → Controller → Filter
  | .key, s => s.key
  | .cpuFb, s => s.cpuFb
  | .cpuPD, s => s.cpuPD

def espera : Entrada → UInt32
  | .key => DEBOUNCE_MS
  | .cpuFb => CPU_FEEDBACK_DEBOUNCE_MS
  | .cpuPD => CPU_POWERDOWN_DEBOUNCE_MS

/-- The sample of the input `x` that a call takes. -/
def leitura : Entrada → Call → Controller → Option Leitura
  | .key, .dbounce e, s => some ⟨e, s.clock⟩
  | .cpuFb, .handleCpuFeedback e, s => some ⟨e, s.clock⟩
  | .cpuFb, .updateLcd d e, s =>
      if millis (s.clock + d) - s.lastLcdUpdate ≥ LCD_UPDATE_MS then some ⟨e, s.clock + d⟩ else none
  | .cpuPD, .handleCpuPowerDown e, s => some ⟨e, s.clock⟩
  | _, _, _ => none

def leituras (x : Entrada) : List Call → Controller → List Leitura
  | [], _ => []
  | c :: cs, s => (leitura x c s).toList ++ leituras x cs (c.exec s)

variable {x : Entrada} {c : Call} {cs : List Call} {s : Controller} {l : Leitura}

theorem filtro_toggle (x : Entrada) (s : Controller) : filtro x (toggle s) = filtro x s := by
  cases hs : s.outputState with
  | true =>
      rw [toggle_on hs]
      cases x <;> rfl
  | false =>
      rw [toggle_off hs]
      split <;> cases x <;> rfl

theorem filtro_cutRails (x : Entrada) (status : Status) (s : Controller) :
    filtro x (cutRails status s) = filtro x s := by
  rw [cutRails_eq]
  cases x <;> rfl

theorem filtro_exec (x : Entrada) (c : Call) (s : Controller) :
    filtro x (c.exec s) = (leitura x c s).toList.foldl (filtra (espera x)) (filtro x s) := by
  cases c with
  | dbounce e =>
      have hkey : filtro x ((Call.dbounce e).exec s) = filtro x (readKey e s).1 := by
        rw [Call.exec, dbounce]
        split
        · exact filtro_toggle x _
        · rfl
      rw [hkey]
      cases x <;> rfl
  | updateRail => cases x <;> rfl
  | handleCpuFeedback e =>
      have hread : filtro x ((Call.handleCpuFeedback e).exec s) = filtro x (readCpuFeedbackFiltered e s) := by
        rw [Call.exec, Controller.handleCpuFeedback]
        split
        · exact filtro_cutRails x _ _
        · rfl
      rw [hread]
      cases x <;> rfl
  | handleCpuPowerDown e =>
      have hread : filtro x ((Call.handleCpuPowerDown e).exec s) = filtro x (readCpuPowerDownFiltered e s) := by
        rw [Call.exec, Controller.handleCpuPowerDown]
        split
        · exact filtro_cutRails x _ _
        · rfl
      rw [hread]
      cases x <;> rfl
  | updateAnyRelayIndicator => cases x <;> rfl
  | updateLcd d e =>
      rw [Call.exec, updateLcd]
      dsimp only
      cases x with
      | cpuFb =>
          rw [leitura]
          split <;> rfl
      | key | cpuPD => split <;> rfl

theorem filtro_execs (x : Entrada) (cs : List Call) (s : Controller) :
    filtro x (execs cs s) = (leituras x cs s).foldl (filtra (espera x)) (filtro x s) := by
  induction cs generalizing s with
  | nil => rfl
  | cons c cs ih =>
      rw [leituras, List.foldl_append, ← filtro_exec]
      exact ih (c.exec s)

theorem leituras_snoc (x : Entrada) (cs : List Call) (c : Call) (s : Controller) :
    leituras x (cs ++ [c]) s = leituras x cs s ++ (leitura x c (execs cs s)).toList := by
  induction cs generalizing s with
  | nil => exact List.append_nil _
  | cons d cs ih =>
      rw [List.cons_append, leituras, ih, leituras, List.append_assoc]
      rfl

theorem leitura_clock (h : leitura x c s = some l) : s.clock ≤ l.t ∧ l.fim = (c.exec s).clock := by
  cases c with
  | updateRail | updateAnyRelayIndicator => cases x <;> cases h
  | dbounce e =>
      cases x with
      | cpuFb | cpuPD => cases h
      | key =>
          obtain rfl := Option.some.inj h
          exact ⟨Nat.le_refl _, (dbounce_clock e s).symm⟩
  | handleCpuFeedback e =>
      cases x with
      | key | cpuPD => cases h
      | cpuFb =>
          obtain rfl := Option.some.inj h
          exact ⟨Nat.le_refl _, (handleCpuFeedback_clock e s).symm⟩
  | handleCpuPowerDown e =>
      cases x with
      | key | cpuFb => cases h
      | cpuPD =>
          obtain rfl := Option.some.inj h
          exact ⟨Nat.le_refl _, (handleCpuPowerDown_clock e s).symm⟩
  | updateLcd d e =>
      cases x with
      | key | cpuPD => cases h
      | cpuFb =>
          rw [leitura] at h
          split at h
          next hdue =>
            obtain rfl := Option.some.inj h
            refine ⟨Nat.le_add_right _ _, ?_⟩
            rw [Call.exec, updateLcd_clock, if_pos hdue]
            rfl
          next => cases h

theorem leituras_clock (cs : List Call) (s : Controller) :
    Ordenadas (leituras x cs s) ∧ ∀ l ∈ leituras x cs s, l.fim ≤ (execs cs s).clock := by
  induction cs using List.reverseRecOn with
  | nil => exact ⟨List.Pairwise.nil, fun l hl => absurd hl List.not_mem_nil⟩
  | append_singleton cs c ih =>
      obtain ⟨hord, hend⟩ := ih
      rw [leituras_snoc, exec_snoc]
      cases hl : leitura x c (execs cs s) with
      | none =>
          rw [Option.toList_none, List.append_nil]
          exact ⟨hord, fun l hl => Nat.le_trans (hend l hl) (exec_clock c _)⟩
      | some l =>
          obtain ⟨hstart, hfim⟩ := leitura_clock hl
          rw [Option.toList_some]
          constructor
          · rw [Ordenadas, List.pairwise_append]
            refine ⟨hord, List.pairwise_singleton .., ?_⟩
            intro a ha b hb
            rw [List.mem_singleton.mp hb]
            exact Nat.le_trans (hend a ha) hstart
          · intro a ha
            rcases List.mem_append.mp ha with ha | ha
            · exact Nat.le_trans (hend a ha) (exec_clock c _)
            · rw [List.mem_singleton.mp ha, hfim]

end Inputs

section Debounced

def Desce (s t : Controller) : Prop := s.key.stableState = HIGH ∧ t.key.stableState = LOW

def IsDbounce : Call → Prop
  | .dbounce _ => True
  | _ => False

variable {c : Call} {cs : List Call} {clock : ℕ} {x : Entrada} {v : Bool}

theorem filtro_setup (x : Entrada) (clock : ℕ) : filtro x (setup clock) = {} := by
  cases x <;> rfl

theorem filtro_changes (hbefore : (filtro x (execs cs (setup clock))).stableState ≠ v)
    (hafter : (filtro x (c.exec (execs cs (setup clock)))).stableState = v) :
    ∃ old first recent, leituras x (cs ++ [c]) (setup clock) = old ++ first :: recent ∧
      (∀ l ∈ first :: recent, l.raw = v) ∧ first.t + (espera x).toNat ≤ (c.exec (execs cs (setup clock))).clock := by
  rw [filtro_exec] at hafter
  cases hl : leitura x c (execs cs (setup clock)) with
  | none =>
      rw [hl] at hafter
      exact absurd hafter hbefore
  | some l =>
      have hord := (leituras_clock (x := x) (cs ++ [c]) (setup clock)).1
      rw [leituras_snoc, hl, Option.toList_some] at hord ⊢
      rw [hl, Option.toList_some, filtro_execs, filtro_setup] at hafter
      rw [filtro_execs, filtro_setup] at hbefore
      rw [← (leitura_clock hl).2]
      exact filtra_changes hord hbefore hafter

theorem desce_iff_pressed (c : Call) (s : Controller) : Desce s (c.exec s) ↔ Pressed c s := by
  have hkey := filtro_exec .key c s
  cases c with
  | updateRail | handleCpuFeedback | handleCpuPowerDown | updateAnyRelayIndicator | updateLcd =>
      refine ⟨fun h => ?_, False.elim⟩
      have hsame := congrArg Filter.stableState hkey
      exact absurd (h.1.symm.trans (hsame.symm.trans h.2)) (by decide)
  | dbounce e =>
      have hread : ((Call.dbounce e).exec s).key = (readKey e s).1.key := hkey
      rw [Desce, hread, Pressed, readKey]
      simp

theorem desce_iff (c : Call) (s : Controller) :
    Desce s (c.exec s) ↔ IsDbounce c ∧ (c.exec s).outputState ≠ s.outputState := by
  rw [desce_iff_pressed]
  constructor
  · intro hp
    have hflip := exec_pressed hp
    cases c with
    | updateRail | handleCpuFeedback | handleCpuPowerDown | updateAnyRelayIndicator | updateLcd => exact hp.elim
    | dbounce e =>
        refine ⟨trivial, ?_⟩
        split at hflip
        next hon =>
          rw [hflip.1, hon]
          decide
        next hoff =>
          rw [hflip.1]
          exact fun h => hoff h.symm
  · rintro ⟨hd, hflip⟩
    by_contra hp
    cases c with
    | updateRail | handleCpuFeedback | handleCpuPowerDown | updateAnyRelayIndicator | updateLcd => exact hd.elim
    | dbounce e => exact hflip (exec_quiet hp id).1

/-- In every run: a filter changes to a level only after a stretch of samples of this level that is long
enough, and `dbounce` turns the output over once for each time that the key goes down. -/
theorem inputs_debounced (clock : ℕ) (cs : List Call) (c : Call) :
    (∀ x v, (filtro x (execs cs (setup clock))).stableState ≠ v →
      (filtro x (c.exec (execs cs (setup clock)))).stableState = v →
      ∃ old first recent, leituras x (cs ++ [c]) (setup clock) = old ++ first :: recent ∧
        (∀ l ∈ first :: recent, l.raw = v) ∧
        first.t + (espera x).toNat ≤ (c.exec (execs cs (setup clock))).clock) ∧
      (Desce (execs cs (setup clock)) (c.exec (execs cs (setup clock))) ↔
        IsDbounce c ∧ (c.exec (execs cs (setup clock))).outputState ≠ (execs cs (setup clock)).outputState) :=
  ⟨fun _ _ hbefore hafter => filtro_changes hbefore hafter, desce_iff c _⟩

theorem key_press_debounced :
    ∃ old first recent, leituras .key ([.dbounce ⟨LOW, 0, 0⟩] ++ [.dbounce ⟨LOW, 0, 100⟩]) (setup 0) = old ++ first :: recent ∧
      (∀ l ∈ first :: recent, l.raw = LOW) ∧ first.t + DEBOUNCE_MS.toNat ≤ 100 :=
  (inputs_debounced 0 [.dbounce ⟨LOW, 0, 0⟩] (.dbounce ⟨LOW, 0, 100⟩)).1 .key LOW (by decide) (by decide)

end Debounced

end Orion68.PsuDebounce
