import Orion68.Psu.Holds

namespace Orion68.PsuQualification

open Runs Stretches Psu Controller PsuSteps PsuOff PsuRequests PsuBlocks PsuHolds

variable {c : Call} {cs : List Call} {s : Controller} {i : Fin 3} {clock : ℕ}

def callStep (c : Call) (s : Controller) : Option Controller := some (c.exec s)

/-- A press of the key that switches the system on finds no qualification pending. -/
def CleanStart (c : Call) (s : Controller) : Prop :=
  Pressed c s → s.outputState = false → ∀ i, (s.rails i).pendingOn = false

theorem run_callStep (cs : List Call) (s : Controller) : run callStep cs s = some (execs cs s) := by
  induction cs generalizing s with
  | nil => rfl
  | cons c cs ih => exact ih (c.exec s)

theorem along_calls {C : Call → Controller → Prop} (cs : List Call) (c : Call) (s : Controller) :
    Along callStep C (cs ++ [c]) s ↔ Along callStep C cs s ∧ C c (execs cs s) := by
  rw [along_snoc, run_callStep]
  simp

theorem exec_pendingOn_closed (c : Call) (h : (s.rails i).relayOn = true → (s.rails i).pendingOn = false) :
    ((c.exec s).rails i).relayOn = true → ((c.exec s).rails i).pendingOn = false := by
  have hstep := exec_rail c s i
  generalize (c.exec s).rails i = r at hstep ⊢
  cases hstep with
  | same | mark => exact h
  | reset => exact fun _ => rfl
  | cut => exact fun hr => absurd hr Bool.false_ne_true
  | update v d hc =>
      cases ho : s.outputState with
      | false => exact h
      | true =>
          have hupdate := updateRail_update v (millis (s.clock + d)) (s.rails i)
          generalize updateRail true v (millis (s.clock + d)) (s.rails i) = r at hupdate ⊢
          intro hr
          cases hupdate with
          | low => rfl
          | qualify st ho' => exact absurd (hr.symm.trans ho') (by decide)
          | wait st ho' => exact absurd (hr.symm.trans ho') (by decide)
          | close => rfl
          | good | drop | relapse | recover | hold | restore => exact h hr

theorem execs_pendingOn_closed (cs : List Call) (clock : ℕ) (i : Fin 3) :
    ((execs cs (setup clock)).rails i).relayOn = true → ((execs cs (setup clock)).rails i).pendingOn = false := by
  induction cs using List.reverseRecOn with
  | nil => exact fun _ => rfl
  | append_singleton cs c ih =>
      rw [exec_snoc]
      exact exec_pendingOn_closed c ih

/-- A qualification that is pending on an open rail while the system is on is a steady stretch since its sample. -/
def Qualifying (i : Fin 3) (clock : ℕ) (cs : List Call) : Prop :=
  On (execs cs (setup clock)) → ((execs cs (setup clock)).rails i).pendingOn = true →
    EndsSteady Call.exec On (HighSample i)
      (SampledAt i ((execs cs (setup clock)).rails i).pendingSince) cs (setup clock)

theorem qualifying_update {v : ℚ} {now : UInt32} {r r' : Rail} (h : Update v now r r')
    (hr : r.relayOn = true → r.pendingOn = false) (hp : r'.pendingOn = true) :
    fraction v r ≥ PCT_ON ∧
      (r.pendingOn = true ∧ r'.pendingSince = r.pendingSince ∨ r'.pendingSince = now) := by
  have hclosed (ho : r.relayOn = true) (hp : r.pendingOn = true) : False :=
    Bool.false_ne_true ((hr ho).symm.trans hp)
  cases h with
  | low => exact absurd hp Bool.false_ne_true
  | qualify st ho hf => exact ⟨hf, .inr rfl⟩
  | wait st ho hf hp' => exact ⟨hf, .inl ⟨hp', rfl⟩⟩
  | close => exact absurd hp Bool.false_ne_true
  | good st ho => exact (hclosed ho hp).elim
  | drop st ho => exact (hclosed ho hp).elim
  | relapse st ho => exact (hclosed ho hp).elim
  | recover st ho => exact (hclosed ho hp).elim
  | hold st ho => exact (hclosed ho hp).elim
  | restore st ho => exact (hclosed ho hp).elim

theorem pressed_of_switched_on (h : NoFaultWhileOff s) (ho : s.outputState = false)
    (hon : (c.exec s).outputState = true) : Pressed c s := by
  by_contra hp
  have hsame : (c.exec s).outputState = s.outputState := by
    by_cases hr : Requested c s
    · obtain ⟨-, -, ho', -⟩ := exec_requested hr
      rw [faults_eq_zero.mpr (h ho)] at ho'
      exact ho'
    · exact (exec_quiet hp hr).1
  exact Bool.false_ne_true (ho.symm.trans (hsame.symm.trans hon))

theorem qualifying_snoc (hclean : CleanStart c (execs cs (setup clock))) (h : Qualifying i clock cs) :
    Qualifying i clock (cs ++ [c]) := by
  have hoff := execs_noFaultWhileOff cs (setup_noFaultWhileOff clock)
  have hnom := execs_nominal cs clock i
  have hclosed := execs_pendingOn_closed cs clock i
  rw [Qualifying, exec_snoc]
  intro hon' hp
  have hon'' : (c.exec (execs cs (setup clock))).outputState = true := hon'
  have hstep := exec_rail c (execs cs (setup clock)) i
  generalize (c.exec (execs cs (setup clock))).rails i = r at hstep hp ⊢
  cases ho : (execs cs (setup clock)).outputState with
  | false =>
      have hpress := pressed_of_switched_on hoff ho hon''
      have hnone := hclean hpress ho i
      cases hstep with
      | same | mark => exact absurd (hnone.symm.trans hp) (by decide)
      | reset => exact absurd hp Bool.false_ne_true
      | cut status hr hf => exact absurd ((hoff ho i).symm.trans hf) (by decide)
      | update v d hc => exact absurd hc (ne_of_pressed hpress v d)
  | true =>
      cases hstep with
      | same hc => exact (h ho hp).snoc (highSample_of_ne hc) hon'
      | reset => exact absurd hp Bool.false_ne_true
      | cut status hr hf => exact absurd ((hclosed ((inFault_iff _).mp hf).1).symm.trans hp) (by decide)
      | mark status hpress ho' => exact absurd (ho.symm.trans ho') (by decide)
      | update v d hc =>
          rw [ho] at hp ⊢
          obtain ⟨hfrac, hcases⟩ := qualifying_update (updateRail_update v _ _) hclosed hp
          have hhigh := highSample_of_high hc ((fraction_ge hnom).mp hfrac)
          rcases hcases with ⟨hp', hsince⟩ | hsince
          · rw [hsince]
            exact (h ho hp').snoc hhigh hon'
          · rw [hsince]
            exact .last ho hhigh ⟨v, d, hc, rfl⟩ hon'

theorem qualifying (i : Fin 3) (h : Along callStep CleanStart cs (setup clock)) : Qualifying i clock cs := by
  induction cs using List.reverseRecOn with
  | nil => exact fun ho => absurd ho Bool.false_ne_true
  | append_singleton cs c ih =>
      obtain ⟨hcs, hc⟩ := (along_calls cs c (setup clock)).mp h
      exact qualifying_snoc hc (ih hcs)

theorem close_update {v : ℚ} {now : UInt32} {r r' : Rail} (h : Update v now r r') (ho : r.relayOn = false)
    (ho' : r'.relayOn = true) :
    fraction v r ≥ PCT_ON ∧ r.pendingOn = true ∧ now - r.pendingSince ≥ requiredHold r := by
  cases h with
  | close st _ hf hp ht => exact ⟨hf, hp, ht⟩
  | low | qualify | wait | good | drop | relapse | recover | hold | restore =>
      exact absurd (ho.symm.trans ho') (by decide)

/-- A request has cut the rail, and no press has reset it since: `b` is whether it was so in the beginning. -/
def CutSince (i : Fin 3) : List Call → Controller → Prop → Prop
  | [], _, b => b
  | c :: cs, s, b => CutSince i cs (c.exec s)
      (Requested c s ∧ inFault (s.rails i) = true ∨ b ∧ ¬ (Pressed c s ∧ s.outputState = true))

theorem cutSince_snoc (cs : List Call) (c : Call) (s : Controller) (b : Prop) :
    CutSince i (cs ++ [c]) s b ↔ Requested c (execs cs s) ∧ inFault ((execs cs s).rails i) = true ∨
      CutSince i cs s b ∧ ¬ (Pressed c (execs cs s) ∧ (execs cs s).outputState = true) := by
  induction cs generalizing s b with
  | nil => exact Iff.rfl
  | cons e cs ih => exact ih (e.exec s) _

theorem exec_hadFault_open (hreset : ¬ (Pressed c s ∧ s.outputState = true))
    (hcut : ¬ (Requested c s ∧ inFault (s.rails i) = true)) (ho : ((c.exec s).rails i).relayOn = false) :
    (s.rails i).relayOn = false ∧ ((c.exec s).rails i).hadFault = (s.rails i).hadFault := by
  have hstep := exec_rail c s i
  generalize (c.exec s).rails i = r at hstep ho ⊢
  cases hstep with
  | same | mark => exact ⟨ho, rfl⟩
  | reset hp hon => exact absurd ⟨hp, hon⟩ hreset
  | cut status hr hf => exact absurd ⟨hr, hf⟩ hcut
  | update v d hc =>
      cases hon : s.outputState with
      | false =>
          rw [hon] at ho
          exact ⟨ho, rfl⟩
      | true =>
          rw [hon] at ho
          have hupdate := updateRail_update v (millis (s.clock + d)) (s.rails i)
          generalize updateRail true v (millis (s.clock + d)) (s.rails i) = r at hupdate ho ⊢
          cases hupdate with
          | low | qualify | wait => exact ⟨ho, rfl⟩
          | close => exact absurd ho.symm Bool.false_ne_true
          | good st ho' => exact absurd (ho.symm.trans ho') Bool.false_ne_true
          | drop st ho' => exact absurd (ho.symm.trans ho') Bool.false_ne_true
          | relapse st ho' => exact absurd (ho.symm.trans ho') Bool.false_ne_true
          | recover st ho' => exact absurd (ho.symm.trans ho') Bool.false_ne_true
          | hold st ho' => exact absurd (ho.symm.trans ho') Bool.false_ne_true
          | restore st ho' => exact absurd (ho.symm.trans ho') Bool.false_ne_true

/-- While the relay is open, `hadFault` tells whether the rail has been cut since its last full reset. -/
theorem hadFault_iff (clock : ℕ) (cs : List Call) (i : Fin 3)
    (ho : ((execs cs (setup clock)).rails i).relayOn = false) :
    ((execs cs (setup clock)).rails i).hadFault = true ↔ CutSince i cs (setup clock) False := by
  induction cs using List.reverseRecOn with
  | nil => exact ⟨fun h => absurd h Bool.false_ne_true, False.elim⟩
  | append_singleton cs c ih =>
      rw [cutSince_snoc]
      rw [exec_snoc] at ho ⊢
      by_cases hcut : Requested c (execs cs (setup clock)) ∧ inFault ((execs cs (setup clock)).rails i) = true
      · obtain ⟨status, hrails, -⟩ := exec_requested hcut.1
        rw [hrails i, if_pos hcut.2]
        exact ⟨fun _ => .inl hcut, fun _ => rfl⟩
      · by_cases hreset : Pressed c (execs cs (setup clock)) ∧ (execs cs (setup clock)).outputState = true
        · have hstep := exec_pressed hreset.1
          rw [if_pos hreset.2] at hstep
          rw [hstep.2.2 i]
          exact ⟨fun h => absurd h Bool.false_ne_true, fun h => (h.elim hcut fun h => h.2 hreset).elim⟩
        · obtain ⟨ho', hsame⟩ := exec_hadFault_open hreset hcut ho
          rw [hsame, ih ho']
          exact ⟨fun h => .inr ⟨h, hreset⟩, fun h => (h.resolve_left hcut).1⟩

/-- What a sample that closes the relay of a rail should find: the system on, and behind it the
interval that the rail has to qualify for. -/
def QualifiesNext (clock : ℕ) (cs : List Call) : Prop :=
  ∀ i v d, ((execs cs (setup clock)).rails i).relayOn = false →
    (((Call.updateRail i v d).exec (execs cs (setup clock))).rails i).relayOn = true →
      On (execs cs (setup clock)) ∧ High i v ∧
        (CutSince i cs (setup clock) False → HeldFor i 10000 ((execs cs (setup clock)).clock + d) cs clock) ∧
        (¬ CutSince i cs (setup clock) False → HeldFor i 100 ((execs cs (setup clock)).clock + d) cs clock)

theorem updateRail_rail (i : Fin 3) (v : ℚ) (d : ℕ) (s : Controller) :
    ((Call.updateRail i v d).exec s).rails i = updateRail s.outputState v (millis (s.clock + d)) (s.rails i) :=
  setRail_self

theorem qualifiesNext_of_along (h : Along callStep CleanStart cs (setup clock)) : QualifiesNext clock cs := by
  intro i v d hopen hclosed
  rw [updateRail_rail] at hclosed
  have hon : (execs cs (setup clock)).outputState = true := by
    apply Bool.eq_true_of_not_eq_false
    intro ho
    rw [ho] at hclosed
    exact Bool.false_ne_true (hopen.symm.trans hclosed)
  rw [hon] at hclosed
  obtain ⟨hfrac, hp, ht⟩ := close_update (updateRail_update v _ _) hopen hclosed
  have hheld := heldFor_of_elapsed (qualifying i h hon hp) (Nat.le_add_right _ d) ht
  refine ⟨hon, (fraction_ge (execs_nominal cs clock i)).mp hfrac, ?_, ?_⟩
  · intro hcut
    rw [requiredHold, if_pos ((hadFault_iff clock cs i hopen).mpr hcut)] at hheld
    exact hheld
  · intro hcut
    rw [requiredHold, if_neg (mt (hadFault_iff clock cs i hopen).mp hcut)] at hheld
    exact hheld

theorem exists_delay (clock : ℕ) (since : UInt32) : ∃ d, millis (clock + d) - since = RECOVERY_HOLD_MS := by
  refine ⟨(since + RECOVERY_HOLD_MS - millis clock).toNat, ?_⟩
  rw [millis, UInt32.ofNat_add, UInt32.ofNat_toNat, ← millis]
  grind

theorem requiredHold_le (r : Rail) : requiredHold r ≤ RECOVERY_HOLD_MS := by
  unfold requiredHold
  split <;> decide

theorem exec_pressed_rail (hp : Pressed c s) (ho : s.outputState = false) :
    ∃ st, (c.exec s).rails i = { s.rails i with status := st } := by
  have hstep := exec_rail c s i
  generalize (c.exec s).rails i = r at hstep ⊢
  cases hstep with
  | same => exact ⟨(s.rails i).status, rfl⟩
  | update v d hc => exact absurd hc (ne_of_pressed hp v d)
  | reset _ hon => exact absurd (ho.symm.trans hon) (by decide)
  | cut status hr =>
      cases c with
      | dbounce => exact hr.elim
      | updateRail | handleCpuFeedback | handleCpuPowerDown | updateAnyRelayIndicator | updateLcd => exact hp.elim
  | mark status => exact ⟨status, rfl⟩

theorem not_heldFor_of_start {hold now : ℕ} (hp : Pressed c (execs cs (setup clock)))
    (ho : (execs cs (setup clock)).outputState = false) : ¬ HeldFor i hold now (cs ++ [c]) clock := by
  intro h
  rcases h.before_last with hon | ⟨v, d, hc, -⟩
  · exact Bool.false_ne_true (ho.symm.trans hon)
  · exact ne_of_pressed hp v d hc

theorem not_qualifiesNext (hp : Pressed c (execs cs (setup clock))) (ho : (execs cs (setup clock)).outputState = false)
    (hpending : ((execs cs (setup clock)).rails i).pendingOn = true) : ¬ QualifiesNext clock (cs ++ [c]) := by
  have hopen : ((execs cs (setup clock)).rails i).relayOn = false := by
    apply Bool.eq_false_of_not_eq_true
    intro hr
    exact Bool.false_ne_true ((execs_pendingOn_closed cs clock i hr).symm.trans hpending)
  have hon : (c.exec (execs cs (setup clock))).outputState = true := by
    have hstep := exec_pressed hp
    rw [if_neg (by rw [ho]; exact Bool.false_ne_true)] at hstep
    exact hstep.1
  obtain ⟨st, hrail⟩ := exec_pressed_rail (i := i) hp ho
  obtain ⟨d, hd⟩ :=
    exists_delay (c.exec (execs cs (setup clock))).clock ((execs cs (setup clock)).rails i).pendingSince
  have hhigh : High i (nominal i) := by
    have hpos := nominal_pos i
    unfold High PCT_ON
    linarith
  intro h
  have hnext := h i (nominal i) d
  rw [exec_snoc, updateRail_rail, hon, hrail] at hnext
  have hfrac := (fraction_ge (r := { (execs cs (setup clock)).rails i with status := st })
    (execs_nominal cs clock i)).mpr hhigh
  obtain ⟨-, -, hcut, hnone⟩ := hnext hopen (updateRail_closes hopen hfrac hpending (by
    rw [hd]
    exact requiredHold_le _))
  by_cases hsince : CutSince i (cs ++ [c]) (setup clock) False
  · exact not_heldFor_of_start hp ho (hcut hsince)
  · exact not_heldFor_of_start hp ho (hnone hsince)

/-- In every state of a run, whatever the next sample, the relay of a rail closes only after the
interval it has to qualify for, exactly when no press that switches the system on finds a
qualification pending. This is asked of each sample that might come next, not only of the one that
the run takes. -/
theorem turn_on_qualified_iff (clock : ℕ) (cs : List Call) :
    (∀ pre, pre <+: cs → QualifiesNext clock pre) ↔ Along callStep CleanStart cs (setup clock) := by
  constructor
  · intro h
    induction cs using List.reverseRecOn with
    | nil => trivial
    | append_singleton cs c ih =>
        rw [along_calls]
        refine ⟨ih fun pre hpre => h pre (hpre.trans (List.prefix_append cs [c])), ?_⟩
        intro hp ho i
        apply Bool.eq_false_of_not_eq_true
        intro hpending
        exact not_qualifiesNext hp ho hpending (h (cs ++ [c]) (List.prefix_refl _))
  · rintro h pre ⟨post, rfl⟩
    apply qualifiesNext_of_along
    induction post using List.reverseRecOn with
    | nil => simpa using h
    | append_singleton post c ih =>
        rw [← List.append_assoc, along_calls] at h
        exact ih h.1

def voltages (v : Fin 3 → ℚ) (e : Iteration) : Iteration := { e with voltage := v }

/-- The first two rails are on; the first one fails and is cut while the third one begins to
qualify; the third one drops again, and it is still down a millisecond before the key is taken as pressed. -/
def staleStart : List Call :=
  program [reading LOW HIGH 12 1, voltages ![12, 5, 0] (reading LOW HIGH 12 100),
    voltages ![12, 5, 0] (reading LOW HIGH 12 100), voltages ![0, 5, 0] (reading LOW LOW 0 1),
    reading LOW LOW 0 100, voltages ![12, 5, 0] (reading HIGH HIGH 12 1),
    voltages ![12, 5, 0] (reading HIGH HIGH 12 100), voltages ![12, 5, 0] (reading LOW HIGH 12 1)]

/-- The iteration of the last low sample, and the next one up to the sample of the third rail. -/
def staleCalls : List Call :=
  staleStart ++ (voltages ![12, 5, 0] (reading LOW HIGH 12 99)).calls ++
    (voltages ![12, 5, 0] (reading LOW HIGH 12 1)).calls.take 3

theorem calls_eq (e : Iteration) :
    e.calls = e.calls.take 3 ++ .updateRail 2 (e.voltage 2) (e.delay 2) :: e.calls.drop 4 := rfl

theorem stale_qualification_closes : ¬ QualifiesNext 0 staleCalls := by
  intro h
  have hopen : ((execs staleCalls (setup 0)).rails 2).relayOn = false := by decide +kernel
  have hclosed : (((Call.updateRail 2 5 0).exec (execs staleCalls (setup 0))).rails 2).relayOn = true := by
    decide +kernel
  have hlow : ¬ High 2 0 := by
    rw [High, not_le]
    decide +kernel
  have hearly : ¬ (execs (staleStart ++ (voltages ![12, 5, 0] (reading LOW HIGH 12 99)).calls.take 3)
      (setup 0)).clock + 0 + 100 ≤ (execs staleCalls (setup 0)).clock + 0 := by decide +kernel
  have hheld : HeldFor 2 100 ((execs staleCalls (setup 0)).clock + 0) staleCalls 0 := by
    obtain ⟨-, -, hcut, hnone⟩ := h 2 5 0 hopen hclosed
    by_cases hsince : CutSince 2 staleCalls (setup 0) False
    · exact (hcut hsince).mono (by decide)
    · exact hnone hsince
  have hcs : staleCalls = staleStart ++ (voltages ![12, 5, 0] (reading LOW HIGH 12 99)).calls.take 3 ++
      .updateRail 2 0 0 :: ((voltages ![12, 5, 0] (reading LOW HIGH 12 99)).calls.drop 4 ++
        (voltages ![12, 5, 0] (reading LOW HIGH 12 1)).calls.take 3) := by
    rw [staleCalls, calls_eq (voltages _ (reading LOW HIGH 12 99)), List.append_assoc, List.append_assoc,
      List.append_assoc, List.cons_append]
    rfl
  have hle := HeldFor.low_before hheld hcs hlow
  exact hearly hle

end Orion68.PsuQualification
