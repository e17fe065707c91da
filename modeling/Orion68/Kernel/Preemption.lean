import Orion68.Kernel.SchedulerRuns
import Orion68.Kernel.Statements

namespace Orion68.Preemption

open LinkedLists Runs RoundRobin Threads Scheduler ReadyRing SchedulerRuns Statements

/-- The kernel and, for each task, the point it has reached in the scheduler. -/
structure System where
  kernel : Kernel
  pc : TaskPtr → Pc

inductive Call
  | block (task : Option TaskPtr)
  | wake (task : Option TaskPtr)
  | exit
  deriving DecidableEq

def Call.entry : Call → Pc
  | .block task => .blockNull task
  | .wake task => .wakeGuard task
  | .exit => .exitGuard

inductive Event
  | tick
  | create (entry arg stack stackSize : UInt32) (id : Int32)
  | start
  | call (f : Call)
  | stmt
  deriving DecidableEq

def System.here (s : System) : Pc := s.kernel.currentTask.elim .idle s.pc

/-- A tick may come before any statement of the running task. The calls and
`OS_TaskCreate`, which is taken as one step, are made outside the scheduler only. -/
def step : Event → System → Option System
  | .tick, s => some { s with kernel := osSchedule s.kernel }
  | .create entry arg stack stackSize id, s =>
      if s.here = .idle then
        (osTaskCreate entry arg stack stackSize id s.kernel).map fun r => { s with kernel := r.1 }
      else some s
  | .start, s =>
      if s.kernel.currentTask = none then some { s with kernel := osStart s.kernel } else some s
  | .call f, s =>
      match s.kernel.currentTask with
      | some c => if s.pc c = .idle then some { s with pc := Function.update s.pc c f.entry } else some s
      | none => some s
  | .stmt, s =>
      match s.kernel.currentTask with
      | some c => (stmt (s.pc c) s.kernel).map fun r => ⟨r.2, Function.update s.pc c r.1⟩
      | none => some s

def initial (k : Kernel) : System := ⟨osInit k, fun _ => .idle⟩

/-- Whenever the running task is outside the scheduler, the ring has the ready and running
tasks, and `OS_TaskWake` puts any blocked task back into it. -/
def Exact (s : System) : Prop :=
  s.here.halted → ∃ l, Ready s.kernel l ∧ ∀ t, s.kernel.state t = .blocked →
    ∃ k, osTaskWake (some t) s.kernel = some k ∧ Ready k (l ++ [t])

/-- A tick finds no task ready, or only the one that runs. -/
def Inert (k : Kernel) : Prop :=
  k.readyHead = none ∨ ∃ c, k.readyHead = some c ∧ k.currentTask = some c ∧
    k.next c = some c ∧ k.state c = .running

/-- No tick with an effect during an edit, and no wake that goes on to insert a task which
is in the ring by then, unless it is the last one there. -/
def Compliant : Event → System → Prop
  | .tick, s => s.here.safe ∨ Inert s.kernel
  | .stmt, s => ∀ t, s.here = .wakeState t →
      ¬ Linked s.kernel t ∨ s.kernel.next t = s.kernel.readyHead
  | _, _ => True

theorem osSchedule_inert {k : Kernel} (h : Inert k) : osSchedule k = k := by
  rcases h with hh | ⟨c, hh, hc, hn, hs⟩
  · simp [osSchedule, hh]
  · have hstate : (k.taskPool c).state = .running := hs
    have hpool : (k.taskPool.setState c .ready).setState c .running = k.taskPool := by
      funext u
      by_cases hu : u = c
      · subst hu
        simp [Pool.setState, ← hstate]
      · simp [Pool.setState, hu]
    have hpre : preempt k = k.setState c .ready := by simp [preempt, hc, hs]
    have hsched : osSchedule k = dispatch c (k.setState c .ready) := by simp [osSchedule, hh, hpre]
    rw [hsched, dispatch, Kernel.next_setState, hn]
    obtain ⟨p, n, head, current, m⟩ := k
    obtain rfl : head = some c := hh
    obtain rfl : current = some c := hc
    exact congrArg (Kernel.mk · n (some c) (some c) m) hpool

/-- A safe point is met with a consistent kernel; from any other point the rest of the call
leads to one. -/
def Sound (p : Pc) (k : Kernel) : Prop :=
  if p.safe then (∃ l, Consistent k l) ∧ ∀ t caller, p = .remove t caller .alone → k.readyHead ≠ none
  else ∃ k' l', Finishes p k k' ∧ Consistent k' l'

structure Inv (s : System) : Prop where
  args : ∀ u, (s.pc u).Args u s.kernel.taskCount
  others : ∀ u, s.kernel.currentTask ≠ some u → (s.pc u).safe
  here : Sound s.here s.kernel

section Edits

variable {k : Kernel} {l : List TaskPtr} (h : Consistent k l)
include h

theorem leave_consistent {t : TaskPtr} {s : TaskState} (hs : s ≠ .ready ∧ s ≠ .running)
    (ht : t.val < k.taskCount ∨ s = .unused) :
    ∃ k', readyRemove t k = some k' ∧ k'.currentTask = k.currentTask ∧
      Consistent (k'.setState t s) (l.erase t) := by
  obtain ⟨k', hk, hrel, he⟩ := readyRemove_edits h.ready h.next_ne_self hs
  refine ⟨k', hk, hrel.currentTask_eq, h.edits he (h.counted.of_state hrel.taskCount_eq
    ?_ fun c hc => .inl (hrel.currentTask_eq ▸ hc))⟩
  intro u hu
  by_cases hut : u = t
  · subst hut
    exact .inr (by simp [ht.resolve_left (not_lt.mpr hu)])
  · exact .inl (by simp [hut, hrel.state_eq])

theorem join_consistent {t : TaskPtr} (ht : t.val < k.taskCount)
    (hl : ¬ Linked k t ∨ k.next t = k.readyHead) :
    ∃ k' l', readyInsert t (k.setState t .ready) = some k' ∧ Consistent k' l' := by
  have hcounted {k' : Kernel} (hrel : Relinked (k.setState t .ready) k') : Counted k' := by
    refine h.counted.of_state hrel.taskCount_eq (fun u hu => .inl ?_) fun c hc =>
      .inl (hrel.currentTask_eq.symm.trans hc)
    have hut : u ≠ t := by
      rintro rfl
      omega
    simp [hrel.state_eq, hut]
  by_cases htl : Linked k t
  · obtain ⟨k', hk, hrel, he⟩ := readyInsert_last h.ready ((h.ready.mem_iff t).mpr htl)
      (hl.resolve_left (not_not.mpr htl))
    exact ⟨k', _, hk, h.edits he (hcounted hrel)⟩
  · obtain ⟨k', hk, hrel, he⟩ := readyInsert_unlinked h.ready htl
    exact ⟨k', _, hk, h.edits he (hcounted hrel)⟩

end Edits

theorem Sound.consistent {p : Pc} {k : Kernel} (h : Sound p k) (hp : p.safe = true) :
    ∃ l, Consistent k l := by
  rw [Sound, if_pos hp] at h
  exact h.1

theorem Sound.head_ne_none {t : TaskPtr} {caller : Caller} {k : Kernel}
    (h : Sound (.remove t caller .alone) k) : k.readyHead ≠ none :=
  h.2 t caller rfl

theorem Sound.finishes {p : Pc} {k : Kernel} (h : Sound p k) (hp : p.safe = false) :
    ∃ k' l', Finishes p k k' ∧ Consistent k' l' := by
  rwa [Sound, if_neg (by simp [hp])] at h

theorem sound_of_safe {p : Pc} {k : Kernel} {l : List TaskPtr} (h : Consistent k l)
    (hp : p.safe = true) (hh : k.readyHead ≠ none) : Sound p k := by
  rw [Sound, if_pos hp]
  exact ⟨⟨l, h⟩, fun _ _ _ => hh⟩

/-- What is left of a call leads to a consistent kernel, so it does so after one statement more. -/
theorem finishes_sound {p : Pc} {k k' : Kernel} {l' : List TaskPtr} (hf : Finishes p k k')
    (hc : Consistent k' l') (hp : p.halted = false)
    (hq : ∀ q k₁, stmt p k = some (q, k₁) → q.safe = true → q.halted = true) :
    ∃ q k₁, stmt p k = some (q, k₁) ∧ Sound q k₁ := by
  obtain ⟨q, k₁, hs, hf⟩ := hf.rest hp
  refine ⟨q, k₁, hs, ?_⟩
  by_cases hsafe : q.safe = true
  · have hhalt := hq q k₁ hs hsafe
    obtain rfl := hf.eq_of_halted hhalt
    rw [Sound, if_pos hsafe]
    refine ⟨⟨l', hc⟩, ?_⟩
    intro t caller he
    subst he
    cases hhalt
  · rw [Sound, if_neg hsafe]
    exact ⟨k', l', hf, hc⟩

theorem guard_sound {p q : Pc} {k : Kernel} {l : List TaskPtr} (h : Consistent k l)
    (hs : stmt p k = some (q, k)) (hq : q.safe = true)
    (ha : ∀ t caller, q = .remove t caller .alone → k.readyHead ≠ none) :
    ∃ q k₁, stmt p k = some (q, k₁) ∧ Sound q k₁ :=
  ⟨q, k, hs, by rw [Sound, if_pos hq]; exact ⟨⟨l, h⟩, ha⟩⟩

section Statement

variable {k : Kernel} {c : TaskPtr} (hc : k.currentTask = some c)
include hc

theorem after_finishes {l : List TaskPtr} (h : Consistent k l) (t : TaskPtr) (caller : Caller)
    (ha : (Pc.remove t caller .headNull).Args c k.taskCount) :
    ∃ k₁ k' l', readyRemove t k = some k₁ ∧ Finishes (caller.after t) k₁ k' ∧ Consistent k' l' := by
  cases caller with
  | block =>
      obtain ⟨k₁, hk, -, h'⟩ := leave_consistent h (s := .blocked) (by decide) (.inl ha)
      exact ⟨k₁, _, _, hk, .next rfl rfl (.done rfl), h'⟩
  | exit =>
      obtain rfl : t = c := ha
      obtain ⟨k₁, hk, hcur, h'⟩ := leave_consistent h (t := t) (s := .unused) (by decide) (.inr rfl)
      exact ⟨k₁, _, _, hk, exitState_finishes (hcur.trans hc), h'⟩

theorem remove_sound {t : TaskPtr} {caller : Caller} {p : RemovePc}
    (hs : Sound (.remove t caller p) k) (hp : (Pc.remove t caller p).safe = true)
    (ha : (Pc.remove t caller p).Args c k.taskCount) :
    ∃ q k₁, stmt (.remove t caller p) k = some (q, k₁) ∧ Sound q k₁ := by
  obtain ⟨l, h⟩ := hs.consistent hp
  obtain ⟨k₁, k', l', hk, hf, h'⟩ := after_finishes hc h t caller
    (by cases caller <;> exact ha)
  cases p with
  | headNull =>
      cases hh : k.readyHead with
      | none =>
          apply finishes_sound (readyRemove_finishes hk hf) h' rfl
          intro q k₂ hq hsafe
          obtain ⟨rfl, -⟩ := Prod.mk.inj (Option.some.inj hq)
          simp [hh, caller.after_unsafe t] at hsafe
      | some head =>
          exact guard_sound h (q := .remove t caller .alone)
            (by simp [stmt, readyRemoveStmt, hh]) rfl fun _ _ _ => by simp [hh]
  | alone =>
      obtain ⟨head, hh⟩ := Option.ne_none_iff_exists'.mp hs.head_ne_none
      apply finishes_sound (alone_finishes hh hk hf) h' rfl
      intro q k₂ hq hsafe
      rcases (readyRemoveStmt_next (show readyRemoveStmt t caller .alone k = _ from hq)).1 with rfl | ⟨r, rfl, hr⟩
      · simp [caller.after_unsafe t] at hsafe
      · cases hr hsafe
  | _ => cases hp

theorem stmt_sound {p : Pc} (hs : Sound p k) (ha : p.Args c k.taskCount)
    (hw : ∀ t, p = .wakeState t → ¬ Linked k t ∨ k.next t = k.readyHead) :
    ∃ q k₁, stmt p k = some (q, k₁) ∧ Sound q k₁ := by
  by_cases hp : p.safe = true
  swap
  · simp only [Bool.not_eq_true] at hp
    obtain ⟨k', l', hf, h'⟩ := hs.finishes hp
    have hhalt : p.halted = false := by cases p <;> first | rfl | cases hp
    exact finishes_sound hf h' hhalt fun q k₁ hq => stmt_safe hp hq
  obtain ⟨l, h⟩ := hs.consistent hp
  cases p with
  | remove t caller p => exact remove_sound hc hs hp ha
  | wakeState t =>
      obtain ⟨k', l', hk, h'⟩ := join_consistent h ha (hw t rfl)
      apply finishes_sound (.next rfl rfl (readyInsert_finishes hk)) h' rfl
      intro q k₁ hq hsafe
      obtain ⟨rfl, -⟩ := Prod.mk.inj (Option.some.inj hq)
      cases hsafe
  | blockNull task => cases task <;> exact guard_sound h rfl rfl (by simp)
  | blockGuard t =>
      by_cases hg : k.state t ≠ .ready ∧ k.state t ≠ .running
      · exact guard_sound h (q := .idle) (by simp [stmt, hg]) rfl (by simp)
      · exact guard_sound h (q := .remove t .block .headNull) (by simp only [stmt, hg, if_false]) rfl
          (by simp)
  | wakeGuard task =>
      cases task with
      | none => exact guard_sound h rfl rfl (by simp)
      | some t =>
          by_cases hg : k.state t ≠ .blocked
          · exact guard_sound h (q := .idle) (by simp [stmt, hg]) rfl (by simp)
          · exact guard_sound h (q := .wakeState t) (by simp only [stmt, hg, if_false]) rfl (by simp)
  | exitGuard => exact guard_sound h (q := .exitCall) (by simp [stmt, hc]) rfl (by simp)
  | exitCall =>
      exact guard_sound h (q := .remove c .exit .headNull) (by simp [stmt, hc]) rfl (by simp)
  | idle => exact guard_sound h rfl rfl (by simp)
  | exited => exact guard_sound h rfl rfl (by simp)
  | blockState t => cases hp
  | exitState => cases hp
  | insert t p => cases hp

end Statement

theorem args_mono {p : Pc} {u : TaskPtr} {m n : Nat} (h : p.Args u m) (hmn : m ≤ n) : p.Args u n := by
  cases p with
  | wakeState t => exact Nat.lt_of_lt_of_le h hmn
  | remove t caller p =>
      cases caller with
      | block => exact Nat.lt_of_lt_of_le h hmn
      | exit => exact h
  | _ => trivial

theorem System.here_of_current {s : System} {c : TaskPtr} (hc : s.kernel.currentTask = some c) :
    s.here = s.pc c := by
  simp [System.here, hc]

section Steps

variable {s : System} (h : Inv s)
include h

theorem Inv.exact : Exact s := by
  intro hhalt
  have hsafe : s.here.safe = true := by
    cases hp : s.here <;> first | rfl | simp [hp, Pc.halted] at hhalt
  obtain ⟨l, hc⟩ := h.here.consistent hsafe
  refine ⟨l, hc.ready, ?_⟩
  intro t ht
  obtain ⟨k, hk, he, -⟩ := osTaskWake_spec hc.ready ht
  exact ⟨k, hk, he.ready⟩

theorem Inv.safe_of_here (hs : s.here.safe = true) (u : TaskPtr) : (s.pc u).safe = true := by
  by_cases hu : s.kernel.currentTask = some u
  · rwa [System.here_of_current hu] at hs
  · exact h.others u hu

/-- The processor goes to the first task of the ring, which has been suspended at a safe point. -/
theorem Inv.dispatched {o : Op} {k : Kernel} {a : TaskPtr} {l : List TaskPtr}
    (hs : s.here.safe = true) (hc : Consistent s.kernel (a :: l)) (hop : Refines o s.kernel k (a :: l))
    (hserve : moveOf o s.kernel = some .serve) (hcreate : creates o = false)
    (hcur : k.currentTask = some a) : Inv { s with kernel := k } := by
  have hk := hc.edits hop.edits hop.counted
  have hn : k.taskCount = s.kernel.taskCount := by
    simpa [hcreate, hc.counted.le] using hop.taskCount_eq
  have hmem : a ∈ queueStep o s.kernel (a :: l) := by simp [queueStep, hserve, Move.apply]
  obtain ⟨b, hb⟩ := hk.ready.ring.head_isSome hmem
  refine ⟨?_, fun u _ => h.safe_of_here hs u, ?_⟩
  · intro u
    change (s.pc u).Args u k.taskCount
    rw [hn]
    exact h.args u
  · rw [System.here_of_current hcur]
    exact sound_of_safe hk (h.safe_of_here hs a) (by simp [hb])

theorem Inv.tick_step (hC : Compliant .tick s) : Inv { s with kernel := osSchedule s.kernel } := by
  rcases hC with hsafe | hinert
  swap
  · rw [osSchedule_inert hinert]
    exact h
  obtain ⟨l, hc⟩ := h.here.consistent hsafe
  cases l with
  | nil =>
      rw [osSchedule_nil hc.ready]
      exact h
  | cons a l =>
      apply h.dispatched hsafe hc (osSchedule_refines hc.ready hc.counted) rfl rfl
      rw [osSchedule_cons hc.ready]
      rfl

theorem Inv.start_step (hcur : s.kernel.currentTask = none) :
    Inv { s with kernel := osStart s.kernel } := by
  have hsafe : s.here.safe = true := by simp [System.here, hcur, Pc.safe]
  obtain ⟨l, hc⟩ := h.here.consistent hsafe
  cases l with
  | nil =>
      rw [osStart_nil hc.ready]
      exact h
  | cons a l =>
      apply h.dispatched hsafe hc (osStart_refines hc.ready hc.counted) rfl rfl
      rw [osStart_cons hc.ready]
      rfl

theorem Inv.create_step (hidle : s.here = .idle) (entry arg stack stackSize : UInt32) (id : Int32) :
    ∃ s', step (.create entry arg stack stackSize id) s = some s' ∧ Inv s' := by
  obtain ⟨l, hc⟩ := h.here.consistent (by simp [hidle, Pc.safe])
  obtain ⟨k, r, hk, hop, hcur, -⟩ := osTaskCreate_refines hc.ready hc.counted entry arg stack stackSize id
  obtain ⟨l', hc'⟩ : ∃ l', Consistent k l' := ⟨_, hc.edits hop.edits hop.counted⟩
  have hhere : System.here { s with kernel := k } = .idle := by
    simpa [System.here, hcur] using hidle
  refine ⟨{ s with kernel := k }, by simp [step, hidle, hk], fun u => args_mono (h.args u) ?_,
    fun u hu => h.others u (hcur ▸ hu), ?_⟩
  · change s.kernel.taskCount ≤ k.taskCount
    have := hop.taskCount_eq
    have := hc.counted.le
    omega
  · rw [hhere]
    exact ⟨⟨l', hc'⟩, by simp⟩

theorem Inv.call_step {c : TaskPtr} (hcur : s.kernel.currentTask = some c) (hidle : s.pc c = .idle)
    (f : Call) : Inv { s with pc := Function.update s.pc c f.entry } := by
  obtain ⟨l, hc⟩ := h.here.consistent (by simp [System.here_of_current hcur, hidle, Pc.safe])
  refine ⟨?_, ?_, ?_⟩
  · intro u
    by_cases huc : u = c
    · subst huc
      simp only [Function.update_self]
      cases f <;> trivial
    · simpa [huc] using h.args u
  · intro u hu
    have huc : u ≠ c := by
      rintro rfl
      exact hu hcur
    simpa [huc] using h.others u hu
  · have hhere : System.here { s with pc := Function.update s.pc c f.entry } = f.entry := by
      simp [System.here, hcur]
    rw [hhere, Sound, if_pos (by cases f <;> rfl)]
    exact ⟨⟨l, hc⟩, by cases f <;> simp [Call.entry]⟩

theorem Inv.stmt_step {c : TaskPtr} (hcur : s.kernel.currentTask = some c) (hC : Compliant .stmt s) :
    ∃ s', step .stmt s = some s' ∧ Inv s' := by
  have hhere := System.here_of_current hcur
  have hs := h.here
  rw [hhere] at hs
  obtain ⟨q, k, hq, hsound⟩ := stmt_sound hcur hs (h.args c) fun t ht => hC t (hhere.trans ht)
  obtain ⟨hn, hcur'⟩ := stmt_frame hq
  have hargs : q.Args c s.kernel.taskCount := by
    refine stmt_args hcur ?_ (h.args c) hq
    intro hsafe
    obtain ⟨l, hc⟩ := hs.consistent hsafe
    exact hc.counted.unused
  refine ⟨⟨k, Function.update s.pc c q⟩, by simp [step, hcur, hq], ?_, ?_, ?_⟩
  · intro u
    change (Function.update s.pc c q u).Args u k.taskCount
    rw [hn]
    by_cases huc : u = c
    · subst huc
      simpa using hargs
    · simpa [huc] using h.args u
  · intro u hu
    have huc : u ≠ c := by
      rintro rfl
      exact hu (hcur'.trans hcur)
    simpa [huc] using h.others u (hcur' ▸ hu)
  · have hhere' : System.here ⟨k, Function.update s.pc c q⟩ = q := by
      simp [System.here, hcur', hcur]
    rw [hhere']
    exact hsound

theorem Inv.step_inv (e : Event) (hC : Compliant e s) : ∃ s', step e s = some s' ∧ Inv s' := by
  cases e with
  | tick => exact ⟨_, rfl, h.tick_step hC⟩
  | create entry arg stack stackSize id =>
      by_cases hidle : s.here = .idle
      · exact h.create_step hidle entry arg stack stackSize id
      · exact ⟨s, by simp [step, hidle], h⟩
  | start =>
      by_cases hcur : s.kernel.currentTask = none
      · exact ⟨_, by simp [step, hcur], h.start_step hcur⟩
      · exact ⟨s, by simp [step, hcur], h⟩
  | call f =>
      cases hcur : s.kernel.currentTask with
      | none => exact ⟨s, by simp [step, hcur], h⟩
      | some c =>
          by_cases hidle : s.pc c = .idle
          · exact ⟨_, by simp [step, hcur, hidle], h.call_step hcur hidle f⟩
          · exact ⟨s, by simp [step, hcur, hidle], h⟩
  | stmt =>
      cases hcur : s.kernel.currentTask with
      | none => exact ⟨s, by simp [step, hcur], h⟩
      | some c => exact h.stmt_step hcur hC

end Steps

theorem initial_inv (k : Kernel) : Inv (initial k) :=
  ⟨fun _ => trivial, fun _ _ => rfl, ⟨⟨[], osInit_consistent k⟩, by simp [initial, System.here, osInit]⟩⟩

/-- When no tick breaks into an edit of the ring and no stale wake inserts a task again, the
ring is right each time the running task is outside the scheduler, and every blocked task can
be woken. -/
theorem exact_of_compliant (k : Kernel) (es : List Event) (h : Along step Compliant es (initial k)) :
    Throughout step Exact es (initial k) :=
  throughout_of_along (fun _ h => Inv.exact h) (fun e _ h hC => Inv.step_inv h e hC) (initial_inv k) h

instance (k : Kernel) : Decidable (Inert k) := inferInstanceAs (Decidable (_ ∨ ∃ _, _))

instance : (e : Event) → (s : System) → Decidable (Compliant e s)
  | .tick, _ => inferInstanceAs (Decidable (_ ∨ _))
  | .stmt, s => inferInstanceAs (Decidable (∀ t, s.here = .wakeState t →
      ¬ (s.kernel.state t = .ready ∨ s.kernel.state t = .running) ∨
        s.kernel.next t = s.kernel.readyHead))
  | .create _ _ _ _ _, _ | .start, _ | .call _, _ => .isTrue trivial

def threeTasks : List Event :=
  let create := .create 0x1000 0 0x8000 1024 1
  [create, .start, create, create]

/-- The processor goes around between the guard and the edit of both calls. -/
theorem exact_of_compliant_ticks :
    let es := threeTasks ++ [.call (.block (some 2)), .stmt, .stmt, .tick, .tick, .tick] ++
      List.replicate 16 .stmt ++ [.call (.wake (some 2)), .stmt, .tick, .tick] ++
      List.replicate 8 .stmt
    Along step Compliant es (initial bootKernel) ∧ Throughout step Exact es (initial bootKernel) :=
  have h := by decide
  ⟨h, exact_of_compliant _ _ h⟩

/-- A tick in the loop of `ready_remove` moves `ready_head` to the next node; the loop takes it
for the end of the round, and the blocked task stays in the ring. -/
theorem tick_in_remove_loses_block :
    ¬ ∀ (es : List Event) (s : System), run step es (initial bootKernel) = some s →
      (∀ t, s.pc t = .idle) →
      ∃ l, Ring s.kernel.next s.kernel.readyHead l ∧ ∀ t, t ∈ l ↔ Linked s.kernel t := by
  intro h
  have hrun : ∃ s, run step (threeTasks ++ .call (.block (some 2)) :: List.replicate 7 .stmt ++
      .tick :: List.replicate 3 .stmt) (initial bootKernel) = some s ∧ (∀ t, s.pc t = .idle) ∧
      s.kernel.state 2 = .blocked ∧ s.kernel.state 1 = .ready ∧ s.kernel.next 1 = some 2 :=
    ⟨_, rfl, by decide, by decide, by decide, by decide⟩
  obtain ⟨s, hs, hidle, h2, h1, hn⟩ := hrun
  obtain ⟨l, hr, hl⟩ := h _ s hs hidle
  obtain ⟨b, hb, he⟩ := hr.next_mem ((hl 1).mpr (.inl h1))
  obtain rfl : 2 = b := by simpa [hn] using he
  have := (hl 2).mp hb
  simp [Linked, h2] at this

end Orion68.Preemption
