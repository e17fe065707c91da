import Orion68.Kernel.MutexLock
import Orion68.Kernel.SchedulerRuns

namespace Orion68.MutexOnScheduler

open LinkedLists Runs RoundRobin Scheduler ReadyRing SchedulerRuns MutexLock

/-- The mutex over the tasks of the scheduler. `waiting` records who has been parked by
`Mutex_Lock` and not been handed the mutex since; no step reads it. -/
structure System where
  kernel : Kernel
  mutex : Mutex TaskPtr
  waiting : List TaskPtr

inductive Event
  | op (o : Op)
  | lock
  | unlock
  deriving DecidableEq

/-- The running task calls `Mutex_Lock` or `Mutex_Unlock`, the latter only as the owner;
the `OS_Yield` at the end of a contended `Mutex_Lock` is a `schedule` of its own. -/
def step : Event → System → Option System
  | .op o, s => (Scheduler.step o s.kernel).map fun k => { s with kernel := k }
  | .lock, s =>
      (lockCritical s.kernel.currentTask s.mutex s.kernel).map fun (m, k) =>
        ⟨k, m, if s.mutex.locked = 0 then s.waiting else s.waiting ++ s.kernel.currentTask.toList⟩
  | .unlock, s =>
      if s.mutex.locked ≠ 0 ∧ s.mutex.owner = s.kernel.currentTask then
        (mutexUnlock readyInsert s.mutex s.kernel).map fun (m, k) => ⟨k, m, s.waiting.tail⟩
      else some s

def initial (k : Kernel) : System := ⟨osInit k, mutexInit, []⟩

theorem mutexLock_eq {s s' : System} (h : step .lock s = some s') :
    mutexLock osSchedule s.kernel.currentTask s.mutex s.kernel =
      some (s'.mutex, if s.mutex.locked = 0 then s'.kernel else osSchedule s'.kernel) := by
  simp only [step, Option.map_eq_some_iff] at h
  obtain ⟨⟨m, k⟩, hc, rfl⟩ := h
  simp [mutexLock, hc]

theorem mutexUnlock_eq {m : Mutex TaskPtr} {a : TaskPtr} {k : Kernel} (hw : m.waitHead = some a)
    (ha : k.state a = .blocked) :
    mutexUnlock readyInsert m k = (osTaskWake (some a) k).map (handOver a (k.next a) m, ·) := by
  simp only [mutexUnlock, hw, osTaskWake, ha, ne_eq, not_true_eq_false, if_false]
  rfl

/-- The ring is one cycle of the ready and running tasks, and the wait queue is a list of
the waiting tasks, all of them blocked. -/
structure Sound (s : System) : Prop where
  ring : ∃ l, Ready s.kernel l ∧ l.Disjoint s.waiting
  queue : WaitQueue s.mutex s.kernel.taskPool s.waiting
  blocked : ∀ t ∈ s.waiting, s.kernel.state t = .blocked

/-- No contended `Mutex_Lock` by a task that is in the ring or waits already, and no waiting
task is woken or exits. -/
def Compliant : Event → System → Prop
  | .lock, s => s.mutex.locked = 0 ∨
      ∃ me, s.kernel.currentTask = some me ∧ ¬ Linked s.kernel me ∧ me ∉ s.waiting
  | .op (.taskWake (some t)), s => t ∉ s.waiting
  | .op .taskExit, s => ∀ c, s.kernel.currentTask = some c → c ∉ s.waiting
  | _, _ => True

structure Inv (s : System) (l : List TaskPtr) : Prop where
  ready : Ready s.kernel l
  counted : Counted s.kernel
  queue : WaitQueue s.mutex s.kernel.taskPool s.waiting
  blocked : ∀ t ∈ s.waiting, s.kernel.state t = .blocked
  null : ∀ t, t ∉ l → t ∉ s.waiting → s.kernel.next t = none

theorem initial_inv (k : Kernel) : Inv (initial k) [] :=
  have h := osInit_consistent k
  ⟨h.ready, h.counted, queue_nil _, by simp [initial], fun t ht _ => h.null t ht⟩

section Invariant

variable {s : System} {l : List TaskPtr} (h : Inv s l)
include h

theorem Inv.not_mem_ring {t : TaskPtr} (ht : t ∈ s.waiting) : t ∉ l := by
  intro hl
  have := (h.ready.mem_iff t).mp hl
  simp [Linked, h.blocked t ht] at this

theorem Inv.sound : Sound s :=
  ⟨⟨l, h.ready, fun _ hl hw => h.not_mem_ring hw hl⟩, h.queue, h.blocked⟩

theorem Inv.next_ne_self {t : TaskPtr} (ht : t ∉ l) : s.kernel.next t ≠ some t := by
  by_cases hw : t ∈ s.waiting
  · exact h.queue.seg.next_ne_self hw
  · simp [h.null t ht hw]

theorem Inv.keeps {o : Op} {k' : Kernel} {q : List TaskPtr} (hop : Refines o s.kernel k' l)
    (hq : q ⊆ s.waiting) (hjoin : ∀ t ∈ q, moveOf o s.kernel ≠ some (.join t))
    (hexit : ∀ t ∈ q, o = .taskExit → s.kernel.currentTask ≠ some t) {t : TaskPtr} (ht : t ∈ q) :
    k'.next t = s.kernel.next t ∧ k'.state t = s.kernel.state t := by
  have hl := h.not_mem_ring (hq ht)
  have hl' : t ∉ queueStep o s.kernel l := fun hm =>
    (mem_queueStep hm).elim hl (hjoin t ht)
  exact ⟨by rw [hop.edits.next_eq t hl', if_neg hl], hop.outside t hl hl' (hexit t ht)⟩

theorem Inv.kernel_step {o : Op} {k' : Kernel} {m : Mutex TaskPtr} {q : List TaskPtr}
    (hop : Refines o s.kernel k' l) (hsub : q ⊆ s.waiting)
    (hqueue : WaitQueue m s.kernel.taskPool q)
    (hkeep : ∀ t ∈ q, k'.next t = s.kernel.next t ∧ k'.state t = s.kernel.state t)
    (hleft : ∀ t ∈ s.waiting, t ∉ q → t ∈ queueStep o s.kernel l) :
    Inv ⟨k', m, q⟩ (queueStep o s.kernel l) := by
  refine ⟨hop.edits.ready, hop.counted, hqueue.congr fun t ht => (hkeep t ht).1,
    fun t ht => (hkeep t ht).2.trans (h.blocked t (hsub ht)), ?_⟩
  intro t hl hw
  change k'.next t = none
  rw [hop.edits.next_eq t hl]
  split
  next => rfl
  next hl' => exact h.null t hl' fun ht => hl (hleft t ht hw)

theorem Inv.not_join {o : Op} (hC : Compliant (.op o) s) {t : TaskPtr} (ht : t ∈ s.waiting) :
    moveOf o s.kernel ≠ some (.join t) := by
  cases o with
  | taskCreate entry arg stack stackSize id =>
      simp only [moveOf]
      split
      next hg =>
        intro he
        obtain rfl : (⟨s.kernel.taskCount, hg.1⟩ : TaskPtr) = t := by simpa using he
        have hnew := h.counted.unused ⟨s.kernel.taskCount, hg.1⟩ (le_refl s.kernel.taskCount)
        simp [h.blocked _ ht] at hnew
      next => simp
  | taskWake u =>
      cases u with
      | none => simp [moveOf]
      | some u =>
          simp only [moveOf]
          split
          next =>
            rintro ⟨⟩
            exact hC ht
          next => simp
  | taskBlock u => cases u <;> simp [moveOf]
  | taskExit => cases hc : s.kernel.currentTask <;> simp [moveOf, hc]
  | start => simp [moveOf]
  | schedule => simp [moveOf]

theorem Inv.op_step (o : Op) (hC : Compliant (.op o) s) :
    ∃ s', step (.op o) s = some s' ∧ ∃ l', Inv s' l' := by
  obtain ⟨k', hk, hop⟩ := step_refines h.ready h.counted (fun t ht => h.next_ne_self ht) o
  refine ⟨⟨k', s.mutex, s.waiting⟩, by simp [step, hk], _, h.kernel_step hop
    (List.Subset.refl _) h.queue (fun t ht => h.keeps hop (List.Subset.refl _)
      (fun u hu => h.not_join hC hu) ?_ ht) fun t ht hq => absurd ht hq⟩
  intro u hu ho hc
  subst ho
  exact hC u hc hu

theorem Inv.unlock_step : ∃ s', step .unlock s = some s' ∧ ∃ l', Inv s' l' := by
  by_cases hg : s.mutex.locked ≠ 0 ∧ s.mutex.owner = s.kernel.currentTask
  swap
  · exact ⟨s, by simp only [step, hg, if_false], l, h⟩
  cases hw : s.waiting with
  | nil =>
      have hnone : s.mutex.waitHead = none := by rw [h.queue.head_eq, hw]; rfl
      have hq := h.queue
      rw [hw] at hq
      refine ⟨⟨s.kernel, { s.mutex with locked := 0, owner := none }, []⟩,
        by simp [step, hg, mutexUnlock, hnone, hw], l, h.ready, h.counted, hq, by simp, ?_⟩
      simpa [hw] using h.null
  | cons a q =>
      have hsome : s.mutex.waitHead = some a := by rw [h.queue.head_eq, hw]; rfl
      have hq := h.queue
      rw [hw] at hq
      have haq : a ∉ q := (List.nodup_cons.mp hq.seg.nodup).1
      have ha := h.blocked a (by simp [hw])
      obtain ⟨k', hk, hop⟩ := osTaskWake_refines h.ready h.counted (some a)
      have hmove : moveOf (.taskWake (some a)) s.kernel = some (.join a) := by simp [moveOf, ha]
      have hsub : q ⊆ s.waiting := by simp [hw]
      refine ⟨⟨k', handOver a (s.kernel.next a) s.mutex, q⟩,
        by simp [step, hg, mutexUnlock_eq hsome ha, hk, hw], _,
        h.kernel_step hop hsub (handOver_queue hq)
          (fun t ht => h.keeps hop hsub ?_ (by simp) ht) ?_⟩
      · intro u hu
        rw [hmove]
        rintro ⟨⟩
        exact haq hu
      · intro t ht hn
        obtain rfl : t = a := by simpa [hw, hn] using ht
        simp [queueStep, hmove, Move.apply]

theorem Inv.lock_step (hC : Compliant .lock s) :
    ∃ s', step .lock s = some s' ∧ ∃ l', Inv s' l' := by
  by_cases hl : s.mutex.locked = 0
  · exact ⟨⟨s.kernel, { s.mutex with locked := 1, owner := s.kernel.currentTask }, s.waiting⟩,
      by simp [step, lockCritical, hl], l, h.ready, h.counted, h.queue, h.blocked, h.null⟩
  · obtain ⟨me, hme, hlink, hnew⟩ := hC.resolve_left hl
    have hmel : me ∉ l := mt (h.ready.mem_iff me).mp hlink
    have hnext {u : TaskPtr} (hu : u ∉ s.waiting) (hume : u ≠ me) :
        (enqueue me s.mutex s.kernel.taskPool).2.next u = s.kernel.next u :=
      enqueue_next h.queue hu hume
    have hstate : (enqueue me s.mutex s.kernel.taskPool).2.state =
        Function.update s.kernel.state me .blocked := enqueue_state _ _ _
    refine ⟨⟨{ s.kernel with taskPool := (enqueue me s.mutex s.kernel.taskPool).2 },
      (enqueue me s.mutex s.kernel.taskPool).1, s.waiting ++ [me]⟩,
      by simp [step, lockCritical, hl, hme], l, ⟨?_, ?_⟩, ⟨h.counted.le, ?_,
        h.counted.current⟩, enqueue_queue h.queue hnew, ?_, ?_⟩
    · exact h.ready.ring.congr fun t ht =>
        hnext (fun hw => h.not_mem_ring hw ht) (ne_of_mem_of_not_mem ht hmel)
    · intro t
      rw [h.ready.mem_iff t]
      simp only [Linked, Kernel.state, hstate] at hlink ⊢
      by_cases htm : t = me
      · subst htm
        simpa using hlink
      · simp [htm]
    · intro t ht
      have htm : t ≠ me := by
        rintro rfl
        exact absurd (h.counted.current _ hme) (not_lt.mpr ht)
      simp only [Kernel.state, hstate, Function.update_of_ne htm]
      exact h.counted.unused t ht
    · intro t ht
      simp only [Kernel.state, hstate]
      by_cases htm : t = me
      · simp [htm]
      · rw [Function.update_of_ne htm]
        exact h.blocked t (by simpa [htm] using ht)
    · intro t ht hw
      simp only [List.mem_append, List.mem_singleton, not_or] at hw
      exact (hnext hw.1 hw.2).trans (h.null t ht hw.1)

/-- A caller that is still in the ring is left there behind the task before it, with the
link of the wait queue in its `next`. -/
theorem Inv.lock_breaks {s' : System} (hC : ¬ Compliant .lock s) (hs : step .lock s = some s') :
    ¬ Sound s' := by
  intro hsound
  simp only [Compliant, not_or, not_exists, not_and, not_not] at hC
  obtain ⟨hl, hC⟩ := hC
  cases hme : s.kernel.currentTask with
  | none => simp [step, lockCritical, hl, hme] at hs
  | some me =>
      simp only [step, lockCritical, hl, hme, if_false, Option.map_some, Option.some.injEq,
        Option.toList_some] at hs
      subst hs
      have hnew : me ∉ s.waiting := fun hm =>
        (List.nodup_append.mp hsound.queue.seg.nodup).2.2 me hm me (by simp) rfl
      have hlink : Linked s.kernel me := by
        by_contra hn
        exact hnew (hC me hme hn)
      have hmel := (h.ready.mem_iff me).mpr hlink
      obtain ⟨l', hr', hdisj⟩ := hsound.ring
      have hme' : me ∉ l' := fun hm => hdisj hm (by simp)
      obtain ⟨p, hp, hnext⟩ := h.ready.ring.exists_pred hmel
      by_cases hpm : p = me
      · subst hpm
        have hhead := hr'.ring.head_eq
        have hold := h.ready.ring.head_eq
        rw [h.ready.ring.eq_singleton hp hnext] at hold
        exact hme' (List.mem_of_mem_head? (hhead.symm.trans hold))
      · have hpw : p ∉ s.waiting := fun hw => h.not_mem_ring hw hp
        have hp' : p ∈ l' := by
          rw [hr'.mem_iff p]
          have hst := congrFun (enqueue_state me s.mutex s.kernel.taskPool) p
          rw [Function.update_of_ne hpm] at hst
          simpa [Linked, Kernel.state, hst] using (h.ready.mem_iff p).mp hp
        obtain ⟨b, hb, he⟩ := hr'.ring.next_mem hp'
        have hkeep := (enqueue_next h.queue hpw hpm).trans hnext
        obtain rfl : b = me := by
          have := he.symm.trans hkeep
          simpa using this
        exact hme' hb

theorem Inv.step_breaks {e : Event} {s' : System} (hC : ¬ Compliant e s) (hs : step e s = some s') :
    ¬ Sound s' := by
  cases e with
  | lock => exact h.lock_breaks hC hs
  | unlock => exact absurd trivial hC
  | op o =>
      intro hsound
      obtain ⟨k', hk, rfl⟩ := Option.map_eq_some_iff.mp hs
      cases o with
      | taskWake t =>
          cases t with
          | none => exact hC trivial
          | some t =>
              have ht : t ∈ s.waiting := not_not.mp hC
              obtain ⟨k₁, hk₁, -, hst, -⟩ := osTaskWake_spec h.ready (h.blocked t ht)
              cases hk.symm.trans hk₁
              have := hsound.blocked t ht
              simp [hst] at this
      | taskExit =>
          simp only [Compliant, not_forall, not_not] at hC
          obtain ⟨c, hc, hw⟩ := hC
          obtain ⟨k₁, hk₁, -, hst, -⟩ :=
            osTaskExit_spec h.ready (fun t ht => h.next_ne_self ht) hc
          cases hk.symm.trans hk₁
          have := hsound.blocked c hw
          simp [hst] at this
      | taskCreate => exact hC trivial
      | start => exact hC trivial
      | schedule => exact hC trivial
      | taskBlock => exact hC trivial

end Invariant

theorem step_inv (e : Event) (s : System) (h : ∃ l, Inv s l) (hC : Compliant e s) :
    ∃ s', step e s = some s' ∧ ∃ l', Inv s' l' := by
  obtain ⟨l, h⟩ := h
  cases e with
  | op o => exact h.op_step o hC
  | lock => exact h.lock_step hC
  | unlock => exact h.unlock_step

/-- The ring and the wait queue stay sound in exactly the runs whose steps are all compliant. -/
theorem sound_iff_compliant (k : Kernel) (es : List Event) :
    Throughout step Sound es (initial k) ↔ Along step Compliant es (initial k) :=
  throughout_iff_along (I := fun s => ∃ l, Inv s l) (fun _ ⟨_, h⟩ => h.sound) step_inv
    (fun _ _ _ ⟨_, h⟩ hC hs => h.step_breaks hC hs) es ⟨[], initial_inv k⟩

/-- A second task finds the mutex taken; its link leaves the ring, and the task before it
still points to it. -/
theorem contended_lock_breaks_ring :
    ¬ ∀ es, Throughout step Sound es (initial bootKernel) := by
  intro h
  have hrun : ∃ s, run step [.op newTask, .op newTask, .op .start, .lock, .op .schedule, .lock]
      (initial bootKernel) = some s ∧ s.kernel.state 0 = .ready ∧ s.kernel.state 1 = .blocked ∧
      s.kernel.next 0 = some 1 := ⟨_, rfl, by decide, by decide, by decide⟩
  obtain ⟨s, hs, h0, h1, hn⟩ := hrun
  obtain ⟨l, hr, -⟩ := ((h _).last hs).ring
  obtain ⟨b, hb, he⟩ := hr.ring.next_mem ((hr.mem_iff 0).mpr (.inl h0))
  obtain rfl : 1 = b := by simpa [hn] using he
  have := (hr.mem_iff 1).mp hb
  simp [Linked, h1] at this

end Orion68.MutexOnScheduler
