import Orion68.Kernel.ReadyRing
import Orion68.Lib.RoundRobin
import Mathlib.Data.Fintype.Fin

namespace Orion68.SchedulerRuns

open LinkedLists Runs RoundRobin Scheduler ReadyRing

/-- What an operation does to the line of tasks that wait for the processor. -/
def moveOf (op : Op) (k : Kernel) : Option (Move TaskPtr) :=
  match op with
  | .taskCreate entry _ stack _ _ =>
      if h : k.taskCount < osMaxTasks ∧ entry ≠ 0 ∧ stack ≠ 0 then some (.join ⟨k.taskCount, h.1⟩)
      else none
  | .start | .schedule => some .serve
  | .taskBlock task => task.map .leave
  | .taskWake none => none
  | .taskWake (some t) => if k.state t = .blocked then some (.join t) else none
  | .taskExit => k.currentTask.map .leave

def queueStep (op : Op) (k : Kernel) (l : List TaskPtr) : List TaskPtr :=
  (moveOf op k).elim l (·.apply l)

theorem mem_queueStep {op : Op} {k : Kernel} {l : List TaskPtr} {t : TaskPtr}
    (h : t ∈ queueStep op k l) : t ∈ l ∨ moveOf op k = some (.join t) := by
  rw [queueStep] at h
  cases hm : moveOf op k with
  | none => exact .inl (by simpa [hm] using h)
  | some m => exact (Move.mem_apply (by simpa [hm] using h)).imp_right (congrArg some)

def creates : Op → Bool
  | .taskCreate entry _ stack _ _ => entry ≠ 0 ∧ stack ≠ 0
  | _ => false

/-- What an operation has done to a kernel whose ring was `l`. A task that was and is outside
the ring keeps its state, unless it is the one that exits. -/
structure Refines (op : Op) (k k' : Kernel) (l : List TaskPtr) : Prop where
  edits : Edits k k' l (queueStep op k l)
  counted : Counted k'
  outside : ∀ u, u ∉ l → u ∉ queueStep op k l → (op = .taskExit → k.currentTask ≠ some u) →
    k'.state u = k.state u
  taskCount_eq : k'.taskCount = min osMaxTasks (k.taskCount + if creates op then 1 else 0)

section Steps

variable {k : Kernel} {l : List TaskPtr} (hr : Ready k l) (hc : Counted k)
include hr hc

theorem refines_self {op : Op} (hm : moveOf op k = none)
    (hn : creates op → k.taskCount = osMaxTasks) : Refines op k k l := by
  refine ⟨by simpa [queueStep, hm] using Edits.refl hr, hc, fun _ _ _ _ => rfl, ?_⟩
  have := hc.le
  split
  · have := hn ‹_›
    omega
  · omega

theorem osTaskCreate_refines (entry arg stack stackSize : UInt32) (id : Int32) :
    ∃ k' r, osTaskCreate entry arg stack stackSize id k = some (k', r) ∧
      Refines (.taskCreate entry arg stack stackSize id) k k' l ∧ k'.currentTask = k.currentTask ∧
      (r.isSome ↔ k.taskCount < osMaxTasks ∧ entry ≠ 0 ∧ stack ≠ 0) := by
  have hle := hc.le
  by_cases hg : k.taskCount < osMaxTasks ∧ entry ≠ 0 ∧ stack ≠ 0
  · obtain ⟨k', hk, he, hs, hcur, hn⟩ := osTaskCreate_spec hr hc hg.1 hg.2.1 hg.2.2 arg stackSize id
    have hq : queueStep (.taskCreate entry arg stack stackSize id) k l =
        l ++ [⟨k.taskCount, hg.1⟩] := by
      simp [queueStep, moveOf, Move.apply, hg]
    refine ⟨k', _, hk, ⟨hq ▸ he, ⟨by omega, ?_, ?_⟩, ?_, ?_⟩,
      hcur, by simp [hg]⟩
    · intro t ht
      rw [hn] at ht
      have htk : t ≠ ⟨k.taskCount, hg.1⟩ := by
        rintro rfl
        exact absurd ht (Nat.not_succ_le_self _)
      rw [hs, Function.update_of_ne htk, hc.unused t (by omega)]
    · intro c h
      rw [hn]
      exact Nat.lt_succ_of_lt (hc.current c (hcur ▸ h))
    · intro u _ hu _
      rw [hq] at hu
      rw [hs, Function.update_of_ne fun he => hu (by simp [he])]
    · have hcr : creates (.taskCreate entry arg stack stackSize id) = true := by
        simp [creates, hg]
      rw [hn, hcr, if_pos rfl]
      omega
  · have hg' : osMaxTasks ≤ k.taskCount ∨ entry = 0 ∨ stack = 0 := by
      by_contra hn
      simp only [not_or, not_le] at hn
      exact hg hn
    refine ⟨k, none, osTaskCreate_refused hg' arg stackSize id,
      refines_self hr hc (by simp [moveOf, hg]) ?_, rfl, by simp [hg]⟩
    intro hcr
    simp only [creates, decide_eq_true_eq] at hcr
    simp only [hcr.1, hcr.2, or_false] at hg'
    omega

theorem dispatch_counted (h : TaskPtr) (hl : h ∈ l) : Counted (dispatch h k) := by
  have hh := (hr.mem_iff h).mp hl
  refine hc.of_state rfl (fun t ht => .inl ?_) fun c hcur => .inr ?_
  · have hth : t ≠ h := by
      rintro rfl
      exact hc.not_linked ht hh
    simp [hth]
  · obtain rfl : h = c := by simpa using hcur
    exact hh

omit hr hc in
theorem dispatch_outside {h u : TaskPtr} (hl : h ∈ l) (hu : u ∉ l) :
    (dispatch h k).state u = k.state u := by
  have huh : u ≠ h := (ne_of_mem_of_not_mem hl hu).symm
  simp [huh]

theorem osStart_refines : Refines .start k (osStart k) l := by
  have hle := hc.le
  cases l with
  | nil =>
      rw [osStart_nil hr]
      exact ⟨.refl hr, hc, fun _ _ _ _ => rfl, by simp [creates, hle]⟩
  | cons h l =>
      rw [osStart_cons hr]
      exact ⟨dispatch_ready hr, dispatch_counted hr hc h (by simp),
        fun u hu _ _ => dispatch_outside (by simp) hu, by simp [creates, hle]⟩

theorem preempt_counted : Counted (preempt k) := by
  refine hc.of_state (preempt_links k).2.2.1 (fun t ht => .inl (preempt_state hr ?_)) fun c h => .inl ?_
  · exact fun hm => hc.not_linked ht ((hr.mem_iff t).mp hm)
  · rw [← (preempt_links k).2.2.2, h]

theorem osSchedule_refines : Refines .schedule k (osSchedule k) l := by
  have hle := hc.le
  cases l with
  | nil =>
      rw [osSchedule_nil hr]
      exact ⟨.refl hr, hc, fun _ _ _ _ => rfl, by simp [creates, hle]⟩
  | cons h l =>
      rw [osSchedule_cons hr]
      have hp := preempt_ready hr
      have hpc := preempt_counted hr hc
      refine ⟨⟨(dispatch_ready hp).ready, ?_⟩, dispatch_counted hp hpc h (by simp),
        ?_, ?_⟩
      · intro u hu
        rw [(dispatch_ready hp).next_eq u hu, (preempt_links k).1]
      · intro u hu _ _
        rw [dispatch_outside (by simp) hu, preempt_state hr hu]
      · simp [creates, hle, (preempt_links k).2.2.1]

theorem osTaskBlock_refines (task : Option TaskPtr) :
    ∃ k', osTaskBlock task k = some k' ∧ Refines (.taskBlock task) k k' l := by
  have hle := hc.le
  cases task with
  | none => exact ⟨k, rfl, refines_self hr hc rfl (by simp [creates])⟩
  | some t =>
      obtain ⟨k', hk, he, hs, hcur, hn⟩ := osTaskBlock_spec hr t
      have hstate {u : TaskPtr} (hu : u ∉ l) : k'.state u = k.state u := by
        rw [hs]
        split
        next ht => rw [Function.update_of_ne (ne_of_mem_of_not_mem ht hu).symm]
        next => rfl
      refine ⟨k', hk, he, hc.of_state hn (fun u hu => .inl (hstate ?_)) fun c h => .inl ?_,
        fun u hu _ _ => hstate hu, by simp [creates, hle, hn]⟩
      · intro hm
        exact hc.not_linked hu ((hr.mem_iff u).mp hm)
      · rw [← hcur, h]

theorem osTaskWake_refines (task : Option TaskPtr) :
    ∃ k', osTaskWake task k = some k' ∧ Refines (.taskWake task) k k' l := by
  have hle := hc.le
  cases task with
  | none => exact ⟨k, rfl, refines_self hr hc rfl (by simp [creates])⟩
  | some t =>
      by_cases ht : k.state t = .blocked
      · obtain ⟨k', hk, he, hs, hcur, hn⟩ := osTaskWake_spec hr ht
        have hq : queueStep (.taskWake (some t)) k l = l ++ [t] := by
          simp [queueStep, moveOf, Move.apply, ht]
        refine ⟨k', hk, hq ▸ he, hc.of_state hn (fun u hu => .inl ?_) fun c h => .inl ?_,
          ?_, by simp [creates, hle, hn]⟩
        · have hut : u ≠ t := by
            rintro rfl
            simp [hc.unused u hu] at ht
          simp [hs, hut]
        · rw [← hcur, h]
        · intro u _ hu _
          rw [hq] at hu
          rw [hs, Function.update_of_ne fun he => hu (by simp [he])]
      · exact ⟨k, by simp [osTaskWake, ht],
          refines_self hr hc (by simp [moveOf, ht]) (by simp [creates])⟩

theorem osTaskExit_refines (hself : ∀ t, t ∉ l → k.next t ≠ some t) :
    ∃ k', osTaskExit k = some k' ∧ Refines .taskExit k k' l := by
  have hle := hc.le
  cases hcur : k.currentTask with
  | none =>
      exact ⟨k, by simp [osTaskExit, hcur],
        refines_self hr hc (by simp [moveOf, hcur]) (by simp [creates])⟩
  | some c =>
      obtain ⟨k', hk, he, hs, hcur', hn⟩ := osTaskExit_spec hr hself hcur
      refine ⟨k', hk, by simpa [queueStep, moveOf, Move.apply, hcur] using he,
        hc.of_state hn ?_ fun d h => .inl ?_, ?_,
        by simp [creates, hle, hn]⟩
      · intro u _
        by_cases huc : u = c <;> simp [hs, huc]
      · rw [← hcur', h]
      · intro u _ _ hu
        have huc : u ≠ c := fun he => hu rfl (by rw [hcur, he])
        simp [hs, huc]

theorem step_refines (hself : ∀ t, t ∉ l → k.next t ≠ some t) (op : Op) :
    ∃ k', step op k = some k' ∧ Refines op k k' l := by
  cases op with
  | taskCreate entry arg stack stackSize id =>
      obtain ⟨k', r, hk, h, -⟩ := osTaskCreate_refines hr hc entry arg stack stackSize id
      exact ⟨k', by simp [step, hk], h⟩
  | start => exact ⟨_, rfl, osStart_refines hr hc⟩
  | schedule => exact ⟨_, rfl, osSchedule_refines hr hc⟩
  | taskBlock task => exact osTaskBlock_refines hr hc task
  | taskWake task => exact osTaskWake_refines hr hc task
  | taskExit => exact osTaskExit_refines hr hc hself

end Steps

/-- The shape every operation restores: the ring, the counter, and null links
on all tasks outside the ring. -/
structure Consistent (k : Kernel) (l : List TaskPtr) : Prop where
  ready : Ready k l
  counted : Counted k
  null : ∀ t, t ∉ l → k.next t = none

theorem osInit_consistent (k : Kernel) : Consistent (osInit k) [] :=
  ⟨⟨ring_nil _, fun t => by simp [Linked, Kernel.state, Pool.state, osInit, emptyTcb]⟩,
    ⟨Nat.zero_le _, fun _ _ => rfl, fun _ h => by simp [osInit] at h⟩, fun _ _ => rfl⟩

theorem Consistent.edits {k k' : Kernel} {l l' : List TaskPtr} (h : Consistent k l)
    (he : Edits k k' l l') (hc : Counted k') : Consistent k' l' := by
  refine ⟨he.ready, hc, ?_⟩
  intro t ht
  rw [he.next_eq t ht]
  split
  · rfl
  · exact h.null t ‹_›

theorem Consistent.next_ne_self {k : Kernel} {l : List TaskPtr} (h : Consistent k l) {t : TaskPtr}
    (ht : t ∉ l) : k.next t ≠ some t := by
  simp [h.null t ht]

theorem step_consistent {k : Kernel} {l : List TaskPtr} (h : Consistent k l) (op : Op) :
    ∃ k', step op k = some k' ∧ Consistent k' (queueStep op k l) ∧
      k'.taskCount = min osMaxTasks (k.taskCount + if creates op then 1 else 0) := by
  obtain ⟨k', hk, hop⟩ := step_refines h.ready h.counted (fun _ ht => h.next_ne_self ht) op
  exact ⟨k', hk, h.edits hop.edits hop.counted, hop.taskCount_eq⟩

theorem run_consistent {k : Kernel} {l : List TaskPtr} (h : Consistent k l) (ops : List Op) :
    ∃ k' l', run step ops k = some k' ∧ Consistent k' l' ∧
      k'.taskCount = min osMaxTasks (k.taskCount + ops.countP creates) := by
  induction ops generalizing k l with
  | nil => exact ⟨k, l, rfl, h, by simp [h.counted.le]⟩
  | cons op ops ih =>
      obtain ⟨k₁, hk, h₁, hn⟩ := step_consistent h op
      obtain ⟨k', l', hk', h', hn'⟩ := ih h₁
      refine ⟨k', l', by rw [run_cons_of_step hk, hk'], h', ?_⟩
      rw [hn', hn, List.countP_cons]
      omega

theorem Consistent.null_of_not_linked {k : Kernel} {l : List TaskPtr} (h : Consistent k l)
    {t : TaskPtr} (ht : ¬ Linked k t) : k.next t = none :=
  h.null t (mt (h.ready.mem_iff t).mp ht)

theorem Consistent.readyRemove_isSome {k : Kernel} {l : List TaskPtr} (h : Consistent k l)
    (t : TaskPtr) : (readyRemove t k).isSome := by
  by_cases ht : t ∈ l
  · obtain ⟨k', hk, -⟩ := readyRemove_spec h.ready.ring ht
    simp [hk]
  · rw [readyRemove_of_not_mem h.ready.ring ht (by simp [h.null t ht])]
    rfl

/-- After any run from `OS_Init`, `next` leads from `ready_head` around one cycle with
every ready or running task once, every other task has a null link, and the two
traversals end. -/
theorem run_ready_ring (k₀ : Kernel) (ops : List Op) :
    ∃ k, run step ops (osInit k₀) = some k ∧
      (∃ l, Ring k.next k.readyHead l ∧ ∀ t, t ∈ l ↔ k.state t = .ready ∨ k.state t = .running) ∧
      (k.readyHead = none ↔ ∀ t, ¬ (k.state t = .ready ∨ k.state t = .running)) ∧
      (∀ t, k.state t = .blocked ∨ k.state t = .unused → k.next t = none) ∧
      ∀ t, (readyInsert t k).isSome ∧ (readyRemove t k).isSome := by
  obtain ⟨k, l, hk, h, -⟩ := run_consistent (osInit_consistent k₀) ops
  refine ⟨k, hk, ⟨l, h.ready.ring, h.ready.mem_iff⟩, h.ready.head_none_iff, ?_,
    fun t => ⟨readyInsert_isSome h.ready.ring t, h.readyRemove_isSome t⟩⟩
  intro t ht
  apply h.null_of_not_linked
  intro hl
  rcases ht with ht | ht <;> simp [Linked, ht] at hl

def bootKernel : Kernel := ⟨fun _ => emptyTcb, 0, none, none, fun _ => 0⟩

/-- `OS_Schedule` leaves a running task as the current one exactly when it finds a task
ready or running; when it finds none, it returns with everything unchanged. -/
theorem run_schedule_current (k₀ : Kernel) (ops : List Op) :
    ∃ k, run step ops (osInit k₀) = some k ∧
      ((∃ c, (osSchedule k).currentTask = some c ∧ (osSchedule k).state c = .running) ↔
        ∃ t, k.state t = .ready ∨ k.state t = .running) ∧
      ((∀ t, ¬ (k.state t = .ready ∨ k.state t = .running)) → osSchedule k = k) := by
  obtain ⟨k, l, hk, h, -⟩ := run_consistent (osInit_consistent k₀) ops
  have hidle (hn : ∀ t, ¬ (k.state t = .ready ∨ k.state t = .running)) : osSchedule k = k := by
    have hh : k.readyHead = none := h.ready.head_none_iff.mpr hn
    simp [osSchedule, hh]
  refine ⟨k, hk, ?_, hidle⟩
  constructor
  · rintro ⟨c, hc, hrun⟩
    by_contra hn
    rw [not_exists] at hn
    rw [hidle hn] at hrun
    exact hn c (.inr hrun)
  · rintro ⟨t, ht⟩
    cases l with
    | nil => simpa using (h.ready.mem_iff t).mpr ht
    | cons c l =>
        rw [osSchedule_cons h.ready]
        exact ⟨c, rfl, by simp⟩

def newTask : Op := .taskCreate 0x1000 0 0x8000 1024 1

/-- The only task blocks itself; the next tick resumes it all the same. -/
theorem schedule_resumes_blocked :
    ¬ ∀ (ops : List Op) (k : Kernel), Op.start ∈ ops →
      run step (ops ++ [.schedule]) (osInit bootKernel) = some k →
      ∃ c, k.currentTask = some c ∧ k.state c = .running := by
  intro h
  have hrun : ∃ k, run step ([newTask, .start, .taskBlock (some 0)] ++ [.schedule])
      (osInit bootKernel) = some k ∧ k.currentTask = some 0 ∧ k.state 0 = .blocked :=
    ⟨_, rfl, by decide, by decide⟩
  obtain ⟨k, hk, hcur, hst⟩ := hrun
  obtain ⟨c, hc, hr⟩ := h _ k (by decide) hk
  obtain rfl : 0 = c := by simpa [hcur] using hc
  simp [hst] at hr

def live (k : Kernel) : Nat := (Finset.univ.filter fun t => k.state t ≠ .unused).card

theorem live_le_taskCount {k : Kernel} (hc : Counted k) : live k ≤ k.taskCount := by
  have hsub : (Finset.univ.filter fun t => k.state t ≠ .unused) ⊆
      Finset.univ.filter fun t : TaskPtr => t.val < k.taskCount := by
    intro t ht
    simp only [Finset.mem_filter, Finset.mem_univ, true_and] at ht ⊢
    by_contra hn
    exact ht (hc.unused t (not_lt.mp hn))
  calc live k ≤ _ := Finset.card_le_card hsub
    _ = k.taskCount := by
        rw [Fin.card_filter_val_lt]
        exact Nat.min_eq_right hc.le

/-- `OS_TaskCreate` succeeds exactly while fewer than `osMaxTasks` tasks have been created
since `OS_Init`. That is the same as fewer than `osMaxTasks` live tasks exactly until the pool
is used up, and after that only while all its tasks are still live. -/
theorem run_taskCreate_succeeds (k₀ : Kernel) (ops : List Op) :
    ∃ k, run step ops (osInit k₀) = some k ∧
      ∀ entry arg stack stackSize id, entry ≠ 0 → stack ≠ 0 →
        ∃ k' r, osTaskCreate entry arg stack stackSize id k = some (k', r) ∧
          (r.isSome ↔ ops.countP creates < osMaxTasks) ∧
          ((r.isSome ↔ live k < osMaxTasks) ↔
            ops.countP creates < osMaxTasks ∨ live k = osMaxTasks) := by
  obtain ⟨k, l, hk, h, hn⟩ := run_consistent (osInit_consistent k₀) ops
  refine ⟨k, hk, ?_⟩
  intro entry arg stack stackSize id he hs
  obtain ⟨k', r, hr, -, -, hiff⟩ :=
    osTaskCreate_refines h.ready h.counted entry arg stack stackSize id
  have hcount : k.taskCount = min osMaxTasks (ops.countP creates) := by
    simpa [osInit] using hn
  have hlive := live_le_taskCount h.counted
  have hr' : r.isSome ↔ ops.countP creates < osMaxTasks := by
    rw [hiff]
    simp only [he, hs, ne_eq, not_false_eq_true, and_true]
    omega
  exact ⟨k', r, hr, hr', by rw [hr']; omega⟩

/-- Eight tasks are created and one of them exits; the ninth is refused. -/
theorem exited_slot_not_reused :
    ¬ ∀ (ops : List Op) (k : Kernel), run step ops (osInit bootKernel) = some k →
      ∀ entry arg stack stackSize id, entry ≠ 0 → stack ≠ 0 →
        ((∃ k' t, osTaskCreate entry arg stack stackSize id k = some (k', some t)) ↔
          live k < osMaxTasks) := by
  intro h
  have hrun : ∃ k, run step (List.replicate 8 newTask ++ [.start, .taskExit])
      (osInit bootKernel) = some k ∧ k.taskCount = 8 ∧ live k = 7 :=
    ⟨_, rfl, by decide, by decide⟩
  obtain ⟨k, hk, hcount, hlive⟩ := hrun
  obtain ⟨k', t, hc⟩ := (h _ k hk 1 0 1 0 0 (by decide) (by decide)).mpr (by simp [hlive])
  rw [osTaskCreate_refused (by simp [hcount])] at hc
  simp at hc

end Orion68.SchedulerRuns
