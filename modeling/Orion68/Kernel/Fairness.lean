import Orion68.Kernel.SchedulerRuns

namespace Orion68.Fairness

open LinkedLists Runs RoundRobin Scheduler ReadyRing SchedulerRuns

/-- The task that a call of `OS_Schedule` makes the current one. -/
def dispatched : Op → Kernel → List TaskPtr
  | .schedule, k => k.readyHead.toList
  | _, _ => []

/-- The task that `OS_Schedule` or `OS_Start` makes the current one. -/
def switched : Op → Kernel → List TaskPtr
  | .start, k | .schedule, k => k.readyHead.toList
  | _, _ => []

def InRing (t : TaskPtr) (k : Kernel) : Prop := ∃ l, Ring k.next k.readyHead l ∧ t ∈ l

theorem dispatched_sublist (op : Op) (k : Kernel) : (dispatched op k).Sublist (switched op k) := by
  cases op <;> simp [dispatched, switched]

theorem InRing.mem {t : TaskPtr} {k : Kernel} (h : InRing t k) {l : List TaskPtr}
    (hr : Ready k l) : t ∈ l := by
  obtain ⟨m, hm, ht⟩ := h
  exact hr.ring.subset hm ht

theorem step_ahead {k : Kernel} {l : List TaskPtr} (h : Consistent k l) {op : Op}
    {t : TaskPtr} (ht : InRing t k) (hs : t ∉ switched op k)
    (ht' : t ∈ queueStep op k l) :
    (switched op k ++ ahead t (queueStep op k l)).Sublist (ahead t l) := by
  have hhead := h.ready.ring.head_eq
  have hserved : switched op k = (moveOf op k).elim [] (served · l) := by
    cases op with
    | taskCreate entry arg stack stackSize id =>
        by_cases hg : k.taskCount < osMaxTasks ∧ entry ≠ 0 ∧ stack ≠ 0 <;>
          simp [switched, moveOf, served, hg]
    | start | schedule => simp [switched, moveOf, served, hhead]
    | taskBlock task => cases task <;> rfl
    | taskWake task =>
        cases task with
        | none => rfl
        | some u => by_cases hu : k.state u = .blocked <;> simp [switched, moveOf, served, hu]
    | taskExit => cases hc : k.currentTask <;> simp [switched, moveOf, served, hc]
  rw [hserved] at hs ⊢
  cases hm : moveOf op k with
  | none => simp [queueStep, hm]
  | some m =>
      simp only [queueStep, hm, Option.elim_some] at hs ht' ⊢
      exact served_append_ahead h.ready.ring.nodup (ht.mem h.ready) ht' hs

/-- Until `t` gets the processor, the tasks that `OS_Schedule` dispatches are some of
those that are ahead of `t` now, each at its turn. -/
theorem dispatches_sublist_ahead {k : Kernel} {l : List TaskPtr} (h : Consistent k l) {t : TaskPtr}
    {ops : List Op} (hstay : Throughout step (InRing t) ops k)
    (hnot : t ∉ outputs step switched ops k) :
    (outputs step dispatched ops k).Sublist (ahead t l) := by
  induction ops generalizing k l with
  | nil => simp [outputs]
  | cons op ops ih =>
      obtain ⟨hin, k', hk, hstay'⟩ := hstay
      obtain ⟨k'', hk'', h', -⟩ := step_consistent h op
      cases hk.symm.trans hk''
      simp only [outputs, hk, Option.elim_some, List.mem_append, not_or] at hnot ⊢
      have hstep := step_ahead h hin hnot.1 (hstay'.first.mem h'.ready)
      exact ((dispatched_sublist op k).append (ih h' hstay' hnot.2)).trans hstep

/-- In a stretch of a run in which `t` stays in the ring and does not get the processor,
such as between two consecutive dispatches of `t`, `OS_Schedule` dispatches no task twice. -/
theorem dispatched_at_most_once (k₀ k : Kernel) (before between : List Op) (t u : TaskPtr)
    (hk : run step before (osInit k₀) = some k) (hstay : Throughout step (InRing t) between k)
    (hnot : t ∉ outputs step switched between k) :
    (outputs step dispatched between k).count u ≤ 1 := by
  obtain ⟨k', l, hk', h, -⟩ := run_consistent (osInit_consistent k₀) before
  cases hk.symm.trans hk'
  have hsub := (dispatches_sublist_ahead h hstay hnot).trans (ahead_sublist t l)
  exact List.nodup_iff_count_le_one.mp (h.ready.ring.nodup.sublist hsub) u

/-- Three tasks, the first of which has been dispatched; the other two follow. -/
theorem dispatched_at_most_once_three :
    ∃ k, run step [newTask, newTask, newTask, .schedule] (osInit bootKernel) = some k ∧
      outputs step dispatched [.schedule, .schedule] k = [1, 2] ∧
      (outputs step dispatched [.schedule, .schedule] k).count 1 ≤ 1 := by
  have hring {k : Kernel} (l : List TaskPtr) (hn : l.Nodup) (hh : k.readyHead = l.head?)
      (hs : Seg k.next l l.head?) (h0 : 0 ∈ l) : InRing 0 k := ⟨l, ⟨hn, hh, hs⟩, h0⟩
  refine ⟨_, rfl, by decide, dispatched_at_most_once bootKernel _ [newTask, newTask, newTask, .schedule]
    _ 0 1 rfl ⟨hring [1, 2, 0] (by decide) (by decide) (by decide) (by decide), _, rfl,
      hring [2, 0, 1] (by decide) (by decide) (by decide) (by decide), _, rfl,
      hring [0, 1, 2] (by decide) (by decide) (by decide) (by decide)⟩ (by decide)⟩

end Orion68.Fairness
