import Orion68.Kernel.MutexLock

namespace Orion68.MutexRuns

open LinkedLists Runs Scheduler MutexLock

variable {α : Type} [DecidableEq α]

/-- Where a task stands: `parked` from the end of the critical section of a contended
`Mutex_Lock` until `Scheduler_AddReady` is called for it, `granted` until it runs again. -/
inductive Phase
  | outside
  | parked
  | granted
  | inside
  deriving DecidableEq

/-- `Scheduler_AddReady`: it may do anything to the task it inserts and to tasks that are
not blocked, their links included. -/
structure AddReady (α : Type) where
  add : α → Pool α → Pool α
  keeps_blocked : ∀ t p u, u ≠ t → p.state u = .blocked → add t p u = p u

/-- Code that runs between two calls on the mutex. -/
structure Elsewhere (α : Type) where
  act : Pool α → Pool α
  keeps_blocked : ∀ p u, p.state u = .blocked → act p u = p u

structure System (α : Type) where
  mutex : Mutex α
  pool : Pool α
  phase : α → Phase

inductive Event (α : Type)
  | lock (t : α)
  | unlock (t : α) (r : AddReady α)
  | resume (t : α)
  | elsewhere (f : Elsewhere α)

/-- A task calls `Mutex_Lock` when it is not in it, and `Mutex_Unlock` when it also owns
the mutex; a parked task runs again only after it has been made ready. -/
def step : Event α → System α → Option (System α)
  | .lock t, s =>
      if s.phase t = .outside ∨ s.phase t = .inside then
        (lockCritical (some t) s.mutex s.pool).map fun (m, p) =>
          ⟨m, p, Function.update s.phase t (if s.mutex.locked = 0 then .inside else .parked)⟩
      else none
  | .unlock t r, s =>
      if s.phase t = .inside ∧ s.mutex.owner = some t then
        (mutexUnlock (fun u p => some (r.add u p)) s.mutex s.pool).map fun (m, p) =>
          let phase := Function.update s.phase t .outside
          ⟨m, p, s.mutex.waitHead.elim phase fun n => Function.update phase n .granted⟩
      else none
  | .resume t, s =>
      if s.phase t = .granted then some { s with phase := Function.update s.phase t .inside }
      else none
  | .elsewhere f, s => some { s with pool := f.act s.pool }

def arrived : Event α → System α → List α
  | .lock t, _ => [t]
  | _, _ => []

/-- The task that gets the mutex: at once when it is free, or handed over by an unlock. -/
def acquired : Event α → System α → List α
  | .lock t, s => if s.mutex.locked = 0 then [t] else []
  | .unlock _ _, s => s.mutex.waitHead.toList
  | _, _ => []

def initial (p : Pool α) : System α := ⟨mutexInit, p, fun _ => .outside⟩

structure Inv (s : System α) (q : List α) : Prop where
  queue : WaitQueue s.mutex s.pool q
  mem_iff : ∀ t, t ∈ q ↔ s.phase t = .parked
  blocked : ∀ t ∈ q, s.pool.state t = .blocked
  holder : ∀ t, s.phase t = .inside ∨ s.phase t = .granted → s.mutex.owner = some t
  free : s.mutex.locked = 0 → s.mutex.owner = none ∧ q = []

omit [DecidableEq α] in
theorem initial_inv (p : Pool α) : Inv (initial p) [] :=
  ⟨queue_nil _, by simp [initial], by simp, by simp [initial], fun _ => ⟨rfl, rfl⟩⟩

omit [DecidableEq α] in
/-- The wait queue lives in the blocked tasks, so it is there in any memory that agrees
on them. -/
theorem Inv.queue_of_blocked {s : System α} {q : List α} (h : Inv s q) {p : Pool α}
    (hp : ∀ u ∈ q, p u = s.pool u) : WaitQueue s.mutex p q ∧ ∀ t ∈ q, p.state t = .blocked :=
  ⟨h.queue.congr fun t ht => by simp [Pool.next, hp t ht],
    fun t ht => by rw [← h.blocked t ht]; simp [Pool.state, hp t ht]⟩

theorem Inv.take {s : System α} (h : Inv s []) (ho : s.mutex.owner = none) (t : α) :
    Inv ⟨{ s.mutex with locked := 1, owner := some t }, s.pool, Function.update s.phase t .inside⟩ [] := by
  refine ⟨h.queue, ?_, by simp, ?_, by simp⟩
  · intro u
    have hu := h.mem_iff u
    by_cases hut : u = t <;> simp_all
  · intro u hu
    by_cases hut : u = t
    · simp [hut]
    · have := h.holder u (by simpa [hut] using hu)
      simp [ho] at this

theorem Inv.park {s : System α} {q : List α} (h : Inv s q) (hl : s.mutex.locked ≠ 0) {t : α} (ht : t ∉ q) :
    Inv ⟨(enqueue t s.mutex s.pool).1, (enqueue t s.mutex s.pool).2,
      Function.update s.phase t .parked⟩ (q ++ [t]) := by
  obtain ⟨hlocked, howner⟩ := enqueue_locked t s.mutex s.pool
  refine ⟨enqueue_queue h.queue ht, ?_, ?_, ?_, fun hl' => absurd (hlocked.symm.trans hl') hl⟩
  · intro u
    by_cases hut : u = t
    · simp [hut]
    · simpa [hut] using h.mem_iff u
  · intro u hu
    change (enqueue t s.mutex s.pool).2.state u = _
    rw [enqueue_state]
    by_cases hut : u = t
    · simp [hut]
    · have huq : u ∈ q := by simpa [hut] using hu
      simp [hut, h.blocked u huq]
  · intro u hu
    have hut : u ≠ t := by
      rintro rfl
      simp at hu
    exact howner.trans (h.holder u (by simpa [hut] using hu))

theorem lock_inv {s s' : System α} {q : List α} (h : Inv s q) {t : α}
    (hs : step (.lock t) s = some s') :
    ∃ q', Inv s' q' ∧ q ++ [t] = acquired (.lock t) s ++ q' := by
  by_cases hg : s.phase t = .outside ∨ s.phase t = .inside
  swap
  · simp [step, hg] at hs
  by_cases hl : s.mutex.locked = 0
  · obtain ⟨ho, rfl⟩ := h.free hl
    simp only [step, hg, if_true, lockCritical, hl, Option.map_some, Option.some.injEq] at hs
    subst hs
    exact ⟨[], h.take ho t, by simp [acquired, hl]⟩
  · have htq : t ∉ q := by
      rw [h.mem_iff]
      rcases hg with hg | hg <;> simp [hg]
    simp only [step, hg, if_true, lockCritical, hl, if_false, Option.map_some, Option.some.injEq] at hs
    subst hs
    exact ⟨q ++ [t], h.park hl htq, by simp [acquired, hl]⟩

omit [DecidableEq α] in
theorem Inv.outside_of_owner {s : System α} {q : List α} (h : Inv s q) {t u : α}
    (ht : s.mutex.owner = some t) (hut : u ≠ t) : ¬ (s.phase u = .inside ∨ s.phase u = .granted) := by
  intro hu
  have hown := (h.holder u hu).symm.trans ht
  exact hut (Option.some.inj hown)

theorem Inv.release {s : System α} (h : Inv s []) {t : α} (ht : s.mutex.owner = some t) :
    Inv ⟨⟨0, none, none, s.mutex.waitTail⟩, s.pool, Function.update s.phase t .outside⟩ [] := by
  refine ⟨⟨rfl, h.queue.tail_eq, trivial⟩, ?_, by simp, ?_, fun _ => ⟨rfl, rfl⟩⟩
  · intro u
    have hu := h.mem_iff u
    by_cases hut : u = t <;> simp_all
  · intro u hu
    by_cases hut : u = t
    · simp [hut] at hu
    · exact absurd (by simpa [hut] using hu) (h.outside_of_owner ht hut)

theorem Inv.hand_over {s : System α} {a t : α} {q : List α} (h : Inv s (a :: q))
    (ht : s.mutex.owner = some t) (hin : s.phase t = .inside) {p : Pool α} (hkeep : ∀ u ∈ q, p u = s.pool u) :
    Inv ⟨handOver a (s.pool.next a) s.mutex, p,
      Function.update (Function.update s.phase t .outside) a .granted⟩ q := by
  have haq : a ∉ q := (List.nodup_cons.mp h.queue.seg.nodup).1
  have hat : a ≠ t := by
    rintro rfl
    simpa [hin] using (h.mem_iff a).mp (by simp)
  have hlocked : s.mutex.locked ≠ 0 := fun hl => by simpa [ht] using (h.free hl).1
  refine ⟨?_, ?_, ?_, ?_, fun hl => absurd hl hlocked⟩
  · exact (handOver_queue h.queue).congr fun u hu => by simp [Pool.next, hkeep u hu]
  · intro u
    have hu := h.mem_iff u
    by_cases hua : u = a
    · simp [hua, haq]
    · by_cases hut : u = t
      · simp_all
      · simpa [hua, hut] using hu
  · intro u hu
    rw [← h.blocked u (by simp [hu])]
    simp [Pool.state, hkeep u hu]
  · intro u hu
    by_cases hua : u = a
    · simp [hua, handOver]
    · by_cases hut : u = t
      · simp [hut, Ne.symm hat] at hu
      · exact absurd (by simpa [hua, hut] using hu) (h.outside_of_owner ht hut)

theorem unlock_inv {s s' : System α} {q : List α} (h : Inv s q) {t : α} {r : AddReady α}
    (hs : step (.unlock t r) s = some s') :
    ∃ q', Inv s' q' ∧ q = acquired (.unlock t r) s ++ q' := by
  by_cases hg : s.phase t = .inside ∧ s.mutex.owner = some t
  swap
  · simp [step, hg] at hs
  cases q with
  | nil =>
      have hw : s.mutex.waitHead = none := h.queue.head_eq
      simp only [step, hg, and_self, if_true, mutexUnlock, hw, Option.map_some, Option.elim_none,
        Option.some.injEq] at hs
      subst hs
      exact ⟨[], h.release hg.2, by simp [acquired, hw]⟩
  | cons a q =>
      have hw : s.mutex.waitHead = some a := h.queue.head_eq
      have haq : a ∉ q := (List.nodup_cons.mp h.queue.seg.nodup).1
      simp only [step, hg, and_self, if_true, mutexUnlock, hw, Option.map_some, Option.elim_some,
        Option.some.injEq, pool_of_pool, setPool_of_pool] at hs
      subst hs
      refine ⟨q, h.hand_over hg.2 hg.1 ?_, by simp [acquired, hw]⟩
      intro u hu
      have hua : u ≠ a := fun he => haq (he ▸ hu)
      have hst : (s.pool.setState a .ready).state u = .blocked := by
        simp [hua, h.blocked u (by simp [hu])]
      rw [r.keeps_blocked a _ u hua hst]
      simp [Pool.setState, hua]

theorem step_inv (e : Event α) (s s' : System α) (q : List α) (h : Inv s q)
    (hs : step e s = some s') : ∃ q', Inv s' q' ∧ q ++ arrived e s = acquired e s ++ q' := by
  cases e with
  | lock t => exact lock_inv h hs
  | unlock t r =>
      obtain ⟨q', h', hq⟩ := unlock_inv h hs
      exact ⟨q', h', by simpa [arrived] using hq⟩
  | resume t =>
      by_cases hg : s.phase t = .granted
      · simp only [step, hg, if_true, Option.some.injEq] at hs
        subst hs
        refine ⟨q, ⟨h.queue, ?_, h.blocked, ?_, h.free⟩, by simp [arrived, acquired]⟩
        · intro u
          have hu := h.mem_iff u
          by_cases hut : u = t <;> simp_all
        · intro u hu
          by_cases hut : u = t
          · exact hut ▸ h.holder t (.inr hg)
          · exact h.holder u (by simpa [hut] using hu)
      · simp [step, hg] at hs
  | elsewhere f =>
      simp only [step, Option.some.injEq] at hs
      subst hs
      obtain ⟨hq, hb⟩ := h.queue_of_blocked (p := f.act s.pool) fun u hu =>
        f.keeps_blocked _ u (h.blocked u hu)
      exact ⟨q, ⟨hq, h.mem_iff, hb, h.holder, h.free⟩, by simp [arrived, acquired]⟩

/-- In every run the waiters form one queue, in the order of their calls; calls of
`Mutex_Lock` are served strictly in order, each once; and at most one task is inside. -/
theorem lock_in_order (p : Pool α) (es : List (Event α)) (s : System α)
    (h : run step es (initial p) = some s) :
    ∃ q, WaitQueue s.mutex s.pool q ∧ q.Nodup ∧ (∀ t, t ∈ q ↔ s.phase t = .parked) ∧
      outputs step arrived es (initial p) = outputs step acquired es (initial p) ++ q ∧
      (∀ t u, s.phase t = .inside → s.phase u = .inside → t = u) ∧
      (∀ t, s.phase t = .inside ∨ s.phase t = .granted → s.mutex.owner = some t) ∧
      (s.mutex.locked = 0 → s.mutex.owner = none ∧ s.mutex.waitHead = none ∧ q = []) := by
  obtain ⟨q, hi, hq⟩ := run_fifo step_inv (initial_inv p) h
  refine ⟨q, hi.queue, hi.queue.seg.nodup, hi.mem_iff, by simpa using hq, ?_,
    hi.holder, ?_⟩
  · intro t u ht hu
    have hown := (hi.holder t (.inl ht)).symm.trans (hi.holder u (.inl hu))
    simpa using hown
  · intro hl
    obtain ⟨ho, rfl⟩ := hi.free hl
    exact ⟨ho, hi.queue.head_eq, rfl⟩

/-- Two tasks wait for a third; `Scheduler_AddReady` links the one it is given to itself. -/
theorem lock_in_order_three :
    ∃ (s : System (Fin 3)) (r : AddReady (Fin 3)) (q : List (Fin 3)),
      run step [.lock 0, .lock 1, .lock 2, .unlock 0 r, .resume 1] (initial fun _ => emptyTcb) = some s ∧
      WaitQueue s.mutex s.pool q ∧ [0, 1, 2] = [0, 1] ++ q ∧ s.phase 1 = .inside := by
  let r : AddReady (Fin 3) := ⟨fun t p => p.setNext t (some t), fun t p u hu _ => by
    simp [Pool.setNext, hu]⟩
  obtain ⟨q, hq, -, -, ho, -⟩ :=
    lock_in_order _ [.lock 0, .lock 1, .lock 2, .unlock 0 r, .resume 1] _ rfl
  exact ⟨_, r, q, rfl, hq, ho, by decide⟩

end Orion68.MutexRuns
