import Orion68.Kernel.Scheduler

namespace Orion68.MutexLock

open LinkedLists Scheduler

/-- The memory that holds the task control blocks, with whatever else the scheduler keeps. -/
class TaskMemory (W : Type) (α : outParam Type) where
  pool : W → Pool α
  setPool : W → Pool α → W
  pool_setPool (w : W) (p : Pool α) : pool (setPool w p) = p

instance (α : Type) : TaskMemory (Pool α) α := ⟨id, fun _ p => p, fun _ _ => rfl⟩

instance : TaskMemory Kernel TaskPtr :=
  ⟨Kernel.taskPool, fun k p => { k with taskPool := p }, fun _ _ => rfl⟩

open TaskMemory

@[simp] theorem pool_of_pool {α : Type} (p : Pool α) : TaskMemory.pool p = p := rfl

@[simp] theorem setPool_of_pool {α : Type} (p p' : Pool α) : TaskMemory.setPool p p' = p' := rfl

@[simp] theorem pool_of_kernel (k : Kernel) : TaskMemory.pool k = k.taskPool := rfl

@[simp] theorem setPool_of_kernel (k : Kernel) (p : Pool TaskPtr) :
    TaskMemory.setPool k p = { k with taskPool := p } := rfl

structure Mutex (α : Type) where
  locked : Int
  owner : Option α
  waitHead : Option α
  waitTail : Option α

def mutexInit {α : Type} : Mutex α := ⟨0, none, none, none⟩

variable {W α : Type} [TaskMemory W α] [DecidableEq α]

/-- The contended path: `me` goes to the end of the wait queue and is marked blocked. -/
def enqueue (me : α) (m : Mutex α) (p : Pool α) : Mutex α × Pool α :=
  let p := p.setNext me none
  match m.waitTail with
  | some tail =>
      ({ m with waitTail := some me }, (p.setNext tail (some me)).setState me .blocked)
  | none => ({ m with waitHead := some me, waitTail := some me }, p.setState me .blocked)

/-- `Mutex_Lock` up to the end of its critical section. With no current task the contended
path writes through a null pointer. -/
def lockCritical (currentTask : Option α) (m : Mutex α) (w : W) : Option (Mutex α × W) :=
  if m.locked = 0 then some ({ m with locked := 1, owner := currentTask }, w)
  else
    currentTask.map fun me =>
      let s := enqueue me m (pool w)
      (s.1, setPool w s.2)

def mutexLock (osYield : W → W) (currentTask : Option α) (m : Mutex α) (w : W) :
    Option (Mutex α × W) :=
  (lockCritical currentTask m w).map fun s => (s.1, if m.locked = 0 then s.2 else osYield s.2)

/-- The mutex after it has been handed to the first of the wait queue, whose link is `rest`. -/
def handOver (nextOwner : α) (rest : Option α) (m : Mutex α) : Mutex α :=
  { m with
    waitHead := rest
    waitTail := if rest = none then none else m.waitTail
    owner := some nextOwner }

def mutexUnlock (schedulerAddReady : α → W → Option W) (m : Mutex α) (w : W) :
    Option (Mutex α × W) :=
  match m.waitHead with
  | some nextOwner =>
      (schedulerAddReady nextOwner (setPool w ((pool w).setState nextOwner .ready))).map
        (handOver nextOwner ((pool w).next nextOwner) m, ·)
  | none => some ({ m with locked := 0, owner := none }, w)

def WaitQueue (m : Mutex α) (p : Pool α) (q : List α) : Prop :=
  Queue p.next m.waitHead m.waitTail q

omit [DecidableEq α] in
theorem WaitQueue.congr {m : Mutex α} {p p' : Pool α} {q : List α} (h : WaitQueue m p q)
    (heq : ∀ t ∈ q, p'.next t = p.next t) : WaitQueue m p' q :=
  Queue.congr h heq

theorem enqueue_queue {m : Mutex α} {p : Pool α} {q : List α} {me : α} (h : WaitQueue m p q)
    (hme : me ∉ q) : WaitQueue (enqueue me m p).1 (enqueue me m p).2 (q ++ [me]) := by
  have htail := h.tail_eq
  cases q using List.reverseRecOn with
  | nil =>
      have ht : m.waitTail = none := htail
      simpa [WaitQueue, enqueue, ht] using queue_singleton p.next me
  | append_singleton q z =>
      have ht : m.waitTail = some z := by simpa using htail
      have hz : z ∉ q := fun hm => (List.nodup_append.mp h.seg.nodup).2.2 z hm z (by simp) rfl
      simpa [WaitQueue, enqueue, ht] using Queue.enqueue h hz hme

theorem enqueue_locked (me : α) (m : Mutex α) (p : Pool α) :
    (enqueue me m p).1.locked = m.locked ∧ (enqueue me m p).1.owner = m.owner := by
  cases h : m.waitTail <;> simp [enqueue, h]

theorem enqueue_state (me : α) (m : Mutex α) (p : Pool α) :
    (enqueue me m p).2.state = Function.update p.state me .blocked := by
  cases h : m.waitTail <;> simp [enqueue, h]

theorem enqueue_next {m : Mutex α} {p : Pool α} {q : List α} {me u : α} (h : WaitQueue m p q)
    (hu : u ∉ q) (hume : u ≠ me) : (enqueue me m p).2.next u = p.next u := by
  cases ht : m.waitTail with
  | none => simp [enqueue, ht, hume]
  | some z =>
      have hz : z ∈ q := List.mem_of_mem_getLast? (h.tail_eq.symm.trans ht)
      have huz : u ≠ z := fun he => hu (he ▸ hz)
      simp [enqueue, ht, hume, huz]

omit [DecidableEq α] in
theorem handOver_queue {m : Mutex α} {p : Pool α} {q : List α} {a : α}
    (h : WaitQueue m p (a :: q)) : WaitQueue (handOver a (p.next a) m) p q :=
  Queue.dequeue h

end Orion68.MutexLock
