import Orion68.Lib.LinkedLists
import Orion68.Lib.Runs
import Mathlib.Logic.Function.Iterate

namespace Orion68.Scheduler

open LinkedLists Runs

abbrev osMaxTasks : Nat := 8

inductive TaskState
  | unused
  | ready
  | running
  | blocked
  deriving DecidableEq, Repr

/-- The fields of `tcb_t`; `α` is the type of the pointers to a task. -/
structure Tcb (α : Type) where
  sp : UInt32
  state : TaskState
  next : Option α
  arg : UInt32
  stackBase : UInt32
  stackSize : UInt32
  id : Int32

abbrev Pool (α : Type) := α → Tcb α

/-- A pointer into `task_pool`; one that may be null is an `Option TaskPtr`. -/
abbrev TaskPtr := Fin osMaxTasks

abbrev Mem := UInt32 → UInt8

structure Kernel where
  taskPool : Pool TaskPtr
  taskCount : Nat
  readyHead : Option TaskPtr
  currentTask : Option TaskPtr
  mem : Mem

section Fields

variable {α : Type} [DecidableEq α]

def Pool.setNext (p : Pool α) (t : α) (n : Option α) : Pool α :=
  Function.update p t { p t with next := n }

def Pool.setState (p : Pool α) (t : α) (s : TaskState) : Pool α :=
  Function.update p t { p t with state := s }

def Pool.next (p : Pool α) (t : α) : Option α := (p t).next

def Pool.state (p : Pool α) (t : α) : TaskState := (p t).state

@[simp] theorem Pool.next_setNext (p : Pool α) (t : α) (n : Option α) :
    (p.setNext t n).next = Function.update p.next t n := by
  funext u
  by_cases hu : u = t <;> simp [Pool.next, Pool.setNext, hu]

@[simp] theorem Pool.state_setNext (p : Pool α) (t : α) (n : Option α) :
    (p.setNext t n).state = p.state := by
  funext u
  by_cases hu : u = t <;> simp [Pool.state, Pool.setNext, hu]

@[simp] theorem Pool.next_setState (p : Pool α) (t : α) (s : TaskState) :
    (p.setState t s).next = p.next := by
  funext u
  by_cases hu : u = t <;> simp [Pool.next, Pool.setState, hu]

@[simp] theorem Pool.state_setState (p : Pool α) (t : α) (s : TaskState) :
    (p.setState t s).state = Function.update p.state t s := by
  funext u
  by_cases hu : u = t <;> simp [Pool.state, Pool.setState, hu]

end Fields

namespace Kernel

def next (k : Kernel) : TaskPtr → Option TaskPtr := k.taskPool.next

def state (k : Kernel) : TaskPtr → TaskState := k.taskPool.state

def setNext (k : Kernel) (t : TaskPtr) (n : Option TaskPtr) : Kernel :=
  { k with taskPool := k.taskPool.setNext t n }

def setState (k : Kernel) (t : TaskPtr) (s : TaskState) : Kernel :=
  { k with taskPool := k.taskPool.setState t s }

def setHead (k : Kernel) (h : Option TaskPtr) : Kernel := { k with readyHead := h }

variable (k : Kernel) (t : TaskPtr) (n h : Option TaskPtr) (s : TaskState)

@[simp] theorem next_setNext : (k.setNext t n).next = Function.update k.next t n :=
  Pool.next_setNext _ _ _

@[simp] theorem state_setNext : (k.setNext t n).state = k.state := Pool.state_setNext _ _ _

@[simp] theorem readyHead_setNext : (k.setNext t n).readyHead = k.readyHead := rfl

@[simp] theorem currentTask_setNext : (k.setNext t n).currentTask = k.currentTask := rfl

@[simp] theorem taskCount_setNext : (k.setNext t n).taskCount = k.taskCount := rfl

@[simp] theorem next_setState : (k.setState t s).next = k.next := Pool.next_setState _ _ _

@[simp] theorem state_setState : (k.setState t s).state = Function.update k.state t s :=
  Pool.state_setState _ _ _

@[simp] theorem readyHead_setState : (k.setState t s).readyHead = k.readyHead := rfl

@[simp] theorem currentTask_setState : (k.setState t s).currentTask = k.currentTask := rfl

@[simp] theorem taskCount_setState : (k.setState t s).taskCount = k.taskCount := rfl

@[simp] theorem next_setHead : (k.setHead h).next = k.next := rfl

@[simp] theorem state_setHead : (k.setHead h).state = k.state := rfl

@[simp] theorem readyHead_setHead : (k.setHead h).readyHead = h := rfl

@[simp] theorem currentTask_setHead : (k.setHead h).currentTask = k.currentTask := rfl

@[simp] theorem taskCount_setHead : (k.setHead h).taskCount = k.taskCount := rfl

end Kernel

/-- A traversal of the pool that has not ended after `osMaxTasks` nodes never ends,
so `none` stands for a loop without end or a null link that is followed. -/
def readyInsert (t : TaskPtr) (k : Kernel) : Option Kernel :=
  match k.readyHead with
  | none => some ((k.setHead (some t)).setNext t (some t))
  | some head =>
      (seek k.next head osMaxTasks head).map fun tail =>
        (k.setNext tail (some t)).setNext t (some head)

def readyRemove (t : TaskPtr) (k : Kernel) : Option Kernel :=
  match k.readyHead with
  | none => some k
  | some head =>
      if k.next t = some t then
        some ((if head = t then k.setHead none else k).setNext t none)
      else
        (seekRound k.next head t osMaxTasks head).map fun
          | none => k
          | some prev =>
              let linked := k.setNext prev (k.next t)
              (if head = t then linked.setHead (linked.next t) else linked).setNext t none

def emptyTcb {α : Type} : Tcb α := ⟨0, .unused, none, 0, 0, 0, 0⟩

def osInit (k : Kernel) : Kernel :=
  { k with taskPool := fun _ => emptyTcb, taskCount := 0, currentTask := none, readyHead := none }

def push32 (val : UInt32) (s : Mem × UInt32) : Mem × UInt32 :=
  let sp := s.2 - 4
  let m := Function.update s.1 sp (val >>> 24).toUInt8
  let m := Function.update m (sp + 1) (val >>> 16).toUInt8
  let m := Function.update m (sp + 2) (val >>> 8).toUInt8
  (Function.update m (sp + 3) val.toUInt8, sp)

def push16 (val : UInt16) (s : Mem × UInt32) : Mem × UInt32 :=
  let sp := s.2 - 2
  let m := Function.update s.1 sp (val >>> 8).toUInt8
  (Function.update m (sp + 1) val.toUInt8, sp)

/-- The stack of a new task: the frame of the 68000 (no format word) and fifteen
null registers under it. -/
def initialStack (entry stack stackSize : UInt32) (m : Mem) : Mem × UInt32 :=
  let top := (stack + stackSize) &&& ~~~1
  (push32 0)^[15] (push16 0x2000 (push32 entry (m, top)))

def Kernel.addTask (k : Kernel) (t : TaskPtr) (tcb : Tcb TaskPtr) (m : Mem) : Kernel :=
  { k with taskPool := Function.update k.taskPool t tcb, taskCount := k.taskCount + 1, mem := m }

def osTaskCreate (entry arg stack stackSize : UInt32) (id : Int32) (k : Kernel) :
    Option (Kernel × Option TaskPtr) :=
  if h : osMaxTasks ≤ k.taskCount ∨ entry = 0 ∨ stack = 0 then some (k, none)
  else
    let t : TaskPtr := ⟨k.taskCount, by omega⟩
    let frame := initialStack entry stack stackSize k.mem
    let tcb : Tcb TaskPtr := ⟨frame.2, .ready, none, arg, stack, stackSize, id⟩
    (readyInsert t (k.addTask t tcb frame.1)).map fun k => (k, some t)

theorem next_addTask (k : Kernel) (t : TaskPtr) (tcb : Tcb TaskPtr) (m : Mem) :
    (k.addTask t tcb m).next = Function.update k.next t tcb.next := by
  funext u
  by_cases hu : u = t <;> simp [Kernel.next, Pool.next, Kernel.addTask, hu]

theorem state_addTask (k : Kernel) (t : TaskPtr) (tcb : Tcb TaskPtr) (m : Mem) :
    (k.addTask t tcb m).state = Function.update k.state t tcb.state := by
  funext u
  by_cases hu : u = t <;> simp [Kernel.state, Pool.state, Kernel.addTask, hu]

/-- What `OS_TaskExit` has done when it enters its endless loop. -/
def osTaskExit (k : Kernel) : Option Kernel :=
  match k.currentTask with
  | none => some k
  | some c => (readyRemove c k).map fun k => k.setState c .unused

/-- The assignments `OS_Schedule` and `OS_Start` share. -/
def dispatch (head : TaskPtr) (k : Kernel) : Kernel :=
  { k with currentTask := some head, readyHead := k.next head }.setState head .running

@[simp] theorem next_dispatch (head : TaskPtr) (k : Kernel) : (dispatch head k).next = k.next :=
  Kernel.next_setState _ _ _

@[simp] theorem state_dispatch (head : TaskPtr) (k : Kernel) :
    (dispatch head k).state = Function.update k.state head .running :=
  Kernel.state_setState _ _ _

@[simp] theorem readyHead_dispatch (head : TaskPtr) (k : Kernel) :
    (dispatch head k).readyHead = k.next head := rfl

@[simp] theorem currentTask_dispatch (head : TaskPtr) (k : Kernel) :
    (dispatch head k).currentTask = some head := rfl

@[simp] theorem taskCount_dispatch (head : TaskPtr) (k : Kernel) :
    (dispatch head k).taskCount = k.taskCount := rfl

def preempt (k : Kernel) : Kernel :=
  match k.currentTask with
  | some c => if k.state c = .running then k.setState c .ready else k
  | none => k

def osSchedule (k : Kernel) : Kernel :=
  match k.readyHead with
  | none => k
  | some head => dispatch head (preempt k)

def osStart (k : Kernel) : Kernel :=
  match k.readyHead with
  | none => k
  | some head => dispatch head k

def osTaskBlock (task : Option TaskPtr) (k : Kernel) : Option Kernel :=
  match task with
  | none => some k
  | some t =>
      if k.state t ≠ .ready ∧ k.state t ≠ .running then some k
      else (readyRemove t k).map fun k => k.setState t .blocked

def osTaskWake (task : Option TaskPtr) (k : Kernel) : Option Kernel :=
  match task with
  | none => some k
  | some t => if k.state t ≠ .blocked then some k else readyInsert t (k.setState t .ready)

inductive Op
  | taskCreate (entry arg stack stackSize : UInt32) (id : Int32)
  | start
  | schedule
  | taskBlock (task : Option TaskPtr)
  | taskWake (task : Option TaskPtr)
  | taskExit
  deriving DecidableEq

def step : Op → Kernel → Option Kernel
  | .taskCreate entry arg stack stackSize id, k =>
      (osTaskCreate entry arg stack stackSize id k).map Prod.fst
  | .start, k => some (osStart k)
  | .schedule, k => some (osSchedule k)
  | .taskBlock task, k => osTaskBlock task k
  | .taskWake task, k => osTaskWake task k
  | .taskExit, k => osTaskExit k

end Orion68.Scheduler
