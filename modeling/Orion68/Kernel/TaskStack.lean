import Orion68.Kernel.ContextSwitch
import Orion68.Kernel.ReadyRing

namespace Orion68.TaskStack

open Memory Stacks ContextSwitch Scheduler

/-- What restoring a new task should yield. -/
structure Restaurado (entry stack stackSize : UInt32) (r : Cpu) : Prop where
  d : ∀ i, r.d i = 0
  a : ∀ i, r.a i = 0
  sr : r.sr = 0x2000
  pc : r.pc = entry
  a7 : r.a7 = (stack + stackSize) &&& ~~~1

/-- Every call that creates a task writes to its stack only, and leaves a frame there from which the
task is started. -/
def Criada (entry arg stack stackSize : UInt32) (id : Int32) : Prop :=
  ∀ k k' t, osTaskCreate entry arg stack stackSize id k = some (k', some t) →
    (∀ x, k'.mem x ≠ k.mem x → x ∈ Span.mk stack stackSize.toNat) ∧
      ∀ currentTask c, Restaurado entry stack stackSize
        (osStartHighRdy currentTask (k'.taskPool t).sp k'.mem c)

section Pushes

variable {entry stack stackSize : UInt32} {m : Mem}

theorem push32_eq (val : UInt32) (s : Mem × UInt32) : push32 val s = push (bytes32 val) s := by
  have h1 : s.2 - 4 + 1 + 1 = s.2 - 4 + 2 := UInt32.add_assoc ..
  have h2 : s.2 - 4 + 2 + 1 = s.2 - 4 + 3 := UInt32.add_assoc ..
  have hsize : UInt32.ofNat (bytes32 val).length = 4 := rfl
  rw [push, hsize, bytes32, write_cons (by simp), write_cons (by simp), write_cons (by simp),
    write_cons (by simp), write_empty, h1, h2]
  rfl

theorem push16_eq (val : UInt16) (s : Mem × UInt32) : push16 val s = push (bytes16 val) s := by
  have hsize : UInt32.ofNat (bytes16 val).length = 2 := rfl
  rw [push, hsize, bytes16, write_cons (by simp), write_cons (by simp), write_empty]
  rfl

theorem iterate_push32 (n : ℕ) (s : Mem × UInt32) :
    (push32 0)^[n] s = (List.replicate n 0).foldr (fun w => push (bytes32 w)) s := by
  induction n with
  | zero => rfl
  | succ n ih => rw [Function.iterate_succ_apply', ih, List.replicate_succ, List.foldr_cons, push32_eq]

theorem initialStack_eq (entry stack stackSize : UInt32) (m : Mem) :
    initialStack entry stack stackSize m =
      (write (((stack + stackSize) &&& ~~~1) - UInt32.ofNat 66) (quadro (List.replicate 15 0) 0x2000 entry) m,
        ((stack + stackSize) &&& ~~~1) - UInt32.ofNat 66) := by
  have hfirst := push_bytes32 (e := []) entry (by decide) m ((stack + stackSize) &&& ~~~1)
  rw [write_empty, List.append_nil] at hfirst
  rw [initialStack, push32_eq, push16_eq, iterate_push32, hfirst,
    push_bytes16 _ (by rw [length_bytes32]; decide), sub_ofNat_sub,
    foldr_push _ (by rw [List.length_replicate, List.length_append, length_bytes16, length_bytes32]; decide),
    List.length_replicate, sub_ofNat_sub]
  rfl

theorem length_frame (entry : UInt32) : (quadro (List.replicate 15 0) 0x2000 entry).length = 66 :=
  length_quadro (List.length_replicate ..)

theorem frame_within_iff (stack stackSize : UInt32) :
    (Span.mk (((stack + stackSize) &&& ~~~1) - UInt32.ofNat 66) 66).Within ⟨stack, stackSize.toNat⟩ ↔
      66 + (stack.toNat + stackSize.toNat) % 2 ≤ stackSize.toNat := by
  have hs := stack.toNat_lt
  have hz := stackSize.toNat_lt
  have hodd : ((stack + stackSize) &&& 1).toNat = (stack.toNat + stackSize.toNat) % 2 := by
    rw [and_one_toNat, UInt32.toNat_add]
    omega
  have hoffset : (((stack + stackSize) &&& ~~~1) - UInt32.ofNat 66 - stack).toNat =
      (stackSize.toNat + (2 ^ 32 - 66 - (stack.toNat + stackSize.toNat) % 2)) % 2 ^ 32 := by
    have h66 : (UInt32.ofNat 66).toNat = 66 := rfl
    rw [and_not_eq, UInt32.toNat_sub, UInt32.toNat_sub, UInt32.toNat_sub, UInt32.toNat_add, hodd, h66]
    omega
  rw [Span.within_iff (by exact hz)]
  dsimp only
  rw [hoffset]
  omega

end Pushes

section Creation

variable {entry arg stack stackSize : UInt32} {id : Int32} {k k' : Kernel} {t u : TaskPtr}

theorem readyInsert_keeps (h : readyInsert t k = some k') :
    k'.mem = k.mem ∧ ∀ u, (k'.taskPool u).sp = (k.taskPool u).sp := by
  have hset (k : Kernel) (v : TaskPtr) (n : Option TaskPtr) (u : TaskPtr) :
      ((k.setNext v n).taskPool u).sp = (k.taskPool u).sp := by
    by_cases hu : u = v
    · simp [Kernel.setNext, Pool.setNext, hu]
    · simp [Kernel.setNext, Pool.setNext, hu]
  rw [readyInsert] at h
  split at h
  next =>
    obtain rfl := Option.some.inj h
    exact ⟨rfl, fun u => hset _ t _ u⟩
  next head hhead =>
    obtain ⟨tail, -, rfl⟩ := Option.map_eq_some_iff.mp h
    exact ⟨rfl, fun u => (hset _ t _ u).trans (hset _ tail _ u)⟩

theorem osTaskCreate_frame (h : osTaskCreate entry arg stack stackSize id k = some (k', some t)) :
    k'.mem = write (((stack + stackSize) &&& ~~~1) - UInt32.ofNat 66) (quadro (List.replicate 15 0) 0x2000 entry) k.mem ∧
      (k'.taskPool t).sp = ((stack + stackSize) &&& ~~~1) - UInt32.ofNat 66 := by
  rw [osTaskCreate] at h
  split at h
  next => cases h
  next =>
    obtain ⟨k'', hins, heq⟩ := Option.map_eq_some_iff.mp h
    obtain ⟨rfl, ht⟩ := Prod.mk.inj heq
    obtain ⟨hmem, hsp⟩ := readyInsert_keeps hins
    rw [initialStack_eq] at hmem hsp
    obtain rfl := Option.some.inj ht
    refine ⟨hmem, (hsp _).trans ?_⟩
    rw [Kernel.addTask]
    dsimp only
    rw [Function.update_self]

/-- Started by its frame, a new task begins at its entry with all registers null, on an empty stack. -/
theorem restaurado (h : osTaskCreate entry arg stack stackSize id k = some (k', some t)) (currentTask : UInt32)
    (c : Cpu) : Restaurado entry stack stackSize (osStartHighRdy currentTask (k'.taskPool t).sp k'.mem c) := by
  obtain ⟨hmem, hsp⟩ := osTaskCreate_frame h
  rw [hmem, hsp]
  have hstored := stored_write k.mem (((stack + stackSize) &&& ~~~1) - UInt32.ofNat 66)
    (d := quadro (List.replicate 15 0) 0x2000 entry) (by rw [length_frame]; decide)
  obtain ⟨hd, ha, hsr, hpc, hssp⟩ := osStartHighRdy_quadro (List.length_replicate ..) hstored currentTask c
  refine ⟨?_, ?_, hsr, hpc, ?_⟩
  · intro i
    rw [hd i, List.get_eq_getElem, List.getElem_replicate]
  · intro i
    rw [ha i, List.get_eq_getElem, List.getElem_replicate]
  · rw [Cpu.a7, hsr, if_pos (by decide), hssp]
    exact UInt32.sub_add_cancel _ 66

theorem not_refused (h : osTaskCreate entry arg stack stackSize id k = some (k', some t)) : entry ≠ 0 ∧ stack ≠ 0 := by
  rw [osTaskCreate] at h
  split at h
  next => cases h
  next hok =>
    rw [not_or, not_or] at hok
    exact hok.2

theorem exists_created (hentry : entry ≠ 0) (hstack : stack ≠ 0) (arg stackSize : UInt32) (id : Int32) (m : Mem) :
    ∃ k k' t, k.mem = m ∧ osTaskCreate entry arg stack stackSize id k = some (k', some t) := by
  have hfirst : ∃ k', osTaskCreate entry arg stack stackSize id ⟨fun _ => emptyTcb, 0, none, none, m⟩ =
      some (k', some ⟨0, by decide⟩) := by
    rw [osTaskCreate, dif_neg (by simp [hentry, hstack, osMaxTasks])]
    exact ⟨_, rfl⟩
  obtain ⟨k', hk'⟩ := hfirst
  exact ⟨_, k', _, rfl, hk'⟩

theorem Criada.frame_within (h : Criada entry arg stack stackSize id) (hentry : entry ≠ 0) (hstack : stack ≠ 0) :
    (Span.mk (((stack + stackSize) &&& ~~~1) - UInt32.ofNat 66) 66).Within ⟨stack, stackSize.toNat⟩ := by
  intro x hx
  rw [← length_frame entry] at hx
  obtain ⟨m, hm⟩ := exists_write_ne hx
  obtain ⟨k, k', t, rfl, hcreated⟩ := exists_created hentry hstack arg stackSize id m
  apply (h k k' t hcreated).1
  rw [(osTaskCreate_frame hcreated).1]
  exact hm

/-- Every call that is not refused writes to its stack only, and leaves what the task is started from, exactly
when the frame fits into the stack. -/
theorem task_created_iff (entry arg stack stackSize : UInt32) (id : Int32) :
    Criada entry arg stack stackSize id ↔
      (entry ≠ 0 → stack ≠ 0 → 66 + (stack.toNat + stackSize.toNat) % 2 ≤ stackSize.toNat) := by
  constructor
  · intro h hentry hstack
    exact (frame_within_iff stack stackSize).mp (h.frame_within hentry hstack)
  · intro h k k' t hcreated
    refine ⟨?_, restaurado hcreated⟩
    intro x hx
    obtain ⟨hentry, hstack⟩ := not_refused hcreated
    apply (frame_within_iff stack stackSize).mpr (h hentry hstack)
    by_contra hout
    apply hx
    rw [(osTaskCreate_frame hcreated).1]
    rw [← length_frame entry] at hout
    exact write_of_notMem k.mem hout

/-- A stack of 64 bytes is accepted. -/
theorem frame_exceeds_stack : ¬ Criada 0x2000 0 0x1000 64 0 := by
  intro h
  have hwithin := h.frame_within (by decide) (by decide)
  rw [frame_within_iff] at hwithin
  exact absurd hwithin (by decide)

end Creation

end Orion68.TaskStack
