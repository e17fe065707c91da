import Orion68.Kernel.ContextSwitch

namespace Orion68.TaskCreate

open Memory Stacks ContextSwitch

section Tasks

def slotSize : UInt32 := 0x40000

def argsAreaSize : UInt32 := 512

/-- Where `task_create.c` takes `A5` to be among the registers that `movem` restores. -/
def regblkA5 : ℕ := 1

def regblkNregs : ℕ := 15

structure TCB where
  sp : UInt32
  next : UInt32
  state : Int32

def sizeofTCB : ℕ := 12

abbrev CString := { s : List UInt8 // 0 ∉ s }

def argvCopy (areaTop : UInt32) (argc : ℕ) : UInt32 := (areaTop - UInt32.ofNat (4 * (argc + 1))) &&& ~~~3

/-- One turn of the loop of `copy_args_into_slot`: the string and, in the array, its address. -/
def copyArg (argvCopy : UInt32) (arg : CString × ℕ) (s : Ram × UInt32) : Ram × UInt32 :=
  let strCursor := s.2 - UInt32.ofNat (arg.1.1.length + 1)
  (write (argvCopy + UInt32.ofNat (4 * arg.2)) (bytes32 strCursor) (write strCursor (arg.1.1 ++ [0]) s.1), strCursor)

/-- The new memory, the copied array and the lowest address that is used. -/
def copyArgsIntoSlot (areaTop : UInt32) (argv : List CString) (m : Ram) : Ram × UInt32 × UInt32 :=
  let cursor := argvCopy areaTop argv.length
  let s := argv.zipIdx.foldr (copyArg cursor) (m, cursor)
  (write (cursor + UInt32.ofNat (4 * argv.length)) (bytes32 0) s.1, cursor, s.2)

/-- Steps 2 to 4 of `Task_CreateFromElf`, from the stack pointer `s.2` on. -/
def initialFrame (taskBase entry gotAddrSaved argc argvCopy : UInt32) (s : Ram × UInt32) : Ram × UInt32 :=
  let s := push (bytes32 argvCopy) s
  let s := push (bytes32 argc) s
  let s := push (bytes32 0xDEADBEEF) s
  let sp := s.2 - 6
  let m := write sp (bytes16 0x2000) s.1
  let m := write (sp + 2) (bytes32 (taskBase + entry)) m
  let sp := sp - UInt32.ofNat (regblkNregs * 4)
  let m := write sp (List.replicate (regblkNregs * 4) 0) m
  (write (sp + UInt32.ofNat (4 * regblkA5)) (bytes32 (taskBase + gotAddrSaved)) m, sp)

/-- The control block is given with its address; `argc` is the length of `argv`. -/
def taskCreateFromElf (kmalloc : ℕ → Option UInt32) (taskBase entry gotAddrSaved : UInt32) (argv : List CString)
    (m : Ram) : Option (UInt32 × TCB × Ram) :=
  (kmalloc sizeofTCB).map fun tcb =>
    let slotTop := taskBase + slotSize
    let argsAreaBottom := slotTop - argsAreaSize
    let args := copyArgsIntoSlot slotTop argv m
    let s := initialFrame taskBase entry gotAddrSaved (UInt32.ofNat argv.length) args.2.1
      (args.1, argsAreaBottom &&& ~~~3)
    (tcb, ⟨s.2, 0, 0⟩, s.1)

end Tasks

section Frame

def regblk (got : UInt32) : List UInt32 := (List.replicate regblkNregs 0).set regblkA5 got

/-- What lies above the registers, `SR` and `PC`. -/
def chamada (argc argvCopy : UInt32) : List UInt8 := bytes32 0xDEADBEEF ++ (bytes32 argc ++ bytes32 argvCopy)

variable {taskBase entry got : UInt32} {argv : List CString} {m : Ram}

theorem length_regblk (got : UInt32) : (regblk got).length = 15 := rfl

theorem getElem_regblk (got : UInt32) {k : ℕ} (hk : k < (regblk got).length) :
    (regblk got)[k] = if k = 1 then got else 0 := by
  by_cases hA5 : k = 1
  · subst k
    rfl
  · rw [if_neg hA5]
    exact (List.getElem_set_ne (Ne.symm hA5) _).trans (List.getElem_replicate _)

theorem length_frame (got pc argc argvCopy : UInt32) :
    (quadro (regblk got) 0x2000 pc ++ chamada argc argvCopy).length = 78 := by
  rw [List.length_append, length_quadro (length_regblk got)]
  rfl

theorem write_sr_pc (sr : UInt16) (pc : UInt32) (s : Ram × UInt32) :
    (write (s.2 - 6 + 2) (bytes32 pc) (write (s.2 - 6) (bytes16 sr) s.1), s.2 - 6) =
      push (bytes16 sr ++ bytes32 pc) s := by
  have happend := write_append (s.2 - 6) (bytes16 sr) (bytes32 pc) s.1 (by simp) (by simp)
  exact congrArg (·, s.2 - 6) happend

theorem write_regblk (got : UInt32) (s : Ram × UInt32) :
    (write (s.2 - UInt32.ofNat (regblkNregs * 4) + UInt32.ofNat (4 * regblkA5)) (bytes32 got)
      (write (s.2 - UInt32.ofNat (regblkNregs * 4)) (List.replicate (regblkNregs * 4) 0) s.1),
      s.2 - UInt32.ofNat (regblkNregs * 4)) = push ((regblk got).flatMap bytes32) s := by
  have hwithin := write_write_within (d := List.replicate 4 0) (e := List.replicate 4 0)
    (f := List.replicate 52 0) (bytes32 got) rfl (by simp) s.1 (s.2 - UInt32.ofNat 60)
  exact congrArg (·, s.2 - UInt32.ofNat 60) hwithin

theorem initialFrame_eq (taskBase entry got argc argvCopy : UInt32) (s : Ram × UInt32) :
    initialFrame taskBase entry got argc argvCopy s =
      push (quadro (regblk (taskBase + got)) 0x2000 (taskBase + entry) ++ chamada argc argvCopy) s := by
  have hframe : initialFrame taskBase entry got argc argvCopy s =
      push ((regblk (taskBase + got)).flatMap bytes32) (push (bytes16 0x2000 ++ bytes32 (taskBase + entry))
        (push (bytes32 0xDEADBEEF) (push (bytes32 argc) (push (bytes32 argvCopy) s)))) := by
    rw [← write_regblk, ← write_sr_pc]
    rfl
  have hregs : ((regblk (taskBase + got)).flatMap bytes32).length = 60 := length_words _
  have hquadro : (quadro (regblk (taskBase + got)) 0x2000 (taskBase + entry)).length = 66 := length_quadro rfl
  have hcall : push (bytes32 0xDEADBEEF) (push (bytes32 argc) (push (bytes32 argvCopy) s)) =
      push (chamada argc argvCopy) s := by
    rw [push_push (d := bytes32 argc) (by simp) (by simp), push_push (by simp) (by simp), chamada]
  rw [hframe, hcall, push_push (by rw [hregs]; simp) (by rw [hregs]; decide), ← quadro,
    push_push (by rw [hquadro]; simp [chamada]) (by rw [hquadro]; decide)]

end Frame

section Restored

/-- What restoring the new task should yield, with the words that are then on its stack. -/
structure Restaurado (taskBase entry got : UInt32) (argv : List CString) (m : Ram) (r : Cpu) : Prop where
  a5 : r.a 5 = taskBase + got
  d : ∀ i, r.d i = 0
  a : ∀ i, i ≠ 5 → r.a i = 0
  sr : r.sr = 0x2000
  pc : r.pc = taskBase + entry
  retorno : load32 m r.a7 = 0xDEADBEEF
  argc : load32 m (r.a7 + 4) = UInt32.ofNat argv.length
  argv : load32 m (r.a7 + 8) = argvCopy (taskBase + slotSize) argv.length

variable {kmalloc : ℕ → Option UInt32} {taskBase entry got tcb : UInt32} {argv : List CString} {m m' : Ram} {t : TCB}

theorem taskCreateFromElf_frame (h : taskCreateFromElf kmalloc taskBase entry got argv m = some (tcb, t, m')) :
    t.sp = ((taskBase + slotSize - argsAreaSize) &&& ~~~3) - UInt32.ofNat 78 ∧
      m' = write t.sp (quadro (regblk (taskBase + got)) 0x2000 (taskBase + entry) ++
        chamada (UInt32.ofNat argv.length) (argvCopy (taskBase + slotSize) argv.length))
        (copyArgsIntoSlot (taskBase + slotSize) argv m).1 := by
  rw [taskCreateFromElf] at h
  obtain ⟨p, -, heq⟩ := Option.map_eq_some_iff.mp h
  dsimp only at heq
  rw [initialFrame_eq, push, length_frame] at heq
  obtain ⟨-, heq⟩ := Prod.mk.inj heq
  obtain ⟨rfl, rfl⟩ := Prod.mk.inj heq
  exact ⟨rfl, rfl⟩

/-- `D0` is restored from the lowest address, so that the address of the GOT comes into `D1`. -/
theorem restored (h : taskCreateFromElf kmalloc taskBase entry got argv m = some (tcb, t, m')) (c : Cpu) :
    (∀ i, (osStartHighRdy tcb t.sp m' c).d i = if i = 1 then taskBase + got else 0) ∧
      (∀ i, (osStartHighRdy tcb t.sp m' c).a i = 0) ∧ (osStartHighRdy tcb t.sp m' c).sr = 0x2000 ∧
      (osStartHighRdy tcb t.sp m' c).pc = taskBase + entry ∧ (osStartHighRdy tcb t.sp m' c).a7 = t.sp + 66 ∧
      Stored m' (t.sp + 66) (chamada (UInt32.ofNat argv.length) (argvCopy (taskBase + slotSize) argv.length)) := by
  obtain ⟨-, hm⟩ := taskCreateFromElf_frame h
  have hstored := stored_write (copyArgsIntoSlot (taskBase + slotSize) argv m).1 t.sp
    (d := quadro (regblk (taskBase + got)) 0x2000 (taskBase + entry) ++
        chamada (UInt32.ofNat argv.length) (argvCopy (taskBase + slotSize) argv.length))
    (by rw [length_frame]; decide)
  rw [← hm, stored_append, length_quadro (length_regblk _)] at hstored
  obtain ⟨hquadro, hcall⟩ := hstored
  obtain ⟨hd, ha, hsr, hpc, hssp⟩ := osStartHighRdy_quadro (length_regblk _) hquadro tcb c
  refine ⟨?_, ?_, hsr, hpc, ?_, hcall⟩
  · intro i
    rw [hd i, List.get_eq_getElem, getElem_regblk]
    have hone : i.val = 1 ↔ i = 1 :=
      ⟨fun h => Fin.ext h, fun h => congrArg Fin.val h⟩
    exact if_congr hone rfl rfl
  · intro i
    rw [ha i, List.get_eq_getElem, getElem_regblk, if_neg (by dsimp only; omega)]
  · rw [Cpu.a7, hsr, if_pos (by decide), hssp]

/-- Restoring a new task yields what it should exactly when the GOT is at the address null. -/
theorem task_restored_iff (h : taskCreateFromElf kmalloc taskBase entry got argv m = some (tcb, t, m')) (c : Cpu) :
    Restaurado taskBase entry got argv m' (osStartHighRdy tcb t.sp m' c) ↔ taskBase + got = 0 := by
  obtain ⟨hd, ha, hsr, hpc, ha7, hcall⟩ := restored h c
  constructor
  · intro hr
    exact hr.a5.symm.trans (ha 5)
  · intro hnull
    rw [chamada, stored_append, stored_append, ← ha7, length_bytes32, length_bytes32, add_ofNat_add] at hcall
    obtain ⟨hret, hargc, hargv⟩ := hcall
    refine ⟨(ha 5).trans hnull.symm, ?_, fun i _ => ha i, hsr, hpc, load32_of_stored hret, load32_of_stored hargc,
      load32_of_stored hargv⟩
    intro i
    rw [hd i, hnull, ite_self]

variable (kmalloc) in
theorem created_of_kmalloc (hk : kmalloc sizeofTCB = some tcb) (taskBase entry got : UInt32) (argv : List CString)
    (m : Ram) :
    ∃ t m', taskCreateFromElf kmalloc taskBase entry got argv m = some (tcb, t, m') := by
  rw [taskCreateFromElf, hk]
  exact ⟨_, _, rfl⟩

/-- `ls -l` -/
def lsL : List CString := [⟨[108, 115], by decide⟩, ⟨[45, 108], by decide⟩]

theorem null_got_restored : ∃ t m',
    taskCreateFromElf (fun _ => some 0x94000) 0xD2000 0x100 0xFFF2E000 lsL (fun _ => 0) =
        some (0x94000, t, m') ∧
      ∀ c, Restaurado 0xD2000 0x100 0xFFF2E000 lsL m' (osStartHighRdy 0x94000 t.sp m' c) := by
  obtain ⟨t, m', h⟩ :=
    created_of_kmalloc (fun _ => some 0x94000) rfl 0xD2000 0x100 0xFFF2E000 lsL fun _ => 0
  exact ⟨t, m', h, fun c => (task_restored_iff h c).mpr (by decide)⟩

/-- A task in the second slot, whose GOT is at `0x1000`. -/
theorem got_missing : ∃ t m',
    taskCreateFromElf (fun _ => some 0x94000) 0xD2000 0x100 0x1000 [] (fun _ => 0) = some (0x94000, t, m') ∧
      ∀ c, ¬ Restaurado 0xD2000 0x100 0x1000 [] m' (osStartHighRdy 0x94000 t.sp m' c) := by
  obtain ⟨t, m', h⟩ := created_of_kmalloc (fun _ => some 0x94000) rfl 0xD2000 0x100 0x1000 [] fun _ => 0
  refine ⟨t, m', h, ?_⟩
  intro c hr
  have ha5 := (restored h c).2.1 5
  rw [hr.a5] at ha5
  exact absurd ha5 (by decide)

end Restored

end Orion68.TaskCreate
