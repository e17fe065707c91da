import Mathlib.Data.List.OfFn
import Orion68.Lib.Stacks

namespace Orion68.ContextSwitch

open Memory Stacks

section Instructions

/-- The registers of the 68000, with both stack pointers. -/
structure Cpu where
  d : Fin 8 → UInt32
  a : Fin 7 → UInt32
  usp : UInt32
  ssp : UInt32
  sr : UInt16
  pc : UInt32

def Cpu.a7 (c : Cpu) : UInt32 := if c.sr &&& 0x2000 ≠ 0 then c.ssp else c.usp

/-- `movem.l (%A7)+, %D0-%D7/%A0-%A6`: `D0` has the lowest address. -/
def movemRestaura (m : Ram) (c : Cpu) : Cpu :=
  { c with
    d := fun i => load32 m (c.ssp + UInt32.ofNat (4 * i))
    a := fun i => load32 m (c.ssp + UInt32.ofNat (4 * (8 + i)))
    ssp := c.ssp + 60 }

def rte (m : Ram) (c : Cpu) : Cpu :=
  { c with sr := load16 m c.ssp, pc := load32 m (c.ssp + 2), ssp := c.ssp + 6 }

/-- `OS_StartHighRdy`, of a task whose control block is at `currentTask` and holds `sp`. -/
def osStartHighRdy (currentTask sp : UInt32) (m : Ram) (c : Cpu) : Cpu :=
  rte m (movemRestaura m { c with a := Function.update c.a 0 currentTask, ssp := sp })

/-- The registers in the order of `movem`. -/
def Cpu.registradores (c : Cpu) : List UInt32 := List.ofFn c.d ++ List.ofFn c.a

/-- `movem.l %D0-%D7/%A0-%A6, -(%A7)`, which starts with `A6`. -/
def movemSalva (m : Ram) (c : Cpu) : Ram × Cpu :=
  let s := c.registradores.foldr (fun w => push (bytes32 w)) (m, c.ssp)
  (s.1, { c with ssp := s.2 })

/-- What an interrupt does before its first instruction, without the change of the mask. -/
def interrompe (m : Ram) (c : Cpu) : Ram × Cpu :=
  let s := push (bytes16 c.sr) (push (bytes32 c.pc) (m, c.ssp))
  (s.1, { c with sr := c.sr ||| 0x2000, ssp := s.2 })

end Instructions

section Frames

/-- The frame of a task that is not running. -/
def quadro (regs : List UInt32) (sr : UInt16) (pc : UInt32) : List UInt8 :=
  regs.flatMap bytes32 ++ (bytes16 sr ++ bytes32 pc)

variable {m : Ram} {c : Cpu} {sp currentTask : UInt32} {regs : List UInt32} {sr : UInt16} {pc : UInt32}

theorem length_quadro (hregs : regs.length = 15) : (quadro regs sr pc).length = 66 := by
  have hrest : (bytes16 sr ++ bytes32 pc).length = 6 := rfl
  rw [quadro, List.length_append, length_words, hregs, hrest]

theorem osStartHighRdy_quadro (hregs : regs.length = 15) (h : Stored m sp (quadro regs sr pc)) (currentTask : UInt32)
    (c : Cpu) :
    (∀ i : Fin 8, (osStartHighRdy currentTask sp m c).d i = regs.get ⟨i, by omega⟩) ∧
      (∀ i : Fin 7, (osStartHighRdy currentTask sp m c).a i = regs.get ⟨8 + i, by omega⟩) ∧
      (osStartHighRdy currentTask sp m c).sr = sr ∧ (osStartHighRdy currentTask sp m c).pc = pc ∧
      (osStartHighRdy currentTask sp m c).ssp = sp + 66 := by
  rw [quadro, stored_append, stored_append] at h
  obtain ⟨hwords, hsr, hpc⟩ := h
  rw [length_words, hregs] at hsr hpc
  refine ⟨?_, ?_, load16_of_stored hsr, ?_, ?_⟩
  · intro i
    exact load32_of_stored_words hwords i (by omega)
  · intro i
    exact load32_of_stored_words hwords (8 + i) (by omega)
  · exact load32_of_stored hpc
  · exact UInt32.add_assoc sp 60 6

theorem length_registradores (c : Cpu) : c.registradores.length = 15 := by
  rw [Cpu.registradores, List.length_append, List.length_ofFn, List.length_ofFn]

theorem movemSalva_interrompe (m : Ram) (c : Cpu) :
    movemSalva (interrompe m c).1 (interrompe m c).2 =
      (write (c.ssp - UInt32.ofNat 66) (quadro c.registradores c.sr c.pc) m,
        { c with sr := c.sr ||| 0x2000, ssp := c.ssp - UInt32.ofNat 66 }) := by
  have hregs : ({ c with sr := c.sr ||| 0x2000, ssp := c.ssp - UInt32.ofNat 6 } : Cpu).registradores.length = 15 :=
    length_registradores _
  have hpush : push (bytes16 c.sr) (push (bytes32 c.pc) (m, c.ssp)) =
      (write (c.ssp - UInt32.ofNat 6) (bytes16 c.sr ++ bytes32 c.pc) m, c.ssp - UInt32.ofNat 6) := by
    have hfirst := push_bytes32 (e := []) c.pc (by decide) m c.ssp
    rw [write_empty, List.append_nil] at hfirst
    rw [hfirst, push_bytes16 c.sr (by rw [length_bytes32]; decide), sub_ofNat_sub]
  have hfold := foldr_push (e := bytes16 c.sr ++ bytes32 c.pc)
    ({ c with sr := c.sr ||| 0x2000, ssp := c.ssp - UInt32.ofNat 6 } : Cpu).registradores
    (by rw [hregs, List.length_append, length_bytes16, length_bytes32]; decide) m (c.ssp - UInt32.ofNat 6)
  rw [hregs, sub_ofNat_sub] at hfold
  rw [interrompe, hpush]
  dsimp only
  rw [movemSalva]
  dsimp only
  rw [hfold]
  rfl

/-- A task that is interrupted in supervisor mode goes on as it was when its frame is restored, whatever
the registers hold in the meantime. -/
theorem retoma_interrompida (m : Ram) (c c' : Cpu) (hs : c.sr &&& 0x2000 ≠ 0) (currentTask : UInt32) :
    let s := movemSalva (interrompe m c).1 (interrompe m c).2
    let r := osStartHighRdy currentTask s.2.ssp s.1 c'
    r.d = c.d ∧ r.a = c.a ∧ r.sr = c.sr ∧ r.pc = c.pc ∧ r.a7 = c.a7 := by
  have hregs := length_registradores c
  rw [movemSalva_interrompe]
  dsimp only
  have hstored := stored_write m (c.ssp - UInt32.ofNat 66) (d := quadro c.registradores c.sr c.pc)
    (by rw [length_quadro hregs]; decide)
  obtain ⟨hd, ha, hsr, hpc, hssp⟩ := osStartHighRdy_quadro hregs hstored currentTask c'
  refine ⟨?_, ?_, hsr, hpc, ?_⟩
  · funext i
    rw [hd i]
    simp only [Cpu.registradores, List.get_eq_getElem]
    rw [List.getElem_append_left (by rw [List.length_ofFn]; exact i.isLt), List.getElem_ofFn]
  · funext i
    rw [ha i]
    simp only [Cpu.registradores, List.get_eq_getElem]
    rw [List.getElem_append_right (by rw [List.length_ofFn]; exact Nat.le_add_right 8 i), List.getElem_ofFn]
    congr 1
    ext
    simp
  · rw [Cpu.a7, Cpu.a7, hsr, if_pos hs, if_pos hs, hssp]
    exact UInt32.sub_add_cancel c.ssp 66

end Frames

end Orion68.ContextSwitch
