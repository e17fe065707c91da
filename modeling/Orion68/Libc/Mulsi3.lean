import Orion68.Lib.M68000

namespace Orion68.Libc

open M68000

section Instructions

def mulsi3Code (c a b : Reg) : List Instr :=
  [.moveL a (.d 0), .moveL (.d 0) (.d 1), .swap (.d 1),
   .moveL b (.d 2), .moveL (.d 2) (.d 3), .swap (.d 3),
   .mulu (.d 2) (.d 0), .mulu (.d 1) (.d 2), .moveW a (.d 1), .mulu (.d 3) (.d 1),
   .swap (.d 1), .clrW (.d 1), .swap (.d 2), .clrW (.d 2),
   .addL (.d 2) (.d 0), .addL (.d 1) (.d 0), .moveL (.d 0) c]

abbrev MulOperands (a b : UInt32) := Operands [.d 0, .d 1, .d 2, .d 3] a b

def mulsi3 {a b : Int32} (o : MulOperands a.toUInt32 b.toUInt32) : Option Int32 :=
  (o.value mulsi3Code).map UInt32.toInt32

/-- The assembly of `__umulsi3` is that of `__mulsi3`. -/
def umulsi3 {a b : UInt32} (o : MulOperands a b) : Option UInt32 :=
  o.value mulsi3Code

end Instructions

section Product

theorem value_mulsi3Code {a b : UInt32} (o : MulOperands a b) :
    o.value mulsi3Code = some (mulu b a + keepHigh (swap (mulu (swap a) b)) 0 +
      keepHigh (swap (mulu (swap b) (keepHigh (swap a) a))) 0) := by
  have hfirst := o.first_free
  have hsecond := o.second_free
  simp only [List.mem_cons, List.not_mem_nil, or_false, not_or] at hfirst hsecond
  simp [Operands.value, mulsi3Code, run, exec, moved, hfirst, hsecond, o.holds_first, o.holds_second]

theorem partial_products (a b : UInt32) :
    mulu b a + keepHigh (swap (mulu (swap a) b)) 0 +
      keepHigh (swap (mulu (swap b) (keepHigh (swap a) a))) 0 = a * b := by
  rw [keepHigh_swap, keepHigh_swap, mulu, mulu, mulu, swap_low, swap_low, keepHigh_low]
  have ha := halves a
  have hb := halves b
  generalize a / 65536 = ah, a % 65536 = al at ha
  generalize b / 65536 = bh, b % 65536 = bl at hb
  subst ha hb
  grind

theorem mulsi3_umulsi3_product :
    (∀ (a b : Int32) (o : MulOperands a.toUInt32 b.toUInt32), mulsi3 o = some (a * b)) ∧
      ∀ (a b : UInt32) (o : MulOperands a b), umulsi3 o = some (a * b) := by
  constructor
  · intro a b o
    rw [mulsi3, value_mulsi3Code, partial_products]
    rfl
  · intro a b o
    rw [umulsi3, value_mulsi3Code, partial_products]

end Product

end Orion68.Libc
