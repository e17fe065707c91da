import Mathlib.Logic.Function.Basic
import Mathlib.Tactic.Common

namespace Orion68.M68000

section Words

/-- The low word of a register is replaced, the other half stays. -/
def keepHigh (x w : UInt32) : UInt32 := x / 65536 * 65536 + w % 65536

def signExtend (w : UInt32) : UInt32 :=
  if w % 65536 < 32768 then w % 65536 else w % 65536 + 0xFFFF0000

def swap (x : UInt32) : UInt32 := x % 65536 * 65536 + x / 65536

def mulu (x y : UInt32) : UInt32 := (x % 65536) * (y % 65536)

/-- `divu`: a zero divisor traps, and a quotient of more than a word leaves the operand as it was. -/
def divu (x y : UInt32) : Option UInt32 :=
  if y % 65536 = 0 then none
  else if x / (y % 65536) < 65536 then some (x % (y % 65536) * 65536 + x / (y % 65536)) else some x

variable {x y w : UInt32}

theorem toNat_low : (x % 65536).toNat = x.toNat % 65536 := UInt32.toNat_mod x 65536

theorem toNat_high : (x / 65536).toNat = x.toNat / 65536 := UInt32.toNat_div x 65536

theorem toNat_halves {h l : UInt32} (hh : h.toNat < 65536) (hl : l.toNat < 65536) :
    (h * 65536 + l).toNat = h.toNat * 65536 + l.toNat := by
  have hc : (65536 : UInt32).toNat = 65536 := rfl
  rw [UInt32.toNat_add, UInt32.toNat_mul, hc]
  omega

theorem toNat_low_lt : (x % 65536).toNat < 65536 := by
  rw [toNat_low]
  exact Nat.mod_lt _ (by omega)

theorem toNat_high_lt : (x / 65536).toNat < 65536 := by
  have hx := x.toNat_lt
  rw [toNat_high]
  omega

theorem toNat_keepHigh : (keepHigh x w).toNat = x.toNat / 65536 * 65536 + w.toNat % 65536 := by
  rw [keepHigh, toNat_halves toNat_high_lt toNat_low_lt, toNat_high, toNat_low]

theorem toNat_swap : (swap x).toNat = x.toNat % 65536 * 65536 + x.toNat / 65536 := by
  rw [swap, toNat_halves toNat_low_lt toNat_high_lt, toNat_low, toNat_high]

theorem halves (x : UInt32) : x / 65536 * 65536 + x % 65536 = x := by
  apply UInt32.toNat.inj
  rw [toNat_halves toNat_high_lt toNat_low_lt, toNat_high, toNat_low]
  exact Nat.div_add_mod' x.toNat 65536

theorem swap_low (x : UInt32) : swap x % 65536 = x / 65536 := by
  have hx := x.toNat_lt
  apply UInt32.toNat.inj
  rw [toNat_low, toNat_swap, toNat_high]
  omega

theorem swap_high (x : UInt32) : swap x / 65536 = x % 65536 := by
  have hx := x.toNat_lt
  apply UInt32.toNat.inj
  rw [toNat_high, toNat_swap, toNat_low]
  omega

theorem keepHigh_low (x w : UInt32) : keepHigh x w % 65536 = w % 65536 := by
  apply UInt32.toNat.inj
  rw [toNat_low, toNat_keepHigh, toNat_low]
  omega

theorem keepHigh_swap (x : UInt32) : keepHigh (swap x) 0 = x * 65536 := by
  have hx := x.toNat_lt
  have hc : (65536 : UInt32).toNat = 65536 := rfl
  have hz : (0 : UInt32).toNat = 0 := rfl
  apply UInt32.toNat.inj
  rw [toNat_keepHigh, toNat_swap, UInt32.toNat_mul, hc, hz]
  have hmul : x.toNat * 65536 % 2 ^ 32 = x.toNat % 65536 * 65536 := Nat.mul_mod_mul_right 65536 x.toNat 65536
  have hswap : (x.toNat % 65536 * 65536 + x.toNat / 65536) / 65536 = x.toNat % 65536 := by omega
  rw [hmul, hswap, Nat.zero_mod, Nat.add_zero]

theorem keepHigh_mul (x w : UInt32) : keepHigh x w * 65536 = w % 65536 * 65536 := by
  rw [keepHigh]
  generalize x / 65536 = h, w % 65536 = l
  grind

theorem keepHigh_zero (w : UInt32) : keepHigh 0 w = w % 65536 := by
  rw [keepHigh, UInt32.zero_div, UInt32.zero_mul, UInt32.zero_add]

theorem swap_keepHigh (x : UInt32) : swap (keepHigh x 0) = x / 65536 := by
  have hx := x.toNat_lt
  have hz : (0 : UInt32).toNat = 0 := rfl
  apply UInt32.toNat.inj
  rw [toNat_swap, toNat_keepHigh, toNat_high, hz]
  omega

theorem divu_of_eq (h : y.toNat % 65536 = 0) : divu x y = none := by
  refine if_pos (UInt32.toNat_inj.mp ?_)
  rw [toNat_low, h]
  rfl

theorem divu_of_lt (hy : y.toNat % 65536 ≠ 0) (h : x.toNat / (y.toNat % 65536) < 65536) :
    ∃ z, divu x y = some z ∧
      z.toNat = x.toNat % (y.toNat % 65536) * 65536 + x.toNat / (y.toNat % 65536) := by
  have hq : (x / (y % 65536)).toNat = x.toNat / (y.toNat % 65536) := by
    rw [UInt32.toNat_div, toNat_low]
  have hr : (x % (y % 65536)).toNat = x.toNat % (y.toNat % 65536) := by
    rw [UInt32.toNat_mod, toNat_low]
  have hlt : x.toNat % (y.toNat % 65536) < 65536 :=
    Nat.lt_trans (Nat.mod_lt _ (Nat.pos_of_ne_zero hy)) (Nat.mod_lt _ (by omega))
  have hne : y % 65536 ≠ 0 := by
    intro hz
    apply hy
    rw [← toNat_low, hz]
    rfl
  refine ⟨x % (y % 65536) * 65536 + x / (y % 65536), ?_, ?_⟩
  · rw [divu, if_neg hne, if_pos]
    rw [UInt32.lt_iff_toNat_lt, hq]
    exact h
  · rw [toNat_halves (by rwa [hr]) (by rwa [hq]), hr, hq]

theorem eq_iff_halves : x = y ↔ x % 65536 = y % 65536 ∧ x / 65536 = y / 65536 := by
  constructor
  · rintro rfl
    exact ⟨rfl, rfl⟩
  · rintro ⟨hl, hh⟩
    rw [← halves x, hl, hh, halves]

theorem toNat_signExtend :
    (signExtend w).toNat = w.toNat % 65536 + if w.toNat % 65536 < 32768 then 0 else 0xFFFF0000 := by
  have hw : w.toNat % 65536 < 65536 := Nat.mod_lt _ (by omega)
  have hc : (0xFFFF0000 : UInt32).toNat = 0xFFFF0000 := rfl
  have hlt : w % 65536 < 32768 ↔ w.toNat % 65536 < 32768 := by
    rw [UInt32.lt_iff_toNat_lt, toNat_low]
    rfl
  rw [signExtend]
  split
  next h =>
    rw [if_pos (hlt.mp h), toNat_low, Nat.add_zero]
  next h =>
    rw [if_neg fun hn => h (hlt.mpr hn), UInt32.toNat_add, toNat_low, hc]
    omega

end Words

section Instructions

inductive Reg
  | d (n : Nat)
  | a (n : Nat)
  deriving DecidableEq

abbrev Registers := Reg → UInt32

inductive Instr
  | clrW (r : Reg)
  | clrL (r : Reg)
  | moveW (s t : Reg)
  | moveL (s t : Reg)
  | swap (r : Reg)
  | divu (s t : Reg)
  | mulu (s t : Reg)
  | addL (s t : Reg)

/-- What a word move leaves in its target: an address register takes the word with its sign. -/
def moved (t : Reg) (old w : UInt32) : UInt32 :=
  match t with
  | .d _ => keepHigh old w
  | .a _ => signExtend w

/-- The half of the target that the word does not fill. -/
def upperHalf (t : Reg) (old w : UInt32) : UInt32 :=
  match t with
  | .d _ => old / 65536
  | .a _ => if w.toNat % 65536 < 32768 then 0 else 65535

theorem moved_low (t : Reg) (old w : UInt32) : moved t old w % 65536 = w % 65536 := by
  cases t with
  | d n => exact keepHigh_low old w
  | a n =>
      apply UInt32.toNat.inj
      rw [moved, toNat_low, toNat_low, toNat_signExtend]
      split <;> omega

theorem moved_high (t : Reg) (old w : UInt32) : moved t old w / 65536 = upperHalf t old w := by
  have hold := old.toNat_lt
  apply UInt32.toNat.inj
  cases t with
  | d n =>
      rw [moved, upperHalf, toNat_high, toNat_keepHigh, toNat_high]
      omega
  | a n =>
      rw [moved, upperHalf, toNat_high, toNat_signExtend]
      split
      next h => exact Nat.div_eq_of_lt (by omega)
      next h =>
        have hc : (65535 : UInt32).toNat = 65535 := rfl
        omega

/-- One instruction, or `none` when it traps. -/
def exec : Instr → Registers → Option Registers
  | .clrW r, f => some (Function.update f r (keepHigh (f r) 0))
  | .clrL r, f => some (Function.update f r 0)
  | .moveW s t, f => some (Function.update f t (moved t (f t) (f s)))
  | .moveL s t, f => some (Function.update f t (f s))
  | .swap r, f => some (Function.update f r (M68000.swap (f r)))
  | .divu s t, f => (M68000.divu (f t) (f s)).map (Function.update f t)
  | .mulu s t, f => some (Function.update f t (M68000.mulu (f s) (f t)))
  | .addL s t, f => some (Function.update f t (f t + f s))

def target : Instr → Reg
  | .clrW r | .clrL r | .swap r => r
  | .moveW _ t | .moveL _ t | .divu _ t | .mulu _ t | .addL _ t => t

def run : List Instr → Registers → Option Registers
  | [], f => some f
  | i :: is, f => (exec i f).bind (run is)

theorem run_append (is js : List Instr) (f : Registers) : run (is ++ js) f = (run is f).bind (run js) := by
  induction is generalizing f with
  | nil => rfl
  | cons i is ih =>
      rw [List.cons_append, run, run, Option.bind_assoc]
      apply congrArg (exec i f).bind
      funext g
      exact ih g

variable {f g : Registers} {r : Reg}

theorem exec_frame {i : Instr} (h : exec i f = some g) (hr : r ≠ target i) : g r = f r := by
  cases i with
  | divu s t =>
      obtain ⟨z, -, rfl⟩ := Option.map_eq_some_iff.mp h
      exact Function.update_of_ne hr z f
  | clrW t | clrL t | swap t | moveW s t | moveL s t | mulu s t | addL s t =>
      obtain rfl := Option.some.inj h
      exact Function.update_of_ne hr _ f

theorem run_frame {is : List Instr} (h : run is f = some g) (hr : ∀ i ∈ is, r ≠ target i) : g r = f r := by
  induction is generalizing f with
  | nil => exact congrFun (Option.some.inj h).symm r
  | cons i is ih =>
      obtain ⟨e, he, hg⟩ := Option.bind_eq_some_iff.mp h
      rw [ih hg fun j hj => hr j (List.mem_cons_of_mem i hj)]
      exact exec_frame he (hr i List.mem_cons_self)

end Instructions

section Assembly

/-- What the compiler decides about a piece of inline assembly with one result and two operands that are
registers: which registers, and what all registers hold before it. -/
structure Operands (clobbered : List Reg) (x y : UInt32) where
  result : Reg
  first : Reg
  second : Reg
  registers : Registers
  result_free : result ∉ clobbered
  first_free : first ∉ clobbered
  second_free : second ∉ clobbered
  holds_first : registers first = x
  holds_second : registers second = y

variable {clobbered : List Reg} {x y : UInt32}

def Operands.value (o : Operands clobbered x y) (code : Reg → Reg → Reg → List Instr) : Option UInt32 :=
  (run (code o.result o.first o.second) o.registers).map (· o.result)

/-- Code that leaves more registers alone takes the same operands. -/
def Operands.weaken {fewer : List Reg} (h : fewer ⊆ clobbered) (o : Operands clobbered x y) :
    Operands fewer x y :=
  { o with
    result_free := fun hr => o.result_free (h hr)
    first_free := fun hr => o.first_free (h hr)
    second_free := fun hr => o.second_free (h hr) }

end Assembly

end Orion68.M68000
