import Orion68.Lib.LongDivision
import Orion68.Lib.M68000

namespace Orion68.Libc

open M68000 LongDivision

section Instructions

def udivsi3Code (c a b : Reg) : List Instr :=
  [.clrL (.d 0), .clrL (.d 1), .moveW a (.d 0), .moveW b (.d 1),
   .moveL a (.d 2), .clrW (.d 2), .swap (.d 2),
   .divu (.d 1) (.d 2), .moveW (.d 2) (.d 3), .swap (.d 3), .clrW (.d 3),
   .clrW (.d 2), .addL (.d 2) (.d 0),
   .divu (.d 1) (.d 0),
   .swap (.d 0), .clrW (.d 0), .swap (.d 0),
   .addL (.d 3) (.d 0), .moveL (.d 0) c]

def umodsi3Code (c a b : Reg) : List Instr :=
  [.clrL (.d 0), .clrL (.d 1), .moveW a (.d 0), .moveW b (.d 1),
   .moveL a (.d 2), .clrW (.d 2), .swap (.d 2),
   .divu (.d 1) (.d 2), .clrW (.d 2), .addL (.d 2) (.d 0),
   .divu (.d 1) (.d 0),
   .clrW (.d 0), .swap (.d 0), .moveW (.d 0) c]

abbrev UdivOperands (a b : UInt32) := Operands [.d 0, .d 1, .d 2, .d 3] a b

abbrev UmodOperands (a b : UInt32) := Operands [.d 0, .d 1, .d 2] a b

def udivsi3 {a b : UInt32} (o : UdivOperands a b) : Option UInt32 :=
  o.value udivsi3Code

def umodsi3 {a b : UInt32} (o : UmodOperands a b) : Option UInt32 :=
  o.value umodsi3Code

end Instructions

section Phases

/-- The operands are taken apart, by the same instructions in both functions. -/
def operandsCode (a b : Reg) : List Instr :=
  [.clrL (.d 0), .clrL (.d 1), .moveW a (.d 0), .moveW b (.d 1),
   .moveL a (.d 2), .clrW (.d 2), .swap (.d 2)]

def quotientCode (c : Reg) : List Instr :=
  [.divu (.d 1) (.d 2), .moveW (.d 2) (.d 3), .swap (.d 3), .clrW (.d 3),
   .clrW (.d 2), .addL (.d 2) (.d 0), .divu (.d 1) (.d 0), .swap (.d 0), .clrW (.d 0), .swap (.d 0),
   .addL (.d 3) (.d 0), .moveL (.d 0) c]

def remainderCode (c : Reg) : List Instr :=
  [.divu (.d 1) (.d 2), .clrW (.d 2), .addL (.d 2) (.d 0), .divu (.d 1) (.d 0), .clrW (.d 0),
   .swap (.d 0), .moveW (.d 0) c]

theorem udivsi3Code_phases (c a b : Reg) : udivsi3Code c a b = operandsCode a b ++ quotientCode c := rfl

theorem umodsi3Code_phases (c a b : Reg) : umodsi3Code c a b = operandsCode a b ++ remainderCode c := rfl

variable {f g : Registers}

theorem run_operandsCode {a b : Reg} (ha : a ∉ [Reg.d 0, .d 1, .d 2]) (hb : b ∉ [Reg.d 0, .d 1, .d 2]) :
    ∃ g, run (operandsCode a b) f = some g ∧ g (.d 0) = f a % 65536 ∧ g (.d 1) = f b % 65536 ∧
      g (.d 2) = f a / 65536 := by
  simp only [List.mem_cons, List.not_mem_nil, or_false, not_or] at ha hb
  refine ⟨_, rfl, ?_, ?_, ?_⟩
  · simp [moved, ha, keepHigh_zero]
  · simp [moved, ha, hb, keepHigh_zero]
  · simp [ha, swap_keepHigh]

variable {c : Reg} {n d : UInt32}

theorem words_of_eq {v r q : Nat} (hv : v = r * 65536 + q) (hq : q < 65536) :
    v % 65536 = q ∧ v / 65536 = r := by
  omega

theorem two_divisions (hpos : 0 < d.toNat) (hd : d.toNat < 65536) :
    ∃ x y, divu (n / 65536) d = some x ∧ divu (n % 65536 + keepHigh x 0) d = some y ∧
      y % 65536 + x % 65536 * 65536 = n / d ∧ y / 65536 = n % d := by
  have hn := n.toNat_lt
  have hmod : d.toNat % 65536 = d.toNat := Nat.mod_eq_of_lt hd
  have hdigits := Nat.div_add_mod' n.toNat 65536
  have hdiv := div_digits 65536 (n.toNat / 65536) (n.toNat % 65536) hpos
  have hrem := mod_digits 65536 (n.toNat / 65536) (n.toNat % 65536) d.toNat
  rw [hdigits] at hdiv hrem
  have hr : n.toNat / 65536 % d.toNat < d.toNat := Nat.mod_lt _ hpos
  have hq : n.toNat / 65536 / d.toNat < 65536 := Nat.lt_of_le_of_lt (Nat.div_le_self _ _) (by omega)
  have hdigit := digit_lt hr (Nat.mod_lt n.toNat (by omega : 0 < 65536))
  obtain ⟨x, hx, hxv⟩ := @divu_of_lt (n / 65536) d (by omega) (by rwa [hmod, toNat_high])
  rw [hmod, toNat_high] at hxv
  have hsum : (n % 65536 + keepHigh x 0).toNat = n.toNat / 65536 % d.toNat * 65536 + n.toNat % 65536 := by
    rw [UInt32.toNat_add, toNat_keepHigh, toNat_low, hxv, UInt32.toNat_zero]
    omega
  obtain ⟨y, hy, hyv⟩ := @divu_of_lt (n % 65536 + keepHigh x 0) d (by omega) (by rwa [hmod, hsum])
  rw [hmod, hsum] at hyv
  obtain ⟨hxq, -⟩ := words_of_eq hxv hq
  obtain ⟨hyq, hyr⟩ := words_of_eq hyv hdigit
  refine ⟨x, y, hx, hy, ?_, ?_⟩
  · apply UInt32.toNat.inj
    rw [UInt32.add_comm, toNat_halves toNat_low_lt toNat_low_lt, toNat_low, toNat_low, hxq, hyq,
      UInt32.toNat_div, hdiv]
  · apply UInt32.toNat.inj
    rw [toNat_high, hyr, UInt32.toNat_mod, hrem]

theorem run_quotient (h0 : g (.d 0) = n % 65536) (h1 : g (.d 1) = d) (h2 : g (.d 2) = n / 65536)
    (hpos : 0 < d.toNat) (hd : d.toNat < 65536) :
    (run (quotientCode c) g).map (· c) = some (n / d) := by
  obtain ⟨x, y, hx, hy, hq, -⟩ := @two_divisions n d hpos hd
  simp [quotientCode, run, exec, moved, h0, h1, h2, hx, hy, swap_keepHigh, keepHigh_swap, swap_high,
    keepHigh_mul, hq]

theorem run_remainder (hc : c ∉ [Reg.d 0, .d 1, .d 2]) (h0 : g (.d 0) = n % 65536) (h1 : g (.d 1) = d)
    (h2 : g (.d 2) = n / 65536) (hpos : 0 < d.toNat) (hd : d.toNat < 65536) :
    (run (remainderCode c) g).map (· c) = some (moved c (g c) (n % d)) := by
  obtain ⟨x, y, hx, hy, -, hr⟩ := @two_divisions n d hpos hd
  simp only [List.mem_cons, List.not_mem_nil, or_false, not_or] at hc
  simp [remainderCode, run, exec, hc, h0, h1, h2, hx, hy, swap_keepHigh, hr]

end Phases

section Results

variable {a b : UInt32}

theorem run_operands {clobbered : List Reg} (o : Operands clobbered a b)
    (hc : [Reg.d 0, .d 1, .d 2] ⊆ clobbered) :
    ∃ g, run (operandsCode o.first o.second) o.registers = some g ∧ g (.d 0) = a % 65536 ∧
      g (.d 1) = b % 65536 ∧ g (.d 2) = a / 65536 := by
  have h := @run_operandsCode o.registers _ _ (fun h => o.first_free (hc h)) (fun h => o.second_free (hc h))
  rwa [o.holds_first, o.holds_second] at h

theorem low_pos (hb : b.toNat % 65536 ≠ 0) : 0 < (b % 65536).toNat := by
  rw [toNat_low]
  exact Nat.pos_of_ne_zero hb

theorem udivsi3_of_low_ne_zero (o : UdivOperands a b) (hb : b.toNat % 65536 ≠ 0) :
    udivsi3 o = some (a / (b % 65536)) := by
  obtain ⟨g, hg, h0, h1, h2⟩ := run_operands o (List.subset_append_left _ [Reg.d 3])
  rw [udivsi3, Operands.value, udivsi3Code_phases, run_append, hg, Option.bind_some]
  exact run_quotient h0 h1 h2 (low_pos hb) toNat_low_lt

theorem udivsi3_of_low_eq_zero (o : UdivOperands a b) (hb : b.toNat % 65536 = 0) : udivsi3 o = none := by
  obtain ⟨g, hg, -, h1, -⟩ := run_operands o (List.subset_append_left _ [Reg.d 3])
  have hlow : (g (.d 1)).toNat % 65536 = 0 := by
    rw [h1, toNat_low, hb]
  rw [udivsi3, Operands.value, udivsi3Code_phases, run_append, hg, Option.bind_some]
  simp [quotientCode, run, exec, divu_of_eq hlow]

theorem umodsi3_of_low_ne_zero (o : UmodOperands a b) (hb : b.toNat % 65536 ≠ 0) :
    umodsi3 o = some (moved o.result (o.registers o.result) (a % (b % 65536))) := by
  obtain ⟨g, hg, h0, h1, h2⟩ := run_operands o (List.Subset.refl _)
  have hresult := o.result_free
  have hheld : g o.result = o.registers o.result := by
    apply run_frame hg
    simp only [List.mem_cons, List.not_mem_nil, or_false, not_or] at hresult
    simp [operandsCode, target, hresult]
  have hrest := run_remainder hresult h0 h1 h2 (low_pos hb) toNat_low_lt
  rw [hheld] at hrest
  rw [umodsi3, Operands.value, umodsi3Code_phases, run_append, hg, Option.bind_some]
  exact hrest

theorem umodsi3_of_low_eq_zero (o : UmodOperands a b) (hb : b.toNat % 65536 = 0) : umodsi3 o = none := by
  obtain ⟨g, hg, -, h1, -⟩ := run_operands o (List.Subset.refl _)
  have hlow : (g (.d 1)).toNat % 65536 = 0 := by
    rw [h1, toNat_low, hb]
  rw [umodsi3, Operands.value, umodsi3Code_phases, run_append, hg, Option.bind_some]
  simp [remainderCode, run, exec, divu_of_eq hlow]

end Results

section Exactness

variable {a b d e n : Nat}

theorem div_low_eq_iff (hd : 0 < b % 65536) : a / (b % 65536) = a / b ↔ b < 65536 ∨ a < b % 65536 := by
  constructor
  · intro h
    by_contra! hn
    obtain ⟨hb, ha⟩ := hn
    have hone : 1 ≤ a / (b % 65536) := (Nat.one_le_div_iff hd).mpr ha
    have hle : a / b * b ≤ a := Nat.div_mul_le_self a b
    have hlt : a < (a / (b % 65536) + 1) * (b % 65536) := Nat.lt_mul_of_div_lt (Nat.lt_succ_self _) hd
    have hbig : b % 65536 + b % 65536 ≤ b := by omega
    rw [h] at hone hlt
    have hmul := Nat.mul_le_mul_left (a / b) hbig
    have hmore := Nat.mul_le_mul_right (b % 65536) hone
    rw [Nat.mul_add] at hmul
    rw [Nat.add_mul, Nat.one_mul] at hlt
    omega
  · rintro (hb | ha)
    · rw [Nat.mod_eq_of_lt hb]
    · rw [Nat.div_eq_of_lt ha, Nat.div_eq_of_lt (Nat.lt_of_lt_of_le ha (Nat.mod_le b 65536))]

end Exactness

section Results

variable {a b : UInt32}

theorem toNat_lt_word : b < 65536 ↔ b.toNat < 65536 := UInt32.lt_iff_toNat_lt

theorem low_eq_zero_iff : b % 65536 = 0 ↔ b.toNat % 65536 = 0 := by
  rw [← UInt32.toNat_inj, toNat_low]
  rfl

theorem udivsi3_exact_iff (o : UdivOperands a b) :
    udivsi3 o = some (a / b) ↔ b.toNat % 65536 ≠ 0 ∧ (b < 65536 ∨ a < b % 65536) := by
  by_cases hb : b.toNat % 65536 = 0
  · rw [udivsi3_of_low_eq_zero o hb]
    exact iff_of_false (Option.some_ne_none _).symm fun h => h.1 hb
  · have hiff := @div_low_eq_iff a.toNat b.toNat (Nat.pos_of_ne_zero hb)
    rw [udivsi3_of_low_ne_zero o hb, Option.some_inj, ← UInt32.toNat_inj, UInt32.toNat_div, toNat_low,
      UInt32.toNat_div, hiff, toNat_lt_word, UInt32.lt_iff_toNat_lt, toNat_low]
    exact (and_iff_right hb).symm

theorem upperHalf_congr {t : Reg} {old v w : UInt32} (h : v % 65536 = w % 65536) :
    upperHalf t old v = upperHalf t old w := by
  have hnat : v.toNat % 65536 = w.toNat % 65536 := by
    rw [← toNat_low, h, toNat_low]
  cases t with
  | d n => rfl
  | a n => rw [upperHalf, upperHalf, hnat]

theorem umodsi3_exact_iff (o : UmodOperands a b) :
    umodsi3 o = some (a % b) ↔ b.toNat % 65536 ≠ 0 ∧ a % (b % 65536) = a % b % 65536 ∧
      upperHalf o.result (o.registers o.result) (a % b) = a % b / 65536 := by
  by_cases hb : b.toNat % 65536 = 0
  · rw [umodsi3_of_low_eq_zero o hb]
    exact iff_of_false (Option.some_ne_none _).symm fun h => h.1 hb
  · have hlow : a % (b % 65536) % 65536 = a % (b % 65536) := by
      apply UInt32.toNat.inj
      rw [toNat_low, UInt32.toNat_mod]
      exact Nat.mod_eq_of_lt ((Nat.mod_lt _ (low_pos hb)).trans toNat_low_lt)
    rw [umodsi3_of_low_ne_zero o hb, Option.some_inj, eq_iff_halves, moved_low, moved_high, hlow,
      and_iff_right hb]
    apply and_congr_right
    intro h
    rw [upperHalf_congr (hlow.trans h)]

theorem udivsi3_umodsi3_exact_iff (hb : b ≠ 0) (o : UdivOperands a b) (p : UmodOperands a b) :
    (udivsi3 o = some (a / b) ↔ b < 65536 ∨ a < b % 65536) ∧
      (umodsi3 p = some (a % b) ↔ b % 65536 ≠ 0 ∧ a % (b % 65536) = a % b % 65536 ∧
        upperHalf p.result (p.registers p.result) (a % b) = a % b / 65536) := by
  have hne : b.toNat ≠ 0 := fun h => hb (UInt32.toNat_inj.mp h)
  constructor
  · rw [udivsi3_exact_iff]
    apply and_iff_right_of_imp
    rintro (h | h)
    · rw [toNat_lt_word] at h
      rwa [Nat.mod_eq_of_lt h]
    · rw [UInt32.lt_iff_toNat_lt, toNat_low] at h
      exact Nat.ne_zero_of_lt h
  · rw [umodsi3_exact_iff, Ne, Ne, low_eq_zero_iff]

/-- Operands in two data registers, with a third one for the result that holds `held`. -/
def operandsHolding (a b held : UInt32) : Operands [.d 0, .d 1, .d 2, .d 3] a b where
  result := .d 6
  first := .d 4
  second := .d 5
  registers := fun r => if r = .d 4 then a else if r = .d 5 then b else held
  result_free := by decide
  first_free := by decide
  second_free := by decide
  holds_first := rfl
  holds_second := rfl

def umodOperandsHolding (a b held : UInt32) : UmodOperands a b :=
  (operandsHolding a b held).weaken (fun _ h => List.mem_append_left [.d 3] h)

theorem udivsi3_umodsi3_exact_iff_hundred :
    udivsi3 (operandsHolding 100 7 0) = some (100 / 7) ∧ umodsi3 (umodOperandsHolding 100 7 0) = some (100 % 7) :=
  have h := udivsi3_umodsi3_exact_iff (by decide) (operandsHolding 100 7 0) (umodOperandsHolding 100 7 0)
  ⟨h.1.mpr (by decide), h.2.mpr (by decide)⟩

/-- A divisor of more than a word, and a remainder over a register that was in use. -/
theorem udivsi3_large_divisor :
    udivsi3 (operandsHolding 70000 65537 0) ≠ some (70000 / 65537) ∧
      umodsi3 (umodOperandsHolding 7 10 0x12340000) ≠ some (7 % 10) := by
  decide

theorem umodsi3_depends_on_result (a b : UInt32) :
    ∃ held, umodsi3 (umodOperandsHolding a b held) ≠ some (a % b) := by
  by_contra! h
  have hupper (held : UInt32) := ((umodsi3_exact_iff _).mp (h held)).2.2
  have h0 := hupper 0
  have h1 := hupper 65536
  have hne : (0 : UInt32) / 65536 ≠ 65536 / 65536 := by decide
  exact hne (h0.trans h1.symm)

end Results

end Orion68.Libc
