import Mathlib.Tactic.Ring

namespace Orion68.Kernel

section Multiplication

variable (a b : BitVec 64)

def low : BitVec 32 := (a &&& 0xFFFFFFFF#64).setWidth 32

def high : BitVec 32 := (a.sshiftRight 32).setWidth 32

def p0 : BitVec 64 := (low a).setWidth 64 * (low b).setWidth 64

def p1 : BitVec 64 :=
  (high a).setWidth 64 * (low b).setWidth 64 + (low a).setWidth 64 * (high b).setWidth 64

def p2 : BitVec 64 := (high a).setWidth 64 * (high b).setWidth 64

/-- `result_low` and `result_high` when the result is put together. -/
def resultLow : BitVec 64 := p0 a b + p1 a b <<< 32

def resultHigh : BitVec 64 :=
  (if resultLow a b < p1 a b <<< 32 then p2 a b + 1 else p2 a b) + p1 a b >>> 32 + p2 a b

def muldi3 : BitVec 64 :=
  let result := (resultHigh a b <<< 32) ||| resultLow a b
  if a.slt 0#64 ^^ b.slt 0#64 then -result else result

end Multiplication

section Halves

variable (a b : BitVec 64)

theorem toNat_low : ((low a).setWidth 64).toNat = a.toNat % 2 ^ 32 := by
  have hmask := Nat.and_two_pow_sub_one_eq_mod a.toNat 32
  simp only [low, BitVec.toNat_setWidth, BitVec.toNat_and, BitVec.toNat_ofNat]
  norm_num at hmask ⊢
  omega

theorem toNat_high : ((high a).setWidth 64).toNat = a.toNat / 2 ^ 32 := by
  have hshift : high a = (a >>> 32).setWidth 32 := by
    ext i hi
    have hlt : 32 + i < 64 := by omega
    have hnle : ¬64 ≤ i := by omega
    simp [high, BitVec.getLsbD_sshiftRight, hlt, hnle]
  have ha := a.isLt
  rw [hshift]
  simp only [BitVec.toNat_setWidth, BitVec.toNat_ushiftRight, Nat.shiftRight_eq_div_pow]
  omega

theorem mul_halves (m n : Nat) :
    m * n = m / 2 ^ 32 * (n / 2 ^ 32) * 2 ^ 64 +
      (m / 2 ^ 32 * (n % 2 ^ 32) + m % 2 ^ 32 * (n / 2 ^ 32)) * 2 ^ 32 + m % 2 ^ 32 * (n % 2 ^ 32) := by
  have hm := Nat.div_add_mod m (2 ^ 32)
  have hn := Nat.div_add_mod n (2 ^ 32)
  calc m * n = (2 ^ 32 * (m / 2 ^ 32) + m % 2 ^ 32) * (2 ^ 32 * (n / 2 ^ 32) + n % 2 ^ 32) := by rw [hm, hn]
    _ = m / 2 ^ 32 * (n / 2 ^ 32) * 2 ^ 64 +
        (m / 2 ^ 32 * (n % 2 ^ 32) + m % 2 ^ 32 * (n / 2 ^ 32)) * 2 ^ 32 + m % 2 ^ 32 * (n % 2 ^ 32) := by ring

theorem mul_digit_lt {m n : Nat} (hm : m < 2 ^ 32) (hn : n < 2 ^ 32) : m * n < 2 ^ 64 :=
  (Nat.mul_lt_mul'' hm hn).trans_eq (by norm_num)

theorem toNat_p0 : (p0 a b).toNat = a.toNat % 2 ^ 32 * (b.toNat % 2 ^ 32) := by
  rw [p0, BitVec.toNat_mul, toNat_low, toNat_low]
  exact Nat.mod_eq_of_lt (mul_digit_lt (Nat.mod_lt _ (by norm_num)) (Nat.mod_lt _ (by norm_num)))

theorem toNat_p2 : (p2 a b).toNat = a.toNat / 2 ^ 32 * (b.toNat / 2 ^ 32) := by
  have ha := a.isLt
  have hb := b.isLt
  rw [p2, BitVec.toNat_mul, toNat_high, toNat_high]
  exact Nat.mod_eq_of_lt (mul_digit_lt (by omega) (by omega))

theorem toNat_p1 :
    (p1 a b).toNat =
      (a.toNat / 2 ^ 32 * (b.toNat % 2 ^ 32) + a.toNat % 2 ^ 32 * (b.toNat / 2 ^ 32)) % 2 ^ 64 := by
  rw [p1, BitVec.toNat_add, BitVec.toNat_mul, BitVec.toNat_mul, toNat_low, toNat_high, toNat_low, toNat_high,
    ← Nat.add_mod]

end Halves

section Parts

theorem add_carry (p x y : BitVec 64) :
    (if x + y < y then p + 1 else p) = p + BitVec.ofNat 64 ((x.toNat + y.toNat) / 2 ^ 64) := by
  have hx := x.isLt
  have hy := y.isLt
  by_cases h : x.toNat + y.toNat < 2 ^ 64
  · have hlt : ¬x + y < y := by
      rw [BitVec.lt_def, BitVec.toNat_add, Nat.mod_eq_of_lt h]
      omega
    rw [if_neg hlt, Nat.div_eq_of_lt h]
    exact (BitVec.add_zero p).symm
  · have hlt : x + y < y := by
      rw [BitVec.lt_def, BitVec.toNat_add]
      omega
    have hone : (x.toNat + y.toNat) / 2 ^ 64 = 1 := by omega
    rw [if_pos hlt, hone]
    rfl

/-- What stands over the lower half before it is put to the upper one: the upper half of the product, with the
product of the upper words once more. -/
def overlay (m n : Nat) : Nat := (m * n / 2 ^ 64 + m / 2 ^ 32 * (n / 2 ^ 32)) % 2 ^ 32

variable (a b : BitVec 64)

theorem resultLow_eq : resultLow a b = a * b := by
  apply BitVec.eq_of_toNat_eq
  rw [resultLow, BitVec.toNat_add, BitVec.toNat_shiftLeft, toNat_p0, toNat_p1, BitVec.toNat_mul,
    mul_halves a.toNat b.toNat, Nat.shiftLeft_eq]
  omega

theorem upper_halves (p s q : Nat) :
    (p * 2 ^ 64 + s * 2 ^ 32 + q) / 2 ^ 64 = p + s / 2 ^ 32 + (q + s % 2 ^ 64 * 2 ^ 32 % 2 ^ 64) / 2 ^ 64 := by
  omega

theorem mod_upper (p s c : Nat) :
    (((p + c % 2 ^ 64) % 2 ^ 64 + s % 2 ^ 64 / 2 ^ 32) % 2 ^ 64 + p) % 2 ^ 64 % 2 ^ 32 =
      (p + s / 2 ^ 32 + c + p) % 2 ^ 32 := by
  omega

theorem toNat_resultHigh : (resultHigh a b).toNat % 2 ^ 32 = overlay a.toNat b.toNat := by
  have hlow : (p1 a b <<< 32).toNat = (p1 a b).toNat * 2 ^ 32 % 2 ^ 64 := by
    rw [BitVec.toNat_shiftLeft, Nat.shiftLeft_eq]
  have hhigh : (p1 a b >>> 32).toNat = (p1 a b).toNat / 2 ^ 32 := by
    rw [BitVec.toNat_ushiftRight, Nat.shiftRight_eq_div_pow]
  rw [overlay, mul_halves, ← toNat_p2, ← toNat_p0, upper_halves, ← toNat_p1, ← hlow, resultHigh, resultLow, add_carry,
    BitVec.toNat_add, BitVec.toNat_add, BitVec.toNat_add, BitVec.toNat_ofNat, hhigh, toNat_p1, mod_upper]

end Parts

section Exactness

theorem lor_halves {h u l : Nat} (hl : l < 2 ^ 32) :
    h * 2 ^ 32 ||| (u * 2 ^ 32 + l) = (h ||| u) * 2 ^ 32 + l := by
  have hu := Nat.two_pow_add_eq_or_of_lt hl u
  have hhu := Nat.two_pow_add_eq_or_of_lt hl (h ||| u)
  have hshift : 2 ^ 32 * (h ||| u) = h * 2 ^ 32 ||| 2 ^ 32 * u := by
    rw [Nat.mul_comm, Nat.mul_comm (2 ^ 32), ← Nat.shiftLeft_eq, ← Nat.shiftLeft_eq, ← Nat.shiftLeft_eq,
      Nat.shiftLeft_or_distrib]
  rw [Nat.mul_comm u, Nat.mul_comm (h ||| u), hu, hhu, ← Nat.or_assoc, hshift]

def lowWord (m n : Nat) : Nat := m * n % 2 ^ 32

def highWord (m n : Nat) : Nat := m * n / 2 ^ 32 % 2 ^ 32

variable (a b : BitVec 64)

theorem toNat_product :
    (a * b).toNat = highWord a.toNat b.toNat * 2 ^ 32 + lowWord a.toNat b.toNat := by
  rw [BitVec.toNat_mul, highWord, lowWord]
  omega

theorem toNat_result : ((resultHigh a b <<< 32) ||| resultLow a b).toNat =
    (overlay a.toNat b.toNat ||| highWord a.toNat b.toNat) * 2 ^ 32 + lowWord a.toNat b.toNat := by
  have hshift : (resultHigh a b <<< 32).toNat = overlay a.toNat b.toNat * 2 ^ 32 := by
    rw [← toNat_resultHigh, BitVec.toNat_shiftLeft, Nat.shiftLeft_eq]
    exact Nat.mul_mod_mul_right (2 ^ 32) _ (2 ^ 32)
  rw [BitVec.toNat_or, hshift, resultLow_eq, toNat_product]
  exact lor_halves (Nat.mod_lt _ (by norm_num))

theorem neg_eq_iff {x y : BitVec 64} : -x = y ↔ (x.toNat + y.toNat) % 2 ^ 64 = 0 := by
  have hx := x.isLt
  have hy := y.isLt
  rw [← BitVec.toNat_inj, BitVec.toNat_neg]
  omega

theorem double_eq_zero_iff {v u l : Nat} (hl : l < 2 ^ 32) :
    (v * 2 ^ 32 + l + (u * 2 ^ 32 + l)) % 2 ^ 64 = 0 ↔
      l = 0 ∧ (v + u) % 2 ^ 32 = 0 ∨ l = 2 ^ 31 ∧ (v + u + 1) % 2 ^ 32 = 0 := by
  omega

theorem muldi3_exact_iff :
    muldi3 a b = a * b ↔
      if a.slt 0#64 = b.slt 0#64 then
        overlay a.toNat b.toNat ||| highWord a.toNat b.toNat = highWord a.toNat b.toNat
      else
        lowWord a.toNat b.toNat = 0 ∧
            ((overlay a.toNat b.toNat ||| highWord a.toNat b.toNat) + highWord a.toNat b.toNat) % 2 ^ 32 = 0 ∨
          lowWord a.toNat b.toNat = 2 ^ 31 ∧
            ((overlay a.toNat b.toNat ||| highWord a.toNat b.toNat) + highWord a.toNat b.toNat + 1) % 2 ^ 32 = 0 := by
  have hl : lowWord a.toNat b.toNat < 2 ^ 32 := Nat.mod_lt _ (by norm_num)
  by_cases hs : a.slt 0#64 = b.slt 0#64
  · rw [muldi3, hs, Bool.xor_self, if_neg Bool.false_ne_true, if_pos rfl, ← BitVec.toNat_inj, toNat_result,
      toNat_product]
    omega
  · have hxor : (a.slt 0#64 ^^ b.slt 0#64) = true := bne_iff_ne.mpr hs
    rw [muldi3, if_pos hxor, if_neg hs, neg_eq_iff, toNat_result, toNat_product]
    exact double_eq_zero_iff hl

theorem muldi3_minus_one_one : muldi3 (-1#64) 1#64 ≠ -1#64 * 1#64 := by
  decide

end Exactness

end Orion68.Kernel
