import Mathlib.Data.UInt
import Orion68.Lib.LongDivision
import Orion68.Lib.Loops

namespace Orion68.Kernel

open Loops LongDivision

section LongDivisions

abbrev Scaled := UInt64 × Int

def escala (n : Nat) (a b : UInt64) : Option Scaled :=
  whileLoop (fun s => decide (s.1 ≤ a)) (fun s => some (s.1 <<< 1, s.2 + 1)) n (b, 0)

def contaBits (n : Nat) (b : UInt64) : Option Scaled :=
  whileLoop (fun s => decide (s.1 > 1)) (fun s => some (s.1 >>> 1, s.2 + 1)) n (b, 0)

structure Division where
  remainder : UInt64
  divisor : UInt64
  quotient : UInt64
  shift : Int

def divide (s : Division) : Option Division :=
  some
    (if s.remainder ≥ s.divisor then
      { remainder := s.remainder - s.divisor
        divisor := s.divisor >>> 1
        quotient := s.quotient ||| (1 <<< s.shift.toNat.toUInt64)
        shift := s.shift - 1 }
    else { s with divisor := s.divisor >>> 1, shift := s.shift - 1 })

/-- No loop goes on for more than `n` rounds, or the result is `none`. -/
def udivdi3 (n : Nat) (a b : UInt64) : Option UInt64 :=
  if b = 0 then some 0
  else if a < b then some 0
  else if b &&& (b - 1) = 0 then (contaBits n b).map fun s => a >>> s.2.toNat.toUInt64
  else
    (escala n a b).bind fun s =>
      (whileLoop (fun s => decide (s.shift ≥ 0)) divide n ⟨a, s.1 >>> 1, 0, s.2 - 1⟩).map (·.quotient)

structure Modulo where
  remainder : UInt64
  divisor : UInt64
  shift : Int

def subtrai (s : Modulo) : Option Modulo :=
  some
    (if s.remainder ≥ s.divisor then ⟨s.remainder - s.divisor, s.divisor >>> 1, s.shift - 1⟩
    else ⟨s.remainder, s.divisor >>> 1, s.shift - 1⟩)

def umoddi3 (n : Nat) (a b : UInt64) : Option UInt64 :=
  if b = 0 then some 0
  else if a < b then some a
  else if b &&& (b - 1) = 0 then some (a &&& (b - 1))
  else
    (escala n a b).bind fun s =>
      (whileLoop (fun s => decide (s.shift ≥ 0)) subtrai n ⟨a, s.1 >>> 1, s.2 - 1⟩).map (·.remainder)

end LongDivisions

section Scaling

variable {a b : UInt64}

theorem toNat_shiftLeft_one (x : UInt64) : (x <<< 1).toNat = x.toNat * 2 % 2 ^ 64 := by
  rw [UInt64.toNat_shiftLeft, Nat.shiftLeft_eq]
  rfl

theorem toNat_shiftRight_one (x : UInt64) : (x >>> 1).toNat = x.toNat / 2 := by
  rw [UInt64.toNat_shiftRight, Nat.shiftRight_eq_div_pow]
  rfl

theorem iterate_dobra (b : UInt64) (k : Nat) :
    (fun s : Scaled => (s.1 <<< 1, s.2 + 1))^[k] (b, 0) = (UInt64.ofNat (b.toNat * 2 ^ k), (k : Int)) := by
  induction k with
  | zero => simp
  | succ k ih =>
      rw [Function.iterate_succ_apply', ih]
      apply Prod.ext
      · apply UInt64.toNat.inj
        rw [toNat_shiftLeft_one, UInt64.toNat_ofNat', UInt64.toNat_ofNat', Nat.mod_mul_mod, Nat.mul_assoc, ← Nat.pow_succ]
      · simp

theorem iterate_metade (b : UInt64) (k : Nat) :
    (fun s : Scaled => (s.1 >>> 1, s.2 + 1))^[k] (b, 0) = (UInt64.ofNat (b.toNat / 2 ^ k), (k : Int)) := by
  induction k with
  | zero => simp
  | succ k ih =>
      rw [Function.iterate_succ_apply', ih]
      apply Prod.ext
      · apply UInt64.toNat.inj
        have hle (i : Nat) : b.toNat / 2 ^ i < 2 ^ 64 := (Nat.div_le_self _ _).trans_lt b.toNat_lt
        rw [toNat_shiftRight_one, UInt64.toNat_ofNat_of_lt' (hle k), UInt64.toNat_ofNat_of_lt' (hle (k + 1)),
          Nat.div_div_eq_div_mul, ← Nat.pow_succ]
      · simp

theorem escala_eq_some_iff {n : Nat} {s : Scaled} :
    escala n a b = some s ↔ ∃ k, k < n ∧ s = (UInt64.ofNat (b.toNat * 2 ^ k), (k : Int)) ∧
      a.toNat < b.toNat * 2 ^ k % 2 ^ 64 ∧ ∀ j, j < k → b.toNat * 2 ^ j % 2 ^ 64 ≤ a.toNat := by
  have hle (k : Nat) : UInt64.ofNat (b.toNat * 2 ^ k) ≤ a ↔ b.toNat * 2 ^ k % 2 ^ 64 ≤ a.toNat := by
    rw [UInt64.le_iff_toNat_le, UInt64.toNat_ofNat']
  rw [escala, whileLoop_eq_some_iff]
  simp only [iterate_dobra, decide_eq_true_eq, decide_eq_false_iff_not, hle, Nat.not_le]

end Scaling

section Subtracting

variable {a d : Nat}

/-- The state before the digit below `s`. -/
def Found (a d : Nat) (t : Division) : Prop :=
  ∃ s : Nat, t.shift = (s : Int) - 1 ∧ t.divisor.toNat = d * 2 ^ s / 2 ∧
    Restoring a d s t.quotient.toNat t.remainder.toNat

theorem toNat_bit {s : Nat} (hs : s < 64) :
    ((1 : UInt64) <<< ((s : Int).toNat.toUInt64)).toNat = 2 ^ s := by
  rw [UInt64.toNat_shiftLeft, Int.toNat_natCast, Nat.toUInt64_eq, UInt64.toNat_ofNat', Nat.mod_eq_of_lt (by omega : s < 2 ^ 64),
    Nat.mod_eq_of_lt hs, UInt64.toNat_one, Nat.one_shiftLeft]
  exact Nat.mod_eq_of_lt (Nat.pow_lt_pow_right Nat.one_lt_two hs)

theorem divide_found (hd : 0 < d) {t : Division} (h : Found a d t) (hshift : t.shift ≥ 0) :
    ∃ u, divide t = some u ∧ Found a d u ∧ (u.shift + 1).toNat < (t.shift + 1).toNat := by
  obtain ⟨s, hs, hdiv, hr⟩ := h
  cases s with
  | zero => exact absurd hshift (by omega)
  | succ s =>
      rw [Nat.pow_succ, ← Nat.mul_assoc, Nat.mul_div_cancel _ Nat.two_pos] at hdiv
      have hs' : t.shift = (s : Int) := by omega
      have hnext : (t.divisor >>> 1).toNat = d * 2 ^ s / 2 := by
        rw [toNat_shiftRight_one, hdiv]
      refine ⟨_, rfl, ?_, ?_⟩
      · split
        next hge =>
          rw [ge_iff_le, UInt64.le_iff_toNat_le] at hge
          rw [hdiv] at hge
          have hlt : s < 64 := by
            have hle := Nat.le_mul_of_pos_left (2 ^ s) hd
            have hmax := t.divisor.toNat_lt
            rw [hdiv] at hmax
            exact (Nat.pow_lt_pow_iff_right Nat.one_lt_two).mp (hle.trans_lt hmax)
          refine ⟨s, by simp only [hs'], hnext, ?_⟩
          have hq : (t.quotient ||| 1 <<< t.shift.toNat.toUInt64).toNat = t.quotient.toNat + 2 ^ s := by
            rw [UInt64.toNat_or, hs', toNat_bit hlt, hr.lor]
          have hrem : (t.remainder - t.divisor).toNat = t.remainder.toNat - d * 2 ^ s := by
            rw [UInt64.toNat_sub_of_le _ _ (UInt64.le_iff_toNat_le.mpr (by rwa [hdiv])), hdiv]
          simp only [hq, hrem]
          exact hr.subtract hge
        next hlt =>
          rw [ge_iff_le, UInt64.le_iff_toNat_le, Nat.not_le, hdiv] at hlt
          exact ⟨s, by simp only [hs'], hnext, hr.keep hlt⟩
      · split <;> simp only [hs'] <;> omega

theorem divide_total {n s : Nat} {r x : UInt64} (hd : 0 < d) (hx : x.toNat = d * 2 ^ s / 2)
    (ha : r.toNat < d * 2 ^ s) (hn : s < n) :
    ∃ t, whileLoop (fun s => decide (s.shift ≥ 0)) divide n ⟨r, x, 0, (s : Int) - 1⟩ = some t ∧
      t.quotient.toNat = r.toNat / d ∧ t.remainder.toNat = r.toNat % d := by
  have hstart : Found r.toNat d ⟨r, x, 0, (s : Int) - 1⟩ := ⟨s, rfl, hx, Restoring.start ha⟩
  obtain ⟨t, ht, ⟨i, hi, -, hr⟩, hend⟩ :=
    @whileLoop_total Division (fun s => decide (s.shift ≥ 0)) divide (Found r.toNat d)
      (fun s => (s.shift + 1).toNat) (fun s hs hc => divide_found hd hs (of_decide_eq_true hc)) n _ hstart
      (by simpa using hn)
  have hneg := of_decide_eq_false hend
  obtain rfl : i = 0 := by omega
  exact ⟨t, ht, hr.result⟩

def Division.modulo (s : Division) : Modulo := ⟨s.remainder, s.divisor, s.shift⟩

theorem subtrai_modulo (s : Division) : subtrai s.modulo = (divide s).map Division.modulo := by
  by_cases h : s.remainder ≥ s.divisor <;> simp [subtrai, divide, Division.modulo, h]

theorem subtrai_loop (n : Nat) (s : Division) :
    whileLoop (fun s => decide (s.shift ≥ 0)) subtrai n s.modulo =
      (whileLoop (fun s => decide (s.shift ≥ 0)) divide n s).map Division.modulo :=
  whileLoop_map (fun _ => rfl) subtrai_modulo n s

end Subtracting

section FirstFits

/-- The shift at which the divisor is first too large, as the code compares them. -/
def FirstFit (a b k : Nat) : Prop := a < b * 2 ^ k % 2 ^ 64 ∧ ∀ j, j < k → b * 2 ^ j % 2 ^ 64 ≤ a

variable {a b k : Nat}

theorem FirstFit.lt (h : FirstFit a b k) : k < 64 := by
  by_contra! hk
  have hdvd : 2 ^ 64 ∣ b * 2 ^ k := (Nat.pow_dvd_pow 2 hk).trans (Nat.dvd_mul_left _ _)
  have hlt := h.1
  rw [Nat.mod_eq_zero_of_dvd hdvd] at hlt
  exact absurd hlt (Nat.not_lt_zero a)

theorem shifted_mod (b : Nat) (hk : k ≤ 64) : b * 2 ^ k % 2 ^ 64 = b % 2 ^ (64 - k) * 2 ^ k := by
  have hpow : 2 ^ 64 = 2 ^ (64 - k) * 2 ^ k := by rw [← Nat.pow_add, Nat.sub_add_cancel hk]
  rw [hpow, Nat.mul_mod_mul_right]

theorem fits_iff (b : Nat) (hk : k ≤ 64) : b * 2 ^ k < 2 ^ 64 ↔ b < 2 ^ (64 - k) := by
  have hpow : 2 ^ (64 - k) * 2 ^ k = 2 ^ 64 := by rw [← Nat.pow_add, Nat.sub_add_cancel hk]
  rw [← hpow]
  exact Nat.mul_lt_mul_right (Nat.two_pow_pos k)

/-- A divisor that has lost bits is less than half the divisor, and the quotient at least twice the quotient. -/
theorem FirstFit.exact_iff (h : FirstFit a b k) (hle : b ≤ a) :
    a / (b % 2 ^ (64 - k)) = a / b ↔ b * 2 ^ k < 2 ^ 64 := by
  have hk := h.lt
  have hlt := h.1
  rw [shifted_mod b hk.le] at hlt
  have hpos : 0 < b % 2 ^ (64 - k) := Nat.pos_of_mul_pos_right (Nat.zero_lt_of_lt hlt)
  rw [fits_iff b hk.le]
  constructor
  · intro heq
    by_contra! hge
    have hmod : b % 2 ^ (64 - k) < 2 ^ (64 - k) := Nat.mod_lt _ (Nat.two_pow_pos _)
    have hone : 2 ^ (64 - k) ≤ 2 ^ (64 - k) * (b / 2 ^ (64 - k)) :=
      Nat.le_mul_of_pos_right _ (Nat.div_pos hge (Nat.two_pow_pos _))
    have hsum := Nat.div_add_mod b (2 ^ (64 - k))
    have htwo : 2 * (b % 2 ^ (64 - k)) ≤ b := by omega
    have hq : 1 ≤ a / b := (Nat.one_le_div_iff (hpos.trans_le (Nat.mod_le _ _))).mpr hle
    have hmul : a / b * b ≤ a := Nat.div_mul_le_self a b
    have hdouble : 2 * (a / b) ≤ a / (b % 2 ^ (64 - k)) := by
      rw [Nat.le_div_iff_mul_le hpos]
      calc 2 * (a / b) * (b % 2 ^ (64 - k)) = a / b * (2 * (b % 2 ^ (64 - k))) := by ring
        _ ≤ a / b * b := Nat.mul_le_mul_left _ htwo
        _ ≤ a := hmul
    omega
  · intro hb
    rw [Nat.mod_eq_of_lt hb]

theorem exists_firstFit_iff : (∃ k, FirstFit a b k ∧ b * 2 ^ k < 2 ^ 64) ↔
    ∃ k, b * 2 ^ k < 2 ^ 64 ∧ a < b * 2 ^ k := by
  constructor
  · rintro ⟨k, h, hk⟩
    refine ⟨k, hk, ?_⟩
    have hlt := h.1
    rwa [Nat.mod_eq_of_lt hk] at hlt
  · rintro ⟨k, hk, hlt⟩
    have hex : ∃ k, a < b * 2 ^ k := ⟨k, hlt⟩
    have hmin : Nat.find hex ≤ k := Nat.find_min' hex hlt
    have hfits {j : Nat} (hj : j ≤ k) : b * 2 ^ j < 2 ^ 64 :=
      (Nat.mul_le_mul_left b (Nat.pow_le_pow_right Nat.two_pos hj)).trans_lt hk
    refine ⟨Nat.find hex, ⟨?_, ?_⟩, hfits hmin⟩
    · rw [Nat.mod_eq_of_lt (hfits hmin)]
      exact Nat.find_spec hex
    · intro j hj
      rw [Nat.mod_eq_of_lt (hfits (hj.le.trans hmin))]
      exact Nat.not_lt.mp (Nat.find_min hex hj)

end FirstFits

section Results

variable {a b : UInt64} {n : Nat}

theorem divide_after_escala {k : Nat} (h : FirstFit a.toNat b.toNat k) (hn : k < n) :
    ∃ t, whileLoop (fun s => decide (s.shift ≥ 0)) divide n
        ⟨a, UInt64.ofNat (b.toNat * 2 ^ k) >>> 1, 0, (k : Int) - 1⟩ = some t ∧
      t.quotient.toNat = a.toNat / (b.toNat % 2 ^ (64 - k)) ∧
      t.remainder.toNat = a.toNat % (b.toNat % 2 ^ (64 - k)) := by
  have hscaled := shifted_mod b.toNat h.lt.le
  have hlt := h.1
  rw [hscaled] at hlt
  apply divide_total (Nat.pos_of_mul_pos_right (Nat.zero_lt_of_lt hlt)) _ hlt hn
  rw [toNat_shiftRight_one, UInt64.toNat_ofNat', hscaled]

theorem udivdi3_long (hb : b ≠ 0) (hle : ¬a < b) (htwo : b &&& (b - 1) ≠ 0) {q : UInt64} :
    udivdi3 n a b = some q ↔
      ∃ k, k < n ∧ FirstFit a.toNat b.toNat k ∧ q.toNat = a.toNat / (b.toNat % 2 ^ (64 - k)) := by
  rw [udivdi3, if_neg hb, if_neg hle, if_neg htwo, Option.bind_eq_some_iff]
  constructor
  · rintro ⟨s, hs, hq⟩
    obtain ⟨k, hk, rfl, hfit⟩ := escala_eq_some_iff.mp hs
    obtain ⟨t, ht, htq, -⟩ := divide_after_escala hfit hk
    rw [ht] at hq
    obtain rfl := Option.some.inj hq
    exact ⟨k, hk, hfit, htq⟩
  · rintro ⟨k, hk, hfit, hq⟩
    obtain ⟨t, ht, htq, -⟩ := divide_after_escala hfit hk
    refine ⟨_, escala_eq_some_iff.mpr ⟨k, hk, rfl, hfit⟩, ?_⟩
    rw [ht, Option.map_some, Option.some_inj]
    exact UInt64.toNat.inj (htq.trans hq.symm)

theorem umoddi3_long (hb : b ≠ 0) (hle : ¬a < b) (htwo : b &&& (b - 1) ≠ 0) {k : Nat} (hk : k < n)
    (hfit : FirstFit a.toNat b.toNat k) :
    ∃ r, umoddi3 n a b = some r ∧ r.toNat = a.toNat % (b.toNat % 2 ^ (64 - k)) := by
  obtain ⟨t, ht, -, htr⟩ := divide_after_escala hfit hk
  refine ⟨t.remainder, ?_, htr⟩
  have hscale := escala_eq_some_iff.mpr ⟨k, hk, rfl, hfit⟩
  have hloop := subtrai_loop n ⟨a, UInt64.ofNat (b.toNat * 2 ^ k) >>> 1, 0, (k : Int) - 1⟩
  rw [ht, Division.modulo] at hloop
  rw [umoddi3, if_neg hb, if_neg hle, if_neg htwo, hscale, Option.bind_some, hloop]
  rfl

theorem and_sub_one_eq_zero_iff (hb : b ≠ 0) : b &&& (b - 1) = 0 ↔ b.toNat.isPowerOfTwo := by
  have hne : b.toNat ≠ 0 := fun h => hb (UInt64.toNat_inj.mp h)
  have hone : (1 : UInt64) ≤ b := UInt64.le_iff_toNat_le.mpr (Nat.pos_of_ne_zero hne)
  rw [← Nat.and_sub_one_eq_zero_iff_isPowerOfTwo hne, ← UInt64.toNat_inj, UInt64.toNat_and,
    UInt64.toNat_sub_of_le _ _ hone]
  rfl

theorem toNat_shiftRight_natCast (x : UInt64) {k : Nat} (hk : k < 64) :
    (x >>> (k : Int).toNat.toUInt64).toNat = x.toNat / 2 ^ k := by
  rw [UInt64.toNat_shiftRight, Int.toNat_natCast, Nat.toUInt64_eq, UInt64.toNat_ofNat',
    Nat.mod_eq_of_lt (by omega : k < 2 ^ 64), Nat.mod_eq_of_lt hk, Nat.shiftRight_eq_div_pow]

theorem udivdi3_of_isPowerOfTwo (hb : b ≠ 0) (hle : ¬a < b) (htwo : b.toNat.isPowerOfTwo) :
    ∃ n, udivdi3 n a b = some (a / b) := by
  have htest := (and_sub_one_eq_zero_iff hb).mpr htwo
  obtain ⟨k, hk⟩ := htwo
  have hlt : k < 64 := (Nat.pow_lt_pow_iff_right Nat.one_lt_two).mp (hk ▸ b.toNat_lt)
  have hpow (j : Nat) (hj : j ≤ k) : (UInt64.ofNat (b.toNat / 2 ^ j)).toNat = 2 ^ (k - j) := by
    rw [UInt64.toNat_ofNat_of_lt' ((Nat.div_le_self _ _).trans_lt b.toNat_lt), hk, Nat.pow_div hj Nat.two_pos]
  have hcount : contaBits (k + 1) b = some (UInt64.ofNat (b.toNat / 2 ^ k), (k : Int)) := by
    rw [contaBits, whileLoop_eq_some_iff]
    refine ⟨k, Nat.lt_succ_self k, (iterate_metade b k).symm, ?_, ?_⟩
    · rw [iterate_metade, decide_eq_false_iff_not, gt_iff_lt, UInt64.lt_iff_toNat_lt, hpow k le_rfl, Nat.sub_self]
      exact Nat.lt_irrefl 1
    · intro j hj
      rw [iterate_metade, decide_eq_true_eq, gt_iff_lt, UInt64.lt_iff_toNat_lt, hpow j hj.le]
      exact Nat.one_lt_two_pow (Nat.sub_ne_zero_of_lt hj)
  refine ⟨k + 1, ?_⟩
  rw [udivdi3, if_neg hb, if_neg hle, if_pos htest, hcount, Option.map_some, Option.some_inj]
  apply UInt64.toNat.inj
  rw [toNat_shiftRight_natCast a hlt, UInt64.toNat_div, hk]

theorem umoddi3_of_isPowerOfTwo (hb : b ≠ 0) (hle : ¬a < b) (htwo : b.toNat.isPowerOfTwo) :
    umoddi3 n a b = some (a % b) := by
  have hone : (1 : UInt64) ≤ b :=
    UInt64.le_iff_toNat_le.mpr (Nat.pos_of_ne_zero fun h => hb (UInt64.toNat_inj.mp h))
  rw [umoddi3, if_neg hb, if_neg hle, if_pos ((and_sub_one_eq_zero_iff hb).mpr htwo), Option.some_inj]
  obtain ⟨k, hk⟩ := htwo
  apply UInt64.toNat.inj
  rw [UInt64.toNat_and, UInt64.toNat_sub_of_le _ _ hone, UInt64.toNat_mod, hk]
  exact Nat.and_two_pow_sub_one_eq_mod a.toNat k

theorem udivdi3_exact_iff (hb : b ≠ 0) :
    (∃ n, udivdi3 n a b = some (a / b)) ↔
      b.toNat.isPowerOfTwo ∨ ∃ k, b.toNat * 2 ^ k < 2 ^ 64 ∧ a.toNat < b.toNat * 2 ^ k := by
  by_cases hle : a < b
  · apply iff_of_true
    · refine ⟨0, ?_⟩
      rw [udivdi3, if_neg hb, if_pos hle, Option.some_inj]
      apply UInt64.toNat.inj
      rw [UInt64.toNat_div, Nat.div_eq_of_lt (UInt64.lt_iff_toNat_lt.mp hle)]
      rfl
    · refine Or.inr ⟨0, ?_, ?_⟩
      · simpa using b.toNat_lt
      · simpa using UInt64.lt_iff_toNat_lt.mp hle
  by_cases htwo : b.toNat.isPowerOfTwo
  · exact iff_of_true (udivdi3_of_isPowerOfTwo hb hle htwo) (Or.inl htwo)
  have htest : b &&& (b - 1) ≠ 0 := fun h => htwo ((and_sub_one_eq_zero_iff hb).mp h)
  have hge : b.toNat ≤ a.toNat := Nat.not_lt.mp fun h => hle (UInt64.lt_iff_toNat_lt.mpr h)
  rw [or_iff_right htwo, ← exists_firstFit_iff]
  simp only [udivdi3_long hb hle htest, UInt64.toNat_div]
  constructor
  · rintro ⟨n, k, -, hfit, hq⟩
    exact ⟨k, hfit, (hfit.exact_iff hge).mp hq.symm⟩
  · rintro ⟨k, hfit, hk⟩
    exact ⟨k + 1, k, Nat.lt_succ_self k, hfit, ((hfit.exact_iff hge).mpr hk).symm⟩

theorem umoddi3_exact (hb : b ≠ 0)
    (h : b.toNat.isPowerOfTwo ∨ ∃ k, b.toNat * 2 ^ k < 2 ^ 64 ∧ a.toNat < b.toNat * 2 ^ k) :
    ∃ n, umoddi3 n a b = some (a % b) := by
  by_cases hle : a < b
  · refine ⟨0, ?_⟩
    rw [umoddi3, if_neg hb, if_pos hle, Option.some_inj]
    apply UInt64.toNat.inj
    rw [UInt64.toNat_mod, Nat.mod_eq_of_lt (UInt64.lt_iff_toNat_lt.mp hle)]
  by_cases htwo : b.toNat.isPowerOfTwo
  · exact ⟨0, umoddi3_of_isPowerOfTwo hb hle htwo⟩
  have htest : b &&& (b - 1) ≠ 0 := fun h => htwo ((and_sub_one_eq_zero_iff hb).mp h)
  obtain ⟨k, hfit, hk⟩ := exists_firstFit_iff.mpr (h.resolve_left htwo)
  obtain ⟨r, hr, hmod⟩ := umoddi3_long hb hle htest (Nat.lt_succ_self k) hfit
  have hsmall := (fits_iff b.toNat hfit.lt.le).mp hk
  refine ⟨k + 1, hr.trans (congrArg some (UInt64.toNat.inj ?_))⟩
  rw [hmod, Nat.mod_eq_of_lt hsmall, UInt64.toNat_mod]

theorem udivdi3_umoddi3_exact_iff (hb : b ≠ 0) :
    ((∃ n, udivdi3 n a b = some (a / b)) ∧ ∃ n, umoddi3 n a b = some (a % b)) ↔
      b.toNat.isPowerOfTwo ∨ ∃ k, b.toNat * 2 ^ k < 2 ^ 64 ∧ a.toNat < b.toNat * 2 ^ k :=
  ⟨fun h => (udivdi3_exact_iff hb).mp h.1, fun h => ⟨(udivdi3_exact_iff hb).mpr h, umoddi3_exact hb h⟩⟩

theorem udivdi3_umoddi3_exact_iff_ten :
    (∃ n, udivdi3 n 1000003 10 = some 100000) ∧ ∃ n, umoddi3 n 1000003 10 = some 3 :=
  (udivdi3_umoddi3_exact_iff (a := 1000003) (b := 10) (by decide)).mpr (Or.inr ⟨20, by decide, by decide⟩)

theorem udivdi3_diverges (hb : b ≠ 0) (htwo : ¬b.toNat.isPowerOfTwo)
    (h : ∀ k, b.toNat * 2 ^ k % 2 ^ 64 ≤ a.toNat) (n : Nat) : udivdi3 n a b = none := by
  have htest : b &&& (b - 1) ≠ 0 := fun h => htwo ((and_sub_one_eq_zero_iff hb).mp h)
  have hle : ¬a < b := by
    rw [UInt64.lt_iff_toNat_lt, Nat.not_lt]
    simpa [Nat.mod_eq_of_lt b.toNat_lt] using h 0
  rw [Option.eq_none_iff_forall_not_mem]
  intro q hq
  obtain ⟨k, -, hfit, -⟩ := (udivdi3_long hb hle htest).mp hq
  exact absurd (h k) (Nat.not_le.mpr hfit.1)

theorem udivdi3_of_largest :
    ¬((∃ n, udivdi3 n 0xFFFFFFFFFFFFFFFF 3 = some (0xFFFFFFFFFFFFFFFF / 3)) ∧
      ∃ n, umoddi3 n 0xFFFFFFFFFFFFFFFF 3 = some (0xFFFFFFFFFFFFFFFF % 3)) := by
  rintro ⟨⟨n, hn⟩, -⟩
  rw [udivdi3_diverges (by decide) (by decide) fun k => Nat.le_sub_one_of_lt (Nat.mod_lt _ (by decide))] at hn
  exact absurd hn.symm (Option.some_ne_none _)

end Results

end Orion68.Kernel
