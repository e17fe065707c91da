import Mathlib.Algebra.Order.Ring.Int
import Orion68.Lib.Loops

namespace Orion68.Kernel

open Loops

section SignedDivisions

/-- An operand without its sign, and what is left of the sign of the result. -/
def tiraSinal (x : Int64) (sign : Int32) : Int64 × Int32 := if x < 0 then (-x, -sign) else (x, sign)

/-- The loop of `__divdi3`, given up after `n` rounds like the one of `__moddi3`. -/
def conta (n : Nat) (a b : Int64) : Option (Int64 × Int64) :=
  whileLoop (fun s => decide (s.1 ≥ b)) (fun s => some (s.1 - b, s.2 + 1)) n (a, 0)

def resta (n : Nat) (a b : Int64) : Option Int64 := whileLoop (fun a => decide (a ≥ b)) (fun a => some (a - b)) n a

def divdi3 (n : Nat) (a b : Int64) : Option Int64 :=
  if b = 0 then some 0
  else
    let (a, sign) := tiraSinal a 1
    let (b, sign) := tiraSinal b sign
    (conta n a b).map fun s => s.2 * sign.toInt64

def moddi3 (n : Nat) (a b : Int64) : Option Int64 :=
  if b = 0 then some 0
  else
    let (a, sign) := tiraSinal a 1
    let b := if b < 0 then -b else b
    (resta n a b).map fun a => a * sign.toInt64

end SignedDivisions

section Signs

variable {a b x : Int64}

theorem lt_toInt_of_ne (h : x ≠ Int64.minValue) : -2 ^ 63 < x.toInt := by
  apply lt_of_le_of_ne x.minValue_le_toInt
  exact fun heq => h (Int64.toInt_inj.mp heq.symm)

theorem toInt_neg_of_ne (h : x ≠ Int64.minValue) : (-x).toInt = -x.toInt := by
  have hleast := lt_toInt_of_ne h
  have hlt := x.toInt_lt
  rw [Int64.toInt_neg]
  apply Int.bmod_eq_of_le <;> omega

def sinal (x : Int64) : Int32 := if x < 0 then -1 else 1

theorem tiraSinal_eq (h : x ≠ Int64.minValue) (sign : Int32) :
    (tiraSinal x sign).1.toInt = |x.toInt| ∧ (tiraSinal x sign).2 = sinal x * sign := by
  rw [tiraSinal, sinal]
  split
  next hneg =>
    have hlt : x.toInt < 0 := Int64.lt_iff_toInt_lt.mp hneg
    rw [toInt_neg_of_ne h, abs_of_neg hlt, Int32.neg_eq_neg_one_mul]
    exact ⟨rfl, rfl⟩
  next hpos =>
    have hle : 0 ≤ x.toInt := by
      apply Int.not_lt.mp
      exact fun hlt => hpos (Int64.lt_iff_toInt_lt.mpr hlt)
    rw [abs_of_nonneg hle, Int32.one_mul]
    exact ⟨rfl, rfl⟩

end Signs

section Subtractions

variable {a b : Int64}

/-- What has been taken off `a` is `b` as often as was counted. -/
def Contado (a b : Int64) (s : Int64 × Int64) : Prop :=
  0 ≤ s.1.toInt ∧ 0 ≤ s.2.toInt ∧ s.1.toInt + b.toInt * s.2.toInt = a.toInt

theorem Contado.step (hb : 0 < b.toInt) {s : Int64 × Int64} (h : Contado a b s) (hge : s.1 ≥ b) :
    Contado a b (s.1 - b, s.2 + 1) ∧ (s.1 - b).toInt.toNat < s.1.toInt.toNat := by
  obtain ⟨hrest, hcount, hsum⟩ := h
  have hle : b.toInt ≤ s.1.toInt := Int64.le_iff_toInt_le.mp hge
  have ha := a.toInt_lt
  have hcounted : s.2.toInt ≤ b.toInt * s.2.toInt := le_mul_of_one_le_left hcount hb
  have hsub : (s.1 - b).toInt = s.1.toInt - b.toInt := by
    have hlt := s.1.toInt_lt
    rw [Int64.toInt_sub]
    apply Int.bmod_eq_of_le <;> omega
  have hadd : (s.2 + 1).toInt = s.2.toInt + 1 := by
    rw [Int64.toInt_add, Int64.toInt_one]
    apply Int.bmod_eq_of_le <;> omega
  refine ⟨⟨?_, ?_, ?_⟩, ?_⟩
  · rw [hsub]
    omega
  · rw [hadd]
    omega
  · rw [hsub, hadd, mul_add, mul_one]
    omega
  · rw [hsub]
    omega

theorem conta_total (ha : 0 ≤ a.toInt) (hb : 0 < b.toInt) {n : Nat} (hn : a.toInt.toNat < n) :
    ∃ s, conta n a b = some s ∧ s.2.toInt = a.toInt / b.toInt ∧ s.1.toInt = a.toInt % b.toInt := by
  have hstart : Contado a b (a, 0) := ⟨ha, le_refl _, by simp⟩
  obtain ⟨s, hs, ⟨hrest, -, hsum⟩, hend⟩ := whileLoop_total (fun s : Int64 × Int64 => s.1.toInt.toNat)
    (fun s hI hc => ⟨_, rfl, hI.step hb (of_decide_eq_true hc)⟩) hstart hn
  have hlt : s.1.toInt < b.toInt := Int.not_le.mp fun hle => of_decide_eq_false hend (Int64.le_iff_toInt_le.mpr hle)
  obtain ⟨hq, hr⟩ := (Int.ediv_emod_unique hb).mpr ⟨hsum, hrest, hlt⟩
  exact ⟨s, hs, hq.symm, hr.symm⟩

theorem resta_eq (n : Nat) (a b : Int64) : resta n a b = (conta n a b).map Prod.fst :=
  whileLoop_map (g := Prod.fst) (fun _ => rfl) (fun _ => rfl) n (a, (0 : Int64))

theorem conta_of_least (n : Nat) (a : Int64) : conta n a Int64.minValue = none :=
  whileLoop_diverges (I := fun _ => True) (fun s _ => decide_eq_true (Int64.minValue_le s.1))
    (fun _ _ _ _ => trivial) n trivial

end Subtractions

section Division

variable {a b : Int64}

theorem sinal_cases (x : Int64) : 0 ≤ x.toInt ∧ sinal x = 1 ∨ x.toInt < 0 ∧ sinal x = -1 := by
  by_cases h : x < 0
  · exact Or.inr ⟨Int64.lt_iff_toInt_lt.mp h, if_pos h⟩
  · exact Or.inl ⟨Int.not_lt.mp fun hlt => h (Int64.lt_iff_toInt_lt.mpr hlt), if_neg h⟩

theorem toInt_mul_sign {x : Int64} (hx : 0 ≤ x.toInt) {sign : Int32} (hsign : sign = 1 ∨ sign = -1) :
    (x * sign.toInt64).toInt = sign.toInt * x.toInt := by
  rcases hsign with rfl | rfl
  · have hone : (1 : Int32).toInt64 = 1 := rfl
    rw [hone, Int64.mul_one, Int32.toInt_one, one_mul]
  · have hone : (-1 : Int32).toInt64 = -1 := rfl
    have hne : x ≠ Int64.minValue := by
      rintro rfl
      exact absurd hx (by decide)
    rw [hone, Int64.mul_neg, Int64.mul_one, toInt_neg_of_ne hne]
    exact Int.neg_eq_neg_one_mul x.toInt

theorem minus_one_mul_neg (x : ℤ) : (-1 : Int32).toInt * -x = x := by
  have hone : (-1 : Int32).toInt = -1 := rfl
  rw [hone, neg_one_mul, neg_neg]

theorem tdiv_eq (a b : Int64) :
    a.toInt.tdiv b.toInt = (sinal b * sinal a).toInt * (|a.toInt| / |b.toInt|) ∧
      (sinal b * sinal a = 1 ∨ sinal b * sinal a = -1) := by
  rw [← Int.tdiv_eq_ediv_of_nonneg (abs_nonneg _)]
  rcases sinal_cases a with ⟨ha, hsa⟩ | ⟨ha, hsa⟩
  · rcases sinal_cases b with ⟨hb, hsb⟩ | ⟨hb, hsb⟩
    · rw [hsa, hsb, abs_of_nonneg ha, abs_of_nonneg hb]
      exact ⟨(one_mul _).symm, Or.inl rfl⟩
    · rw [hsa, hsb, abs_of_nonneg ha, abs_of_neg hb, Int.tdiv_neg]
      exact ⟨(minus_one_mul_neg _).symm, Or.inr rfl⟩
  · rcases sinal_cases b with ⟨hb, hsb⟩ | ⟨hb, hsb⟩
    · rw [hsa, hsb, abs_of_neg ha, abs_of_nonneg hb, Int.neg_tdiv]
      exact ⟨(minus_one_mul_neg _).symm, Or.inr rfl⟩
    · rw [hsa, hsb, abs_of_neg ha, abs_of_neg hb, Int.neg_tdiv_neg]
      exact ⟨(one_mul _).symm, Or.inl rfl⟩

theorem tmod_eq (a b : Int64) :
    a.toInt.tmod b.toInt = (sinal a).toInt * (|a.toInt| % |b.toInt|) ∧ (sinal a = 1 ∨ sinal a = -1) := by
  have habs : |a.toInt|.tmod |b.toInt| = |a.toInt|.tmod b.toInt := by
    rcases abs_choice b.toInt with hb | hb
    · rw [hb]
    · rw [hb, Int.tmod_neg]
  rw [← Int.tmod_eq_emod_of_nonneg (abs_nonneg _), habs]
  rcases sinal_cases a with ⟨ha, hsa⟩ | ⟨ha, hsa⟩
  · rw [hsa, abs_of_nonneg ha]
    exact ⟨(one_mul _).symm, Or.inl rfl⟩
  · rw [hsa, abs_of_neg ha, Int.neg_tmod]
    exact ⟨(minus_one_mul_neg _).symm, Or.inr rfl⟩

theorem divdi3_moddi3_of_ne (h : b ≠ 0) (ha : a ≠ Int64.minValue) (hb : b ≠ Int64.minValue) :
    ∃ n q r, divdi3 n a b = some q ∧ moddi3 n a b = some r ∧
      q.toInt = a.toInt.tdiv b.toInt ∧ r.toInt = a.toInt.tmod b.toInt := by
  obtain ⟨habs, hsa⟩ := tiraSinal_eq ha 1
  obtain ⟨hbabs, hsb⟩ := tiraSinal_eq hb (tiraSinal a 1).2
  rw [Int32.mul_one] at hsa
  have hpos : 0 < |b.toInt| := abs_pos.mpr fun hzero => h (Int64.toInt_inj.mp hzero)
  obtain ⟨s, hs, hq, hr⟩ := conta_total (habs ▸ abs_nonneg a.toInt) (hbabs ▸ hpos) (Nat.lt_succ_self _)
  have hstrip : (if b < 0 then -b else b) = (tiraSinal b (tiraSinal a 1).2).1 := by
    rw [tiraSinal]
    split <;> rfl
  have hdiv : divdi3 ((tiraSinal a 1).1.toInt.toNat + 1) a b =
      some (s.2 * (sinal b * sinal a).toInt64) := by
    rw [divdi3, if_neg h]
    dsimp only
    rw [hs, hsb, hsa]
    rfl
  have hmod : moddi3 ((tiraSinal a 1).1.toInt.toNat + 1) a b = some (s.1 * (sinal a).toInt64) := by
    rw [moddi3, if_neg h]
    dsimp only
    rw [resta_eq, hstrip, hs, hsa]
    rfl
  rw [habs, hbabs] at hq hr
  refine ⟨_, _, _, hdiv, hmod, ?_, ?_⟩
  · obtain ⟨heq, hsign⟩ := tdiv_eq a b
    have hnonneg : 0 ≤ s.2.toInt := hq ▸ Int.ediv_nonneg (abs_nonneg _) (abs_nonneg _)
    rw [toInt_mul_sign hnonneg hsign, heq, hq]
  · obtain ⟨heq, hsign⟩ := tmod_eq a b
    have hnonneg : 0 ≤ s.1.toInt := hr ▸ Int.emod_nonneg _ hpos.ne'
    rw [toInt_mul_sign hnonneg hsign, heq, hr]

theorem divdi3_of_least_divisor (n : Nat) (a : Int64) : divdi3 n a Int64.minValue = none := by
  have hstrip (sign : Int32) : (tiraSinal Int64.minValue sign).1 = Int64.minValue := by
    have hneg : -Int64.minValue = Int64.minValue := by decide
    rw [tiraSinal, if_pos (by decide)]
    exact hneg
  rw [divdi3, if_neg (by decide)]
  dsimp only
  rw [hstrip, conta_of_least]
  rfl

theorem divdi3_of_least (n : Nat) (hb : b ≠ Int64.minValue) {q : Int64}
    (h : divdi3 n Int64.minValue b = some q) : q = 0 := by
  have hstrip : (tiraSinal Int64.minValue 1).1 = Int64.minValue := by decide
  rw [divdi3] at h
  split at h
  · exact (Option.some.inj h).symm
  · dsimp only at h
    obtain ⟨s, hs, rfl⟩ := Option.map_eq_some_iff.mp h
    obtain ⟨hbabs, -⟩ := tiraSinal_eq hb (tiraSinal Int64.minValue 1).2
    cases n with
    | zero => cases hs
    | succ n =>
        have hlt : ¬Int64.minValue ≥ (tiraSinal b (tiraSinal Int64.minValue 1).2).1 := by
          intro hle
          have hle := Int64.le_iff_toInt_le.mp hle
          rw [hbabs, Int64.toInt_minValue] at hle
          exact absurd (abs_nonneg b.toInt) (by omega)
        rw [hstrip, conta, whileLoop, if_neg (by simpa using hlt)] at hs
        cases hs
        exact Int64.zero_mul

/-- The quotient towards zero and the remainder of it, except where the least number has a part. -/
theorem divdi3_moddi3_exact_iff (h : b ≠ 0) :
    (∃ n q r, divdi3 n a b = some q ∧ moddi3 n a b = some r ∧ q.toInt = a.toInt.tdiv b.toInt ∧
      r.toInt = a.toInt.tmod b.toInt ∧ q * b + r = a) ↔ a ≠ Int64.minValue ∧ b ≠ Int64.minValue := by
  constructor
  · rintro ⟨n, q, r, hq, hr, hquot, hrem, hsum⟩
    have hb : b ≠ Int64.minValue := by
      rintro rfl
      rw [divdi3_of_least_divisor] at hq
      cases hq
    refine ⟨?_, hb⟩
    rintro rfl
    obtain rfl := divdi3_of_least n hb hq
    rw [Int64.zero_mul, Int64.zero_add] at hsum
    have hmod : Int64.minValue.toInt.natAbs < b.toInt.natAbs := by
      have hpos : 0 < b.toInt.natAbs := Int.natAbs_pos.mpr fun hzero => h (Int64.toInt_inj.mp hzero)
      have hlt := Nat.mod_lt Int64.minValue.toInt.natAbs hpos
      rwa [← Int.natAbs_tmod, ← hrem, hsum] at hlt
    have hleast := lt_toInt_of_ne hb
    have hlt := b.toInt_lt
    rw [Int64.toInt_minValue] at hmod
    omega
  · rintro ⟨ha, hb⟩
    obtain ⟨n, q, r, hq, hr, hquot, hrem⟩ := divdi3_moddi3_of_ne h ha hb
    refine ⟨n, q, r, hq, hr, hquot, hrem, ?_⟩
    calc q * b + r = Int64.ofInt (q.toInt * b.toInt + r.toInt) := by
          rw [Int64.ofInt_add, Int64.ofInt_mul, Int64.ofInt_toInt, Int64.ofInt_toInt, Int64.ofInt_toInt]
      _ = Int64.ofInt a.toInt := by rw [hquot, hrem, Int.tdiv_mul_add_tmod]
      _ = a := Int64.ofInt_toInt a

theorem divdi3_moddi3_exact_iff_minus_seven : (-2 : Int64) ≠ 0 ∧
    ∃ n q r, divdi3 n (-7) (-2) = some q ∧ moddi3 n (-7) (-2) = some r ∧ q.toInt = 3 ∧ r.toInt = -1 := by
  have h : (-2 : Int64) ≠ 0 := by decide
  obtain ⟨n, q, r, hq, hr, hquot, hrem, -⟩ := (divdi3_moddi3_exact_iff (a := -7) h).mpr ⟨by decide, by decide⟩
  exact ⟨h, n, q, r, hq, hr, hquot, hrem⟩

theorem divdi3_half_of_least :
    ¬∃ n q, divdi3 n Int64.minValue 2 = some q ∧ q.toInt = Int64.minValue.toInt.tdiv (2 : Int64).toInt := by
  rintro ⟨n, q, hq, hquot⟩
  obtain rfl := divdi3_of_least n (by decide) hq
  exact absurd hquot (by decide)

end Division

end Orion68.Kernel
