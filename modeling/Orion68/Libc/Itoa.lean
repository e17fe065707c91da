import Orion68.Lib.Buffers
import Orion68.Libc.Conversions

namespace Orion68.Stdio

open Numerals Buffers

section Code

abbrev Buffer := ℕ → UInt8

/-- `digits[remainder]` -/
def digits (remainder : UInt32) : UInt8 :=
  ("0123456789abcdefghijklmnopqrstuvwxyz".toList.map ch).getD remainder.toNat 0

/-- The `do` loop, which is given up after `n` rounds. -/
def utoaLoop (base : UInt32) : ℕ → UInt32 → ℕ → Buffer → Option (ℕ × Buffer)
  | 0, _, _, _ => none
  | n + 1, value, i, str =>
      let str := Function.update str i (digits (value % base))
      if value / base ≠ 0 then utoaLoop base n (value / base) (i + 1) str else some (i + 1, str)

/-- Whether the function returns `str`, and what stands there. -/
def utoa (value : UInt32) (str : Buffer) (base : Int32) : Option (Bool × Buffer) :=
  if base < 2 ∨ 36 < base then some (false, Function.update str 0 0)
  else
    (utoaLoop base.toUInt32 32 value 0 str).map fun r =>
      (true, Buffers.reverse (Function.update r.2 r.1 0) 0 (r.1 - 1))

/-- The digits go to `str` in any case, also behind a sign. -/
def itoa (value : Int32) (str : Buffer) (base : Int32) : Option (Bool × Buffer) :=
  if base < 2 ∨ 36 < base then some (false, Function.update str 0 0)
  else if base = 10 ∧ value < 0 then
    (utoa (-value).toUInt32 (Function.update str 0 (ch '-')) base).map fun r => (true, r.2)
  else (utoa value.toUInt32 str base).map fun r => (true, r.2)

/-- The characters up to the first that is no decimal digit; a `long` has 32 bits. -/
def strtolLoop : List UInt8 → UInt32 → UInt32
  | [], resultado => resultado
  | c :: s, resultado =>
      if ch '0' ≤ c ∧ c ≤ ch '9' then strtolLoop s (resultado * 10 + (c - ch '0').toUInt32) else resultado

/-- The base is not looked at. -/
def strtol (s : List UInt8) (_base : Int32) : Int32 := (strtolLoop s 0).toInt32

end Code

section Writing

variable {base value : UInt32} {n i : ℕ} {str : Buffer}

theorem digits_eq {d : UInt32} (h : d.toNat < 36) : digits d = digitChar d.toNat := by
  have htable : ∀ d < 36, ("0123456789abcdefghijklmnopqrstuvwxyz".toList.map ch).getD d 0 = digitChar d := by
    decide +kernel
  exact htable d.toNat h

def characters (base : ℕ) (v : ℕ) : List UInt8 := (numeral base v).map digitChar

theorem utoaLoop_eq (hb : 1 < base.toNat) (h36 : base.toNat ≤ 36) (hn : 0 < n) (hlt : value.toNat < base.toNat ^ n) :
    utoaLoop base n value i str =
      some (i + (characters base.toNat value.toNat).length,
        place i (characters base.toNat value.toNat).reverse str) := by
  induction n generalizing value i str with
  | zero => exact absurd hn (Nat.lt_irrefl 0)
  | succ n ih =>
      have hdigit : digits (value % base) = digitChar (value.toNat % base.toNat) := by
        rw [digits_eq, UInt32.toNat_mod]
        rw [UInt32.toNat_mod]
        exact (Nat.mod_lt _ (by omega)).trans_le h36
      have hdiv : value / base ≠ 0 ↔ base.toNat ≤ value.toNat := by
        rw [Ne, ← UInt32.toNat_inj, UInt32.toNat_div, UInt32.toNat_zero, Nat.div_eq_zero_iff]
        omega
      rw [utoaLoop, hdigit]
      by_cases hle : base.toNat ≤ value.toNat
      · have hrest : (value / base).toNat < base.toNat ^ n := by
          rw [UInt32.toNat_div]
          exact Nat.div_lt_of_lt_mul (by rwa [Nat.pow_succ, Nat.mul_comm] at hlt)
        have hpos : 0 < n := by
          rcases Nat.eq_zero_or_pos n with rfl | hpos
          · rw [Nat.pow_one] at hlt
            omega
          · exact hpos
        have hchars : characters base.toNat value.toNat =
            characters base.toNat (value / base).toNat ++ [digitChar (value.toNat % base.toNat)] := by
          rw [characters, numeral_of_le hb hle, List.map_append, UInt32.toNat_div]
          rfl
        rw [if_pos (hdiv.mpr hle), ih hpos hrest, hchars, List.reverse_append, List.reverse_singleton,
          List.singleton_append, place_cons, List.length_append, List.length_singleton]
        congr 2
        omega
      · have hchars : characters base.toNat value.toNat = [digitChar (value.toNat % base.toNat)] := by
          rw [characters, numeral_of_lt (Nat.not_le.mp hle), Nat.mod_eq_of_lt (Nat.not_le.mp hle)]
          rfl
        rw [if_neg (hle ∘ hdiv.mp), hchars, List.reverse_singleton, place_cons, place_nil]
        rfl

theorem notMem_characters {v : ℕ} (hb : 1 < base.toNat) (h36 : base.toNat ≤ 36) : 0 ∉ characters base.toNat v := by
  have hne : ∀ d < 36, digitChar d ≠ 0 := by decide +kernel
  intro h
  obtain ⟨d, hd, h0⟩ := List.mem_map.mp h
  exact hne d ((numeral_lt hb d hd).trans_le h36) h0

theorem base_bounds {base : Int32} (h : ¬(base < 2 ∨ 36 < base)) :
    1 < base.toUInt32.toNat ∧ base.toUInt32.toNat ≤ 36 := by
  have hint := toInt_eq base
  have h2 : (2 : Int32).toInt = 2 := rfl
  have h36 : (36 : Int32).toInt = 36 := rfl
  rw [not_or, Int32.lt_iff_toInt_lt, Int32.lt_iff_toInt_lt, hint, h2, h36] at h
  have hlt := base.toUInt32.toNat_lt
  split at h <;> omega

theorem base_toInt {base : Int32} (h : ¬(base < 2 ∨ 36 < base)) : base.toInt = base.toUInt32.toNat := by
  have hbounds := base_bounds h
  rw [toInt_eq, if_pos (by omega)]

theorem utoa_eq {base : Int32} (h : ¬(base < 2 ∨ 36 < base)) (value : UInt32) (str : Buffer) :
    utoa value str base = some (true, place 0 (characters base.toUInt32.toNat value.toNat ++ [0]) str) := by
  obtain ⟨hb, h36⟩ := base_bounds h
  have hlt : value.toNat < base.toUInt32.toNat ^ 32 :=
    value.toNat_lt.trans_le (Nat.pow_le_pow_left hb 32)
  rw [utoa, if_neg h, utoaLoop_eq hb h36 (by norm_num) hlt, Option.map_some, Nat.zero_add, reverse_place]

end Writing

section Reading

variable {ds : List ℕ} {acc : UInt32}

theorem digitChar_digito : ∀ d < 36, (ch '0' ≤ digitChar d ∧ digitChar d ≤ ch '9' ↔ d < 10) ∧
    (d < 10 → (digitChar d - ch '0').toUInt32 = UInt32.ofNat d) := by
  decide +kernel

theorem strtolLoop_eq (hds : ∀ d ∈ ds, d < 36) :
    strtolLoop (ds.map digitChar) acc =
      acc * UInt32.ofNat (10 ^ (ds.takeWhile (· < 10)).length) + UInt32.ofNat (value 10 (ds.takeWhile (· < 10))) := by
  have hstop (acc : UInt32) : acc = acc * UInt32.ofNat (10 ^ 0) + UInt32.ofNat (value 10 []) := by
    exact (UInt32.add_zero _).symm.trans (congrArg (· + 0) (UInt32.mul_one acc).symm)
  induction ds generalizing acc with
  | nil => exact hstop acc
  | cons d ds ih =>
      obtain ⟨hd, hds⟩ := List.forall_mem_cons.mp hds
      obtain ⟨hdigit, hval⟩ := digitChar_digito d hd
      rw [List.map_cons, strtolLoop]
      by_cases h10 : d < 10
      · rw [if_pos (hdigit.mpr h10), List.takeWhile_cons_of_pos (by simpa using h10), ih hds, hval h10,
          List.length_cons, value_cons, Nat.pow_succ, UInt32.ofNat_mul, UInt32.ofNat_add, UInt32.ofNat_mul]
        generalize UInt32.ofNat (10 ^ (ds.takeWhile (· < 10)).length) = p
        generalize UInt32.ofNat (value 10 (ds.takeWhile (· < 10))) = w
        have hten : UInt32.ofNat 10 = 10 := rfl
        rw [hten]
        grind
      · rw [if_neg (h10 ∘ hdigit.mp), List.takeWhile_cons_of_neg (by simpa using h10)]
        exact hstop acc

theorem strtol_characters {b : ℕ} (hb : 1 < b) (h36 : b ≤ 36) (v : ℕ) (base : Int32) :
    (strtol (characters b v) base).toUInt32 = UInt32.ofNat (value 10 ((numeral b v).takeWhile (· < 10))) := by
  have h := @strtolLoop_eq (numeral b v) 0 fun d hd => (numeral_lt hb d hd).trans_le h36
  rw [UInt32.zero_mul, UInt32.zero_add] at h
  exact h

end Reading

section Exactness

def numeralString (value base : Int32) : List UInt8 :=
  if base = 10 ∧ value < 0 then ch '-' :: characters 10 value.toInt.natAbs
  else characters base.toUInt32.toNat value.toUInt32.toNat

/-- A value goes to a buffer, as the string that stands for it, and comes back. -/
def Returns (str : Buffer) (value base : Int32) : Prop :=
  ∃ str' s, itoa value str base = some (true, str') ∧ Terminated 0 str' s ∧ s = numeralString value base ∧
    strtol s base = value

theorem takeWhile_numeral {b v : ℕ} (hb : 1 < b) (h10 : b ≤ 10) : (numeral b v).takeWhile (· < 10) = numeral b v := by
  rw [List.takeWhile_eq_self_iff]
  intro d hd
  exact decide_eq_true ((numeral_lt hb d hd).trans_le h10)

theorem value_takeWhile_iff {b v : ℕ} (hb : 10 < b) (hv : v < 2 ^ 32) :
    value 10 ((numeral b v).takeWhile (· < 10)) % 2 ^ 32 = v ↔ v < 10 := by
  constructor
  · intro h
    by_contra! hge
    have hlt := value_takeWhile_lt (by norm_num) hb hge
    rw [Nat.mod_eq_of_lt (hlt.trans hv)] at h
    exact absurd h hlt.ne
  · intro h
    rw [numeral_of_lt (h.trans hb)]
    simpa [value, h] using Nat.mod_eq_of_lt hv

/-- The number whose digits `itoa` writes. -/
def uvalue (value base : Int32) : ℕ :=
  if base = 10 ∧ value < 0 then value.toInt.natAbs else value.toUInt32.toNat

theorem itoa_eq {base : Int32} (h : ¬(base < 2 ∨ 36 < base)) (value : Int32) (str : Buffer) :
    ∃ str', itoa value str base = some (true, str') ∧
      Terminated 0 str' (characters base.toUInt32.toNat (uvalue value base)) := by
  obtain ⟨hb, h36⟩ := base_bounds h
  have hnul (v : ℕ) : 0 ∉ characters base.toUInt32.toNat v := notMem_characters hb h36
  rw [itoa, uvalue, if_neg h]
  by_cases hneg : base = 10 ∧ value < 0
  · have habs : (-value).toUInt32.toNat = value.toInt.natAbs := (natAbs_of_neg hneg.2).symm
    rw [if_pos hneg, if_pos hneg, utoa_eq h, habs]
    exact ⟨_, rfl, terminated_place (hnul _) _⟩
  · rw [if_neg hneg, if_neg hneg, utoa_eq h]
    exact ⟨_, rfl, terminated_place (hnul _) _⟩

theorem returns_iff {value base : Int32} (str : Buffer) (h : ¬(base < 2 ∨ 36 < base)) :
    Returns str value base ↔ ¬(base = 10 ∧ value < 0) ∧
      Numerals.value 10 ((numeral base.toUInt32.toNat value.toUInt32.toNat).takeWhile (· < 10)) % 2 ^ 32 =
        value.toUInt32.toNat := by
  obtain ⟨hb, h36⟩ := base_bounds h
  obtain ⟨str', hitoa, hterm⟩ := itoa_eq h value str
  have hback := strtol_characters hb h36 value.toUInt32.toNat base
  constructor
  · rintro ⟨str'', s, hs, hterm', rfl, hstrtol⟩
    obtain rfl : str' = str'' := by
      rw [hitoa] at hs
      exact congrArg Prod.snd (Option.some.inj hs)
    have hstring := hterm.unique hterm'
    by_cases hneg : base = 10 ∧ value < 0
    · rw [uvalue, numeralString, if_pos hneg, if_pos hneg, hneg.1] at hstring
      have hlen := congrArg List.length hstring
      exact absurd hlen (Nat.succ_ne_self _).symm
    · rw [numeralString, if_neg hneg] at hstrtol
      rw [hstrtol, ← UInt32.toNat_inj, UInt32.toNat_ofNat'] at hback
      exact ⟨hneg, hback.symm⟩
  · rintro ⟨hneg, hvalue⟩
    refine ⟨str', _, hitoa, hterm, ?_, ?_⟩
    · rw [uvalue, numeralString, if_neg hneg, if_neg hneg]
    · rw [uvalue, if_neg hneg]
      have hword : (strtol (characters base.toUInt32.toNat value.toUInt32.toNat) base).toUInt32 = value.toUInt32 := by
        rw [hback, ← UInt32.toNat_inj, UInt32.toNat_ofNat']
        exact hvalue
      exact congrArg UInt32.toInt32 hword

theorem itoa_exact_iff {value base : Int32} (str : Buffer) (h2 : 2 ≤ base) (h36 : base ≤ 36) :
    Returns str value base ↔
      base = 10 ∧ 0 ≤ value ∨ 10 < base ∧ 0 ≤ value ∧ value < 10 ∨
        base < 10 ∧ Numerals.value 10 (numeral base.toUInt32.toNat value.toUInt32.toNat) % 2 ^ 32 =
          value.toUInt32.toNat := by
  have hrange : ¬(base < 2 ∨ 36 < base) := not_or.mpr ⟨Int32.not_lt.mpr h2, Int32.not_lt.mpr h36⟩
  have hb := base_bounds hrange
  have hu := value.toUInt32.toNat_lt
  have hbase := base_toInt hrange
  have hten : (10 : Int32).toInt = 10 := rfl
  have hval := toInt_eq value
  have heq : base = 10 ↔ base.toUInt32.toNat = 10 := by
    rw [← Int32.toInt_inj, hbase, hten]
    omega
  have hdigit : 0 ≤ value ∧ value < 10 ↔ value.toUInt32.toNat < 10 := by
    rw [Int32.le_iff_toInt_le, Int32.lt_iff_toInt_lt, hval, hten, Int32.toInt_zero]
    split <;> omega
  have hless : base < 10 ↔ base.toUInt32.toNat < 10 := by
    rw [Int32.lt_iff_toInt_lt, hbase, hten]
    omega
  have hmore : 10 < base ↔ 10 < base.toUInt32.toNat := by
    rw [Int32.lt_iff_toInt_lt, hbase, hten]
    omega
  rw [returns_iff str hrange, hdigit, heq, hless, hmore]
  rcases Nat.lt_trichotomy base.toUInt32.toNat 10 with hlt | h10 | hgt
  · rw [takeWhile_numeral hb.1 hlt.le]
    simp [hlt, hlt.ne, hlt.not_gt]
  · rw [takeWhile_numeral hb.1 h10.le, h10, value_numeral, Nat.mod_eq_of_lt hu]
    simp [Int32.not_lt]
  · rw [value_takeWhile_iff hgt hu]
    simp [hgt, hgt.ne', hgt.not_gt]

theorem itoa_exact_iff_decimal : Returns (fun _ => 0) 1234 10 :=
  (itoa_exact_iff _ (by decide) (by decide)).mpr (Or.inl ⟨rfl, by decide⟩)

/-- The sign is written over, and `strtol` would not read it. -/
theorem itoa_minus_one : ¬Returns (fun _ => 0) (-1) 10 ∧ ¬Returns (fun _ => 0) 255 16 := by
  rw [itoa_exact_iff _ (by decide) (by decide), itoa_exact_iff _ (by decide) (by decide)]
  decide

end Exactness

end Orion68.Stdio
