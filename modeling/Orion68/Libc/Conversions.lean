import Orion68.Bios.WriteMem
import Orion68.Lib.Numerals
import Orion68.Libc.Formats

namespace Orion68.Stdio

open Numerals

section Characters

/-- The character of a digit, in any base up to 36. -/
def digitChar (d : ℕ) : UInt8 :=
  if d < 10 then ch '0' + UInt8.ofNat d else ch 'a' + (UInt8.ofNat d - 10)

theorem digitChar_spec : ∀ d < 36, WriteMem.digitOf (digitChar d) = some (UInt32.ofNat d) ∧
    (digitChar d = ch '0' → d = 0) ∧ digitChar d ≠ ch '-' ∧ digitChar d ≠ ch '+' ∧
      ¬(digitChar d = 0x20 ∨ 0x09 ≤ digitChar d ∧ digitChar d ≤ 0x0D) := by
  decide +kernel

theorem digitChar_ne_x : ∀ d < 16, digitChar d ≠ ch 'x' ∧ digitChar d ≠ ch 'X' := by
  decide +kernel

theorem digitChar_of_lt {d : UInt32} (h : d.toNat < 10) : ch '0' + d.toUInt8 = digitChar d.toNat := by
  rw [digitChar, if_pos h]
  apply congrArg (ch '0' + ·)
  apply UInt8.toNat.inj
  rw [UInt32.toNat_toUInt8, UInt8.toNat_ofNat']

end Characters

section Digits

variable {k v : ℕ} {value : UInt32} {started : Bool}

theorem range_succ_reverse (k : ℕ) : (List.range (k + 1)).reverse = k :: (List.range k).reverse := by
  rw [List.range_succ, List.reverse_append]
  rfl

theorem decimal_eq_emit {ps : List UInt32} (hps : ps.map UInt32.toNat = (List.range k).reverse.map (10 ^ ·))
    (hvalue : value.toNat = v % 10 ^ k) :
    decimal ps value started = (emit 10 v k started).map digitChar := by
  induction k generalizing ps value started with
  | zero =>
      rw [List.range_zero, List.reverse_nil, List.map_nil, List.map_eq_nil_iff] at hps
      rw [hps]
      rfl
  | succ k ih =>
      rw [range_succ_reverse, List.map_cons] at hps
      obtain ⟨power, powers, rfl, hpower, hpowers⟩ := List.map_eq_cons_iff.mp hps
      have hdigit : (value / power).toNat = v / 10 ^ k % 10 := by
        rw [UInt32.toNat_div, hpower, hvalue, Nat.pow_succ, Nat.mod_mul_right_div_self]
      have hrest : (value % power).toNat = v % 10 ^ k := by
        rw [UInt32.toNat_mod, hpower, hvalue]
        exact Nat.mod_mod_of_dvd v (Nat.pow_dvd_pow 10 (Nat.le_succ k))
      have hzero : value / power ≠ 0 ↔ v / 10 ^ k % 10 ≠ 0 := by
        rw [← hdigit, Ne, Ne, ← UInt32.toNat_inj]
        rfl
      have hchar := digitChar_of_lt (hdigit.trans_lt (Nat.mod_lt _ (by norm_num)))
      rw [hdigit] at hchar
      have hbelow : value.toNat < 10 * power.toNat := by
        rw [hvalue, hpower, ← Nat.pow_succ']
        exact Nat.mod_lt _ (Nat.pow_pos (by norm_num))
      rw [decimal_cons hbelow, emit, hchar]
      simp only [hzero]
      split
      next => rw [List.map_cons, ih hpowers hrest]
      next => exact ih hpowers hrest

theorem grupos_eq_emit {w : ℕ} {mask : UInt32} {letra : UInt8 → UInt8} {shifts : List UInt32}
    (hmask : mask.toNat = 2 ^ w - 1) (hw : w * k < 32 + w) (hletra : ∀ d < 2 ^ w, letra (UInt8.ofNat d) = digitChar d)
    (hshifts : shifts.map UInt32.toNat = (List.range k).reverse.map (w * ·)) :
    grupos mask letra value shifts started = (emit (2 ^ w) value.toNat k started).map digitChar := by
  induction k generalizing shifts started with
  | zero =>
      rw [List.range_zero, List.reverse_nil, List.map_nil, List.map_eq_nil_iff] at hshifts
      rw [hshifts]
      rfl
  | succ k ih =>
      rw [range_succ_reverse, List.map_cons] at hshifts
      obtain ⟨shift, shifts, rfl, hshift, hrest⟩ := List.map_eq_cons_iff.mp hshifts
      rw [Nat.mul_succ] at hw
      have hlt : w * k < 32 := by omega
      have hdigit : ((value >>> shift) &&& mask).toNat = value.toNat / (2 ^ w) ^ k % 2 ^ w := by
        rw [UInt32.toNat_and, UInt32.toNat_shiftRight, hshift, Nat.mod_eq_of_lt hlt, hmask,
          Nat.and_two_pow_sub_one_eq_mod, Nat.shiftRight_eq_div_pow, Nat.pow_mul]
      have hzero : (value >>> shift) &&& mask ≠ 0 ↔ value.toNat / (2 ^ w) ^ k % 2 ^ w ≠ 0 := by
        rw [← hdigit, Ne, Ne, ← UInt32.toNat_inj]
        rfl
      have hchar : letra ((value >>> shift) &&& mask).toUInt8 = digitChar (value.toNat / (2 ^ w) ^ k % 2 ^ w) := by
        rw [← hletra _ (Nat.mod_lt _ (Nat.two_pow_pos w)), ← hdigit]
        rfl
      rw [grupos, emit, hchar]
      simp only [hzero]
      split
      next => rw [List.map_cons, ih (by omega) hrest]
      next => exact ih (by omega) hrest

variable (value)

theorem toNat_ne_zero {value : UInt32} (h : value ≠ 0) : value.toNat ≠ 0 := fun h0 => h (UInt32.toNat_inj.mp h0)

theorem decimal_eq_numeral (hne : value ≠ 0) : decimal powers value false = (numeral 10 value.toNat).map digitChar := by
  have hlt : value.toNat < 10 ^ 10 := value.toNat_lt.trans (by norm_num)
  rw [decimal_eq_emit (k := 10) rfl (Nat.mod_eq_of_lt hlt).symm, emit_eq_numeral (by norm_num) (toNat_ne_zero hne) hlt]

theorem itoudec_eq : itoudec value = (numeral 10 value.toNat).map digitChar := by
  rw [itoudec]
  split
  next h => rw [h]; rfl
  next h => exact decimal_eq_numeral value h

theorem itox_eq : itox value = (numeral 16 value.toNat).map digitChar := by
  have hletra : ∀ d < 2 ^ 4, (fun nibble => if nibble < 10 then ch '0' + nibble else ch 'a' + (nibble - 10))
      (UInt8.ofNat d) = digitChar d := by decide +kernel
  rw [itox]
  split
  next h => rw [h]; rfl
  next h =>
    have hlt : value.toNat < (2 ^ 4) ^ 8 := value.toNat_lt.trans_eq (by norm_num)
    rw [grupos_eq_emit (w := 4) (k := 8) rfl (by norm_num) hletra rfl]
    rw [emit_eq_numeral (by norm_num) (toNat_ne_zero h) hlt]
    rfl

theorem itooct_eq : itooct value = (numeral 8 value.toNat).map digitChar := by
  have hletra : ∀ d < 2 ^ 3, (fun triplet => ch '0' + triplet) (UInt8.ofNat d) = digitChar d := by decide +kernel
  rw [itooct]
  split
  next h => rw [h]; rfl
  next h =>
    have hlt : value.toNat < (2 ^ 3) ^ 11 := value.toNat_lt.trans (by norm_num)
    rw [grupos_eq_emit (w := 3) (k := 11) rfl (by norm_num) hletra rfl]
    rw [emit_eq_numeral (by norm_num) (toNat_ne_zero h) hlt]
    rfl

end Digits

section Parsing

variable {base acc : UInt32} {ds : List ℕ} {any : ℤ} {v : ℕ}

theorem not_cutoff {d : UInt32} {n : ℕ} (hb : 0 < base.toNat) (hfit : acc.toNat * base.toNat + n < 2 ^ 32) (hd : d.toNat = n) :
    ¬(0xFFFFFFFF / base < acc ∨ acc = 0xFFFFFFFF / base ∧ 0xFFFFFFFF % base < d) := by
  have hmax : (0xFFFFFFFF : UInt32).toNat = 2 ^ 32 - 1 := rfl
  rw [UInt32.lt_iff_toNat_lt, UInt32.lt_iff_toNat_lt, ← UInt32.toNat_inj, UInt32.toNat_div, UInt32.toNat_mod, hmax, hd]
  intro hcut
  have hlt := lt_of_cutoff hb hcut
  omega

theorem strtoulLoop_digits (hb : 1 < base.toNat) (h36 : base.toNat ≤ 36) (hds : ∀ d ∈ ds, d < base.toNat)
    (hany : 0 ≤ any) (hfit : acc.toNat * base.toNat ^ ds.length + value base.toNat ds < 2 ^ 32) :
    (WriteMem.strtoulLoop base (ds.map digitChar) acc any).1 =
      UInt32.ofNat (acc.toNat * base.toNat ^ ds.length + value base.toNat ds) := by
  induction ds generalizing acc any with
  | nil =>
      rw [List.map_nil, WriteMem.strtoulLoop, List.length_nil, Nat.pow_zero, Nat.mul_one]
      exact UInt32.ofNat_toNat.symm
  | cons d ds ih =>
      obtain ⟨hd, hds⟩ := List.forall_mem_cons.mp hds
      have hdig := (digitChar_spec d (hd.trans_le h36)).1
      have hdn : (UInt32.ofNat d).toNat = d := by
        rw [UInt32.toNat_ofNat']
        exact Nat.mod_eq_of_lt (by omega)
      have hsum : acc.toNat * base.toNat ^ (ds.length + 1) + value base.toNat (d :: ds) =
          (acc.toNat * base.toNat + d) * base.toNat ^ ds.length + value base.toNat ds := by
        rw [value_cons]
        ring
      rw [List.length_cons, hsum] at hfit ⊢
      have hstep : acc.toNat * base.toNat + d < 2 ^ 32 :=
        (Nat.le_mul_of_pos_right _ (Nat.pow_pos (by omega))).trans_lt ((Nat.le_add_right _ _).trans_lt hfit)
      have hnew : (acc * base + UInt32.ofNat d).toNat = acc.toNat * base.toNat + d := by
        rw [UInt32.toNat_add, UInt32.toNat_mul, hdn, Nat.mod_add_mod]
        exact Nat.mod_eq_of_lt hstep
      have hbase : ¬base ≤ UInt32.ofNat d := by
        rw [UInt32.le_iff_toNat_le, hdn]
        omega
      have hcut := not_cutoff (by omega) hstep hdn
      rw [List.map_cons, WriteMem.strtoulLoop, hdig]
      simp only [hbase, hcut, if_false, if_neg (Int.not_lt.mpr hany)]
      rw [← hnew] at hfit ⊢
      exact ih hds (by norm_num) hfit

theorem strtoul_cons {d : ℕ} (hb : base ≠ 0) (hd : d < 36) (hhex : base = 16 → ∀ e ∈ ds.head?, e < 16) :
    WriteMem.strtoul ((d :: ds).map digitChar) base =
      (WriteMem.strtoulLoop base ((d :: ds).map digitChar) 0 0).1 := by
  obtain ⟨-, -, hminus, hplus, hblank⟩ := digitChar_spec d hd
  have hminus : digitChar d ≠ 0x2D := hminus
  have hplus : digitChar d ≠ 0x2B := hplus
  have hprefix : ¬(base = 16 ∧ digitChar d = 0x30 ∧
      ((ds.map digitChar).head? = some 0x78 ∨ (ds.map digitChar).head? = some 0x58)) := by
    rintro ⟨h16, -, hx⟩
    cases ds with
    | nil => simp at hx
    | cons e ds =>
        have he := digitChar_ne_x e (hhex h16 e rfl)
        exact hx.elim (fun h => he.1 (Option.some.inj h)) fun h => he.2 (Option.some.inj h)
  rw [List.map_cons, WriteMem.strtoul, List.dropWhile_cons_of_neg (by simpa using hblank)]
  generalize ds.map digitChar = t at hprefix ⊢
  simp [hminus, hplus, hprefix, hb]

theorem strtoul_numeral (hb : 1 < base.toNat) (h36 : base.toNat ≤ 36) {v : UInt32} :
    WriteMem.strtoul ((numeral base.toNat v.toNat).map digitChar) base = v := by
  have hlt := @numeral_lt base.toNat v.toNat hb
  have hvalue := value_numeral base.toNat v.toNat
  cases hds : numeral base.toNat v.toNat with
  | nil => exact absurd hds (numeral_ne_nil _ _)
  | cons d ds =>
      rw [hds] at hlt hvalue
      have hne : base ≠ 0 := by
        rintro rfl
        exact absurd hb (by decide)
      rw [strtoul_cons hne ((hlt d List.mem_cons_self).trans_le h36), strtoulLoop_digits hb h36 hlt le_rfl]
      · rw [UInt32.toNat_zero, Nat.zero_mul, Nat.zero_add, hvalue, UInt32.ofNat_toNat]
      · rw [UInt32.toNat_zero, Nat.zero_mul, Nat.zero_add, hvalue]
        exact v.toNat_lt
      · rintro rfl e he
        exact hlt e (List.mem_cons_of_mem d (List.mem_of_mem_head? he))

end Parsing

section Results

/-- A string that stands for a value in a base, without a zero that could be left out. -/
structure Denotes (s : List UInt8) (base v : UInt32) : Prop where
  parses : WriteMem.strtoul s base = v
  ne_nil : s ≠ []
  leading : s.head? = some (ch '0') → s = [ch '0']

theorem denotes_numeral {base : UInt32} (hb : 1 < base.toNat) (h36 : base.toNat ≤ 36) (v : UInt32) :
    Denotes ((numeral base.toNat v.toNat).map digitChar) base v where
  parses := strtoul_numeral hb h36
  ne_nil h := numeral_ne_nil _ _ (List.map_eq_nil_iff.mp h)
  leading h := by
    by_cases hv : v.toNat = 0
    · rw [hv]
      rfl
    · exfalso
      apply head?_numeral base.toNat hv
      rw [List.head?_map, Option.map_eq_some_iff] at h
      obtain ⟨d, hd, hzero⟩ := h
      have hlt := numeral_lt hb d (List.mem_of_mem_head? hd)
      rw [hd, (digitChar_spec d (hlt.trans_le h36)).2.1 hzero]

theorem toInt_eq (value : Int32) : value.toInt =
    if value.toUInt32.toNat < 2 ^ 31 then (value.toUInt32.toNat : ℤ) else value.toUInt32.toNat - 2 ^ 32 := by
  have h := BitVec.toInt_eq_toNat_cond value.toBitVec
  have hn : value.toBitVec.toNat = value.toUInt32.toNat := rfl
  rw [hn] at h
  rw [← Int32.toInt_toBitVec, h]
  split <;> split <;> omega

theorem neg_iff (value : Int32) : value < 0 ↔ 2 ^ 31 ≤ value.toUInt32.toNat := by
  have hlt := value.toUInt32.toNat_lt
  rw [Int32.lt_iff_toInt_lt, toInt_eq, Int32.toInt_zero]
  split <;> omega

theorem natAbs_of_neg {value : Int32} (h : value < 0) : value.toInt.natAbs = (-value.toUInt32).toNat := by
  have hlt := value.toUInt32.toNat_lt
  have htop := (neg_iff value).mp h
  have hopp : (-value.toUInt32).toNat = 2 ^ 32 - value.toUInt32.toNat := by
    rw [UInt32.toNat_neg]
    exact Nat.mod_eq_of_lt (Nat.sub_lt (by decide) (by omega))
  rw [toInt_eq, if_neg (Nat.not_lt.mpr htop), hopp]
  omega

theorem natAbs_of_not_neg {value : Int32} (h : ¬value < 0) : value.toInt.natAbs = value.toUInt32.toNat := by
  rw [neg_iff, Nat.not_le] at h
  rw [toInt_eq, if_pos h]
  rfl

theorem itodec_eq (value : Int32) : itodec value.toUInt32 =
    (if value < 0 then [ch '-'] else []) ++ (numeral 10 value.toInt.natAbs).map digitChar := by
  have htop : (0x80000000 : UInt32) ≤ value.toUInt32 ↔ value < 0 :=
    UInt32.le_iff_toNat_le.trans (neg_iff value).symm
  rw [itodec]
  by_cases hs : value < 0
  · have h0 : value.toUInt32 ≠ 0 := by
      intro h
      have hle := (neg_iff value).mp hs
      rw [h] at hle
      exact absurd hle (by decide)
    have hne : -value.toUInt32 ≠ 0 := by
      intro h
      exact h0 (UInt32.neg_neg.symm.trans (congrArg Neg.neg h))
    rw [if_neg h0, if_pos (htop.mpr hs), if_pos hs, natAbs_of_neg hs, decimal_eq_numeral _ hne]
    rfl
  · rw [if_neg (hs ∘ htop.mp), if_neg hs, natAbs_of_not_neg hs]
    exact itoudec_eq value.toUInt32

theorem conversions_denote (value : UInt32) : Denotes (itoudec value) 10 value ∧ Denotes (itox value) 16 value ∧
    Denotes (itooct value) 8 value ∧ ∀ value : Int32, itodec value.toUInt32 =
      (if value < 0 then [ch '-'] else []) ++ (numeral 10 value.toInt.natAbs).map digitChar := by
  refine ⟨?_, ?_, ?_, itodec_eq⟩
  · rw [itoudec_eq]
    exact @denotes_numeral 10 (by decide) (by decide) value
  · rw [itox_eq]
    exact @denotes_numeral 16 (by decide) (by decide) value
  · rw [itooct_eq]
    exact @denotes_numeral 8 (by decide) (by decide) value

end Results

end Orion68.Stdio
