import Orion68.Lib.Loops
import Orion68.Vga.Accesses

namespace Orion68.VgaSqrt

open Loops

section Code

/-- The unsigned variables of `sqrt_i32`. -/
structure Raiz where
  b : UInt32
  q : UInt32
  r : UInt32

def Raiz.desce (s : Raiz) : Raiz := { s with b := s.b >>> 2 }

def Raiz.volta (s : Raiz) : Raiz :=
  let t := s.q + s.b
  let q := s.q >>> 1
  if s.r ≥ t then ⟨s.b >>> 2, q + s.b, s.r - t⟩ else ⟨s.b >>> 2, q, s.r⟩

/-- The loop that looks for the first `b`, given up after `n` rounds like the other one. -/
def inicioRaiz (n : ℕ) (v : Int32) : Option Raiz :=
  whileLoop (fun s => decide (s.b > s.r)) (fun s => some s.desce) n ⟨(1 : UInt32) <<< 30, 0, v.toUInt32⟩

def lacoRaiz (n : ℕ) (s : Raiz) : Option Raiz := whileLoop (fun s => decide (s.b > 0)) (fun s => some s.volta) n s

def sqrtI32 (n : ℕ) (v : Int32) : Option Int32 :=
  (inicioRaiz n v).bind fun s => (lacoRaiz n s).map fun s => s.q.toInt32

/-- The argument that `fillCircle` has for the row `i`. -/
def radicando (r : Int16) (i : Int32) : Int32 :=
  let r2 := r.toInt32 * r.toInt32 + r.toInt32
  r2 - i * i

end Code

section Digits

/-- The sums of a round do not wrap; the difference is taken of what is large enough. -/
def Raiz.SemEstouro (s : Raiz) : Prop := s.q.toNat + s.b.toNat < 2 ^ 32 ∧ (s.q >>> 1).toNat + s.b.toNat < 2 ^ 32

/-- The part `a` of the root of `v` has been found, and `k` bits of it have yet to be. -/
structure Digitos (v k a : ℕ) (s : Raiz) : Prop where
  b : s.b.toNat = 4 ^ k / 4
  q : s.q.toNat = a * 2 ^ k
  r : v = a * a + s.r.toNat
  dvd : 2 ^ k ∣ a
  lt : v < (a + 2 ^ k) * (a + 2 ^ k)

variable {v k a : ℕ} {s : Raiz}

theorem toNat_shiftRight_two (x : UInt32) : (x >>> 2).toNat = x.toNat / 4 := by
  rw [UInt32.toNat_shiftRight, Nat.shiftRight_eq_div_pow]
  rfl

theorem toNat_shiftRight_one (x : UInt32) : (x >>> 1).toNat = x.toNat / 2 := by
  rw [UInt32.toNat_shiftRight, Nat.shiftRight_eq_div_pow]
  rfl

theorem pow_four_div (k : ℕ) : 4 ^ (k + 1) / 4 = 4 ^ k := by
  rw [Nat.pow_succ, Nat.mul_div_cancel _ (by decide)]

theorem Digitos.sum_lt (h : Digitos v (k + 1) a s) (hv : v < 2 ^ 31) (hk : k < 16) :
    a * 2 ^ (k + 1) + 4 ^ k < 2 ^ 32 := by
  have hr := h.r
  rcases Nat.eq_zero_or_pos a with rfl | hpos
  · have hle : 4 ^ k ≤ 4 ^ 15 := Nat.pow_le_pow_right (by decide) (Nat.le_of_lt_succ hk)
    omega
  · -- the bits that have been found stand above the others
    have hle : 2 ^ (k + 1) ≤ a := Nat.le_of_dvd hpos h.dvd
    have hprod : a * 2 ^ (k + 1) ≤ a * a := Nat.mul_le_mul_left a hle
    have hsq : 2 ^ (k + 1) * 2 ^ (k + 1) ≤ a * a := Nat.mul_le_mul hle hle
    have hfour : 2 ^ (k + 1) * 2 ^ (k + 1) = 4 * 4 ^ k := by rw [← Nat.mul_pow, Nat.pow_succ, Nat.mul_comm]
    omega

theorem Digitos.bit (h : Digitos v (k + 1) a s) : s.b.toNat = 4 ^ k := by rw [h.b, pow_four_div]

theorem Digitos.half (h : Digitos v (k + 1) a s) : (s.q >>> 1).toNat = a * 2 ^ k := by
  rw [toNat_shiftRight_one, h.q, Nat.pow_succ, ← Nat.mul_assoc, Nat.mul_div_cancel _ (by decide)]

theorem Digitos.semEstouro (h : Digitos v (k + 1) a s) (hv : v < 2 ^ 31) (hk : k < 16) : s.SemEstouro := by
  have hsum := h.sum_lt hv hk
  have hle : a * 2 ^ k ≤ a * 2 ^ (k + 1) := Nat.mul_le_mul_left a (Nat.pow_le_pow_right (by decide) (Nat.le_succ k))
  rw [Raiz.SemEstouro, h.half, h.bit, h.q]
  omega

theorem Digitos.volta (h : Digitos v (k + 1) a s) (hv : v < 2 ^ 31) (hk : k < 16) :
    ∃ a', Digitos v k a' s.volta := by
  have hsum := h.sum_lt hv hk
  have hfour : 4 ^ k = 2 ^ k * 2 ^ k := by rw [← Nat.mul_pow]
  have hdvd : 2 ^ k ∣ a := (Nat.pow_dvd_pow 2 (Nat.le_succ k)).trans h.dvd
  have hb : (s.b >>> 2).toNat = 4 ^ k / 4 := by rw [toNat_shiftRight_two, h.bit]
  have ht : (s.q + s.b).toNat = a * 2 ^ (k + 1) + 4 ^ k := by
    rw [UInt32.toNat_add, h.q, h.bit, Nat.mod_eq_of_lt hsum]
  have hsq : (a + 2 ^ k) * (a + 2 ^ k) = a * a + (a * 2 ^ (k + 1) + 4 ^ k) := by
    rw [hfour, Nat.pow_succ]
    ring
  have hr := h.r
  rw [Raiz.volta]
  by_cases hge : s.r ≥ s.q + s.b
  · have hle := UInt32.le_iff_toNat_le.mp hge
    refine ⟨a + 2 ^ k, ?_⟩
    simp only [if_pos hge]
    refine ⟨hb, ?_, ?_, Nat.dvd_add hdvd (Nat.dvd_refl _), ?_⟩
    · have hnowrap := (h.semEstouro hv hk).2
      rw [h.half, h.bit] at hnowrap
      rw [UInt32.toNat_add, h.half, h.bit, Nat.mod_eq_of_lt hnowrap, Nat.add_mul, hfour]
    · rw [UInt32.toNat_sub_of_le _ _ hge, ht, hsq]
      rw [ht] at hle
      omega
    · have hlt := h.lt
      have hsucc : a + 2 ^ k + 2 ^ k = a + 2 ^ (k + 1) := by
        rw [Nat.pow_succ]
        omega
      rwa [hsucc]
  · have hlt := Nat.lt_of_not_le fun hle => hge (UInt32.le_iff_toNat_le.mpr hle)
    rw [ht] at hlt
    refine ⟨a, ?_⟩
    simp only [if_neg hge]
    exact ⟨hb, h.half, h.r, hdvd, by omega⟩

theorem Digitos.desce (h : Digitos v (k + 1) 0 s) (hlt : s.b > s.r) : Digitos v k 0 s.desce := by
  have hr := h.r
  have hv := UInt32.lt_iff_toNat_lt.mp hlt
  rw [h.bit] at hv
  refine ⟨?_, ?_, h.r, Nat.dvd_zero _, ?_⟩
  · rw [Raiz.desce, toNat_shiftRight_two, h.bit]
  · rw [Raiz.desce, h.q, Nat.zero_mul, Nat.zero_mul]
  · have hfour : (0 + 2 ^ k) * (0 + 2 ^ k) = 4 ^ k := by rw [Nat.zero_add, ← Nat.mul_pow]
    omega

theorem Digitos.b_lt {a' : ℕ} {t : Raiz} (ht : Digitos v k a' t) (hs : Digitos v (k + 1) a s) :
    t.b.toNat < s.b.toNat := by
  rw [ht.b, hs.bit]
  exact Nat.div_lt_self (Nat.pow_pos (by decide)) (by decide)

theorem Digitos.k_eq_zero (h : Digitos v k a s) (hb : ¬s.b > 0) : k = 0 := by
  cases k with
  | zero => rfl
  | succ k =>
      have hpos : (0 : UInt32).toNat < s.b.toNat := by
        rw [h.bit]
        exact Nat.pow_pos (by decide)
      exact absurd (UInt32.lt_iff_toNat_lt.mpr hpos) hb

end Digits

section Root

/-- The root has been found down to the bit that is next, if there is one. -/
def EmCurso (v a : ℕ) (s : Raiz) : Prop := ∃ k, k ≤ 16 ∧ Digitos v k a s

theorem emCurso_inicio {v : Int32} (hv : 0 ≤ v) :
    v.toInt.toNat < 2 ^ 31 ∧ EmCurso v.toInt.toNat 0 ⟨(1 : UInt32) <<< 30, 0, v.toUInt32⟩ := by
  have hlt : v.toInt.toNat < 2 ^ 31 := by
    have h := v.toInt_lt
    omega
  have hnat : v.toUInt32.toNat = v.toInt.toNat := Int32.toNat_toUInt32_of_le hv
  have hb : ((1 : UInt32) <<< 30).toNat = 4 ^ 16 / 4 := by decide
  refine ⟨hlt, 16, Nat.le_refl 16, hb, (Nat.zero_mul _).symm, ?_, Nat.dvd_zero _, ?_⟩
  · rw [Nat.zero_mul, Nat.zero_add]
    exact hnat.symm
  · omega

theorem EmCurso.exists_bit {v a : ℕ} {s : Raiz} (h : EmCurso v a s) (hb : 0 < s.b.toNat) :
    ∃ k < 16, Digitos v (k + 1) a s := by
  obtain ⟨k, hk, hdig⟩ := h
  cases k with
  | zero =>
      rw [hdig.b] at hb
      exact absurd hb (Nat.not_lt_zero _)
  | succ k => exact ⟨k, hk, hdig⟩

theorem EmCurso.desce {v : ℕ} {s : Raiz} (h : EmCurso v 0 s) (hlt : s.b > s.r) :
    EmCurso v 0 s.desce ∧ s.desce.b.toNat < s.b.toNat := by
  obtain ⟨k, hk, hdig⟩ := h.exists_bit (Nat.zero_lt_of_lt (UInt32.lt_iff_toNat_lt.mp hlt))
  have hdesce := hdig.desce hlt
  exact ⟨⟨k, Nat.le_of_lt hk, hdesce⟩, hdesce.b_lt hdig⟩

theorem EmCurso.volta {v : ℕ} {s : Raiz} (h : ∃ a, EmCurso v a s) (hv : v < 2 ^ 31) (hb : s.b > 0) :
    s.SemEstouro ∧ (∃ a, EmCurso v a s.volta) ∧ s.volta.b.toNat < s.b.toNat := by
  obtain ⟨a, hcurso⟩ := h
  obtain ⟨k, hk, hdig⟩ := hcurso.exists_bit (UInt32.lt_iff_toNat_lt.mp hb)
  obtain ⟨a', hvolta⟩ := hdig.volta hv hk
  exact ⟨hdig.semEstouro hv hk, ⟨a', k, Nat.le_of_lt hk, hvolta⟩, hvolta.b_lt hdig⟩

/-- The integer root of `v`. -/
def EhRaiz (v q : ℤ) : Prop := 0 ≤ q ∧ q * q ≤ v ∧ v < (q + 1) * (q + 1)

theorem ehRaiz_iff {v q : ℤ} (hv : 0 ≤ v) : EhRaiz v q ↔ q = Nat.sqrt v.toNat := by
  obtain ⟨v, rfl⟩ := Int.eq_ofNat_of_zero_le hv
  rw [Int.toNat_natCast]
  constructor
  · rintro ⟨hq, hle, hlt⟩
    obtain ⟨q, rfl⟩ := Int.eq_ofNat_of_zero_le hq
    exact congrArg Int.ofNat (Nat.eq_sqrt.mpr ⟨by exact_mod_cast hle, by exact_mod_cast hlt⟩)
  · rintro rfl
    exact ⟨Int.natCast_nonneg _, by exact_mod_cast Nat.sqrt_le v, by exact_mod_cast Nat.lt_succ_sqrt v⟩

theorem inicioRaiz_emCurso {v : Int32} (hv : 0 ≤ v) {n : ℕ} (hn : 2 ^ 30 < n) :
    ∃ s, inicioRaiz n v = some s ∧ EmCurso v.toInt.toNat 0 s := by
  obtain ⟨s, hs, hcurso, -⟩ := whileLoop_total (I := EmCurso v.toInt.toNat 0) (fun s => s.b.toNat)
    (fun s hI hc => ⟨s.desce, rfl, hI.desce (of_decide_eq_true hc)⟩) (emCurso_inicio hv).2 hn
  exact ⟨s, hs, hcurso⟩

theorem lacoRaiz_sqrt {v : ℕ} (hv : v < 2 ^ 31) {s : Raiz} (h : ∃ a, EmCurso v a s) {n : ℕ} (hn : s.b.toNat < n) :
    ∃ t, lacoRaiz n s = some t ∧ t.q.toNat = Nat.sqrt v := by
  obtain ⟨t, ht, ⟨a, k, -, hdig⟩, hend⟩ := whileLoop_total (I := fun s => ∃ a, EmCurso v a s) (fun s => s.b.toNat)
    (fun s hI hc => ⟨s.volta, rfl, (EmCurso.volta hI hv (of_decide_eq_true hc)).2⟩) h hn
  obtain rfl := hdig.k_eq_zero (of_decide_eq_false hend)
  refine ⟨t, ht, ?_⟩
  have hr := hdig.r
  rw [hdig.q, Nat.pow_zero, Nat.mul_one]
  exact Nat.eq_sqrt.mpr ⟨by omega, hdig.lt⟩

theorem EmCurso.b_le {v a : ℕ} {s : Raiz} (h : EmCurso v a s) : s.b.toNat ≤ 2 ^ 30 := by
  obtain ⟨k, hk, hdig⟩ := h
  have hle : 4 ^ k ≤ 4 ^ 16 := Nat.pow_le_pow_right (by decide) hk
  rw [hdig.b]
  omega

theorem sqrtI32_sqrt {v : Int32} (hv : 0 ≤ v) :
    ∃ n s q, inicioRaiz n v = some s ∧ sqrtI32 n v = some q ∧ q.toInt = Nat.sqrt v.toInt.toNat ∧
      ∀ k, (∀ j ≤ k, 0 < (Raiz.volta^[j] s).b) → (Raiz.volta^[k] s).SemEstouro := by
  have hlt := (emCurso_inicio hv).1
  obtain ⟨n, hn⟩ := exists_gt (2 ^ 30)
  obtain ⟨s, hs, hcurso⟩ := inicioRaiz_emCurso hv hn
  obtain ⟨t, ht, hsqrt⟩ := lacoRaiz_sqrt hlt ⟨0, hcurso⟩ (Nat.lt_of_le_of_lt hcurso.b_le hn)
  refine ⟨n, s, t.q.toInt32, hs, ?_, ?_, ?_⟩
  · rw [sqrtI32, hs, Option.bind_some, ht]
    rfl
  · -- the cast to a signed number keeps a root of 31 bits
    have hle : t.q.toNat ≤ v.toInt.toNat := hsqrt ▸ Nat.sqrt_le_self _
    have hofNat : t.q.toInt32 = Int32.ofNat t.q.toNat := by rw [← UInt32.toInt32_ofNat', UInt32.ofNat_toNat]
    rw [hofNat, Int32.toInt_ofNat_of_lt (hle.trans_lt hlt), hsqrt]
  · intro k hk
    have hround : ∀ s : Raiz, (∃ a, EmCurso v.toInt.toNat a s) → decide (s.b > 0) = true →
        ∃ a, EmCurso v.toInt.toNat a s.volta :=
      fun s hI hc => (EmCurso.volta hI hlt (of_decide_eq_true hc)).2.1
    have hI := iterate_preserves hround ⟨0, hcurso⟩ fun j hj => decide_eq_true (hk j (Nat.le_of_lt hj))
    exact (EmCurso.volta hI hlt (hk k (Nat.le_refl k))).1

theorem bmod_word {x : ℤ} (hle : -2 ^ 31 ≤ x) (hlt : x < 2 ^ 31) : x.bmod (2 ^ 32) = x := by
  apply Int.bmod_eq_of_le
  · exact hle
  · exact hlt

theorem radicando_toInt {r : Int16} {i : Int32} (hi : 0 ≤ i) (hle : i ≤ r.toInt32) :
    (radicando r i).toInt = r.toInt * r.toInt + r.toInt - i.toInt * i.toInt ∧ 0 ≤ radicando r i := by
  have hr : i.toInt ≤ r.toInt := by
    have h := Int32.le_iff_toInt_le.mp hle
    rwa [Int16.toInt_toInt32] at h
  have hi0 : 0 ≤ i.toInt := Int32.le_iff_toInt_le.mp hi
  have hmax := r.toInt_lt
  have hsq : i.toInt * i.toInt ≤ r.toInt * r.toInt := by nlinarith
  have hrr : r.toInt * r.toInt ≤ 32767 * 32767 := by nlinarith
  have hii : 0 ≤ i.toInt * i.toInt := by positivity
  have hval : (radicando r i).toInt = r.toInt * r.toInt + r.toInt - i.toInt * i.toInt := by
    simp only [radicando, Int32.toInt_sub, Int32.toInt_add, Int32.toInt_mul, Int16.toInt_toInt32]
    rw [bmod_word (x := r.toInt * r.toInt) (by omega) (by omega),
      bmod_word (x := r.toInt * r.toInt + r.toInt) (by omega) (by omega),
      bmod_word (x := i.toInt * i.toInt) (by omega) (by omega), bmod_word (by omega) (by omega)]
  refine ⟨hval, Int32.le_iff_toInt_le.mpr ?_⟩
  rw [hval]
  have hz : (0 : Int32).toInt = 0 := rfl
  omega

/-- What `sqrt_i32` returns is the root and nothing else is, no round wraps, and the row `i` of
`fillCircle` is half as wide as the root of `r * r + r - i * i`. -/
theorem sqrt_i32_exact :
    (∀ v : Int32, 0 ≤ v → ∃ n s q, inicioRaiz n v = some s ∧ sqrtI32 n v = some q ∧
      (∀ k, (∀ j ≤ k, 0 < (Raiz.volta^[j] s).b) → (Raiz.volta^[k] s).SemEstouro) ∧
      ∀ p, EhRaiz v.toInt p ↔ p = q.toInt) ∧
    ∀ (r : Int16) (i : Int32), 0 ≤ i → i ≤ r.toInt32 →
      (radicando r i).toInt = r.toInt * r.toInt + r.toInt - i.toInt * i.toInt ∧ 0 ≤ radicando r i ∧
      ∃ n dx, sqrtI32 n (radicando r i) = some dx ∧
        (∀ p, EhRaiz (r.toInt * r.toInt + r.toInt - i.toInt * i.toInt) p ↔ p = dx.toInt) ∧
        dx.toInt = Vga.sqrtI32 (r.toInt * r.toInt + r.toInt - i.toInt * i.toInt).toNat := by
  constructor
  · intro v hv
    obtain ⟨n, s, q, hs, hq, hroot, hwrap⟩ := sqrtI32_sqrt hv
    refine ⟨n, s, q, hs, hq, hwrap, fun p => ?_⟩
    rw [ehRaiz_iff (Int32.le_iff_toInt_le.mp hv), hroot]
  · intro r i hi hle
    obtain ⟨hval, hpos⟩ := radicando_toInt hi hle
    obtain ⟨n, -, dx, -, hdx, hroot, -⟩ := sqrtI32_sqrt hpos
    have hnonneg : 0 ≤ (radicando r i).toInt := Int32.le_iff_toInt_le.mp hpos
    have hlt := (emCurso_inicio hpos).1
    refine ⟨hval, hpos, n, dx, hdx, fun p => ?_, ?_⟩
    · rw [← hval, ehRaiz_iff hnonneg, hroot]
    · rw [← hval, hroot, VgaAccesses.sqrtI32_eq (hlt.trans (by decide))]

theorem sqrt_i32_exact_row :
    0 ≤ (3 : Int32) ∧ (3 : Int32) ≤ (10 : Int16).toInt32 ∧
      ∃ n dx, sqrtI32 n (radicando 10 3) = some dx ∧ dx.toInt = 10 := by
  have hi : 0 ≤ (3 : Int32) := by decide
  have hle : (3 : Int32) ≤ (10 : Int16).toInt32 := by decide
  obtain ⟨-, -, n, dx, hdx, hroot, -⟩ := sqrt_i32_exact.2 10 3 hi hle
  exact ⟨hi, hle, n, dx, hdx, ((hroot 10).mp ⟨by decide, by decide, by decide⟩).symm⟩

end Root

end Orion68.VgaSqrt
