import Mathlib.Data.Nat.ModEq
import Mathlib.Tactic.Ring
import Mathlib.Tactic.Linarith

namespace Orion68.LongDivision

section Digits

theorem div_digits (base h l : Nat) {d : Nat} (hd : 0 < d) :
    (h * base + l) / d = h / d * base + (h % d * base + l) / d := by
  have hh := Nat.div_add_mod h d
  calc (h * base + l) / d = ((d * (h / d) + h % d) * base + l) / d := by rw [hh]
    _ = (d * (h / d * base) + (h % d * base + l)) / d := by ring_nf
    _ = h / d * base + (h % d * base + l) / d := Nat.mul_add_div hd _ _

theorem mod_digits (base h l d : Nat) : (h * base + l) % d = (h % d * base + l) % d :=
  ((Nat.mod_modEq h d).symm.mul_right base).add_right l

theorem digit_lt {base d r l : Nat} (hr : r < d) (hl : l < base) : (r * base + l) / d < base := by
  rw [Nat.div_lt_iff_lt_mul (Nat.zero_lt_of_lt hr)]
  have h := Nat.mul_le_mul_right base (Nat.succ_le_of_lt hr)
  rw [Nat.succ_mul] at h
  rw [Nat.mul_comm base d]
  omega

end Digits

section Restoring

/-- What a division by shifting and subtracting has found when the next divisor to be subtracted is `d` shifted
by less than `s`: a quotient without low bits, and what is left to divide. -/
structure Restoring (a d s q r : Nat) : Prop where
  value : q * d + r = a
  small : r < d * 2 ^ s
  shifted : 2 ^ s ∣ q

variable {a d s q r : Nat}

theorem Restoring.start (h : a < d * 2 ^ s) : Restoring a d s 0 a where
  value := by rw [Nat.zero_mul, Nat.zero_add]
  small := h
  shifted := Nat.dvd_zero _

theorem Restoring.subtract (h : Restoring a d (s + 1) q r) (hle : d * 2 ^ s ≤ r) :
    Restoring a d s (q + 2 ^ s) (r - d * 2 ^ s) where
  value := by
    have hv := h.value
    have hm : (q + 2 ^ s) * d = q * d + d * 2 ^ s := by ring
    omega
  small := by
    have hs := h.small
    rw [Nat.pow_succ, ← Nat.mul_assoc] at hs
    omega
  shifted := Nat.dvd_add ((Nat.pow_dvd_pow 2 (Nat.le_succ s)).trans h.shifted) (Nat.dvd_refl _)

theorem Restoring.keep (h : Restoring a d (s + 1) q r) (hlt : r < d * 2 ^ s) : Restoring a d s q r where
  value := h.value
  small := hlt
  shifted := (Nat.pow_dvd_pow 2 (Nat.le_succ s)).trans h.shifted

theorem Restoring.lor (h : Restoring a d (s + 1) q r) : q ||| 2 ^ s = q + 2 ^ s := by
  obtain ⟨k, rfl⟩ := h.shifted
  exact (Nat.two_pow_add_eq_or_of_lt (Nat.pow_lt_pow_right Nat.one_lt_two (Nat.lt_succ_self s)) k).symm

theorem Restoring.result (h : Restoring a d 0 q r) : q = a / d ∧ r = a % d := by
  have hr : r < d := by simpa using h.small
  have hd : 0 < d := Nat.zero_lt_of_lt hr
  have hv := h.value
  rw [Nat.mul_comm] at hv
  rw [← hv]
  constructor
  · rw [Nat.mul_add_div hd, Nat.div_eq_of_lt hr, Nat.add_zero]
  · rw [Nat.mul_add_mod, Nat.mod_eq_of_lt hr]

end Restoring

end Orion68.LongDivision
