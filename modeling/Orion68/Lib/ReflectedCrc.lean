import Mathlib.Logic.Function.Iterate
import Mathlib.Tactic.Common

namespace Orion68.ReflectedCrc

variable {w : Nat} (poly : BitVec w)

/-- One bit of a cyclic redundancy check whose remainder is kept reflected. -/
def shift (c : BitVec w) : BitVec w := if c.getLsbD 0 then poly ^^^ (c >>> 1) else c >>> 1

theorem shift_xor (a b : BitVec w) : shift poly (a ^^^ b) = shift poly a ^^^ shift poly b := by
  simp only [shift, BitVec.getLsbD_xor, BitVec.ushiftRight_xor_distrib]
  ext i hi
  cases a.getLsbD 0 <;> cases b.getLsbD 0 <;> simp <;> grind

theorem shifts_xor (n : Nat) (a b : BitVec w) :
    (shift poly)^[n] (a ^^^ b) = (shift poly)^[n] a ^^^ (shift poly)^[n] b := by
  induction n generalizing a b with
  | zero => rfl
  | succ n ih => simp only [Function.iterate_succ_apply, shift_xor, ih]

theorem shifts_of_clear {n : Nat} {c : BitVec w} (hc : ∀ i, i < n → c.getLsbD i = false) :
    (shift poly)^[n] c = c >>> n := by
  induction n with
  | zero => simp
  | succ n ih =>
      have hlow : (c >>> n).getLsbD 0 = false := by simpa using hc n (Nat.lt_succ_self n)
      rw [Function.iterate_succ_apply', ih fun i hi => hc i (Nat.lt_succ_of_lt hi), shift, hlow,
        BitVec.shiftRight_add]
      rfl

/-- The shifts of a remainder are those of its low bits, to be looked up in a table, and its
high bits moved down. -/
theorem shifts_eq_low {n : Nat} {c low : BitVec w}
    (hlow : ∀ i, low.getLsbD i = (decide (i < n) && c.getLsbD i)) :
    (shift poly)^[n] c = (shift poly)^[n] low ^^^ (c >>> n) := by
  have hsplit : c = low ^^^ (c ^^^ low) := by
    rw [BitVec.xor_comm c low, ← BitVec.xor_assoc, BitVec.xor_self, BitVec.zero_xor]
  have hclear : ∀ i, i < n → (c ^^^ low).getLsbD i = false := by
    intro i hi
    rw [BitVec.getLsbD_xor, hlow]
    simp [hi]
  have hhigh : (c ^^^ low) >>> n = c >>> n := by
    ext i hi
    have hn : ¬ n + i < n := by omega
    simp [BitVec.getLsbD_xor, hlow, hn]
  calc (shift poly)^[n] c = (shift poly)^[n] (low ^^^ (c ^^^ low)) := by rw [← hsplit]
    _ = (shift poly)^[n] low ^^^ (shift poly)^[n] (c ^^^ low) := shifts_xor poly n _ _
    _ = (shift poly)^[n] low ^^^ (c >>> n) := by rw [shifts_of_clear poly hclear, hhigh]

def feed (c : BitVec w) (byte : BitVec 8) : BitVec w := (shift poly)^[8] (c ^^^ byte.setWidth w)

def crc (init : BitVec w) (bytes : List (BitVec 8)) : BitVec w := bytes.foldl (feed poly) init

end Orion68.ReflectedCrc
