import Orion68.Lib.ReflectedCrc

namespace Orion68.PicoCrc32

open ReflectedCrc

def crc32Polynomial : UInt32 := 0xEDB88320

/-- The body of the inner loop of `crc32_init`. -/
def crc32Shift (c : UInt32) : UInt32 := if c &&& 1 ≠ 0 then crc32Polynomial ^^^ (c >>> 1) else c >>> 1

/-- The table that `crc32_init` fills in. -/
def crc32Table (i : UInt8) : UInt32 := crc32Shift^[8] i.toUInt32

def crc32Update (crc : UInt32) (buffer : List UInt8) : UInt32 :=
  buffer.foldl (fun crc b => crc32Table (crc ^^^ b.toUInt32).toUInt8 ^^^ (crc >>> 8)) crc

def crc32Calculate (buffer : List UInt8) : UInt32 := crc32Update 0xFFFFFFFF buffer ^^^ 0xFFFFFFFF

/-- The CRC-32 of IEEE 802.3, bit by bit. -/
def crc32 (buffer : List UInt8) : BitVec 32 :=
  ~~~ crc 0xEDB88320#32 (BitVec.allOnes 32) (buffer.map UInt8.toBitVec)

theorem crc32Shift_toBitVec (c : UInt32) : (crc32Shift c).toBitVec = shift 0xEDB88320#32 c.toBitVec := by
  have hlow : c &&& 1 ≠ 0 ↔ c.toBitVec.getLsbD 0 = true := by
    rw [ne_eq, ← UInt32.toBitVec_inj, UInt32.toBitVec_and]
    change ¬ c.toBitVec &&& 1#32 = 0#32 ↔ _
    rw [BitVec.and_one_eq_setWidth_ofBool_getLsbD]
    cases c.toBitVec.getLsbD 0 <;> decide
  rw [crc32Shift, shift]
  by_cases h : c &&& 1 ≠ 0
  · rw [if_pos h, if_pos (hlow.mp h)]
    simp [crc32Polynomial]
  · rw [if_neg h, if_neg (mt hlow.mpr h)]
    simp

theorem crc32Shifts_toBitVec (n : Nat) (c : UInt32) :
    (crc32Shift^[n] c).toBitVec = (shift 0xEDB88320#32)^[n] c.toBitVec := by
  induction n generalizing c with
  | zero => rfl
  | succ n ih => rw [Function.iterate_succ_apply, ih, crc32Shift_toBitVec, ← Function.iterate_succ_apply]

theorem crc32Table_toBitVec (c : UInt32) (b : UInt8) :
    (crc32Table (c ^^^ b.toUInt32).toUInt8 ^^^ (c >>> 8)).toBitVec =
      feed 0xEDB88320#32 c.toBitVec b.toBitVec := by
  have hlow : ∀ i, (c ^^^ b.toUInt32).toUInt8.toUInt32.toBitVec.getLsbD i =
      (decide (i < 8) && (c.toBitVec ^^^ b.toBitVec.setWidth 32).getLsbD i) := by
    intro i
    simp only [UInt8.toBitVec_toUInt32, UInt32.toBitVec_toUInt8, UInt32.toBitVec_xor,
      BitVec.getLsbD_setWidth]
    by_cases hi : i < 8 <;> simp [hi]
    intro h32
    omega
  have hhigh : (c.toBitVec ^^^ b.toBitVec.setWidth 32) >>> 8 = c.toBitVec >>> 8 := by
    ext i hi
    simp
  rw [feed, shifts_eq_low _ hlow, hhigh, crc32Table, UInt32.toBitVec_xor, crc32Shifts_toBitVec]
  simp

theorem crc32Update_toBitVec (c : UInt32) (buffer : List UInt8) :
    (crc32Update c buffer).toBitVec = crc 0xEDB88320#32 c.toBitVec (buffer.map UInt8.toBitVec) := by
  rw [crc32Update, crc]
  induction buffer generalizing c with
  | nil => rfl
  | cons b buffer ih =>
      rw [List.foldl_cons, ih, crc32Table_toBitVec]
      rfl

theorem crc32Calculate_toBitVec (buffer : List UInt8) :
    (crc32Calculate buffer).toBitVec = crc32 buffer := by
  rw [crc32Calculate, UInt32.toBitVec_xor, crc32Update_toBitVec, crc32, ← BitVec.xor_allOnes]
  rfl

example : crc32Calculate [0x31, 0x32, 0x33, 0x34, 0x35, 0x36, 0x37, 0x38, 0x39] = 0xCBF43926 := by
  decide +kernel

end Orion68.PicoCrc32
