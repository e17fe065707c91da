import Orion68.Bios.PicoW

namespace Orion68.SenderCrc32

open ReflectedCrc PicoCrc32 PicoW

/-- `crc32_init`: the loop that fills in the table. -/
def crc32Init (table : Fin 256 → UInt32) : Fin 256 → UInt32 :=
  (List.finRange 256).foldl (fun t (i : Fin 256) => Function.update t i (crc32Shift^[8] (UInt32.ofNat i))) table

variable (table : Fin 256 → UInt32)

def crc32UpdateByte (crc : UInt32) (b : UInt8) : UInt32 :=
  table ((crc ^^^ b.toUInt32) &&& 0xFF).toUInt8.toFin ^^^ (crc >>> 8)

/-- The sender's `crc32_update`. -/
def crc32UpdateSender (crc : UInt32) (buffer : List UInt8) : UInt32 := buffer.foldl (crc32UpdateByte table) crc

def crc32CalculateSender (buffer : List UInt8) : UInt32 :=
  crc32UpdateSender table 0xFFFFFFFF buffer ^^^ 0xFFFFFFFF

/-- How many bytes `fread` gives of those that remain: at most those asked for, and none only at the end. -/
def fread (quota : ℕ → ℕ) (remaining : List UInt8) : ℕ := min 4096 (quota remaining.length + 1)

/-- The loop of `crc32_from_file`. -/
def crc32Blocks (quota : ℕ → ℕ) (crc : UInt32) (remaining : List UInt8) : UInt32 :=
  let buffer := remaining.take (fread quota remaining)
  if _h : buffer.length > 0 then
    crc32Blocks quota (buffer.foldl (crc32UpdateByte table) crc) (remaining.drop (fread quota remaining))
  else crc
termination_by remaining.length
decreasing_by
  have hpos : fread quota remaining > 0 := by simp [fread]
  simp only [List.length_take, List.length_drop, buffer] at *
  omega

/-- `none` is a file that does not open. -/
def crc32FromFile (quota : ℕ → ℕ) (file : Option (List UInt8)) : UInt32 :=
  match file with
  | none => 0
  | some content => crc32Blocks table quota 0xFFFFFFFF content ^^^ 0xFFFFFFFF

variable {table}

theorem foldl_update (f : Fin 256 → UInt32) (is : List (Fin 256)) (t : Fin 256 → UInt32) (i : Fin 256)
    (h : i ∈ is ∨ t i = f i) : is.foldl (fun t i => Function.update t i (f i)) t i = f i := by
  induction is generalizing t with
  | nil => exact h.resolve_left List.not_mem_nil
  | cons j is ih =>
      apply ih
      by_cases hj : i = j
      · subst j
        exact .inr (Function.update_self i (f i) t)
      · refine h.imp (fun hi => (List.mem_cons.mp hi).resolve_left hj) ?_
        exact fun ht => (Function.update_of_ne hj (f j) t).trans ht

theorem crc32Init_apply (t : Fin 256 → UInt32) (b : UInt8) : crc32Init t (Fin.ofNat 256 b.toNat) = crc32Table b := by
  have hb : (Fin.ofNat 256 b.toNat).val = b.toNat := Nat.mod_eq_of_lt b.toNat_lt
  rw [crc32Init, foldl_update _ _ _ _ (.inl (List.mem_finRange _)), crc32Table, hb, UInt32.ofNat_uInt8ToNat]

theorem crc32UpdateByte_eq (t : Fin 256 → UInt32) (crc : UInt32) (b : UInt8) :
    crc32UpdateByte (crc32Init t) crc b = crc32Table (crc ^^^ b.toUInt32).toUInt8 ^^^ (crc >>> 8) := by
  have hlow : ((crc ^^^ b.toUInt32) &&& 0xFF).toUInt8 = (crc ^^^ b.toUInt32).toUInt8 := by
    apply UInt8.toNat_inj.mp
    rw [UInt32.toNat_toUInt8, UInt32.toNat_and, UInt32.toNat_toUInt8]
    exact (congrArg (· % 2 ^ 8) (Nat.and_two_pow_sub_one_eq_mod _ 8)).trans (Nat.mod_mod _ _)
  have hindex (b : UInt8) : b.toFin = Fin.ofNat 256 b.toNat := Fin.ext (Nat.mod_eq_of_lt b.toNat_lt).symm
  rw [crc32UpdateByte, hlow, hindex, crc32Init_apply]

theorem crc32UpdateSender_eq (t : Fin 256 → UInt32) (crc : UInt32) (buffer : List UInt8) :
    crc32UpdateSender (crc32Init t) crc buffer = crc32Update crc buffer := by
  rw [crc32UpdateSender, crc32Update]
  congr 1
  funext crc b
  exact crc32UpdateByte_eq t crc b

theorem crc32UpdateSender_append (crc : UInt32) (a b : List UInt8) :
    crc32UpdateSender table crc (a ++ b) = crc32UpdateSender table (crc32UpdateSender table crc a) b :=
  List.foldl_append

theorem crc32UpdateBios_append (crc : UInt32) (a b : List UInt8) :
    crc32UpdateBios crc (a ++ b) = crc32UpdateBios (crc32UpdateBios crc a) b := by
  rw [crc32UpdateBios_foldl, crc32UpdateBios_foldl, crc32UpdateBios_foldl, List.foldl_append]

theorem crc32Blocks_eq (quota : ℕ → ℕ) (crc : UInt32) (remaining : List UInt8) :
    crc32Blocks table quota crc remaining = crc32UpdateSender table crc remaining := by
  induction hn : remaining.length using Nat.strong_induction_on generalizing crc remaining with
  | _ n ih =>
      have hpos : fread quota remaining > 0 := by simp [fread]
      rw [crc32Blocks]
      by_cases h : (remaining.take (fread quota remaining)).length > 0
      · rw [dif_pos h]
        have hlt : (remaining.drop (fread quota remaining)).length < n := by
          rw [List.length_take] at h
          rw [List.length_drop]
          omega
        rw [ih _ hlt _ _ rfl]
        change crc32UpdateSender table (crc32UpdateSender table crc (remaining.take (fread quota remaining))) _ = _
        rw [← crc32UpdateSender_append, List.take_append_drop]
      · rw [dif_neg h]
        have hnil : remaining = [] := by
          rw [List.length_take] at h
          apply List.eq_nil_of_length_eq_zero
          omega
        rw [hnil]
        rfl

/-- All implementations agree with the CRC-32 bit by bit, on every buffer, however it is split, and on every file. -/
theorem crc32_agree (t : Fin 256 → UInt32) (crc : UInt32) (buffer a b : List UInt8) (quota : ℕ → ℕ)
    (content : List UInt8) :
    (∀ i : UInt8, crc32Init t (Fin.ofNat 256 i.toNat) = crc32Table i) ∧
      (crc32UpdateBios crc buffer).toBitVec =
        ReflectedCrc.crc 0xEDB88320#32 crc.toBitVec (buffer.map UInt8.toBitVec) ∧
      crc32UpdateBios crc buffer = crc32UpdateSender (crc32Init t) crc buffer ∧
      crc32UpdateBios crc buffer = crc32Update crc buffer ∧
      crc32UpdateBios crc (a ++ b) = crc32UpdateBios (crc32UpdateBios crc a) b ∧
      crc32FromFile (crc32Init t) quota (some content) = crc32CalculateSender (crc32Init t) content ∧
      crc32FromFile (crc32Init t) quota (some content) = crc32CalculateBios content ∧
      crc32FromFile (crc32Init t) quota (some content) = crc32Calculate content := by
  have hfile : crc32FromFile (crc32Init t) quota (some content) = crc32CalculateSender (crc32Init t) content := by
    rw [crc32FromFile, crc32Blocks_eq, crc32CalculateSender]
  have hsender : crc32CalculateSender (crc32Init t) content = crc32Calculate content := by
    rw [crc32CalculateSender, crc32UpdateSender_eq, crc32Calculate]
  refine ⟨crc32Init_apply t, ?_, ?_, crc32UpdateBios_eq crc buffer, crc32UpdateBios_append crc a b, hfile, ?_, ?_⟩
  · rw [crc32UpdateBios_eq, crc32Update_toBitVec]
  · rw [crc32UpdateBios_eq, crc32UpdateSender_eq]
  · rw [hfile, hsender, crc32CalculateBios_eq]
  · rw [hfile, hsender]

end Orion68.SenderCrc32
