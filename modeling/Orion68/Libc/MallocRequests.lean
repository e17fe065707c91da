import Orion68.Libc.MallocRefinement

namespace Orion68.MallocRequests

open Chains Regions FirstFit Memory Malloc MallocLists MallocRefinement

section Rounding

theorem and_neg_two_pow {x a : UInt32} {k : Nat} (ha : a.toNat = 2 ^ k) :
    (x &&& (0 - a)).toNat = x.toNat / 2 ^ k * 2 ^ k := by
  have hk : 2 ^ k < 2 ^ 32 := ha ▸ a.toNat_lt
  have hk' : k < 32 := (Nat.pow_lt_pow_iff_right (by omega)).mp hk
  have hpos : 0 < 2 ^ k := Nat.two_pow_pos k
  have hneg : (0 - a).toNat = 2 ^ 32 - (2 ^ k - 1 + 1) := by
    rw [UInt32.toNat_sub, ha, Nat.sub_add_cancel hpos]
    change (2 ^ 32 - 2 ^ k + 0) % 2 ^ 32 = _
    omega
  rw [UInt32.toNat_and, hneg]
  apply Nat.eq_of_testBit_eq
  intro i
  rw [Nat.testBit_and, Nat.testBit_two_pow_sub_succ (by omega), Nat.testBit_two_pow_sub_one, Nat.testBit_mul_two_pow,
    Nat.testBit_div_two_pow]
  by_cases hi : k ≤ i
  · rw [Nat.sub_add_cancel hi]
    by_cases hi32 : i < 32
    · simp [hi, hi32, Nat.not_lt.mpr hi]
    · have hlarge : x.toNat.testBit i = false :=
        Nat.testBit_lt_two_pow (Nat.lt_of_lt_of_le x.toNat_lt (Nat.pow_le_pow_right (by omega) (by omega)))
      simp [hlarge]
  · simp [hi, Nat.lt_of_not_le hi]

variable {s : Settings} {num : UInt32} {k : Nat}

theorem roundUp_spec (ha : s.heapAlignment.toNat = 2 ^ k) (hn : num.toNat + s.heapAlignment.toNat ≤ 2 ^ 32) :
    s.heapAlignment.toNat ∣ (s.roundUp num).toNat ∧ num.toNat ≤ (s.roundUp num).toNat ∧
      (s.roundUp num).toNat < num.toNat + s.heapAlignment.toNat := by
  have hpos : 0 < 2 ^ k := Nat.two_pow_pos k
  have hsum : (num + s.heapAlignment - 1).toNat = num.toNat + 2 ^ k - 1 := by
    have := num.toNat_lt
    rw [UInt32.toNat_sub, UInt32.toNat_add, ha]
    change (2 ^ 32 - 1 + (num.toNat + 2 ^ k) % 2 ^ 32) % 2 ^ 32 = _
    rw [ha] at hn
    rcases Nat.lt_or_eq_of_le hn with hlt | heq
    · rw [Nat.mod_eq_of_lt hlt]
      omega
    · rw [heq]
      omega
  rw [Settings.roundUp, and_neg_two_pow ha, hsum, ha]
  refine ⟨Nat.dvd_mul_left _ _, ?_, ?_⟩
  · have := Nat.lt_div_mul_add (a := num.toNat + 2 ^ k - 1) hpos
    omega
  · have := Nat.div_mul_le_self (num.toNat + 2 ^ k - 1) (2 ^ k)
    omega

end Rounding

section Initial

variable {s : Settings} {h : Heap} {b : BlockPtr}

theorem chainFresh_spec (i : Nat) (b : BlockPtr) (h : Heap) :
    Chain (chainFresh i b h).next (some b) (List.range' b (i + 1)) ∧ (∀ a, a < b → (chainFresh i b h).next a = h.next a) ∧
      (chainFresh i b h).free = h.free ∧ (chainFresh i b h).used = h.used ∧ (chainFresh i b h).fresh = h.fresh ∧
      (chainFresh i b h).top = h.top := by
  induction i generalizing b h with
  | zero =>
      refine ⟨⟨rfl, ?_, trivial⟩, fun a ha => ?_, rfl, rfl, rfl, rfl⟩
      · simp [chainFresh]
      · rw [chainFresh, Heap.next_setNext, Function.update_of_ne (Nat.ne_of_lt ha)]
  | succ i ih =>
      obtain ⟨hch, hkeep, hheads⟩ := ih (b + 1) (h.setNext b (some (b + 1)))
      have hb : (chainFresh (i + 1) b h).next b = some (b + 1) := by
        rw [chainFresh, hkeep b (Nat.lt_succ_self b), Heap.next_setNext, Function.update_self]
      refine ⟨⟨rfl, ?_⟩, fun a ha => ?_, hheads⟩
      · rw [List.range'_succ]
        refine ⟨?_, hch.seg⟩
        rw [hb, List.range'_succ]
        rfl
      · rw [chainFresh, hkeep a (Nat.lt_succ_of_lt ha), Heap.next_setNext, Function.update_of_ne (Nat.ne_of_lt ha)]

theorem mallocInit_represents (hs : 0 < s.heapMaxBlocks.toNat) (block : BlockPtr → Block) :
    Represents s (mallocInit s block) ⟨[], [], (setting s).base⟩ := by
  obtain ⟨hch, -, hfree, hused, hfresh, htop⟩ := chainFresh_spec (s.heapMaxBlocks - 1).toNat 0
    ⟨block, none, none, some 0, s.heap + sizeofHeap + s.heapMaxBlocks * sizeofBlock⟩
  have hcount : (s.heapMaxBlocks - 1).toNat + 1 = s.heapMaxBlocks.toNat := by
    have hle : (1 : UInt32) ≤ s.heapMaxBlocks := hs
    rw [UInt32.toNat_sub_of_le _ _ hle]
    change s.heapMaxBlocks.toNat - 1 + 1 = _
    omega
  rw [hcount] at hch
  refine ⟨[], [], List.range' 0 s.heapMaxBlocks.toNat, ⟨⟨hfree, trivial⟩, ⟨hused, trivial⟩, ?_, List.nodup_range', ?_⟩, ?_⟩
  · rw [mallocInit, hfresh]
    exact hch
  · simp
  · rw [arena, mallocInit, htop]
    rfl

end Initial

section Contents

variable {m m' : Ram} {a : UInt32} {n : Nat}

/-- The `n` bytes from `a` on. -/
def bytes (m : Ram) (a : UInt32) (n : Nat) : List UInt8 := (List.range n).map fun i => m (a + UInt32.ofNat i)

@[simp] theorem length_bytes : (bytes m a n).length = n := by simp [bytes]

theorem offset_mem {i : Nat} (hi : i < n) (hn : n ≤ 2 ^ 32) : a + UInt32.ofNat i ∈ Span.mk a n := by
  rw [Span.mem_iff, UInt32.add_comm, UInt32.add_sub_cancel, UInt32.toNat_ofNat_of_lt' (Nat.lt_of_lt_of_le hi hn)]
  exact hi

theorem bytes_congr (hn : n ≤ 2 ^ 32) (h : ∀ x ∈ Span.mk a n, m' x = m x) : bytes m' a n = bytes m a n :=
  List.map_congr_left fun _ hi => h _ (offset_mem (List.mem_range.mp hi) hn)

theorem bytes_write (d : List UInt8) (hd : d.length ≤ 2 ^ 32) : bytes (write a d m) a d.length = d := by
  apply List.ext_getElem length_bytes
  intro i hi hi'
  simp only [bytes, List.getElem_map, List.getElem_range]
  exact write_offset m hi' hd

theorem bytes_update {i : Nat} (hi : i < n) (hn : n ≤ 2 ^ 32) (v : UInt8) :
    bytes (Function.update m (a + UInt32.ofNat i) v) a n = (bytes m a n).set i v := by
  apply List.ext_getElem (by simp)
  intro j hj hj'
  rw [length_bytes] at hj
  rw [List.getElem_set]
  simp only [bytes, List.getElem_map, List.getElem_range]
  by_cases hij : i = j
  · rw [if_pos hij, hij, Function.update_self]
  · have hne : a + UInt32.ofNat j ≠ a + UInt32.ofNat i := fun he => by
      have he' := UInt32.add_right_inj a |>.mp he
      have := congrArg UInt32.toNat he'
      rw [UInt32.toNat_ofNat_of_lt' (Nat.lt_of_lt_of_le hj hn), UInt32.toNat_ofNat_of_lt' (Nat.lt_of_lt_of_le hi hn)] at this
      exact hij this.symm
    rw [if_neg hij, Function.update_of_ne hne]

theorem clearLoop_eq (width k : Nat) (p : UInt32) (m : Ram) (h : k * width < 2 ^ 32) :
    clearLoop width k p m = (p + UInt32.ofNat (k * width), write p (List.replicate (k * width) 0) m) := by
  induction k generalizing p m with
  | zero =>
      rw [clearLoop, Nat.zero_mul]
      refine Prod.ext ?_ ?_
      · exact (UInt32.add_zero p).symm
      · funext x
        simp [write]
  | succ k ih =>
      rw [Nat.succ_mul] at h
      have hw : width < 2 ^ 32 := by omega
      rw [clearLoop, ih _ _ (by omega), Nat.succ_mul, Nat.add_comm (k * width) width]
      refine Prod.ext ?_ ?_
      · rw [UInt32.ofNat_add, UInt32.add_assoc]
      · have hlen : (List.replicate width (0 : UInt8)).length = width := List.length_replicate
        have happ := write_append p (List.replicate width 0) (List.replicate (k * width) 0) m
          (by simp only [List.length_replicate]; omega) (by rw [hlen]; exact hw)
        rw [hlen, List.replicate_append_replicate] at happ
        exact happ

theorem memclear_eq (ptr num : UInt32) (m : Ram) : memclear ptr num m = write ptr (List.replicate num.toNat 0) m := by
  have hlt := num.toNat_lt
  have hwords : ((num &&& (0 - 4)) / 4).toNat = num.toNat / 4 := by
    rw [UInt32.toNat_div, and_neg_two_pow (k := 2) rfl]
    change num.toNat / 4 * 4 / 4 = num.toNat / 4
    omega
  have hbytes : (num &&& (4 - 1)).toNat = num.toNat % 4 := by
    rw [UInt32.toNat_and]
    exact Nat.and_two_pow_sub_one_eq_mod _ 2
  rw [memclear, hwords, hbytes]
  simp only [clearLoop_eq 4 _ _ _ (by omega : num.toNat / 4 * 4 < 2 ^ 32)]
  rw [clearLoop_eq 1 _ _ _ (by omega)]
  have hlen : (List.replicate (num.toNat / 4 * 4) (0 : UInt8)).length = num.toNat / 4 * 4 := List.length_replicate
  have happ := write_append ptr (List.replicate (num.toNat / 4 * 4) 0) (List.replicate (num.toNat % 4 * 1) 0) m
    (by simp only [List.length_replicate]; omega) (by rw [hlen]; omega)
  rw [hlen, List.replicate_append_replicate] at happ
  have hnum : num.toNat / 4 * 4 + num.toNat % 4 * 1 = num.toNat := by omega
  rw [happ, hnum]

end Contents

end Orion68.MallocRequests
