import Orion68.Loader.Bounds

namespace Orion68.LoaderHeap

open Memory FatFs Shell LoaderPic LoaderPatches LoaderBounds

/-- The heap that `main` of the shell hands to `malloc_init`. -/
def heapStart : UInt32 := 0x94000
def heapSize : UInt32 := 128 * 1024

def heapArea : Span := ⟨heapStart, heapSize.toNat⟩

section Slots

variable {t : SlotTable} {i : Slot}

theorem slotsAlloc_eq_zero_iff (hi : (slotsAlloc t).1 = some i) : i = 0 ↔ t 0 = false := by
  rw [slotsAlloc] at hi
  have hfind : (List.finRange 10).find? (fun i => !t i) = some i := by
    split at hi
    next j hj => rw [hj, ← hi]
    next => cases hi
  constructor
  · rintro rfl
    simpa using List.find?_some hfind
  · intro h0
    rw [List.finRange_succ, List.find?_cons_of_pos (by simp [h0])] at hfind
    exact (Option.some.inj hfind).symm

theorem slotsBaseAddr_toNat : ∀ i : Slot, (slotsBaseAddr i).toNat = 0x92000 + 0x40000 * i.val := by
  decide

theorem slotArea_disjoint_heap_iff (i : Slot) : (slotArea i).Disjoint heapArea ↔ i ≠ 0 := by
  constructor
  · rintro hd rfl
    exact hd 0x94000 (by decide +kernel) (by decide +kernel)
  · intro hne x hx hheap
    have hbase := slotsBaseAddr_toNat i
    have hpos : 0 < i.val := Nat.pos_of_ne_zero fun h => hne (Fin.ext h)
    have hheap' : (x - 0x94000).toNat < 0x20000 := hheap
    have hx' : (x - slotsBaseAddr i).toNat < 0x40000 := hx
    have hstart : (0x94000 : UInt32).toNat = 0x94000 := rfl
    rw [UInt32.toNat_sub, hbase] at hx'
    rw [UInt32.toNat_sub, hstart] at hheap'
    have := x.toNat_lt
    omega

end Slots

section Heap

variable {t : SlotTable} {i : Slot} {l : Leitor}

/-- A word, given by its offset from `task_base`, has no byte in the heap. -/
def AvoidsHeap (i : Slot) (a : UInt32) : Prop := (Span.mk (slotsBaseAddr i + a) 4).Disjoint heapArea

/-- When the segments fit in the slot, the heap is safe exactly when the first slot is not the one
that is allocated and no word in the heap is patched. -/
theorem heap_safe_iff (hi : (slotsAlloc t).1 = some i) (m : Ram) (hfit : FileMeets Fits (fun _ => True) l) :
    ((slotArea i).Disjoint heapArea ∧
        ∀ s ∈ (loadPicElfStandalone t ⟨l, m, []⟩).2.2.escritas, s.Disjoint heapArea) ↔
      t 0 = true ∧ FileMeets (fun _ _ => True) (AvoidsHeap i) l := by
  have hwrites := loadPicElf_writes (fun s => s.Disjoint heapArea) (slotsBaseAddr i) l m
  have hslot : (slotArea i).Disjoint heapArea ↔ t 0 = true := by
    rw [slotArea_disjoint_heap_iff, Ne, slotsAlloc_eq_zero_iff hi, Bool.not_eq_false]
  rw [standalone_carga hi]
  constructor
  · rintro ⟨hdis, hw⟩
    refine ⟨hslot.mp hdis, ?_⟩
    have hmeets := hwrites.mp hw
    exact FileMeets.combine (fun _ _ _ _ => trivial) (fun _ ha _ => ha) hmeets hmeets
  · rintro ⟨h0, hq⟩
    have hdis := hslot.mpr h0
    refine ⟨hdis, hwrites.mpr ?_⟩
    apply FileMeets.combine _ _ hfit hq
    · intro off k hk _
      exact ((within_slot_iff i off k).mpr hk).disjoint hdis
    · intro a _ ha
      exact ha

theorem heap_unchanged (hi : (slotsAlloc t).1 = some i) (m : Ram)
    (hsafe : ∀ s ∈ (loadPicElfStandalone t ⟨l, m, []⟩).2.2.escritas, s.Disjoint heapArea) {x : UInt32}
    (hx : x ∈ heapArea) : (loadPicElfStandalone t ⟨l, m, []⟩).2.2.ram x = m x := by
  rw [standalone_carga hi] at hsafe ⊢
  exact loadPicElf_unwritten _ l m fun s hs hxs => hsafe s hs x hxs hx

theorem heap_safe_second_slot : (slotsAlloc (slotsAlloc slotsInit).2).1 = some 1 ∧
    ∀ s ∈ (loadPicElfStandalone (slotsAlloc slotsInit).2 ⟨bssFile 0x2000 4, fun _ => 0, []⟩).2.2.escritas,
      s.Disjoint heapArea := by
  have hslot : (slotsAlloc (slotsAlloc slotsInit).2).1 = some 1 := by decide
  have hfits : FileMeets Fits (fun a => Fits a 4) (bssFile 0x2000 4) :=
    fits_of_run slotBase (fun _ => 0) (by decide +kernel)
  have hfit : FileMeets Fits (fun _ => True) (bssFile 0x2000 4) :=
    hfits.combine (fun _ _ hk _ => hk) (fun _ _ _ => trivial) hfits
  have havoid : FileMeets (fun _ _ => True) (AvoidsHeap 1) (bssFile 0x2000 4) := by
    apply hfits.combine (fun _ _ _ _ => trivial) _ hfits
    intro a ha _
    exact ((within_slot_iff 1 a 4).mpr ha).disjoint ((slotArea_disjoint_heap_iff 1).mpr (by decide))
  exact ⟨hslot, ((heap_safe_iff hslot (fun _ => 0) hfit).mpr ⟨by decide, havoid⟩).2⟩

/-- A program whose segments fit overwrites the start of the heap from the first slot. -/
theorem heap_overwritten_first_slot : FileMeets Fits (fun _ => True) (bssFile 0x2000 4) ∧
    (slotsAlloc slotsInit).1 = some 0 ∧ ∃ s ∈ (bssRun 0x2000 4).2.2.escritas, ¬ s.Disjoint heapArea := by
  have hfits : FileMeets Fits (fun a => Fits a 4) (bssFile 0x2000 4) :=
    fits_of_run slotBase (fun _ => 0) (by decide +kernel)
  refine ⟨hfits.combine (fun _ _ hk _ => hk) (fun _ _ _ => trivial) hfits, by decide, ⟨0x94000, 4⟩, ?_, ?_⟩
  · decide +kernel
  · intro hd
    exact hd 0x94000 (by decide +kernel) (by decide +kernel)

end Heap

end Orion68.LoaderHeap
