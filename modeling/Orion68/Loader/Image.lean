import Orion68.Loader.Bounds
import Orion68.Loader.Tables
import Orion68.Loader.Relocation
import Mathlib.Data.Bool.AllAny

namespace Orion68.LoaderImage

open Memory FatFs Shell LoaderPic LoaderPatches LoaderBounds LoaderReading LoaderTables LoaderRelocation

/-- The words of the sections named `.got*`. -/
def gotSectionWords (c : List UInt8) : List UInt32 :=
  (gotOf c).flatMap fun s => (List.range (s.2 / 4).toNat).map fun w => s.1 + 4 * UInt32.ofNat w

def filePatches (c : List UInt8) : List UInt32 := gotWords (gotOf c) ++ fileTargets c

def fileWords (c : List UInt8) : List UInt32 := gotSectionWords c ++ fileTargets c

/-- An executable with two segments that fit in a slot, whose tables can be read. -/
structure WellFormed (c : List UInt8) : Prop where
  size : 52 ≤ c.length
  accepted : aceita (c.take 52) = true
  programHeaders : ∀ i < (header c).phnum.toNat, ((header c).segmento i).toNat + 32 ≤ c.length
  static : ∀ i < (header c).phnum.toNat, ¬ ((programHeader c i).type = ptDynamic ∨
    (programHeader c i).type = ptShlib ∨ (programHeader c i).type = ptInterp)
  two : (loads c).length = 2
  data : ∀ ph ∈ loads c, ph.offset.toNat + ph.filesz.toNat ≤ c.length
  fits : ∀ ph ∈ loads c, ph.paddr.toNat + max ph.filesz.toNat ph.memsz.toNat ≤ slotSize.toNat
  names : (header c).shnum ≠ 0 → ((header c).secao (header c).shstrndx.toNat).toNat + 40 ≤ c.length
  sectionHeaders : ∀ i < (header c).shnum.toNat, ((header c).secao i).toNat + 40 ≤ c.length
  got : ∀ s ∈ gotOf c, s.1.toNat % 4 = 0 ∧ s.2.toNat % 4 = 0 ∧ s.1.toNat + s.2.toNat ≤ slotSize.toNat
  oneTable : (relaTables c).length ≤ 1
  entries : ∀ hdr ∈ relaTables c, ∀ j < entryCount hdr, (entryOffset hdr j).toNat + 12 ≤ c.length
  targets : ∀ a ∈ fileTargets c, a.toNat % 2 = 0 ∧ a.toNat + 4 ≤ slotSize.toNat
  apart : ∀ a ∈ fileTargets c, ∀ b ∈ fileTargets c,
    a = b ∨ a.toNat + 4 ≤ b.toNat ∨ b.toNat + 4 ≤ a.toNat
  outside : ∀ a ∈ gotSectionWords c, ∀ b ∈ fileTargets c, a.toNat + 4 ≤ b.toNat ∨ b.toNat + 4 ≤ a.toNat

/-- A segment of the file image: what the file holds, and zeros up to its size in memory. -/
def segmentBytes (c : List UInt8) (ph : ProgHeader) : List UInt8 :=
  slice c ph.offset ph.filesz.toNat ++ List.replicate (ph.memsz.toNat - ph.filesz.toNat) 0

def putSegment (c : List UInt8) (base : UInt32) (ph : ProgHeader) (m : Ram) : Ram :=
  write (base + ph.paddr) (segmentBytes c ph) m

/-- The segments of the file in memory, one after the other. -/
def image (c : List UInt8) (base : UInt32) (m : Ram) : Ram :=
  (loads c).foldl (fun m ph => putSegment c base ph m) m

section Loading

variable {c : List UInt8} {l : Leitor}

theorem sectionRead_names (hc : WellFormed c) (h0 : (header c).shnum ≠ 0) :
    (sectionRead c (header c).shstrndx.toNat).isSome := (sectionRead_isSome_iff c _).mpr (hc.names h0)

theorem gotFound_eq (hc : WellFormed c) : gotFound c = gotOf c := by
  rw [gotFound]
  by_cases h0 : (header c).shnum = 0
  · have hnil : gotOf c = [] := by
      rw [gotOf, sections, h0]
      rfl
    rw [hnil, ite_self]
  · exact if_pos ⟨sectionRead_names hc h0, fun i hi => (sectionRead_isSome_iff c i).mpr (hc.sectionHeaders i hi)⟩

theorem relaOf_eq (hc : WellFormed c) : relaOf c = fileTargets c := by
  rw [relaOf]
  by_cases h0 : (header c).shnum = 0
  · rw [fileTargets, relaTables, sections, h0]
    exact ite_self []
  · have hall := hc.sectionHeaders
    have hone := hc.oneTable
    have hent := hc.entries
    rw [relaTables, sections, List.range_eq_range'] at hone hent
    rw [if_pos (sectionRead_names hc h0), relaFrom_eq (header c).shnum.toNat 0 (fun j _ hj => hall j (by omega)) hone hent,
      ← List.range_eq_range']
    rfl

theorem patches_eq (hc : WellFormed c) (h : Reads c l) :
    ∃ l', patches (header c) l = (filePatches c, l') ∧ Reads c l' := by
  obtain ⟨l', hpatches, hl'⟩ := patches_read h
  refine ⟨l', ?_, hl'⟩
  rw [hpatches, patchesOf, gotFound_eq hc, relaOf_eq hc, filePatches]

theorem loadSegment_eq (base : UInt32) {ph : ProgHeader} {k : Carga} (h : Reads c k.leitor)
    (hlen : (slice c ph.offset ph.filesz.toNat).length = ph.filesz.toNat) :
    ∃ k', loadSegment base ph k = (true, k') ∧ Reads c k'.leitor ∧ k'.ram = putSegment c base ph k.ram := by
  obtain ⟨l', hle, hl'⟩ := h.le ph.offset ph.filesz.toNat
  rw [loadSegment, hle]
  dsimp only
  rw [if_neg (by simp [hlen])]
  by_cases hbss : ph.filesz < ph.memsz
  · rw [if_pos hbss]
    refine ⟨_, rfl, hl', ?_⟩
    have hsub : (ph.memsz - ph.filesz).toNat = ph.memsz.toNat - ph.filesz.toNat :=
      UInt32.toNat_sub_of_le _ _ (UInt32.le_of_lt hbss)
    have hofs : ph.filesz = UInt32.ofNat (slice c ph.offset ph.filesz.toNat).length := by
      rw [hlen, UInt32.ofNat_toNat]
    have hmem := ph.memsz.toNat_lt
    have hfile := ph.filesz.toNat_lt
    have happend := write_append (base + ph.paddr) (slice c ph.offset ph.filesz.toNat)
      (List.replicate (ph.memsz.toNat - ph.filesz.toNat) 0) k.ram
      (by rw [hlen, List.length_replicate]; omega) (by rw [hlen]; exact hfile)
    rw [← hofs] at happend
    rw [putSegment, segmentBytes, ← happend, ← hsub]
    rfl
  · rw [if_neg hbss]
    refine ⟨_, rfl, hl', ?_⟩
    rw [UInt32.not_lt, UInt32.le_iff_toNat_le] at hbss
    rw [putSegment, segmentBytes, Nat.sub_eq_zero_of_le hbss, List.replicate_zero, List.append_nil]
    rfl

/-- The effect of a segment on `pt_load_seen` and on the memory. -/
def loadStep (c : List UInt8) (base : UInt32) (s : Nat × Ram) (ph : ProgHeader) : Nat × Ram :=
  (s.1 + 1, if s.1 = 1 then adds base ((filePatches c).map (base + ·)) (putSegment c base ph s.2)
    else putSegment c base ph s.2)

theorem loadHeader_eq (hc : WellFormed c) (base : UInt32) (i seen : Nat) (g : UInt32) (k : Carga)
    (h : Reads c k.leitor) (hi : i < (header c).phnum.toNat) :
    ∃ seen' g' k', loadHeader (header c) base i seen g k = (some (seen', g'), k') ∧ Reads c k'.leitor ∧
      (seen', k'.ram) =
        ([programHeader c i].filter fun ph => ph.type = ptLoad).foldl (loadStep c base) (seen, k.ram) := by
  obtain ⟨l₁, hhdr, h₁⟩ := h.leTudo (hc.programHeaders i hi)
  have hph : ProgHeader.ofBytes (slice c ((header c).segmento i) 32) = programHeader c i := rfl
  rw [loadHeader, hhdr]
  dsimp only
  rw [hph]
  by_cases hload : (programHeader c i).type = ptLoad
  · have hmem : programHeader c i ∈ loads c := by
      rw [loads, List.mem_filter, List.mem_map]
      exact ⟨⟨i, List.mem_range.mpr hi, rfl⟩, by simpa using hload⟩
    obtain ⟨k', hseg, h₂, hram⟩ :=
      loadSegment_eq base (k := { k with leitor := l₁ }) h₁ (length_slice (hc.data _ hmem))
    rw [if_pos hload, List.filter_cons_of_pos (by simpa using hload), hseg]
    dsimp only
    rw [if_neg Bool.noConfusion]
    by_cases hseen : seen = 1
    · obtain ⟨l₂, hpatch, h₃⟩ := patches_eq hc h₂
      have hdata := patchData_eq (header c) base g k'
      rw [hpatch] at hdata
      rw [if_pos hseen]
      refine ⟨_, _, _, rfl, ?_, ?_⟩
      · rw [hdata]
        exact h₃
      · rw [hdata, patched, hram]
        simp [loadStep, hseen]
    · rw [if_neg hseen]
      refine ⟨_, _, _, rfl, h₂, ?_⟩
      rw [hram]
      simp [loadStep, hseen]
  · rw [if_neg hload, if_neg (hc.static i hi), List.filter_cons_of_neg (by simpa using hload)]
    exact ⟨_, _, _, rfl, h₁, rfl⟩

theorem loadLoop_eq (hc : WellFormed c) (base : UInt32) (n i seen : Nat) (g : UInt32) (k : Carga)
    (h : Reads c k.leitor) (hi : i + n ≤ (header c).phnum.toNat) :
    ∃ seen' g' k', loadLoop (header c) base n i seen g k = (some (seen', g'), k') ∧ Reads c k'.leitor ∧
      (seen', k'.ram) = (((List.range' i n).map (programHeader c)).filter fun ph => ph.type = ptLoad).foldl
        (loadStep c base) (seen, k.ram) := by
  induction n generalizing i seen g k with
  | zero => exact ⟨seen, g, k, rfl, h, rfl⟩
  | succ n ih =>
      obtain ⟨seen₁, g₁, k₁, hstep, h₁, he₁⟩ := loadHeader_eq hc base i seen g k h (by omega)
      obtain ⟨seen₂, g₂, k₂, hrest, h₂, he₂⟩ := ih (i + 1) seen₁ g₁ k₁ h₁ (by omega)
      refine ⟨seen₂, g₂, k₂, ?_, h₂, ?_⟩
      · rw [loadLoop, hstep]
        exact hrest
      · have hsplit : (List.range' i (n + 1)).map (programHeader c) =
            [programHeader c i] ++ (List.range' (i + 1) n).map (programHeader c) := by
          rw [List.range'_succ, List.map_cons, List.singleton_append]
        rw [he₂, he₁, hsplit, List.filter_append, List.foldl_append]

theorem loadPicElf_eq (hc : WellFormed c) (base : UInt32) (h : Reads c l) (m : Ram) :
    ∃ entry a5 k, loadPicElf base ⟨l, m, []⟩ = (some (entry, a5), k) ∧
      k.ram = adds base ((filePatches c).map (base + ·)) (image c base m) := by
  have hzero : (0 : UInt32).toNat + 52 ≤ c.length := hc.size
  obtain ⟨l₁, hhdr, h₁⟩ := h.leTudo hzero
  have hslice : slice c 0 52 = c.take 52 := rfl
  obtain ⟨seen, g, k, hloop, -, he⟩ := loadLoop_eq hc base (header c).phnum.toNat 0 0 0 ⟨l₁, m, []⟩ h₁ (by omega)
  rw [← List.range_eq_range', ← loads] at he
  obtain ⟨ph₁, ph₂, hloads⟩ := List.length_eq_two.mp hc.two
  rw [hloads] at he
  obtain ⟨rfl, hram⟩ := Prod.mk.inj he
  refine ⟨base + (header c).entry, base + g, k, ?_, ?_⟩
  · rw [loadPicElf, hhdr]
    dsimp only
    rw [hslice, if_pos hc.accepted, ← header, hloop]
    rfl
  · rw [hram, image, hloads]
    rfl

end Loading

section Ranges

variable {c : List UInt8}

theorem foldl_start (secs : List (UInt32 × UInt32)) (a : UInt32) :
    (secs.foldl (fun a s => if s.1 < a then s.1 else a) a ≤ a ∧
      ∀ s ∈ secs, secs.foldl (fun a s => if s.1 < a then s.1 else a) a ≤ s.1) ∧
    (secs.foldl (fun a s => if s.1 < a then s.1 else a) a = a ∨
      ∃ s ∈ secs, secs.foldl (fun a s => if s.1 < a then s.1 else a) a = s.1) := by
  induction secs generalizing a with
  | nil => simp
  | cons s secs ih =>
      obtain ⟨⟨hle, hall⟩, heq⟩ := ih (if s.1 < a then s.1 else a)
      have hmin : (if s.1 < a then s.1 else a) ≤ s.1 ∧ (if s.1 < a then s.1 else a) ≤ a := by
        split
        next hlt => exact ⟨UInt32.le_refl _, UInt32.le_of_lt hlt⟩
        next hlt => exact ⟨UInt32.not_lt.mp hlt, UInt32.le_refl _⟩
      refine ⟨⟨UInt32.le_trans hle hmin.2, ?_⟩, ?_⟩
      · rw [List.forall_mem_cons]
        exact ⟨UInt32.le_trans hle hmin.1, hall⟩
      · rcases heq with he | ⟨s', hs', he⟩
        · by_cases hlt : s.1 < a
          · rw [if_pos hlt] at he
            exact .inr ⟨s, List.mem_cons_self, by rw [List.foldl_cons, if_pos hlt, he]⟩
          · rw [if_neg hlt] at he
            exact .inl (by rw [List.foldl_cons, if_neg hlt, he])
        · exact .inr ⟨s', List.mem_cons_of_mem _ hs', he⟩

theorem foldl_end (secs : List (UInt32 × UInt32)) (a : UInt32) :
    a ≤ secs.foldl (fun a s => if a < s.1 + s.2 then s.1 + s.2 else a) a ∧
      ∀ s ∈ secs, s.1 + s.2 ≤ secs.foldl (fun a s => if a < s.1 + s.2 then s.1 + s.2 else a) a := by
  induction secs generalizing a with
  | nil => simp
  | cons s secs ih =>
      obtain ⟨hle, hall⟩ := ih (if a < s.1 + s.2 then s.1 + s.2 else a)
      have hmax : s.1 + s.2 ≤ (if a < s.1 + s.2 then s.1 + s.2 else a) ∧
          a ≤ (if a < s.1 + s.2 then s.1 + s.2 else a) := by
        split
        next hlt => exact ⟨UInt32.le_refl _, UInt32.le_of_lt hlt⟩
        next hlt => exact ⟨UInt32.not_lt.mp hlt, UInt32.le_refl _⟩
      refine ⟨UInt32.le_trans hmax.2 hle, ?_⟩
      rw [List.forall_mem_cons]
      exact ⟨UInt32.le_trans hmax.1 hle, hall⟩

theorem got_bounds (hc : WellFormed c) (hne : gotOf c ≠ []) :
    (gotStart (gotOf c)).toNat % 4 = 0 ∧ (gotStart (gotOf c)).toNat ≤ (gotEnd (gotOf c)).toNat ∧
      ∀ s ∈ gotOf c, (gotStart (gotOf c)).toNat ≤ s.1.toNat ∧ s.1.toNat + s.2.toNat ≤ (gotEnd (gotOf c)).toNat := by
  have hslot : slotSize.toNat = 0x40000 := rfl
  obtain ⟨⟨-, hstart⟩, heq⟩ := foldl_start (gotOf c) 0xFFFFFFFF
  obtain ⟨-, hend⟩ := foldl_end (gotOf c) 0
  rw [← gotStart] at hstart heq
  rw [← gotEnd] at hend
  have hall : ∀ s ∈ gotOf c,
      (gotStart (gotOf c)).toNat ≤ s.1.toNat ∧ s.1.toNat + s.2.toNat ≤ (gotEnd (gotOf c)).toNat := by
    intro s hs
    have hsum := UInt32.le_iff_toNat_le.mp (hend s hs)
    have hfit := (hc.got s hs).2.2
    rw [UInt32.toNat_add, Nat.mod_eq_of_lt (by omega)] at hsum
    exact ⟨UInt32.le_iff_toNat_le.mp (hstart s hs), hsum⟩
  obtain ⟨s, hs⟩ := List.exists_mem_of_ne_nil _ hne
  have hs' := hall s hs
  refine ⟨?_, by omega, hall⟩
  rcases heq with he | ⟨s', hs'', he⟩
  · have hbig : (0xFFFFFFFF : UInt32).toNat = 0xFFFFFFFF := rfl
    have hfit := (hc.got s hs).2.2
    rw [he, hbig] at hs'
    omega
  · rw [he]
    exact (hc.got s' hs'').1

theorem word_toNat {a : UInt32} {w : Nat} (h : a.toNat + 4 * w < 2 ^ 32) :
    (a + 4 * UInt32.ofNat w).toNat = a.toNat + 4 * w := by
  have h4 : (4 : UInt32).toNat = 4 := rfl
  rw [UInt32.toNat_add, UInt32.toNat_mul, h4, UInt32.toNat_ofNat', Nat.mod_eq_of_lt (a := w) (by omega),
    Nat.mod_eq_of_lt (a := 4 * w) (by omega), Nat.mod_eq_of_lt h]

theorem mem_gotWords (hc : WellFormed c) {a : UInt32} (ha : a ∈ gotWords (gotOf c)) :
    ∃ w < (((gotEnd (gotOf c)).toNat - (gotStart (gotOf c)).toNat) / 4),
      a = gotStart (gotOf c) + 4 * UInt32.ofNat w ∧ a.toNat = (gotStart (gotOf c)).toNat + 4 * w ∧
      (gotStart (gotOf c)).toNat % 4 = 0 := by
  by_cases hne : gotOf c = []
  · rw [hne, gotWords_nil] at ha
    exact absurd ha List.not_mem_nil
  · obtain ⟨h4, hle, -⟩ := got_bounds hc hne
    have hend := (gotEnd (gotOf c)).toNat_lt
    have hfour : (4 : UInt32).toNat = 4 := rfl
    rw [gotWords, List.mem_map] at ha
    obtain ⟨w, hw, rfl⟩ := ha
    rw [List.mem_range, UInt32.toNat_div, UInt32.toNat_sub_of_le _ _ (UInt32.le_iff_toNat_le.mpr hle), hfour] at hw
    exact ⟨w, hw, rfl, word_toNat (by omega), h4⟩

theorem gotWords_nodup (hc : WellFormed c) : (gotWords (gotOf c)).Nodup := by
  by_cases hne : gotOf c = []
  · rw [hne, gotWords_nil]
    exact List.nodup_nil
  · obtain ⟨-, hle, -⟩ := got_bounds hc hne
    have hend := (gotEnd (gotOf c)).toNat_lt
    have hfour : (4 : UInt32).toNat = 4 := rfl
    apply List.Nodup.map_on _ List.nodup_range
    intro w hw w' hw' he
    rw [List.mem_range, UInt32.toNat_div, UInt32.toNat_sub_of_le _ _ (UInt32.le_iff_toNat_le.mpr hle), hfour] at hw hw'
    have hnat := congrArg UInt32.toNat he
    rw [word_toNat (by omega), word_toNat (by omega)] at hnat
    omega

theorem gotSectionWords_within (hc : WellFormed c) {a : UInt32} (ha : a ∈ gotSectionWords c) :
    a ∈ gotWords (gotOf c) := by
  obtain ⟨s, hs, hmem⟩ := List.mem_flatMap.mp ha
  obtain ⟨w, hw, rfl⟩ := List.mem_map.mp hmem
  obtain ⟨h4, hle, hall⟩ := got_bounds hc (List.ne_nil_of_mem hs)
  obtain ⟨hs4, -, -⟩ := hc.got s hs
  obtain ⟨hlow, hhigh⟩ := hall s hs
  have hend := (gotEnd (gotOf c)).toNat_lt
  have hfour : (4 : UInt32).toNat = 4 := rfl
  rw [List.mem_range, UInt32.toNat_div, hfour] at hw
  rw [gotWords, List.mem_map]
  refine ⟨(s.1.toNat - (gotStart (gotOf c)).toNat) / 4 + w, ?_, ?_⟩
  · rw [List.mem_range, UInt32.toNat_div, UInt32.toNat_sub_of_le _ _ (UInt32.le_iff_toNat_le.mpr hle), hfour]
    omega
  · apply UInt32.toNat_inj.mp
    rw [word_toNat (by omega), word_toNat (by omega)]
    omega

theorem gotSectionWords_fit (hc : WellFormed c) {a : UInt32} (ha : a ∈ gotSectionWords c) :
    a.toNat + 4 ≤ slotSize.toNat := by
  obtain ⟨s, hs, hmem⟩ := List.mem_flatMap.mp ha
  obtain ⟨w, hw, rfl⟩ := List.mem_map.mp hmem
  obtain ⟨-, -, hfit⟩ := hc.got s hs
  have hslot : slotSize.toNat = 0x40000 := rfl
  have hfour : (4 : UInt32).toNat = 4 := rfl
  rw [List.mem_range, UInt32.toNat_div, hfour] at hw
  rw [word_toNat (by omega)]
  omega

end Ranges

section Relocation

variable {c : List UInt8} {t : SlotTable} {i : Slot}

theorem offset_toNat (i : Slot) (a : UInt32) :
    (slotsBaseAddr i + a).toNat % 4 = a.toNat % 4 ∧ (slotsBaseAddr i + a).toNat % 2 = a.toNat % 2 := by
  rw [UInt32.toNat_add, slotsBaseAddr_toNat]
  omega

theorem apart_offset (base : UInt32) {a b : UInt32} (ha : a.toNat + 4 ≤ slotSize.toNat)
    (hb : b.toNat + 4 ≤ slotSize.toNat) (h : a.toNat + 4 ≤ b.toNat ∨ b.toNat + 4 ≤ a.toNat) :
    Apart (base + a) (base + b) := by
  intro x hx hx'
  have hslot : slotSize.toNat = 0x40000 := rfl
  simp only [Span.mem_iff, UInt32.toNat_sub, UInt32.toNat_add] at hx hx'
  have := x.toNat_lt
  have := a.toNat_lt
  have := b.toNat_lt
  have := base.toNat_lt
  omega

theorem offset_injective (base : UInt32) : Function.Injective (base + ·) :=
  fun _ _ h => (UInt32.add_right_inj base).mp h

theorem filePasses (hc : WellFormed c) (i : Slot) :
    Passes ((gotWords (gotOf c)).map (slotsBaseAddr i + ·)) ((gotSectionWords c).map (slotsBaseAddr i + ·))
      ((fileTargets c).map (slotsBaseAddr i + ·)) where
  nodup := (gotWords_nodup hc).map (offset_injective _)
  aligned := by
    intro _ hmem
    obtain ⟨a, ha, rfl⟩ := List.mem_map.mp hmem
    obtain ⟨w, -, -, hw, h4⟩ := mem_gotWords hc ha
    rw [(offset_toNat i a).1]
    omega
  within := by
    intro _ hmem
    obtain ⟨a, ha, rfl⟩ := List.mem_map.mp hmem
    exact List.mem_map_of_mem (gotSectionWords_within hc ha)
  even := by
    intro _ hmem
    obtain ⟨a, ha, rfl⟩ := List.mem_map.mp hmem
    rw [(offset_toNat i a).2]
    exact (hc.targets a ha).1
  apart := by
    intro _ hmem _ hmem'
    obtain ⟨a, ha, rfl⟩ := List.mem_map.mp hmem
    obtain ⟨b, hb, rfl⟩ := List.mem_map.mp hmem'
    rcases hc.apart a ha b hb with rfl | h
    · exact .inl rfl
    · exact .inr (apart_offset _ (hc.targets a ha).2 (hc.targets b hb).2 h)
  outside := by
    intro _ hmem _ hmem'
    obtain ⟨a, ha, rfl⟩ := List.mem_map.mp hmem
    obtain ⟨b, hb, rfl⟩ := List.mem_map.mp hmem'
    exact apart_offset _ (gotSectionWords_fit hc ha) (hc.targets b hb).2 (hc.outside a ha b hb)

theorem loaded_relocated_iff (hc : WellFormed c) (hi : (slotsAlloc t).1 = some i) {l : Leitor} (h : Reads c l) (m : Ram) :
    Relocated ((fileWords c).map (slotsBaseAddr i + ·)) (slotsBaseAddr i) (image c (slotsBaseAddr i) m)
        (loadPicElfStandalone t ⟨l, m, []⟩).2.2.ram ↔
      ∀ a ∈ filePatches c, a ∈ fileWords c ∧ (filePatches c).count a % 2 ^ 19 = 1 := by
  obtain ⟨entry, a5, k, hload, hram⟩ := loadPicElf_eq hc (slotsBaseAddr i) h m
  have hpasses := (filePasses hc i).relocated_iff (i := i) (m := image c (slotsBaseAddr i) m)
  rw [← List.map_append, ← List.map_append, ← filePatches, ← fileWords] at hpasses
  rw [standalone_carga hi, hload, hram, hpasses, List.forall_mem_map]
  apply forall₂_congr
  intro a _
  rw [List.mem_map_of_injective (offset_injective _), List.count_map_of_injective _ _ (offset_injective _)]

/-- A program that is well formed is called, and its image is relocated as it should be exactly when
the two passes patch the words of the `.got*` sections and the targets, each once. -/
theorem image_relocated_iff (hc : WellFormed c) (hi : (slotsAlloc t).1 = some i) {l : Leitor} (h : Reads c l)
    (m : Ram) :
    (∃ entry a5, (loadPicElfStandalone t ⟨l, m, []⟩).1 = .chama entry a5) ∧
      (Relocated ((fileWords c).map (slotsBaseAddr i + ·)) (slotsBaseAddr i) (image c (slotsBaseAddr i) m)
          (loadPicElfStandalone t ⟨l, m, []⟩).2.2.ram ↔
        ∀ a ∈ filePatches c, a ∈ fileWords c ∧ (filePatches c).count a % 2 ^ 19 = 1) := by
  obtain ⟨entry, a5, k, hload, hram⟩ := loadPicElf_eq hc (slotsBaseAddr i) h m
  refine ⟨⟨entry, a5, ?_⟩, loaded_relocated_iff hc hi h m⟩
  rw [loadPicElfStandalone]
  cases ha : slotsAlloc t with
  | mk r t' =>
      rw [ha] at hi
      cases hi
      dsimp only
      rw [hload]

/-- A program with a `.got` of one word at `0x100`, a `.got.plt` of one word at `addr`, and a
relocation of the word at `0x10C`. -/
def twoGots (addr : UInt32) : List UInt8 :=
  ([0x7F454C46, 0x01020100, 0, 0, 0x00020004, 1, 0, 52, 116, 0, 0x00340020, 0x00020028, 0x00040000,
    1, 0, 0, 0, 0, 0, 0, 0, 1, 0, 0, 0, 0, 0x200, 0, 0,
    4, 3, 0, 0, 276, 25, 0, 0, 0, 0, 0, 1, 0, 0x100, 0, 4, 0, 0, 0, 0,
    5, 1, 0, addr, 0, 4, 0, 0, 0, 0, 14, 4, 0, 0, 301, 12, 0, 0, 0, 0] : List UInt32).flatMap bytes32 ++
  (text ".got" ++ [0] ++ text ".got.plt" ++ [0] ++ text ".rela.data" ++ [0]) ++
  ([0x10C, 1, 0] : List UInt32).flatMap bytes32

theorem length_words (ws : List UInt32) : (ws.flatMap bytes32).length = 4 * ws.length := by
  induction ws with
  | nil => rfl
  | cons w ws ih =>
      rw [List.flatMap_cons, List.length_append, ih, List.length_cons, Nat.mul_succ, Nat.add_comm]
      rfl

theorem length_twoGots (addr : UInt32) : (twoGots addr).length < 2 ^ 32 := by
  have hnames : (text ".got" ++ [0] ++ text ".got.plt" ++ [0] ++ text ".rela.data" ++ [0]).length = 25 := by decide
  rw [twoGots, List.length_append, List.length_append, length_words, length_words, hnames]
  simp only [List.length_cons, List.length_nil]
  omega

def twoGotsFile (addr : UInt32) : Leitor :=
  Leitor.abre [] (fun _ => .file false ⟨twoGots addr, length_twoGots addr⟩) fun _ => ⟨.ok, 0, fun _ => 0⟩

theorem twoGotsFile_reads (addr : UInt32) : Reads (twoGots addr) (twoGotsFile addr) :=
  ⟨rfl, rfl, show faRead &&& faRead ≠ 0 by decide, show faRead &&& faWrite = 0 by decide, rfl, fun _ => rfl⟩

theorem forall_mem_of_all {l l' : List UInt32} {p : UInt32 → UInt32 → Prop} [∀ a b, Decidable (p a b)]
    (h : (l.all fun a => l'.all fun b => decide (p a b)) = true) : ∀ a ∈ l, ∀ b ∈ l', p a b := by
  intro a ha
  exact List.all_iff_forall_prop.mp (List.all_eq_true.mp h a ha)

theorem twoGots_wellFormed : WellFormed (twoGots 0x104) ∧ WellFormed (twoGots 0x108) := by
  constructor
  all_goals exact {
    size := by decide +kernel
    accepted := by decide +kernel
    programHeaders := by decide +kernel
    static := by decide +kernel
    two := by decide +kernel
    data := by decide +kernel
    fits := by decide +kernel
    names := by decide +kernel
    sectionHeaders := by decide +kernel
    got := List.all_iff_forall_prop.mp (by decide +kernel)
    oneTable := by decide +kernel
    entries := by decide +kernel
    targets := List.all_iff_forall_prop.mp (by decide +kernel)
    apart := forall_mem_of_all (by decide +kernel)
    outside := forall_mem_of_all (by decide +kernel) }

/-- Without a gap between the sections the words are relocated. -/
theorem image_relocated_adjacent :
    Relocated ((fileWords (twoGots 0x104)).map (slotsBaseAddr 0 + ·)) (slotsBaseAddr 0)
      (image (twoGots 0x104) (slotsBaseAddr 0) fun _ => 0)
      (loadPicElfStandalone slotsInit ⟨twoGotsFile 0x104, fun _ => 0, []⟩).2.2.ram := by
  have hslot : (slotsAlloc slotsInit).1 = some 0 := by decide
  have hwords : fileWords (twoGots 0x104) = [0x100, 0x104, 0x10C] := by decide +kernel
  have hpatches : filePatches (twoGots 0x104) = [0x100, 0x104, 0x10C] := by decide +kernel
  have honce : ∀ a ∈ filePatches (twoGots 0x104),
      a ∈ fileWords (twoGots 0x104) ∧ (filePatches (twoGots 0x104)).count a % 2 ^ 19 = 1 := by
    rw [hwords, hpatches]
    exact List.all_iff_forall_prop.mp (by decide)
  exact (image_relocated_iff twoGots_wellFormed.1 hslot (twoGotsFile_reads 0x104) fun _ => 0).2.mpr honce

/-- The word between the sections has `task_base` added to it. -/
theorem image_gap_patched : WellFormed (twoGots 0x108) ∧
    ¬ Relocated ((fileWords (twoGots 0x108)).map (slotsBaseAddr 0 + ·)) (slotsBaseAddr 0)
      (image (twoGots 0x108) (slotsBaseAddr 0) fun _ => 0)
      (loadPicElfStandalone slotsInit ⟨twoGotsFile 0x108, fun _ => 0, []⟩).2.2.ram := by
  refine ⟨twoGots_wellFormed.2, ?_⟩
  intro hr
  have hslot : (slotsAlloc slotsInit).1 = some 0 := by decide
  have hwords : fileWords (twoGots 0x108) = [0x100, 0x108, 0x10C] := by decide +kernel
  have hpatches : filePatches (twoGots 0x108) = [0x100, 0x104, 0x108, 0x10C] := by decide +kernel
  have honce := (loaded_relocated_iff twoGots_wellFormed.2 hslot (twoGotsFile_reads 0x108) fun _ => 0).mp hr
  rw [hwords, hpatches] at honce
  exact absurd (honce 0x104 (by decide)).1 (by decide)

end Relocation

end Orion68.LoaderImage
