import Orion68.Loader.Reading

namespace Orion68.LoaderTables

open Memory FatFs Shell LoaderPic LoaderPatches LoaderReading

section Tables

variable {f : List UInt8} {l : Leitor}

def lido (f : List UInt8) (ofs : UInt32) (n : ℕ) : Option (List UInt8) :=
  if (slice f ofs n).length = n then some (slice f ofs n) else none

theorem leTudo_lido (h : Reads f l) (ofs : UInt32) (n : ℕ) : ∃ l', l.leTudo ofs n = (lido f ofs n, l') ∧ Reads f l' := by
  obtain ⟨l', hle, hl'⟩ := h.le ofs n
  refine ⟨l', ?_, hl'⟩
  rw [Leitor.leTudo, hle, lido]
  dsimp only
  simp only [true_and]

def sectionRead (f : List UInt8) (i : ℕ) : Option (List UInt8) := lido f ((header f).secao i) 40

/-- The header of the names and those of all sections can be read. -/
def TablesRead (f : List UInt8) : Prop :=
  (sectionRead f (header f).shstrndx.toNat).isSome ∧ ∀ i < (header f).shnum.toNat, (sectionRead f i).isSome

theorem sectionRead_isSome_iff (f : List UInt8) (i : ℕ) :
    (sectionRead f i).isSome ↔ ((header f).secao i).toNat + 40 ≤ f.length := by
  rw [sectionRead, lido, slice, List.length_take, List.length_drop]
  split
  next h => exact iff_of_true rfl (by omega)
  next h => exact iff_of_false Bool.false_ne_true (by omega)

theorem lido_isSome {ofs : UInt32} {n : ℕ} : (lido f ofs n).isSome ↔ (slice f ofs n).length = n := by
  rw [lido]
  split
  next h => exact iff_of_true rfl h
  next h => exact iff_of_false Bool.false_ne_true h

theorem lido_eq {ofs : UInt32} {n : ℕ} {b : List UInt8} (h : lido f ofs n = some b) : b = slice f ofs n := by
  rw [lido] at h
  split at h
  · cases h
    rfl
  · cases h

theorem gotSections_none (h : Reads f l) (st : UInt32) (n i : ℕ) (hj : ∃ j, i ≤ j ∧ j < i + n ∧ sectionRead f j = none) :
    ∃ l', gotSections (header f) st n i l = (none, l') ∧ Reads f l' := by
  induction n generalizing i l with
  | zero =>
      obtain ⟨j, hle, hlt, -⟩ := hj
      omega
  | succ n ih =>
      obtain ⟨l₁, hhdr, h₁⟩ := leTudo_lido h ((header f).secao i) 40
      rw [gotSections, hhdr]
      cases hi : lido f ((header f).secao i) 40 with
      | none => exact ⟨l₁, rfl, h₁⟩
      | some hdr =>
          obtain ⟨l₂, hname, h₂⟩ := h₁.le (st + be32 hdr 0) 9
          obtain ⟨j, hle, hlt, hnone⟩ := hj
          have hne : j ≠ i := by
            rintro rfl
            rw [sectionRead, hi] at hnone
            cases hnone
          obtain ⟨l₃, hrest, h₃⟩ := ih h₂ (i + 1) ⟨j, by omega, by omega, hnone⟩
          refine ⟨l₃, ?_, h₃⟩
          dsimp only
          rw [hname]
          generalize gotSections (header f) st n (i + 1) l₂ = rest at hrest ⊢
          subst hrest
          dsimp only
          split <;> rfl

instance (f : List UInt8) : Decidable (TablesRead f) := inferInstanceAs (Decidable (_ ∧ _))

/-- The sections that `find_got_section` finds: none when a header cannot be read. -/
def gotFound (f : List UInt8) : List (UInt32 × UInt32) := if TablesRead f then gotOf f else []

theorem strtab_eq {hdr : List UInt8} (h : sectionRead f (header f).shstrndx.toNat = some hdr) :
    be32 hdr 0x10 = strtab f := by
  rw [lido_eq h]
  rfl

theorem gotSections_read (h : Reads f l) {hdr : List UInt8} (hhdr : sectionRead f (header f).shstrndx.toNat = some hdr) :
    ∃ secs l', gotSections (header f) (strtab f) (header f).shnum.toNat 0 l = (secs, l') ∧ Reads f l' ∧
      secs.getD [] = gotFound f := by
  by_cases hall : ∀ i < (header f).shnum.toNat, (sectionRead f i).isSome
  · obtain ⟨l', heq, hl'⟩ := gotSections_eq h (header f).shnum.toNat 0
      fun j _ hj => (sectionRead_isSome_iff f j).mp (hall j (by omega))
    have htables : TablesRead f := ⟨by rw [hhdr]; rfl, hall⟩
    rw [← List.range_eq_range'] at heq
    refine ⟨_, l', heq, hl', ?_⟩
    rw [gotFound, if_pos htables]
    rfl
  · have htables : ¬ TablesRead f := fun htables => hall htables.2
    simp only [not_forall, Bool.not_eq_true, Option.isSome_eq_false_iff, Option.isNone_iff_eq_none] at hall
    obtain ⟨j, hj, hnone⟩ := hall
    obtain ⟨l', heq, hl'⟩ := gotSections_none h (strtab f) (header f).shnum.toNat 0 ⟨j, Nat.zero_le j, by omega, hnone⟩
    refine ⟨none, l', heq, hl', ?_⟩
    rw [gotFound, if_neg htables]
    rfl

theorem gotPatches_read (h : Reads f l) :
    ∃ l', gotPatches (header f) l = (gotWords (gotFound f), l') ∧ Reads f l' := by
  obtain ⟨l₁, hread, h₁⟩ := leTudo_lido h ((header f).secao (header f).shstrndx.toNat) 40
  rw [gotPatches, hread]
  cases hhdr : lido f ((header f).secao (header f).shstrndx.toNat) 40 with
  | none =>
      have htables : ¬ TablesRead f := by
        rintro ⟨hsome, -⟩
        rw [sectionRead, hhdr] at hsome
        cases hsome
      refine ⟨l₁, ?_, h₁⟩
      rw [gotFound, if_neg htables, gotWords_nil]
  | some hdr =>
      obtain ⟨secs, l₂, hsecs, h₂, hgot⟩ := gotSections_read h₁ hhdr
      refine ⟨l₂, ?_, h₂⟩
      dsimp only
      rw [strtab_eq hhdr, hsecs]
      dsimp only
      rw [hgot]

theorem findGotSection_read (h : Reads f l) :
    (findGotSection (header f) l).1.map Prod.fst = if gotFound f = [] then none else some (gotStart (gotFound f)) := by
  obtain ⟨l₁, hread, h₁⟩ := leTudo_lido h ((header f).secao (header f).shstrndx.toNat) 40
  rw [findGotSection, hread]
  cases hhdr : lido f ((header f).secao (header f).shstrndx.toNat) 40 with
  | none =>
      have htables : ¬ TablesRead f := by
        rintro ⟨hsome, -⟩
        rw [sectionRead, hhdr] at hsome
        cases hsome
      rw [gotFound, if_neg htables, if_pos rfl]
      rfl
  | some hdr =>
      obtain ⟨secs, l₂, hsecs, -, hgot⟩ := gotSections_read h₁ hhdr
      dsimp only
      rw [strtab_eq hhdr, findGotLoop_eq, hsecs, ← hgot]
      rcases secs with _ | _ | ⟨s, secs⟩ <;> rfl

/-- The targets of the `R_68K_32` entries among `n` entries of a table, without those that cannot be
read. -/
def entries (f : List UInt8) (ofs : UInt32) (n r : ℕ) : List UInt32 :=
  (List.range' r n).filterMap fun r =>
    match lido f (ofs + UInt32.ofNat r * 12) 12 with
    | none => none
    | some rela => if be32 rela 4 &&& 0xFF ≠ 1 then none else some (be32 rela 0)

theorem targets_read (h : Reads f l) (ofs : UInt32) (n r : ℕ) :
    ∃ l', targets ofs n r l = (entries f ofs n r, l') ∧ Reads f l' := by
  induction n generalizing r l with
  | zero => exact ⟨l, rfl, h⟩
  | succ n ih =>
      obtain ⟨l₁, hrela, h₁⟩ := leTudo_lido h (ofs + UInt32.ofNat r * 12) 12
      obtain ⟨l₂, hrest, h₂⟩ := ih h₁ (r + 1)
      refine ⟨l₂, ?_, h₂⟩
      rw [targets, hrela, entries, List.range'_succ, List.filterMap_cons]
      cases lido f (ofs + UInt32.ofNat r * 12) 12 with
      | none => exact hrest
      | some rela =>
          dsimp only
          rw [hrest]
          dsimp only
          split <;> rfl

/-- The targets in the first `.rela.data` section among `n` sections from `i` whose headers can be read. -/
def relaFrom (f : List UInt8) : ℕ → ℕ → List UInt32
  | 0, _ => []
  | n + 1, i =>
      match sectionRead f i with
      | none => relaFrom f n (i + 1)
      | some hdr =>
          if sectionName f hdr ≠ text ".rela.data" then relaFrom f n (i + 1)
          else entries f (be32 hdr 0x10) (entryCount hdr) 0

theorem relaSection_read (h : Reads f l) (n i : ℕ) :
    ∃ l', relaSection (header f) (strtab f) n i l = (relaFrom f n i, l') ∧ Reads f l' := by
  induction n generalizing i l with
  | zero => exact ⟨l, rfl, h⟩
  | succ n ih =>
      obtain ⟨l₁, hhdr, h₁⟩ := leTudo_lido h ((header f).secao i) 40
      rw [relaSection, hhdr, relaFrom, sectionRead]
      cases lido f ((header f).secao i) 40 with
      | none => exact ih h₁ (i + 1)
      | some hdr =>
          obtain ⟨l₂, hname, h₂⟩ := h₁.le (strtab f + be32 hdr 0) 15
          dsimp only
          rw [hname]
          simp only [ne_eq, rela_section_iff]
          split
          · exact ih h₂ (i + 1)
          · exact targets_read h₂ _ _ 0

/-- The words that the passes add `task_base` to. -/
def relaOf (f : List UInt8) : List UInt32 :=
  if (sectionRead f (header f).shstrndx.toNat).isSome then relaFrom f (header f).shnum.toNat 0 else []

def patchesOf (f : List UInt8) : List UInt32 := gotWords (gotFound f) ++ relaOf f

theorem relaPatches_read (h : Reads f l) : ∃ l', relaPatches (header f) l = (relaOf f, l') ∧ Reads f l' := by
  obtain ⟨l₁, hread, h₁⟩ := leTudo_lido h ((header f).secao (header f).shstrndx.toNat) 40
  rw [relaPatches, hread, relaOf, sectionRead]
  cases hhdr : lido f ((header f).secao (header f).shstrndx.toNat) 40 with
  | none => exact ⟨l₁, rfl, h₁⟩
  | some hdr =>
      dsimp only
      rw [strtab_eq hhdr]
      exact relaSection_read h₁ _ 0

theorem patches_read (h : Reads f l) : ∃ l', patches (header f) l = (patchesOf f, l') ∧ Reads f l' := by
  obtain ⟨l₁, hgot, h₁⟩ := gotPatches_read h
  obtain ⟨l₂, hrela, h₂⟩ := relaPatches_read h₁
  refine ⟨l₂, ?_, h₂⟩
  rw [patches, hgot]
  dsimp only
  rw [hrela]
  rfl

end Tables

section Readable

variable {f : List UInt8}

theorem lido_of_le {ofs : UInt32} {n : ℕ} (h : ofs.toNat + n ≤ f.length) : lido f ofs n = some (slice f ofs n) := by
  rw [lido, if_pos (length_slice h)]

theorem sectionRead_of_le {i : ℕ} (h : ((header f).secao i).toNat + 40 ≤ f.length) :
    sectionRead f i = some (sectionHeader f i) := lido_of_le h

theorem entries_eq (hdr : List UInt8) (n r : ℕ)
    (hr : ∀ j, r ≤ j → j < r + n → (entryOffset hdr j).toNat + 12 ≤ f.length) :
    entries f (be32 hdr 0x10) n r =
      (((List.range' r n).map fun r => slice f (entryOffset hdr r) 12).filter fun rela =>
        be32 rela 4 &&& 0xFF = 1).map fun rela => be32 rela 0 := by
  induction n generalizing r with
  | zero => rfl
  | succ n ih =>
      have hrest := ih (r + 1) fun j hj hlt => hr j (by omega) (by omega)
      have hofs : be32 hdr 0x10 + UInt32.ofNat r * 12 = entryOffset hdr r := rfl
      rw [entries] at hrest ⊢
      rw [List.range'_succ, List.filterMap_cons, hrest, hofs, lido_of_le (hr r (Nat.le_refl r) (by omega)),
        List.map_cons, List.filter_cons]
      by_cases htype : be32 (slice f (entryOffset hdr r) 12) 4 &&& 0xFF = 1
      · simp [htype]
      · simp [htype]

theorem relaFrom_eq (n i : ℕ) (hr : ∀ j, i ≤ j → j < i + n → ((header f).secao j).toNat + 40 ≤ f.length)
    (hone : (((List.range' i n).map (sectionHeader f)).filter fun hdr =>
      decide (sectionName f hdr = text ".rela.data")).length ≤ 1)
    (he : ∀ hdr ∈ ((List.range' i n).map (sectionHeader f)).filter fun hdr =>
      decide (sectionName f hdr = text ".rela.data"),
      ∀ j < entryCount hdr, (entryOffset hdr j).toNat + 12 ≤ f.length) :
    relaFrom f n i = (((List.range' i n).map (sectionHeader f)).filter fun hdr =>
      decide (sectionName f hdr = text ".rela.data")).flatMap (tableTargets f) := by
  induction n generalizing i with
  | zero => rfl
  | succ n ih =>
      rw [List.range'_succ, List.map_cons] at hone he ⊢
      rw [relaFrom, sectionRead_of_le (hr i (Nat.le_refl i) (by omega))]
      dsimp only
      by_cases hrela : sectionName f (sectionHeader f i) = text ".rela.data"
      · rw [List.filter_cons_of_pos (by simpa using hrela)] at hone he ⊢
        have hnil := List.eq_nil_of_length_eq_zero (Nat.le_zero.mp (Nat.le_of_succ_le_succ hone))
        have hentries := entries_eq (f := f) (sectionHeader f i) (entryCount (sectionHeader f i)) 0
          fun j _ hj => he _ List.mem_cons_self j (by omega)
        rw [if_neg (not_not.mpr hrela), hnil, List.flatMap_singleton, hentries, ← List.range_eq_range']
        rfl
      · rw [List.filter_cons_of_neg (by simpa using hrela)] at hone he ⊢
        rw [if_pos hrela]
        exact ih (i + 1) (fun j hj hlt => hr j (by omega) (by omega)) hone he

end Readable

end Orion68.LoaderTables
