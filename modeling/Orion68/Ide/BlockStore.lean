import Orion68.Ide.Sectors

namespace Orion68.AtaBlockStore

open Memory Ata AtaSectors

variable {d : Drive} {ram : Ram} {physical buff i j : UInt32} {n : ℕ}

def NoErrors (d : Drive) : Prop := ∀ k, d.outcome k = ⟨false, false⟩

theorem offset_eq_of_lbaOf_eq (h : lbaOf (physical + i) = lbaOf (physical + j)) : i * 512 = j * 512 := by
  apply UInt32.toNat_inj.mp
  rw [lbaOf, lbaOf, UInt32.toNat_add, UInt32.toNat_add] at h
  rw [UInt32.toNat_mul, UInt32.toNat_mul]
  change i.toNat * 512 % 2 ^ 32 = j.toNat * 512 % 2 ^ 32
  omega

theorem add_ofNat_succ (i : UInt32) (k : ℕ) : i + UInt32.ofNat (k + 1) = i + 1 + UInt32.ofNat k := by
  rw [UInt32.ofNat_add, UInt32.add_comm (UInt32.ofNat k), ← UInt32.add_assoc]
  rfl

theorem add_ofNat_zero (i : UInt32) : i + UInt32.ofNat 0 = i := UInt32.add_zero i

theorem taken_noErrors {d' : Drive} (h : Taken d d') (hn : NoErrors d) : NoErrors d' := by
  rw [NoErrors, h.outcome]
  exact hn

/-- What the loop of `disk_write` leaves on a device without errors. -/
structure Stored (physical buff : UInt32) (ram : Ram) (n : ℕ) (i : UInt32) (d d' : Drive) : Prop where
  ready : Ready d'
  noErrors : NoErrors d'
  hit : ∀ k < n, d'.sectors (lbaOf (physical + (i + UInt32.ofNat k))) =
    sectorAt ram (buff + (i + UInt32.ofNat k) * 512)
  miss : ∀ x, (∀ k < n, x ≠ lbaOf (physical + (i + UInt32.ofNat k))) → d'.sectors x = d.sectors x

theorem writeSectors_stored (physical buff : UInt32) (ram : Ram) (n : ℕ) (i : UInt32) (h : Ready d) (hn : NoErrors d) :
    ∃ d', writeSectors physical buff ram n i d = some (.RES_OK, d') ∧ Stored physical buff ram n i d d' := by
  induction n generalizing i d with
  | zero => exact ⟨d, rfl, h, hn, fun k hk => absurd hk (Nat.not_lt_zero k), fun _ _ => rfl⟩
  | succ n ih =>
      obtain ⟨d₁, htaken, hsectors, hwrite⟩ := ataWriteSector_eq (physical + i) (buff + i * 512) ram h
      rw [hn d.commands] at hsectors hwrite
      obtain ⟨d', hrest, hstored⟩ := ih (i + 1) htaken.ready (taken_noErrors htaken hn)
      have hfirst : d₁.sectors (lbaOf (physical + i)) = sectorAt ram (buff + i * 512) := by
        rw [hsectors]
        exact Function.update_self _ _ _
      refine ⟨d', ?_, hstored.ready, hstored.noErrors, ?_, ?_⟩
      · rw [writeSectors, hwrite]
        exact hrest
      · intro k hk
        cases k with
        | zero =>
            rw [add_ofNat_zero]
            by_cases hagain : ∃ k < n, lbaOf (physical + i) = lbaOf (physical + (i + 1 + UInt32.ofNat k))
            · obtain ⟨k, hk, hlba⟩ := hagain
              rw [hlba, hstored.hit k hk, offset_eq_of_lbaOf_eq hlba]
            · rw [hstored.miss _ fun k hk heq => hagain ⟨k, hk, heq⟩, hfirst]
        | succ k =>
            rw [add_ofNat_succ]
            exact hstored.hit k (Nat.lt_of_succ_lt_succ hk)
      · intro x hx
        have hx0 : x ≠ lbaOf (physical + i) := by
          have hx0 := hx 0 (Nat.succ_pos n)
          rwa [add_ofNat_zero] at hx0
        rw [hstored.miss x, hsectors]
        · exact Function.update_of_ne hx0 _ _
        · intro k hk
          rw [← add_ofNat_succ]
          exact hx (k + 1) (Nat.succ_lt_succ hk)

theorem write_ofFn (a : UInt32) (f : Sector) (m : Ram) (k : Fin 512) :
    write a (List.ofFn f) m (a + UInt32.ofNat k) = f k := by
  have hk : (k : ℕ) < (List.ofFn f).length := by
    rw [List.length_ofFn]
    exact k.isLt
  have hlen : (List.ofFn f).length ≤ 2 ^ 32 := by
    rw [List.length_ofFn]
    decide
  rw [write_offset m hk hlen, List.getElem_ofFn]

/-- Whether the memory has at `buff` what `source` has. -/
def Holds (source : UInt32 → UInt8) (buff : UInt32) (ram : Ram) (offset : UInt32) : Prop :=
  ram (buff + offset) = source offset

theorem write_holds {source : UInt32 → UInt8} {f : Sector} {start offset : UInt32}
    (hf : ∀ k : Fin 512, f k = source (start + UInt32.ofNat k))
    (h : Holds source buff ram offset ∨ ∃ k : Fin 512, offset = start + UInt32.ofNat k) :
    Holds source buff (write (buff + start) (List.ofFn f) ram) offset := by
  by_cases hin : ∃ k : Fin 512, offset = start + UInt32.ofNat k
  · obtain ⟨k, rfl⟩ := hin
    rw [Holds, ← UInt32.add_assoc, write_ofFn, hf]
  · have hout : buff + offset ∉ Span.mk (buff + start) (List.ofFn f).length := by
      rw [Span.mem_iff, List.length_ofFn]
      intro hlt
      apply hin
      refine ⟨⟨_, hlt⟩, ?_⟩
      change offset = start + UInt32.ofNat (buff + offset - (buff + start)).toNat
      rw [UInt32.ofNat_toNat]
      grind
    rw [Holds, write_of_notMem ram hout]
    exact h.resolve_right hin

/-- What the loop of `disk_read` leaves in the memory, when the sectors hold what `source` has. -/
theorem readSectors_holds (physical buff : UInt32) (source : UInt32 → UInt8) (n : ℕ) (i : UInt32) (ram : Ram)
    (h : Ready d) (hn : NoErrors d)
    (hsource : ∀ k < n, ∀ b : Fin 512, d.sectors (lbaOf (physical + (i + UInt32.ofNat k))) b =
      source ((i + UInt32.ofNat k) * 512 + UInt32.ofNat b)) :
    ∃ ram' d', readSectors physical buff n i ram d = some (.RES_OK, ram', d') ∧ d'.sectors = d.sectors ∧
      (∀ offset, Holds source buff ram offset → Holds source buff ram' offset) ∧
      ∀ k < n, ∀ b : Fin 512, Holds source buff ram' ((i + UInt32.ofNat k) * 512 + UInt32.ofNat b) := by
  induction n generalizing i d ram with
  | zero => exact ⟨ram, d, rfl, rfl, fun _ ho => ho, fun k hk => absurd hk (Nat.not_lt_zero k)⟩
  | succ n ih =>
      obtain ⟨d₁, htaken, hsectors, hread⟩ := ataReadSector_eq (physical + i) (buff + i * 512) ram h
      rw [hn d.commands] at hread
      have hfirst := hsource 0 (Nat.succ_pos n)
      rw [add_ofNat_zero] at hfirst
      obtain ⟨ram', d', hrest, hsame, hkeep, hholds⟩ := ih (i + 1)
        (write (buff + i * 512) (List.ofFn (d.sectors (lbaOf (physical + i)))) ram) htaken.ready
        (taken_noErrors htaken hn) (by
          intro k hk
          rw [hsectors, ← add_ofNat_succ]
          exact hsource (k + 1) (Nat.succ_lt_succ hk))
      refine ⟨ram', d', ?_, hsame.trans hsectors, ?_, ?_⟩
      · rw [readSectors, hread]
        exact hrest
      · intro offset ho
        exact hkeep offset (write_holds hfirst (.inl ho))
      · intro k hk b
        cases k with
        | zero =>
            rw [add_ofNat_zero]
            exact hkeep _ (write_holds hfirst (.inr ⟨b, rfl⟩))
        | succ k =>
            rw [add_ofNat_succ]
            exact hholds k (Nat.lt_of_succ_lt_succ hk) b

/-- The law of the block store, for a partition and a range of sectors: on every device without
errors and for every buffer, what is written is read back, and no other sector changes. -/
def BlockStoreLaw (base sector count : UInt32) : Prop :=
  ∀ (d : Drive) (ram ram' : Ram) (buff buff' : UInt32), Ready d → NoErrors d →
    ∃ d₁ ram₂ d₂, diskWrite base 0 buff sector count ram d = some (.RES_OK, d₁) ∧
      diskRead base 0 buff' sector count ram' d₁ = some (.RES_OK, ram₂, d₂) ∧
      (∀ i < count.toNat, ∀ k < 512,
        ram₂ (buff' + (UInt32.ofNat i * 512 + UInt32.ofNat k)) = ram (buff + (UInt32.ofNat i * 512 + UInt32.ofNat k))) ∧
      (∀ x, ¬ (base.toNat + sector.toNat ≤ x ∧ x < base.toNat + sector.toNat + count.toNat) →
        d₁.sectors x = d.sectors x) ∧
      d₂.sectors = d₁.sectors

/-- The sectors that are hit when the range is not beyond the 2^24th, or begins with the first. -/
theorem lbaOf_in_range {base sector count : UInt32} {k : ℕ} (hk : k < count.toNat)
    (h : base.toNat + sector.toNat + count.toNat ≤ 2 ^ 28)
    (hc : base.toNat + sector.toNat = 0 ∨ base.toNat + sector.toNat + count.toNat ≤ 2 ^ 24) :
    base.toNat + sector.toNat ≤ lbaOf (base + sector + UInt32.ofNat k) ∧
      lbaOf (base + sector + UInt32.ofNat k) < base.toNat + sector.toNat + count.toNat := by
  have hk' : (UInt32.ofNat k).toNat = k := UInt32.toNat_ofNat_of_lt' (by
    have hlt := count.toNat_lt
    change k < 2 ^ 32
    omega)
  rw [lbaOf, UInt32.toNat_add, UInt32.toNat_add, hk']
  omega

theorem zero_add_ofNat (k : ℕ) : (0 : UInt32) + UInt32.ofNat k = UInt32.ofNat k := UInt32.zero_add _

theorem blockStoreLaw_of_hits {base sector count : UInt32}
    (hin : ∀ k < count.toNat, base.toNat + sector.toNat ≤ lbaOf (base + sector + UInt32.ofNat k) ∧
      lbaOf (base + sector + UInt32.ofNat k) < base.toNat + sector.toNat + count.toNat) :
    BlockStoreLaw base sector count := by
  intro d ram ram' buff buff' hready hno
  obtain ⟨d₁, hwrite, hstored⟩ := writeSectors_stored (base + sector) buff ram count.toNat 0 hready hno
  obtain ⟨ram₂, d₂, hread, hsame, -, hholds⟩ := readSectors_holds (base + sector) buff'
    (fun offset => ram (buff + offset)) count.toNat 0 ram' hstored.ready hstored.noErrors (by
      intro k hk b
      rw [hstored.hit k hk, sectorAt, UInt32.add_assoc])
  refine ⟨d₁, ram₂, d₂, hwrite, hread, ?_, ?_, hsame⟩
  · intro i hi k hk
    have hi' := hholds i hi ⟨k, hk⟩
    rw [zero_add_ofNat] at hi'
    exact hi'
  · intro x hx
    apply hstored.miss
    rintro k hk rfl
    rw [zero_add_ofNat] at hx
    exact hx (hin k hk)

theorem exists_lbaOf_before {base sector count : UInt32} (h : base.toNat + sector.toNat + count.toNat ≤ 2 ^ 28)
    (hcount : count.toNat ≠ 0) (hfirst : base.toNat + sector.toNat ≠ 0)
    (hend : 2 ^ 24 < base.toNat + sector.toNat + count.toNat) :
    ∃ k < count.toNat, lbaOf (base + sector + UInt32.ofNat k) < base.toNat + sector.toNat := by
  refine ⟨2 ^ 24 - (base.toNat + sector.toNat), by omega, ?_⟩
  have hk : (UInt32.ofNat (2 ^ 24 - (base.toNat + sector.toNat))).toNat = 2 ^ 24 - (base.toNat + sector.toNat) :=
    UInt32.toNat_ofNat_of_lt' (by
      change 2 ^ 24 - (base.toNat + sector.toNat) < 2 ^ 32
      omega)
  rw [lbaOf, UInt32.toNat_add, UInt32.toNat_add, hk]
  omega

theorem range_of_blockStoreLaw {base sector count : UInt32} (h : base.toNat + sector.toNat + count.toNat ≤ 2 ^ 28)
    (hlaw : BlockStoreLaw base sector count) (hcount : count.toNat ≠ 0) :
    base.toNat + sector.toNat = 0 ∨ base.toNat + sector.toNat + count.toNat ≤ 2 ^ 24 := by
  by_contra hc
  obtain ⟨hfirst, hend⟩ := not_or.mp hc
  obtain ⟨k, hk, hbefore⟩ := exists_lbaOf_before h hcount hfirst (Nat.lt_of_not_le hend)
  have hready := zeros_ready fun _ => ⟨false, false⟩
  have hno : NoErrors (zeros fun _ => ⟨false, false⟩) := fun _ => rfl
  obtain ⟨d₁, ram₂, d₂, hwrite, -, -, hothers, -⟩ := hlaw _ (fun _ => 1) (fun _ => 0) 0 0 hready hno
  obtain ⟨d', hwrite', hstored⟩ := writeSectors_stored (base + sector) 0 (fun _ => 1) count.toNat 0 hready hno
  have hsame : some (DResult.RES_OK, d₁) = some (DResult.RES_OK, d') := hwrite.symm.trans hwrite'
  obtain rfl : d₁ = d' := congrArg Prod.snd (Option.some_inj.mp hsame)
  have hhit := hstored.hit k hk
  rw [zero_add_ofNat, hothers _ (fun hin => absurd hin.1 (Nat.not_le.mpr hbefore))] at hhit
  have hdiffers : (0 : UInt8) = 1 := congrFun hhit 0
  exact absurd hdiffers (by decide)

/-- The law holds exactly for the ranges that end by the 2^24th sector, that begin with the first
sector of the device, or that are empty. -/
theorem block_store_law_iff (base sector count : UInt32) (h : base.toNat + sector.toNat + count.toNat ≤ 2 ^ 28) :
    BlockStoreLaw base sector count ↔ count = 0 ∨ base.toNat + sector.toNat = 0 ∨
      base.toNat + sector.toNat + count.toNat ≤ 2 ^ 24 := by
  have hzero : count = 0 ↔ count.toNat = 0 := UInt32.toNat_inj.symm
  rw [hzero]
  constructor
  · intro hlaw
    rw [or_iff_not_imp_left]
    exact range_of_blockStoreLaw h hlaw
  · rintro (hcount | hc)
    · exact blockStoreLaw_of_hits fun k hk => by omega
    · exact blockStoreLaw_of_hits fun k hk => lbaOf_in_range hk h hc

/-- The last hundred sectors of the first 8 GiB. -/
theorem block_store_law_low : BlockStoreLaw 2048 0xFFF79C 100 :=
  (block_store_law_iff 2048 0xFFF79C 100 (by decide)).mpr (.inr (.inr (by decide)))

/-- The sector 8 GiB after the beginning of the partition is written over another one. -/
theorem high_sector_aliased : ¬ BlockStoreLaw 2048 0x1000000 1 := by
  intro h
  exact absurd (range_of_blockStoreLaw (by decide) h (by decide)) (by decide)

end Orion68.AtaBlockStore
