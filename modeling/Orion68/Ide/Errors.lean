import Orion68.Ide.Sectors

namespace Orion68.AtaErrors

open Memory Ata AtaSectors

variable {d d₁ d' : Drive} {n : ℕ} {r : DResult}

/-- The device takes the commands for all sectors, and reports no error: neither when it accepts a
command nor when the data of a sector has been transferred. -/
structure Clean (d d' : Drive) (n : ℕ) : Prop where
  commands : d'.commands = d.commands + n
  accepted : ∀ k < n, (d.outcome (d.commands + k)).refused = false
  transferred : ∀ k < n, (d.outcome (d.commands + k)).failed = false

/-- The answer of a loop over `n` sectors: it is `RES_OK` unless the device refuses a command. -/
structure Answers (r : DResult) (d d' : Drive) (n : ℕ) : Prop where
  ok_iff : r = .RES_OK ↔ ∀ k < n, (d.outcome (d.commands + k)).refused = false
  commands : r = .RES_OK → d'.commands = d.commands + n

theorem answers_zero (d : Drive) : Answers .RES_OK d d 0 :=
  ⟨⟨fun _ k hk => absurd hk (Nat.not_lt_zero k), fun _ => rfl⟩, fun _ => rfl⟩

theorem answers_refused (h : (d.outcome d.commands).refused = true) : Answers .RES_ERROR d d' (n + 1) := by
  refine ⟨⟨nofun, ?_⟩, nofun⟩
  intro hall
  exact absurd (h.symm.trans (hall 0 (Nat.succ_pos n))) (by decide)

theorem answers_next (ht : Taken d d₁) (h : (d.outcome d.commands).refused = false) (hrest : Answers r d₁ d' n) :
    Answers r d d' (n + 1) := by
  have hshift (k : ℕ) : d₁.outcome (d₁.commands + k) = d.outcome (d.commands + (k + 1)) := by
    rw [ht.outcome, ht.commands, Nat.add_assoc, Nat.add_comm 1 k]
  refine ⟨?_, ?_⟩
  · rw [hrest.ok_iff]
    constructor
    · intro hall k hk
      cases k with
      | zero => exact h
      | succ k =>
          rw [← hshift]
          exact hall k (Nat.lt_of_succ_lt_succ hk)
    · intro hall k hk
      rw [hshift]
      exact hall (k + 1) (Nat.succ_lt_succ hk)
  · intro hr
    rw [hrest.commands hr, ht.commands]
    omega

theorem writeSectors_answers (physical buff : UInt32) (ram : Ram) (n : ℕ) (i : UInt32) (h : Ready d) :
    ∃ r d', writeSectors physical buff ram n i d = some (r, d') ∧ Answers r d d' n := by
  induction n generalizing i d with
  | zero => exact ⟨.RES_OK, d, rfl, answers_zero d⟩
  | succ n ih =>
      obtain ⟨d₁, ht, -, hwrite⟩ := ataWriteSector_eq (physical + i) (buff + i * 512) ram h
      by_cases hr : (d.outcome d.commands).refused = true
      · rw [if_pos hr] at hwrite
        refine ⟨.RES_ERROR, d₁, ?_, answers_refused hr⟩
        rw [writeSectors, hwrite]
        rfl
      · rw [if_neg hr] at hwrite
        obtain ⟨r, d', hrest, hanswers⟩ := ih (i + 1) ht.ready
        refine ⟨r, d', ?_, answers_next ht (Bool.eq_false_of_not_eq_true hr) hanswers⟩
        rw [writeSectors, hwrite]
        exact hrest

theorem readSectors_answers (physical buff : UInt32) (n : ℕ) (i : UInt32) (ram : Ram) (h : Ready d) :
    ∃ r ram' d', readSectors physical buff n i ram d = some (r, ram', d') ∧ Answers r d d' n := by
  induction n generalizing i ram d with
  | zero => exact ⟨.RES_OK, ram, d, rfl, answers_zero d⟩
  | succ n ih =>
      obtain ⟨d₁, ht, -, hread⟩ := ataReadSector_eq (physical + i) (buff + i * 512) ram h
      by_cases hr : (d.outcome d.commands).refused = true
      · rw [if_pos hr] at hread
        refine ⟨.RES_ERROR, ram, d₁, ?_, answers_refused hr⟩
        rw [readSectors, hread]
        rfl
      · rw [if_neg hr] at hread
        obtain ⟨r, ram', d', hrest, hanswers⟩ := ih (i + 1) _ ht.ready
        refine ⟨r, ram', d', ?_, answers_next ht (Bool.eq_false_of_not_eq_true hr) hanswers⟩
        rw [readSectors, hread]
        exact hrest

/-- Some command for one of the sectors is refused, or the data of none ends in an error. -/
def Caught (d : Drive) (n : ℕ) : Prop :=
  (∃ k < n, (d.outcome (d.commands + k)).refused = true) ∨ ∀ k < n, (d.outcome (d.commands + k)).failed = false

theorem clean_iff_caught (h : Answers r d d' n) : (r = .RES_OK → Clean d d' n) ↔ Caught d n := by
  constructor
  · intro hclean
    by_cases hr : r = .RES_OK
    · exact .inr (hclean hr).transferred
    · left
      by_contra hnone
      apply hr
      rw [h.ok_iff]
      intro k hk
      apply Bool.eq_false_of_not_eq_true
      intro hrefused
      exact hnone ⟨k, hk, hrefused⟩
  · rintro (⟨k, hk, hrefused⟩ | htransferred) hr
    · exact absurd (hrefused.symm.trans (h.ok_iff.mp hr k hk)) (by decide)
    · exact ⟨h.commands hr, h.ok_iff.mp hr, htransferred⟩

/-- Both calls return, and `RES_OK` means that no error has been reported exactly when a command is
refused or no sector's data ends in an error. -/
theorem res_ok_iff (base buff sector count : UInt32) (ram : Ram) (d : Drive) (h : Ready d) :
    (∃ r d', diskWrite base 0 buff sector count ram d = some (r, d') ∧
      ((r = .RES_OK → Clean d d' count.toNat) ↔ Caught d count.toNat)) ∧
    (∃ r ram' d', diskRead base 0 buff sector count ram d = some (r, ram', d') ∧
      ((r = .RES_OK → Clean d d' count.toNat) ↔ Caught d count.toNat)) := by
  constructor
  · obtain ⟨r, d', hwrite, hanswers⟩ := writeSectors_answers (base + sector) buff ram count.toNat 0 h
    exact ⟨r, d', hwrite, clean_iff_caught hanswers⟩
  · obtain ⟨r, ram', d', hread, hanswers⟩ := readSectors_answers (base + sector) buff count.toNat 0 ram h
    exact ⟨r, ram', d', hread, clean_iff_caught hanswers⟩

/-- Of three sectors the first is transferred, the data of the second ends in an error, and the command
for the third is refused. -/
def thirdRefused : Drive := zeros fun k => ⟨decide (k = 2), decide (k = 1)⟩

theorem res_ok_third_refused :
    (∃ r d', diskWrite 2048 0 0x1000 5 3 (fun _ => 7) thirdRefused = some (r, d') ∧
      ((r = .RES_OK → Clean thirdRefused d' 3) ↔ Caught thirdRefused 3)) ∧
    (∃ r ram' d', diskRead 2048 0 0x1000 5 3 (fun _ => 7) thirdRefused = some (r, ram', d') ∧
      ((r = .RES_OK → Clean thirdRefused d' 3) ↔ Caught thirdRefused 3)) ∧ Caught thirdRefused 3 :=
  have hiff := res_ok_iff 2048 0x1000 5 3 (fun _ => 7) thirdRefused (zeros_ready _)
  ⟨hiff.1, hiff.2, .inl ⟨2, by decide, rfl⟩⟩

/-- A device whose commands all end in an error after their data. -/
def failing : Drive := zeros fun _ => ⟨false, true⟩

theorem failed_write_ok :
    ∃ d', diskWrite 0 0 0 0 1 (fun _ => 0) failing = some (.RES_OK, d') ∧ ¬ Clean failing d' 1 := by
  obtain ⟨r, d', hwrite, hanswers⟩ := writeSectors_answers 0 0 (fun _ => 0) 1 0 (zeros_ready fun _ => ⟨false, true⟩)
  obtain rfl : r = .RES_OK := hanswers.ok_iff.mpr fun _ _ => rfl
  refine ⟨d', hwrite, ?_⟩
  intro hclean
  have hfailed : true = false := hclean.transferred 0 Nat.one_pos
  cases hfailed

end Orion68.AtaErrors
