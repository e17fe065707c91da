import Orion68.Shell.Descriptors

namespace Orion68.Startup

open Ownership FatFs Shell OpenFailure FatDescriptor Descriptors

def tty : Path := text "/dev/tty"

/-- The descriptors 0, 1 and 2 refer to live terminals, and no file has two descriptors. -/
structure WellFormed (s : Vfs) : Prop where
  std : ∀ fd : Fd, fd.val ≤ 2 → ∃ f, s.fdTable fd = some f ∧ (s.files.cell f).map File.ops = some .tty
  separate : ∀ {fd fd' : Fd} {f : Ptr}, s.fdTable fd = some f → s.fdTable fd' = some f → fd = fd'

variable {s t : Vfs} {fd : Fd}

theorem vfsOpen_rdwr (path : Path) (s : Vfs) : vfsOpen path oRdwr s = vfsOpen path oRdonly s := by
  have hmode : fatMode oRdwr = fatMode oRdonly := by decide
  rw [vfsOpen_eq, vfsOpen_eq, fatOpen, fatOpen, hmode]

theorem open_tty_ops (hdisk : ∀ ro d, s.volume tty ≠ .file ro d) (ho : vfsOpen tty oRdwr s = (some fd, t)) :
    (t.files.cell s.files.next).map File.ops = some .tty := by
  have hfat : ¬ (FatOpens tty oRdonly s ∧ s.env.priv = true) := by
    rintro ⟨⟨-, hopen⟩, -⟩
    obtain ⟨ro, d, hfile⟩ := (fOpen_rdonly s.env.open_ tty s.volume).2 hopen
    exact hdisk ro d hfile
  obtain ⟨u, n, hu, hpend, -⟩ := fatOpen_fails hfat
  obtain ⟨file, hcell, -⟩ := hpend.file
  rw [vfsOpen_rdwr, vfsOpen_eq] at ho
  cases hfile : s.env.file with
  | false => simp [hfile] at ho
  | true =>
      have hdevice : (drivers.find? fun d => tty = d.1).map Prod.snd = some .tty := rfl
      simp only [hfile, hu, Bool.not_true, Bool.false_eq_true, if_false] at ho
      rw [openDriver_eq _ _ _ drivers_nodup, hdevice] at ho
      simp only [Device.open_, ttyOpen, plainOpen, if_true] at ho
      split at ho
      next fd' t' ha =>
        cases ho
        rw [allocateFd_some ha]
        change ((u.files.modify s.files.next _).cell s.files.next).map File.ops = _
        rw [modify_cell (by rw [hcell, Function.update_self])]
        rfl
      next => cases ho

theorem opens_tty (n : Nat) (hfile : s.env.file = true) (hn : n < (freeEntries s).card) : Opens n tty oRdwr s := by
  refine ⟨hfile, hn, .inr ⟨.tty, rfl, ?_⟩⟩
  intro h
  cases h

structure OpenedTty (fd : Fd) (s t : Vfs) : Prop extends Opened fd s t where
  tty : (t.files.cell s.files.next).map File.ops = some .tty
  volume : t.volume = s.volume

theorem open_tty (hdisk : ∀ ro d, s.volume tty ≠ .file ro d) (hfile : s.env.file = true) {n : Nat}
    (hn : n < (freeEntries s).card) :
    ∃ fd t, vfsOpen tty oRdwr s = (some fd, t) ∧ OpenedTty fd s t := by
  rcases open_cases tty oRdwr s with ⟨hno, -⟩ | ⟨-, fd, t, ht, ho⟩
  · exact absurd (opens_tty 0 hfile (Nat.lt_of_le_of_lt (Nat.zero_le n) hn)) hno
  · refine ⟨fd, t, ht, ho, open_tty_ops hdisk ht, ?_⟩
    have hvol := open_rdonly_volume tty s
    rw [← vfsOpen_rdwr, ht] at hvol
    exact hvol

theorem std_cases (hfd : fd.val ≤ 2) : fd = 0 ∨ fd = 1 ∨ fd = 2 := by
  have hval : fd.val = 0 ∨ fd.val = 1 ∨ fd.val = 2 := by omega
  exact hval.imp (fun h => Fin.ext h) (Or.imp (fun h => Fin.ext h) fun h => Fin.ext h)

section MoveFd

variable {r : Fd}

@[simp] theorem files_moveFd : (moveFd fd (some r) s).files = s.files := by
  rw [moveFd]
  split <;> rfl

@[simp] theorem volume_moveFd : (moveFd fd (some r) s).volume = s.volume := by
  rw [moveFd]
  split <;> rfl

@[simp] theorem world_moveFd : (moveFd fd (some r) s).world = s.world := by
  rw [moveFd]
  split <;> rfl

theorem fdTable_moveFd (hr : r ≠ fd) :
    (moveFd fd (some r) s).fdTable = Function.update (Function.update s.fdTable fd (s.fdTable r)) r none := by
  rw [moveFd, if_neg hr]
  rfl

end MoveFd

theorem moved_table {r0 r1 r2 : Fd} (h0 : 3 ≤ r0.val) (h1 : 3 ≤ r1.val) (h2 : 3 ≤ r2.val) (h01 : r0 ≠ r1)
    (h02 : r0 ≠ r2) (h12 : r1 ≠ r2) {p0 p1 p2 : Ptr} (s : Vfs)
    (hs : s.fdTable = Function.update (Function.update (Function.update (fun _ => none) r0 (some p0)) r1 (some p1))
      r2 (some p2)) :
    (moveFd 2 (some r2) (moveFd 1 (some r1) (moveFd 0 (some r0) s))).fdTable = fun fd =>
      if fd = 0 then some p0 else if fd = 1 then some p1 else if fd = 2 then some p2 else none := by
  have hne {r : Fd} (hr : 3 ≤ r.val) : r ≠ 0 ∧ r ≠ 1 ∧ r ≠ 2 :=
    ⟨ne_of_std hr (by decide), ne_of_std hr (by decide), ne_of_std hr (by decide)⟩
  have hne0 := hne h0
  have hne1 := hne h1
  have hne2 := hne h2
  rw [fdTable_moveFd hne2.2.2, fdTable_moveFd hne1.2.1, fdTable_moveFd hne0.1, hs]
  funext fd
  simp only [Function.update_apply]
  grind

/-- The table after `vfs_init` has cleared it. -/
def cleared (s : Vfs) : Vfs := { s with fdTable := fun _ => none, fdCount := 0 }

theorem cleared_free (s : Vfs) : 2 < (freeEntries (cleared s)).card := by
  have hsub : ({3, 4, 5} : Finset Fd) ⊆ freeEntries (cleared s) := by
    intro fd hfd
    rw [freeEntries, Finset.mem_filter_univ]
    refine ⟨?_, rfl⟩
    simp only [Finset.mem_insert, Finset.mem_singleton] at hfd
    rcases hfd with rfl | rfl | rfl <;> decide
  exact Nat.lt_of_lt_of_le (by decide) (Finset.card_le_card hsub)

theorem vfsInit_opens (hdisk : ∀ ro d, s.volume tty ≠ .file ro d) (hfile : ∀ n, n < 3 → (s.world n).file = true) :
    ∃ r0 r1 r2 t0 t1 t2, OpenedTty r0 (cleared s) t0 ∧ OpenedTty r1 t0 t1 ∧ OpenedTty r2 t1 t2 ∧
      vfsInit s = moveFd 2 (some r2) (moveFd 1 (some r1) (moveFd 0 (some r0) t2)) := by
  obtain ⟨r0, t0, ht0, h0⟩ := open_tty (s := cleared s) hdisk (hfile 0 (by omega)) (cleared_free s)
  have hc0 := card_freeEntries_opened h0.toOpened
  have hfree := cleared_free s
  have hw0 (n : Nat) : t0.world n = s.world (n + 1) := congrFun h0.world n
  have hfile0 : t0.env.file = true := (congrArg Env.file (hw0 0)).trans (hfile 1 (by omega))
  obtain ⟨r1, t1, ht1, h1⟩ := open_tty (n := 1) (h0.volume ▸ hdisk) hfile0 (by omega)
  have hc1 := card_freeEntries_opened h1.toOpened
  have hw1 : t1.world 0 = s.world 2 := (congrFun h1.world 0).trans (hw0 1)
  have hfile1 : t1.env.file = true := (congrArg Env.file hw1).trans (hfile 2 (by omega))
  obtain ⟨r2, t2, ht2, h2⟩ := open_tty (n := 0) (h1.volume ▸ h0.volume ▸ hdisk) hfile1 (by omega)
  refine ⟨r0, r1, r2, t0, t1, t2, h0, h1, h2, ?_⟩
  rw [cleared] at ht0
  simp only [vfsInit]
  rw [show text "/dev/tty" = tty from rfl, ht0, ht1, ht2]

theorem opened_ttys {r0 r1 r2 : Fd} {t0 t1 t2 : Vfs} (h0 : OpenedTty r0 s t0) (h1 : OpenedTty r1 t0 t1)
    (h2 : OpenedTty r2 t1 t2) : (t2.files.cell s.files.next).map File.ops = some .tty ∧
      (t2.files.cell t0.files.next).map File.ops = some .tty ∧
      (t2.files.cell t1.files.next).map File.ops = some .tty := by
  have hlt0 := h0.next
  have hlt1 := h1.next
  refine ⟨?_, ?_, h2.tty⟩
  · rw [h2.cell (Nat.ne_of_lt (Nat.lt_trans hlt0 hlt1)), h1.cell (Nat.ne_of_lt hlt0)]
    exact h0.tty
  · rw [h2.cell (Nat.ne_of_lt hlt1)]
    exact h1.tty

theorem vfsInit_spec (hdisk : ∀ ro d, s.volume tty ≠ .file ro d) (hfile : ∀ n, n < 3 → (s.world n).file = true) :
    WellFormed (vfsInit s) ∧ (vfsInit s).volume = s.volume ∧ (vfsInit s).world = (fun n => s.world (n + 3)) ∧
      ∀ fd : Fd, 3 ≤ fd.val → (vfsInit s).fdTable fd = none := by
  obtain ⟨r0, r1, r2, t0, t1, t2, h0, h1, h2, hinit⟩ := vfsInit_opens hdisk hfile
  have hentry0 := h1.fdTable_of_some h0.entry
  have htable := moved_table h0.le h1.le h2.le (h1.ne_of_some h0.entry) (h2.ne_of_some hentry0)
    (h2.ne_of_some h1.entry) t2 (by rw [h2.fdTable, h1.fdTable, h0.fdTable]; rfl)
  rw [← hinit] at htable
  have hfiles : (vfsInit s).files = t2.files := by simp [hinit]
  obtain ⟨htty0, htty1, htty2⟩ := opened_ttys h0 h1 h2
  refine ⟨⟨?_, ?_⟩, ?_, ?_, ?_⟩
  · intro fd hfd
    rw [hfiles, htable]
    rcases std_cases hfd with rfl | rfl | rfl
    · exact ⟨_, rfl, htty0⟩
    · exact ⟨_, rfl, htty1⟩
    · exact ⟨_, rfl, htty2⟩
  · intro fd fd' f hf hf'
    have hlt0 := h0.next
    have hlt1 := h1.next
    rw [htable] at hf hf'
    grind
  · rw [hinit, volume_moveFd, volume_moveFd, volume_moveFd, h2.volume, h1.volume, h0.volume]
    rfl
  · rw [hinit, world_moveFd, world_moveFd, world_moveFd, h2.world]
    funext n
    exact (congrFun h1.world (n + 1)).trans (congrFun h0.world (n + 2))
  · intro fd hfd
    rw [htable]
    grind

/-- The shell has started, and the disk has one file and one directory. -/
def started : Vfs :=
  vfsInit (.start (Function.update fiveBytes (text "/D") .dir) fun _ => .granting ⟨.ok, 64, fun _ => 0⟩)

theorem started_spec : WellFormed started ∧ started.volume = Function.update fiveBytes (text "/D") .dir ∧
    started.world = (fun _ => .granting ⟨.ok, 64, fun _ => 0⟩) ∧ ∀ fd : Fd, 3 ≤ fd.val → started.fdTable fd = none := by
  refine vfsInit_spec ?_ fun _ _ => rfl
  intro ro d h
  have hnone : Function.update fiveBytes (text "/D") .dir tty = .none := rfl
  cases hnone.symm.trans h

theorem started_opens : Opens 0 (text "/A") oRdonly started := by
  obtain ⟨-, hvol, hworld, hfree⟩ := started_spec
  have henv : started.env = .granting ⟨.ok, 64, fun _ => 0⟩ := congrFun hworld 0
  refine ⟨by rw [henv]; rfl, Finset.card_pos.mpr ⟨3, ?_⟩, .inl ⟨⟨by rw [henv]; rfl, ?_⟩, by rw [henv]; rfl⟩⟩
  · rw [freeEntries, Finset.mem_filter_univ]
    exact ⟨by decide, hfree 3 (by decide)⟩
  · rw [henv, hvol]
    exact fOpen_ok rfl (by decide)

end Orion68.Startup
