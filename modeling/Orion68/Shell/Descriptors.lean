import Orion68.Shell.FatDescriptor

namespace Orion68.Descriptors

open Ownership FatFs Shell OpenFailure FatDescriptor

/-- The table is as before, and so are the files that are live and what each of them is. -/
structure Keeps (s t : Vfs) : Prop where
  fdTable : t.fdTable = s.fdTable
  ops : ∀ p, (t.files.cell p).map File.ops = (s.files.cell p).map File.ops
  next : s.files.next ≤ t.files.next

theorem keeps_of_files {s t : Vfs} (ht : t.fdTable = s.fdTable) (hf : t.files = s.files) : Keeps s t := by
  refine ⟨ht, fun p => ?_, ?_⟩ <;> rw [hf]

theorem keeps_of_modify {s t : Vfs} {f : Ptr} {g : File → File} (ht : t.fdTable = s.fdTable)
    (hf : t.files = s.files.modify f g) (hg : ∀ file, (g file).ops = file.ops) : Keeps s t := by
  refine ⟨ht, fun p => ?_, by rw [hf, Heap.next_modify]⟩
  rw [hf, Heap.cell_modify]
  by_cases hp : p = f
  · subst hp
    rw [Function.update_self, Option.map_map]
    congr 1
    funext file
    exact hg file
  · rw [Function.update_of_ne hp]

theorem Keeps.trans {s t u : Vfs} (h : Keeps s t) (h' : Keeps t u) : Keeps s u :=
  ⟨h'.fdTable.trans h.fdTable, fun p => (h'.ops p).trans (h.ops p), Nat.le_trans h.next h'.next⟩

theorem Keeps.live {s t : Vfs} (h : Keeps s t) (p : Ptr) : t.files.Live p ↔ s.files.Live p := by
  rw [Heap.Live, Heap.Live, ← Option.isSome_map (f := File.ops), h.ops p, Option.isSome_map]

section Calls

variable {α : Type} {s t : Vfs} {fd : Fd} {file : File} {failure : α}

theorem Keeps.of_turn (h : Keeps s.turn t) : Keeps s t := ⟨h.fdTable, h.ops, h.next⟩

theorem withFile_keeps {k : Env → Ptr → File → Vfs → α × Vfs}
    (hk : ∀ f file, Keeps s (k s.env f file s.turn).2) : Keeps s (withFile fd failure k s).2 := by
  rw [withFile]
  split
  · exact keeps_of_files rfl rfl
  · split
    · exact keeps_of_files rfl rfl
    next f _ _ file _ => exact hk f file

theorem withFat_of {P : Vfs → Prop} {k : Ptr → FatPrivate → Fil → α × Vfs} (hs : P s) (hm : P s.misused)
    (hk : ∀ p priv fil, P (k p priv fil).2) : P (withFat file failure k s).2 := by
  rw [withFat]
  split
  · split
    · exact hm
    · split
      · exact hm
      · exact hk _ _ _
  · exact hs
  · exact hm

theorem withProc_of {P : Vfs → Prop} {k : Ptr → ProcData → α × Vfs} (hs : P s) (hm : P s.misused)
    (hk : ∀ p data, P (k p data).2) : P (withProc file failure k s).2 := by
  rw [withProc]
  split
  · split
    · exact hm
    · exact hk _ _
  · exact hs
  · exact hm

theorem fatRead_keeps (e : Env) (f : Ptr) (size : UInt32) (s : Vfs) : Keeps s (fatRead e f file size s).2 := by
  refine withFat_of (keeps_of_files rfl rfl) (keeps_of_files rfl rfl) ?_
  intro p priv fil
  simp only
  split
  · exact keeps_of_files rfl rfl
  · exact keeps_of_modify rfl rfl fun _ => rfl

theorem fatWrite_keeps (e : Env) (f : Ptr) (buffer : List UInt8) (s : Vfs) :
    Keeps s (fatWrite e f file buffer s).2 := by
  refine withFat_of (keeps_of_files rfl rfl) (keeps_of_files rfl rfl) ?_
  intro p priv fil
  simp only
  split
  · exact keeps_of_files rfl rfl
  · exact keeps_of_modify rfl rfl fun _ => rfl

theorem procRead_keeps (f : Ptr) (size : UInt32) (s : Vfs) : Keeps s (procRead f file size s).2 := by
  refine withProc_of (keeps_of_files rfl rfl) (keeps_of_files rfl rfl) ?_
  intro p data
  simp only
  generalize (if size < data.size - data.position then size else data.size - data.position) = toRead
  split
  · exact keeps_of_files rfl rfl
  · split
    · exact keeps_of_files rfl rfl
    · exact keeps_of_modify rfl rfl fun _ => rfl

theorem vfsRead_keeps (fd : Fd) (size : UInt32) (s : Vfs) : Keeps s (vfsRead fd size s).2 := by
  apply withFile_keeps
  intro f file
  cases file.ops with
  | null | tty | devNull | serial => exact keeps_of_files rfl rfl
  | fat => exact (fatRead_keeps _ f size _).of_turn
  | zero => exact keeps_of_modify rfl rfl fun _ => rfl
  | proc => exact (procRead_keeps f size _).of_turn

theorem vfsWrite_keeps (fd : Fd) (buffer : List UInt8) (s : Vfs) : Keeps s (vfsWrite fd buffer s).2 := by
  apply withFile_keeps
  intro f file
  cases file.ops with
  | fat => exact (fatWrite_keeps _ f buffer _).of_turn
  | null | proc | tty | devNull | zero | serial => exact keeps_of_files rfl rfl

theorem vfsIoctl_keeps (fd : Fd) (cmd : Int) (s : Vfs) : Keeps s (vfsIoctl fd cmd s).2 := by
  apply withFile_keeps
  intro f file
  cases file.ops <;> exact keeps_of_files rfl rfl

end Calls

/-- Of the table and the files, only the file `f` is filled in. -/
structure Fills (f : Ptr) (s t : Vfs) : Prop where
  fdTable : t.fdTable = s.fdTable
  world : t.world = s.world
  files : ∃ g, t.files = s.files.modify f g

section Opening

variable {s t : Vfs} {f : Ptr} {path : Path} {flags : UInt32} {fd : Fd}

theorem fills_of_files (ht : t.fdTable = s.fdTable) (hw : t.world = s.world) (hf : t.files = s.files) :
    Fills f s t :=
  ⟨ht, hw, fun file => file, by rw [hf, Heap.modify_id]⟩

theorem fatOpen_fills (e : Env) (f : Ptr) (path : Path) (flags : UInt32) (s : Vfs) :
    Fills f s (fatOpen e f path flags s).2 := by
  rw [fatOpen]
  split
  · exact fills_of_files rfl rfl rfl
  · simp only
    split
    · exact fills_of_files rfl rfl rfl
    · split
      · exact fills_of_files rfl rfl rfl
      · exact ⟨rfl, rfl, _, rfl⟩

theorem device_open_fills (d : Device) (e : Env) (f : Ptr) (s : Vfs) : Fills f s (d.open_ e f s).2 := by
  rcases device_open_eq d e f s with ⟨-, ops, -, he⟩ | ⟨-, data, uptime, he⟩
  · rw [he]
    exact ⟨rfl, rfl, _, rfl⟩
  · rw [he]
    split
    · exact fills_of_files rfl rfl rfl
    · exact ⟨rfl, rfl, _, rfl⟩

theorem freeFile_files (f : Ptr) (s : Vfs) :
    (s.freeFile f).fdTable = s.fdTable ∧ (s.freeFile f).world = s.world ∧ (s.freeFile f).files = s.files.free f := by
  obtain ⟨strings, misuse, he⟩ := freeFile_eq f s
  rw [he]
  exact ⟨rfl, rfl, rfl⟩

/-- The entries that `allocate_fd` can give. -/
def freeEntries (s : Vfs) : Finset Fd := Finset.univ.filter fun fd => 3 ≤ fd.val ∧ s.fdTable fd = none

/-- `t` has one file more than `s`, which no descriptor leads to. -/
structure Carries (s t : Vfs) : Prop where
  fdTable : t.fdTable = s.fdTable
  world : t.world = s.turn.world
  file : ∃ file, t.files.cell = Function.update s.files.cell s.files.next (some file)
  next : s.files.next < t.files.next

/-- `vfs_open` has returned `fd`. -/
structure Opened (fd : Fd) (s t : Vfs) : Prop where
  le : 3 ≤ fd.val
  free : s.fdTable fd = none
  fdTable : t.fdTable = Function.update s.fdTable fd (some s.files.next)
  world : t.world = s.turn.world
  file : ∃ file, t.files.cell = Function.update s.files.cell s.files.next (some file)
  next : s.files.next < t.files.next

theorem allocated_carries (path : Path) (s : Vfs) : Carries s (allocated path s) :=
  ⟨rfl, rfl, ⟨_, rfl⟩, Nat.lt_succ_self _⟩

theorem Carries.fills {u : Vfs} (h : Carries s t) (hf : Fills s.files.next t u) : Carries s u := by
  obtain ⟨file, hfile⟩ := h.file
  obtain ⟨g, hg⟩ := hf.files
  refine ⟨hf.fdTable.trans h.fdTable, hf.world.trans h.world, ⟨g file, ?_⟩, ?_⟩
  · rw [hg, Heap.cell_modify, hfile, Function.update_self, Function.update_idem]
    rfl
  · rw [hg, Heap.next_modify]
    exact h.next

theorem Carries.freeFile (h : Carries s t) :
    (t.freeFile s.files.next).world = s.turn.world ∧ Keeps s (t.freeFile s.files.next) := by
  obtain ⟨htable, hworld, hfiles⟩ := freeFile_files s.files.next t
  obtain ⟨file, hfile⟩ := h.file
  have hcell : (t.freeFile s.files.next).files.cell = s.files.cell := by
    rw [hfiles, Heap.cell_free, hfile, update_update_fresh]
  refine ⟨hworld.trans h.world, htable.trans h.fdTable, fun p => by rw [hcell], ?_⟩
  rw [hfiles, Heap.next_free]
  exact Nat.le_of_lt h.next

theorem Carries.allocateFd (h : Carries s t) :
    (Full s ∧ allocateFd s.files.next t = (none, t)) ∨
      (¬ Full s ∧ ∃ fd u, allocateFd s.files.next t = (some fd, u) ∧ Opened fd s u) := by
  by_cases hfull : Full t
  · exact .inl ⟨(full_congr h.fdTable).mp hfull, allocateFd_of_full hfull⟩
  · obtain ⟨fd, hle, hfree, hsome⟩ := allocateFd_of_not_full (f := s.files.next) hfull
    refine .inr ⟨mt (full_congr h.fdTable).mpr hfull, fd, _, hsome, hle, by rw [← h.fdTable, hfree], ?_,
      h.world, h.file, h.next⟩
    rw [← h.fdTable]
    rfl

theorem device_open_fst (d : Device) (e : Env) (f : Ptr) (s : Vfs) :
    (d.open_ e f s).1 = (!holdsData d || e.proc) := by
  rcases device_open_eq d e f s with ⟨hd, ops, -, he⟩ | ⟨hd, data, uptime, he⟩
  · rw [he, hd]
    rfl
  · rw [he, hd]
    cases e.proc <;> rfl

/-- `vfs_open` has memory, a free entry beside `n` others, and a file or a device to open. -/
def Opens (n : Nat) (path : Path) (flags : UInt32) (s : Vfs) : Prop :=
  s.env.file = true ∧ n < (freeEntries s).card ∧ ((FatOpens path flags s ∧ s.env.priv = true) ∨ DeviceOpens path s)

theorem not_opens {n : Nat} {path : Path} {flags : UInt32} {s : Vfs}
    (hfat : openError (fatMode flags &&& 0x3F) (s.volume path) ≠ .ok) (hdevice : deviceOf path = none) :
    ¬ Opens n path flags s := by
  rintro ⟨-, -, ⟨⟨-, hopen⟩, -⟩ | hopens⟩
  · exact hfat (fOpen_of_ok hopen).1
  · exact deviceOpens_of_none hdevice s hopens

theorem full_iff (s : Vfs) : Full s ↔ ¬ 0 < (freeEntries s).card := by
  rw [Finset.card_pos, Finset.not_nonempty_iff_eq_empty, freeEntries, Finset.filter_eq_empty_iff]
  constructor
  · intro hfull fd _ hfd
    have hsome := hfull fd hfd.1
    rw [hfd.2] at hsome
    cases hsome
  · intro hnone fd hfd
    rw [Option.isSome_iff_ne_none]
    exact fun hfree => hnone (Finset.mem_univ fd) ⟨hfd, hfree⟩

theorem openDriver_cases (path : Path) (h : Carries s t) :
    ((Full s ∨ ¬ DeviceOpens path s) ∧ ∃ u, openDriver s.env s.files.next path drivers t = (none, u) ∧
        u.world = s.turn.world ∧ Keeps s u) ∨
      ((¬ Full s ∧ DeviceOpens path s) ∧ ∃ fd u, openDriver s.env s.files.next path drivers t = (some fd, u) ∧
        Opened fd s u) := by
  have hdevice : (drivers.find? fun d => path = d.1).map Prod.snd = deviceOf path := rfl
  rw [openDriver_eq _ _ _ drivers_nodup, hdevice]
  cases hdev : deviceOf path with
  | none => exact .inl ⟨.inr (deviceOpens_of_none hdev s), _, rfl, h.freeFile⟩
  | some d =>
      have hopens : DeviceOpens path s ↔ (d.open_ s.env s.files.next t).1 = true := by
        rw [device_open_fst, deviceOpens_of_some hdev]
        cases hd : holdsData d <;> simp
      have hfill := h.fills (device_open_fills d s.env s.files.next t)
      simp only [hopens]
      split
      next hopen =>
        rcases hfill.allocateFd with ⟨hfull, hnone⟩ | ⟨hfull, fd, u, hsome, hopened⟩
        · rw [hnone]
          exact .inl ⟨.inl hfull, _, rfl, hfill.freeFile⟩
        · rw [hsome]
          exact .inr ⟨⟨hfull, hopen⟩, fd, u, rfl, hopened⟩
      next hclosed => exact .inl ⟨.inr hclosed, _, rfl, hfill.freeFile⟩

theorem open_cases (path : Path) (flags : UInt32) (s : Vfs) :
    (¬ Opens 0 path flags s ∧ ∃ t, vfsOpen path flags s = (none, t) ∧ t.world = s.turn.world ∧ Keeps s t) ∨
      (Opens 0 path flags s ∧ ∃ fd t, vfsOpen path flags s = (some fd, t) ∧ Opened fd s t) := by
  rw [vfsOpen_eq, Opens, ← not_not (a := 0 < (freeEntries s).card), ← full_iff]
  cases hfile : s.env.file with
  | false => exact .inl ⟨by simp, s.turn, rfl, rfl, keeps_of_files rfl rfl⟩
  | true =>
      have hfill := (allocated_carries path s).fills
        (fatOpen_fills s.env s.files.next path flags (allocated path s))
      by_cases hfat : FatOpens path flags s ∧ s.env.priv = true
      · obtain ⟨u, hu, -⟩ := fatOpen_opens hfat.1 hfat.2
        rw [hu] at hfill
        simp only [hu, Bool.not_true, Bool.false_eq_true, if_false, if_true]
        rcases hfill.allocateFd with ⟨hfull, hnone⟩ | ⟨hfull, fd, t, hsome, hopened⟩
        · rw [hnone]
          exact .inl ⟨fun h => h.2.1 hfull, _, rfl, hfill.freeFile⟩
        · rw [hsome]
          exact .inr ⟨⟨trivial, hfull, .inl hfat⟩, fd, t, rfl, hopened⟩
      · obtain ⟨u, n, hu, -⟩ := fatOpen_fails hfat
        rw [hu] at hfill
        simp only [hu, Bool.not_true, Bool.false_eq_true, if_false]
        rcases openDriver_cases path hfill with ⟨hno, hopen⟩ | ⟨⟨hfull, hdev⟩, hopen⟩
        · refine .inl ⟨?_, hopen⟩
          rintro ⟨-, hfull, hfat' | hdev⟩
          · exact hfat hfat'
          · exact hno.elim hfull fun h => h hdev
        · exact .inr ⟨⟨trivial, hfull, .inr hdev⟩, hopen⟩

theorem fatClose_fills (e : Env) (f : Ptr) (file : File) (s : Vfs) : Fills f s (fatClose e f file s).2 :=
  withFat_of (fills_of_files rfl rfl rfl) (fills_of_files rfl rfl rfl) fun _ _ _ => ⟨rfl, rfl, _, rfl⟩

theorem procClose_fills (f : Ptr) (file : File) (s : Vfs) : Fills f s (procClose f file s).2 := by
  refine withProc_of (fills_of_files rfl rfl rfl) (fills_of_files rfl rfl rfl) ?_
  intro p data
  cases data.data <;> exact ⟨rfl, rfl, _, rfl⟩

/-- `vfs_close` frees the entry and the file. -/
structure Closed (fd : Fd) (f : Ptr) (s t : Vfs) : Prop where
  fdTable : t.fdTable = Function.update s.fdTable fd none
  world : t.world = s.turn.world
  files : t.files = s.files.free f

theorem close_live (hf : s.fdTable fd = some f) (hlive : s.files.Live f) : Closed fd f s (vfsClose fd s).2 := by
  obtain ⟨file, hfile⟩ := Option.isSome_iff_exists.mp hlive
  have hf' : s.turn.fdTable fd = some f := hf
  have hfile' : s.turn.files.cell f = some file := hfile
  have hfill {r : Bool × Vfs} (hr : Fills f s.turn r.2) : Closed fd f s (freeFd fd (r.2.freeFile f)) := by
    obtain ⟨htable, hworld, hfiles⟩ := freeFile_files f r.2
    obtain ⟨g, hg⟩ := hr.files
    refine ⟨?_, hworld.trans hr.world, ?_⟩
    · change Function.update (r.2.freeFile f).fdTable fd none = _
      rw [htable, hr.fdTable]
      rfl
    · refine Heap.eq_of_cell ?_ ?_
      · change (r.2.freeFile f).files.cell = _
        rw [hfiles, hg, Heap.cell_free, Heap.cell_modify, Function.update_idem]
        rfl
      · change (r.2.freeFile f).files.next = _
        rw [hfiles, hg]
        rfl
  rw [vfsClose, withFile, hf']
  simp only [hfile']
  cases file.ops with
  | fat => exact hfill (fatClose_fills _ f file _)
  | proc => exact hfill (procClose_fills f file _)
  | null | tty | devNull | zero | serial => exact hfill (r := (true, s.turn)) (fills_of_files rfl rfl rfl)

theorem ne_of_std {r k : Fd} (hr : 3 ≤ r.val) (hk : k.val < 3) : r ≠ k := by
  rintro rfl
  omega

theorem Opened.entry (h : Opened fd s t) : t.fdTable fd = some s.files.next := by
  rw [h.fdTable, Function.update_self]

theorem Opened.ne_of_some (h : Opened fd s t) {fd' : Fd} {p : Ptr} (hp : s.fdTable fd' = some p) : fd' ≠ fd := by
  rintro rfl
  have hfree := h.free
  rw [hp] at hfree
  cases hfree

theorem Opened.fdTable_of_some (h : Opened fd s t) {fd' : Fd} {p : Ptr} (hp : s.fdTable fd' = some p) :
    t.fdTable fd' = some p := by
  rw [h.fdTable, Function.update_of_ne (h.ne_of_some hp), hp]

theorem Opened.cell (h : Opened fd s t) {p : Ptr} (hp : p ≠ s.files.next) : t.files.cell p = s.files.cell p := by
  obtain ⟨file, hfile⟩ := h.file
  rw [hfile, Function.update_of_ne hp]

theorem Opened.live (h : Opened fd s t) : t.files.Live s.files.next := by
  obtain ⟨file, hfile⟩ := h.file
  rw [Heap.Live, hfile, Function.update_self]
  rfl

theorem Opened.close {u : Vfs} (h : Opened fd s t) (hk : Keeps t u) : Keeps s (vfsClose fd u).2 := by
  have hclosed := close_live (hk.fdTable ▸ h.entry) ((hk.live _).mpr h.live)
  obtain ⟨file, hfile⟩ := h.file
  refine ⟨?_, fun p => ?_, ?_⟩
  · rw [hclosed.fdTable, hk.fdTable, h.fdTable, Function.update_idem, ← h.free, Function.update_eq_self]
  · rw [hclosed.files, Heap.cell_free]
    by_cases hp : p = s.files.next
    · rw [hp, Function.update_self, s.files.fresh _ (Nat.le_refl _)]
    · rw [Function.update_of_ne hp, hk.ops, hfile, Function.update_of_ne hp]
  · rw [hclosed.files, Heap.next_free]
    exact Nat.le_trans (Nat.le_of_lt h.next) hk.next

theorem freeEntries_opened (h : Opened fd s t) :
    fd ∈ freeEntries s ∧ freeEntries t = (freeEntries s).erase fd := by
  refine ⟨?_, ?_⟩
  · rw [freeEntries, Finset.mem_filter_univ]
    exact ⟨h.le, h.free⟩
  · ext fd'
    rw [Finset.mem_erase, freeEntries, freeEntries, Finset.mem_filter_univ, Finset.mem_filter_univ, h.fdTable]
    by_cases hfd : fd' = fd <;> simp [hfd]

theorem card_freeEntries_opened (h : Opened fd s t) : (freeEntries t).card + 1 = (freeEntries s).card := by
  obtain ⟨hmem, herase⟩ := freeEntries_opened h
  rw [herase, Finset.card_erase_add_one hmem]

theorem freeEntries_setFd (hfd : fd.val < 3) (f : Option Ptr) (s : Vfs) :
    freeEntries (s.vfsSetFd fd f) = freeEntries s := by
  ext fd'
  rw [freeEntries, freeEntries, Finset.mem_filter_univ, Finset.mem_filter_univ, Vfs.fdTable_vfsSetFd]
  by_cases hne : fd' = fd
  · subst hne
    exact iff_of_false (fun h => by omega) (fun h => by omega)
  · rw [Function.update_of_ne hne]

theorem device_open_volume (d : Device) (e : Env) (f : Ptr) (s : Vfs) : (d.open_ e f s).2.volume = s.volume := by
  rcases device_open_eq d e f s with ⟨-, ops, -, he⟩ | ⟨-, data, uptime, he⟩
  · rw [he]
    rfl
  · rw [he]
    split <;> rfl

theorem allocateFd_volume (f : Ptr) (s : Vfs) : (allocateFd f s).2.volume = s.volume := by
  rw [allocateFd]
  split <;> rfl

theorem openDriver_volume (e : Env) (f : Ptr) (path : Path) (ds : List (Path × Device)) (s : Vfs) :
    (openDriver e f path ds s).2.volume = s.volume := by
  induction ds generalizing s with
  | nil => exact freeFile_volume f s
  | cons d ds ih =>
      rw [openDriver]
      split
      · have hopen := device_open_volume d.2 e f s
        simp only
        split
        · have hallocate := allocateFd_volume f (d.2.open_ e f s).2
          split
          next ha =>
            rw [ha] at hallocate
            exact hallocate.trans hopen
          next ha =>
            rw [ha] at hallocate
            rw [ih]
            exact hallocate.trans hopen
        · rw [ih, hopen]
      · exact ih s

theorem fatOpen_volume (e : Env) (f : Ptr) (path : Path) (flags : UInt32) (s : Vfs) :
    (fatOpen e f path flags s).2.volume = if e.fil then (fOpen e.open_ path (fatMode flags) s.volume).2.2 else s.volume := by
  rw [fatOpen]
  cases e.fil with
  | false => rfl
  | true =>
      simp only [Bool.not_true, Bool.false_eq_true, if_false, if_true]
      split
      · rfl
      · split <;> rfl

theorem vfsOpen_volume (path : Path) (flags : UInt32) (s : Vfs) :
    (vfsOpen path flags s).2.volume =
      if s.env.file && s.env.fil then (fOpen s.env.open_ path (fatMode flags) s.volume).2.2 else s.volume := by
  have hfat := fatOpen_volume s.env s.files.next path flags (allocated path s)
  rw [vfsOpen_eq]
  cases s.env.file with
  | false => rfl
  | true =>
      simp only [Bool.not_true, Bool.false_eq_true, if_false, Bool.true_and]
      refine Eq.trans ?_ hfat
      split
      · have hallocate := allocateFd_volume s.files.next (fatOpen s.env s.files.next path flags (allocated path s)).2
        split
        next ha =>
          rw [ha] at hallocate
          exact hallocate
        next ha =>
          rw [ha] at hallocate
          exact (freeFile_volume _ _).trans hallocate
      · exact openDriver_volume _ _ _ _ _

theorem open_rdonly_volume (path : Path) (s : Vfs) : (vfsOpen path oRdonly s).2.volume = s.volume := by
  rw [vfsOpen_volume]
  split
  · exact (fOpen_rdonly s.env.open_ path s.volume).1
  · rfl

end Opening

end Orion68.Descriptors
