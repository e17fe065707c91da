import Orion68.Shell.Vfs

namespace Orion68.OpenFailure

open Ownership FatFs Shell

/-- The table has no free entry from 3 on. -/
def Full (s : Vfs) : Prop := ∀ fd : Fd, 3 ≤ fd.val → (s.fdTable fd).isSome

/-- The table is as before, and so is all that is allocated or open. -/
structure Released (s t : Vfs) : Prop where
  fdTable : t.fdTable = s.fdTable
  files : t.files.cell = s.files.cell
  strings : t.strings.cell = s.strings.cell
  fils : t.fils.cell = s.fils.cell
  privates : t.privates.cell = s.privates.cell
  procs : t.procs.cell = s.procs.cell
  opened : t.opened = s.opened

def deviceOf (path : Path) : Option Device := (drivers.find? fun d => path = d.1).map Prod.snd

/-- The files of `/proc` have private data. -/
def holdsData : Device → Bool
  | .meminfo | .cpuinfo | .uptime => true
  | .tty | .null | .zero | .serial => false

/-- `fat_open` calls `f_open`, which opens the file. -/
def FatOpens (path : Path) (flags : UInt32) (s : Vfs) : Prop :=
  s.env.fil = true ∧ (fOpen s.env.open_ path (fatMode flags) s.volume).1 = .ok

def DeviceOpens (path : Path) (s : Vfs) : Prop :=
  ∃ d, deviceOf path = some d ∧ (holdsData d = true → s.env.proc = true)

theorem deviceOpens_of_none {path : Path} (h : deviceOf path = none) (s : Vfs) : ¬ DeviceOpens path s := by
  rintro ⟨d, hd, -⟩
  rw [h] at hd
  cases hd

theorem deviceOpens_of_some {path : Path} {d : Device} (h : deviceOf path = some d) (s : Vfs) :
    DeviceOpens path s ↔ (holdsData d = true → s.env.proc = true) := by
  simp [DeviceOpens, h]

theorem device_open_eq (d : Device) (e : Env) (f : Ptr) (s : Vfs) :
    (holdsData d = false ∧ ∃ ops, ops ≠ .fat ∧ d.open_ e f s = plainOpen ops f s) ∨
      (holdsData d = true ∧ ∃ data uptime,
        d.open_ e f s = if !e.proc then (false, s) else procOpen e f data { s with uptime := uptime }) := by
  cases d with
  | tty => exact .inl ⟨rfl, .tty, by decide, rfl⟩
  | null => exact .inl ⟨rfl, .devNull, by decide, rfl⟩
  | zero => exact .inl ⟨rfl, .zero, by decide, rfl⟩
  | serial => exact .inl ⟨rfl, .serial, by decide, rfl⟩
  | meminfo => exact .inr ⟨rfl, _, s.uptime, rfl⟩
  | cpuinfo => exact .inr ⟨rfl, _, s.uptime, rfl⟩
  | uptime => exact .inr ⟨rfl, _, s.uptime + 10, rfl⟩

/-- No descriptor is left for a FAT file or a file of `/proc` that has been opened; or no memory
is left for the private data of a FAT file, and `f_close` fails. -/
def Leaks (path : Path) (flags : UInt32) (s : Vfs) : Prop :=
  s.env.file = true ∧
    ((FatOpens path flags s ∧ s.env.priv = true ∧ Full s) ∨
      ¬ (FatOpens path flags s ∧ s.env.priv = true) ∧
        ((FatOpens path flags s ∧ s.env.disk.result ≠ .ok ∧ (DeviceOpens path s → Full s)) ∨
          ∃ d, deviceOf path = some d ∧ holdsData d = true ∧ s.env.proc = true ∧ Full s))

section Tables

variable {s t : Vfs} {f : Ptr}

theorem allocateFd_of_full (h : Full s) : allocateFd f s = (none, s) := by
  have hnone : ((List.finRange 256).find? fun fd => decide (3 ≤ fd.val) && (s.fdTable fd).isNone) = none := by
    rw [List.find?_eq_none]
    intro fd _
    have hfd := h fd
    cases hc : s.fdTable fd with
    | none => simp_all
    | some p => simp
  rw [allocateFd, hnone]

theorem allocateFd_of_not_full (h : ¬ Full s) : ∃ fd : Fd, 3 ≤ fd.val ∧ s.fdTable fd = none ∧
    allocateFd f s = (some fd, { s.vfsSetFd fd (some f) with fdCount := s.fdCount + 1 }) := by
  cases hf : (List.finRange 256).find? fun fd => decide (3 ≤ fd.val) && (s.fdTable fd).isNone with
  | none =>
      refine absurd ?_ h
      intro fd hfd
      have hsome := List.find?_eq_none.mp hf fd (List.mem_finRange fd)
      cases hc : s.fdTable fd with
      | none => simp [hfd, hc] at hsome
      | some p => rfl
  | some fd =>
      have hfd := List.find?_some hf
      simp only [Bool.and_eq_true, decide_eq_true_eq, Option.isNone_iff_eq_none] at hfd
      exact ⟨fd, hfd.1, hfd.2, by rw [allocateFd, hf]⟩

end Tables

section Steps

variable {s t : Vfs} {path : Path} {flags : UInt32} {n : Int}

def allocated (path : Path) (s : Vfs) : Vfs :=
  { s.turn with
    files := s.files.alloc ⟨if s.env.name then some s.strings.next else none, 0, .null, .null⟩
    strings := if s.env.name then s.strings.alloc path else s.strings }

theorem vfsOpen_eq (path : Path) (flags : UInt32) (s : Vfs) :
    vfsOpen path flags s =
      if !s.env.file then (none, s.turn)
      else
        let r := fatOpen s.env s.files.next path flags (allocated path s)
        if r.1 then
          match allocateFd s.files.next r.2 with
          | (some fd, t) => (some fd, t)
          | (none, t) => (none, t.freeFile s.files.next)
        else openDriver s.env s.files.next path drivers r.2 := rfl

/-- Of what is allocated or open, `t` has only the file more than `s`, and its name if there was
memory for it; `n` files of FatFs have been left open. -/
structure Pending (n : Int) (s t : Vfs) : Prop where
  fdTable : t.fdTable = s.fdTable
  file : ∃ file, t.files.cell = Function.update s.files.cell s.files.next (some file) ∧
    ((file.name = none ∧ t.strings.cell = s.strings.cell) ∨
      (file.name = some s.strings.next ∧
        ∃ x, t.strings.cell = Function.update s.strings.cell s.strings.next (some x)))
  fils : t.fils.cell = s.fils.cell
  privates : t.privates.cell = s.privates.cell
  procs : t.procs = s.procs
  opened : t.opened = s.opened + n

theorem allocated_pending (path : Path) (s : Vfs) : Pending 0 s (allocated path s) := by
  refine ⟨rfl, ⟨_, rfl, ?_⟩, rfl, rfl, rfl, (Int.add_zero _).symm⟩
  cases hn : s.env.name with
  | false => exact .inl ⟨rfl, by simp [allocated, hn]⟩
  | true => exact .inr ⟨rfl, path, by simp [allocated, hn]⟩

theorem update_update_fresh {α : Type} (h : Heap α) (a : Option α) :
    Function.update (Function.update h.cell h.next a) h.next none = h.cell := by
  rw [Function.update_idem, ← h.fresh h.next (Nat.le_refl _), Function.update_eq_self]

theorem Pending.freeFile (h : Pending n s t) :
    (t.freeFile s.files.next).opened = s.opened + n ∧
      (n = 0 → Released s (t.freeFile s.files.next)) := by
  obtain ⟨file, hfiles, hname⟩ := h.file
  have hcell : t.files.cell s.files.next = some file := by rw [hfiles, Function.update_self]
  have hstrings : (t.freeString file.name).strings.cell = s.strings.cell := by
    rcases hname with ⟨hnone, hs⟩ | ⟨hsome, x, hs⟩
    · rw [hnone]
      exact hs
    · rw [hsome]
      change Function.update t.strings.cell s.strings.next none = s.strings.cell
      rw [hs, update_update_fresh]
  have hkeep : (t.freeString file.name) = { t with strings := (t.freeString file.name).strings } := by
    cases file.name <;> rfl
  rw [Vfs.freeFile, hcell]
  simp only
  refine ⟨?_, ?_⟩
  · rw [hkeep]
    exact h.opened
  · intro hn
    refine ⟨?_, ?_, hstrings, ?_, ?_, ?_, ?_⟩ <;> rw [hkeep]
    · exact h.fdTable
    · change Function.update t.files.cell s.files.next none = s.files.cell
      rw [hfiles, update_update_fresh]
    · exact h.fils
    · exact h.privates
    · exact congrArg Heap.cell h.procs
    · exact h.opened.trans (by rw [hn, Int.add_zero])

theorem Pending.setFile (h : Pending n s t) {g : File → File} (hg : ∀ file, (g file).name = file.name) :
    Pending n s (t.setFile s.files.next g) := by
  obtain ⟨file, hfiles, hname⟩ := h.file
  refine ⟨h.fdTable, ⟨g file, ?_, ?_⟩, h.fils, h.privates, h.procs, h.opened⟩
  · change Function.update t.files.cell s.files.next ((t.files.cell s.files.next).map g) = _
    rw [hfiles, Function.update_self, Function.update_idem]
    rfl
  · rw [hg]
    exact hname

theorem fatOpen_opens (h : FatOpens path flags s) (hp : s.env.priv = true) :
    ∃ t, fatOpen s.env s.files.next path flags (allocated path s) = (true, t) ∧ t.fdTable = s.fdTable ∧
      (t.privates.cell s.privates.next).isSome := by
  have hopen : (fOpen s.env.open_ path (fatMode flags) (allocated path s).volume).1 = .ok := h.2
  rw [fatOpen, h.1, hp]
  simp only [Bool.not_true, Bool.false_eq_true, if_false, hopen, ne_eq, not_true_eq_false]
  refine ⟨_, rfl, rfl, ?_⟩
  change (Function.update s.privates.cell s.privates.next (some _) s.privates.next).isSome
  rw [Function.update_self]
  rfl

theorem fatOpen_fails (h : ¬ (FatOpens path flags s ∧ s.env.priv = true)) :
    ∃ t n, fatOpen s.env s.files.next path flags (allocated path s) = (false, t) ∧ Pending n s t ∧
      (n = 0 ↔ ¬ (FatOpens path flags s ∧ s.env.disk.result ≠ .ok)) := by
  have hpend := allocated_pending path s
  cases hfil : s.env.fil with
  | false =>
      refine ⟨allocated path s, 0, by rw [fatOpen, hfil]; rfl, hpend, ?_⟩
      simp [FatOpens, hfil]
  | true =>
      have hfree {q : Fil} (t : Vfs) (ht : t.fils.cell = Function.update s.fils.cell s.fils.next (some q)) :
          (t.fils.free s.fils.next).cell = s.fils.cell := by
        rw [Heap.cell_free, ht, update_update_fresh]
      by_cases hopen : (fOpen s.env.open_ path (fatMode flags) s.volume).1 = .ok
      swap
      · refine ⟨_, 0, by rw [fatOpen, hfil]; exact if_pos hopen, ?_, ?_⟩
        · exact ⟨hpend.fdTable, hpend.file, hfree _ rfl, hpend.privates, hpend.procs, hpend.opened⟩
        · simp [FatOpens, hopen]
      · have hopens : FatOpens path flags s := ⟨hfil, hopen⟩
        have hpriv : s.env.priv = false := by
          cases hp : s.env.priv with
          | false => rfl
          | true => exact absurd ⟨hopens, hp⟩ h
        have hvalid : (fOpen s.env.open_ path (fatMode flags) s.volume).2.1.valid = true := by
          rw [(fOpen_of_ok hopen).2.2]
        have hclosed :
            (fClose s.env.disk (fOpen s.env.open_ path (fatMode flags) s.volume).2.1).1 = s.env.disk.result := by
          rw [fClose, if_pos hvalid]
        have hopen' : (fOpen s.env.open_ path (fatMode flags) (allocated path s).volume).1 = .ok := hopen
        rw [fatOpen, hfil, hpriv]
        simp only [Bool.not_true, Bool.not_false, Bool.false_eq_true, if_false, if_true, hopen', ne_eq,
          not_true_eq_false]
        refine ⟨_, if s.env.disk.result = .ok then 0 else 1, rfl, ?_, ?_⟩
        · refine ⟨hpend.fdTable, hpend.file, ?_, hpend.privates, hpend.procs, ?_⟩
          · change Function.update (Function.update (Function.update s.fils.cell s.fils.next _) s.fils.next _)
              s.fils.next none = s.fils.cell
            rw [Function.update_idem, update_update_fresh]
          · change (if (fClose s.env.disk (fOpen s.env.open_ path (fatMode flags) s.volume).2.1).1 = .ok then
              s.opened + 1 - 1 else s.opened + 1) = _
            rw [hclosed]
            split <;> omega
        · split <;> simp_all

theorem openDriver_unknown {e : Env} {f : Ptr} {ds : List (Path × Device)} (h : ∀ d ∈ ds, path ≠ d.1) (t : Vfs) :
    openDriver e f path ds t = (none, t.freeFile f) := by
  induction ds with
  | nil => rfl
  | cons d ds ih =>
      rw [openDriver, if_neg (h d (.head _)), ih fun d hd => h d (.tail _ hd)]

/-- The paths of the drivers differ, so that the loop opens at most one of them. -/
theorem openDriver_eq (e : Env) (f : Ptr) (path : Path) {ds : List (Path × Device)}
    (hds : (ds.map Prod.fst).Nodup) (t : Vfs) :
    openDriver e f path ds t =
      match (ds.find? fun d => path = d.1).map Prod.snd with
      | none => (none, t.freeFile f)
      | some d =>
          let r := d.open_ e f t
          if r.1 then
            match allocateFd f r.2 with
            | (some fd, t) => (some fd, t)
            | (none, t) => (none, t.freeFile f)
          else (none, r.2.freeFile f) := by
  induction ds with
  | nil => rfl
  | cons d ds ih =>
      rw [List.map_cons, List.nodup_cons] at hds
      by_cases hp : path = d.1
      · have hrest : ∀ d' ∈ ds, path ≠ d'.1 := by
          intro d' hd' he
          exact hds.1 (List.mem_map.mpr ⟨d', hd', he.symm.trans hp⟩)
        rw [List.find?_cons_of_pos (by simpa using hp), Option.map_some, openDriver, if_pos hp]
        by_cases hopen : (d.2.open_ e f t).1 = true
        · simp only [hopen, if_true]
          rcases allocateFd f (d.2.open_ e f t).2 with ⟨_ | fd, u⟩
          · exact openDriver_unknown hrest u
          · exact rfl
        · simp only [hopen]
          exact openDriver_unknown hrest _
      · rw [List.find?_cons_of_neg (by simpa using hp), openDriver, if_neg hp]
        exact ih hds.2

theorem drivers_nodup : (drivers.map Prod.fst).Nodup := by decide

theorem open_plain {d : Device} (h : Pending n s t) (hd : holdsData d = false) :
    ∃ t', d.open_ s.env s.files.next t = (true, t') ∧ Pending n s t' := by
  rcases device_open_eq d s.env s.files.next t with ⟨-, ops, -, he⟩ | ⟨hd', -⟩
  · exact ⟨_, he, h.setFile fun _ => rfl⟩
  · cases hd.symm.trans hd'

theorem open_proc_fails {d : Device} (t : Vfs) (hd : holdsData d = true) (hp : s.env.proc = false) :
    d.open_ s.env s.files.next t = (false, t) := by
  rcases device_open_eq d s.env s.files.next t with ⟨hd', -⟩ | ⟨-, data, uptime, he⟩
  · cases hd.symm.trans hd'
  · rw [he, hp]
    rfl

theorem open_proc {d : Device} (h : Pending n s t) (hd : holdsData d = true) (hp : s.env.proc = true) :
    ∃ t', d.open_ s.env s.files.next t = (true, t') ∧ t'.fdTable = s.fdTable ∧
      (t'.procs.cell s.procs.next).isSome := by
  rcases device_open_eq d s.env s.files.next t with ⟨hd', -⟩ | ⟨-, data, uptime, he⟩
  · cases hd.symm.trans hd'
  · rw [he, hp]
    refine ⟨_, rfl, h.fdTable, ?_⟩
    change (Function.update t.procs.cell t.procs.next (some _) s.procs.next).isSome
    rw [h.procs, Function.update_self]
    rfl

theorem freeFile_eq (f : Ptr) (t : Vfs) : ∃ strings misuse,
    t.freeFile f = { t with files := t.files.free f, strings := strings, misuse := misuse } := by
  rw [Vfs.freeFile]
  split
  next h => exact ⟨t.strings, true, by rw [Heap.free_of_none h]; rfl⟩
  next file _ => cases file.name <;> exact ⟨_, _, rfl⟩

theorem freeFile_volume (f : Ptr) (t : Vfs) : (t.freeFile f).volume = t.volume := by
  obtain ⟨strings, misuse, he⟩ := freeFile_eq f t
  rw [he]

theorem freeFile_leaves_private {f p : Ptr} (h : (t.privates.cell p).isSome) :
    ((t.freeFile f).privates.cell p).isSome := by
  obtain ⟨strings, misuse, he⟩ := freeFile_eq f t
  rw [he]
  exact h

theorem freeFile_leaves_proc {f p : Ptr} (h : (t.procs.cell p).isSome) :
    ((t.freeFile f).procs.cell p).isSome := by
  obtain ⟨strings, misuse, he⟩ := freeFile_eq f t
  rw [he]
  exact h

theorem not_released_of_private (h : (t.privates.cell s.privates.next).isSome) : ¬ Released s t := by
  intro hr
  rw [hr.privates, s.privates.fresh _ (Nat.le_refl _)] at h
  cases h

theorem not_released_of_proc (h : (t.procs.cell s.procs.next).isSome) : ¬ Released s t := by
  intro hr
  rw [hr.procs, s.procs.fresh _ (Nat.le_refl _)] at h
  cases h

theorem Pending.released_iff (h : Pending n s t) : Released s (t.freeFile s.files.next) ↔ n = 0 := by
  constructor
  · intro hr
    have hopened := hr.opened
    rw [h.freeFile.1] at hopened
    omega
  · exact h.freeFile.2

theorem full_congr (h : t.fdTable = s.fdTable) : Full t ↔ Full s := by rw [Full, Full, h]

theorem openDriver_fails (path : Path) (h : Pending n s t) :
    ((openDriver s.env s.files.next path drivers t).1 = none →
      Released s (openDriver s.env s.files.next path drivers t).2) ↔
    ¬ ((n ≠ 0 ∧ (DeviceOpens path s → Full s)) ∨
      ∃ d, deviceOf path = some d ∧ holdsData d = true ∧ s.env.proc = true ∧ Full s) := by
  have hdevice : (drivers.find? fun d => path = d.1).map Prod.snd = deviceOf path := rfl
  rw [openDriver_eq _ _ _ drivers_nodup, hdevice]
  cases hdev : deviceOf path with
  | none =>
      simp [h.released_iff, deviceOpens_of_none hdev s]
  | some d =>
      have hopens := deviceOpens_of_some hdev s
      cases hd : holdsData d with
      | false =>
          obtain ⟨t', ht', h'⟩ := open_plain h hd
          by_cases hfull : Full s
          · have hnone := allocateFd_of_full (f := s.files.next) ((full_congr h'.fdTable).mpr hfull)
            simp [ht', hnone, h'.released_iff, hfull, hd]
          · obtain ⟨fd, -, -, hsome⟩ := allocateFd_of_not_full (f := s.files.next) (mt (full_congr h'.fdTable).mp hfull)
            simp [ht', hsome, hopens, hfull, hd]
      | true =>
          cases hp : s.env.proc with
          | false => simp [open_proc_fails t hd hp, h.released_iff, hopens, hd, hp]
          | true =>
              obtain ⟨t', ht', htable, hleft⟩ := open_proc h hd hp
              by_cases hfull : Full s
              · have hnone := allocateFd_of_full (f := s.files.next) ((full_congr htable).mpr hfull)
                have hkept : ¬ Released s (t'.freeFile s.files.next) :=
                  not_released_of_proc (freeFile_leaves_proc hleft)
                simp [ht', hnone, hkept, hfull, hd]
              · obtain ⟨fd, -, -, hsome⟩ := allocateFd_of_not_full (f := s.files.next) (mt (full_congr htable).mp hfull)
                simp [ht', hsome, hopens, hfull, hp]

end Steps

/-- When `vfs_open` returns `-1`, it has given back all that it had acquired, unless it is one of
those calls. -/
theorem failed_open_releases_iff (path : Path) (flags : UInt32) (s : Vfs) :
    ((vfsOpen path flags s).1 = none → Released s (vfsOpen path flags s).2) ↔ ¬ Leaks path flags s := by
  rw [vfsOpen_eq, Leaks]
  cases hfile : s.env.file with
  | false =>
      have hsame : Released s s.turn := ⟨rfl, rfl, rfl, rfl, rfl, rfl, rfl⟩
      simp [hsame]
  | true =>
      by_cases hfat : FatOpens path flags s ∧ s.env.priv = true
      · obtain ⟨t, ht, htable, hleft⟩ := fatOpen_opens hfat.1 hfat.2
        by_cases hfull : Full s
        · have hnone := allocateFd_of_full (f := s.files.next) ((full_congr htable).mpr hfull)
          have hkept : ¬ Released s (t.freeFile s.files.next) :=
            not_released_of_private (freeFile_leaves_private hleft)
          simp [ht, hnone, hkept, hfat, hfull]
        · obtain ⟨fd, -, -, hsome⟩ := allocateFd_of_not_full (f := s.files.next) (mt (full_congr htable).mp hfull)
          simp [ht, hsome, hfat, hfull]
      · obtain ⟨t, n, ht, hpend, hn⟩ := fatOpen_fails hfat
        have hdriver := openDriver_fails path hpend
        have hleft : n ≠ 0 ↔ FatOpens path flags s ∧ s.env.disk.result ≠ .ok := by
          rw [ne_eq, hn, not_not]
        have hpriv : ¬ (FatOpens path flags s ∧ s.env.priv = true ∧ Full s) := fun h => hfat ⟨h.1, h.2.1⟩
        simp only [ht, Bool.not_true, Bool.false_eq_true, if_false]
        rw [hdriver, hleft]
        simp only [hpriv, hfat, not_false_eq_true, true_and, false_or, and_assoc]

/-- All entries of the table are terminals, and the disk has an empty file. -/
def fullTable : Vfs :=
  { Vfs.start (fun path => if path = text "/A" then .file false Entry.none.data else .none)
      (fun _ => .granting ⟨.ok, 0, fun _ => 0⟩) with
    files := ⟨fun p => if p < 256 then some ⟨none, 0, .null, .tty⟩ else none, 256, fun _ hp => if_neg (by omega)⟩
    fdTable := fun fd => some fd.val
    fdCount := 253 }

theorem full_table_leaks :
    ¬ ∀ (path : Path) (flags : UInt32) (s : Vfs), (vfsOpen path flags s).1 = none →
      Released s (vfsOpen path flags s).2 := by
  intro h
  have hfull : Full fullTable := fun _ _ => rfl
  have hopens : FatOpens (text "/A") oRdonly fullTable := ⟨rfl, by decide⟩
  obtain ⟨t, ht, htable, hleft⟩ := fatOpen_opens hopens rfl
  have hnone := allocateFd_of_full (f := fullTable.files.next) ((full_congr htable).mpr hfull)
  have hopen : vfsOpen (text "/A") oRdonly fullTable = (none, t.freeFile fullTable.files.next) := by
    have hfile : fullTable.env.file = true := rfl
    rw [vfsOpen_eq, hfile]
    simp only [Bool.not_true, Bool.false_eq_true, if_false, ht, if_true, hnone]
  have hreleased := h (text "/A") oRdonly fullTable (by rw [hopen])
  rw [hopen] at hreleased
  exact not_released_of_private (freeFile_leaves_private hleft) hreleased

end Orion68.OpenFailure
