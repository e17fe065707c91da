import Orion68.Shell.OpenFailure

namespace Orion68.FatDescriptor

open Ownership FatFs Shell OpenFailure

/-- What belongs to a descriptor of a FAT file: the position of its `File`, the private data, the
file object, and the disk. -/
structure Handle where
  position : UInt32
  mode : UInt8
  size : UInt32
  fil : Fil
  volume : Volume

namespace Handle

variable (e : Env) (h : Handle)

def read (size : UInt32) : Bool × Handle :=
  let r := fRead e.disk size.toNat h.fil h.volume
  if r.1 ≠ .ok then (false, { h with fil := r.2.2 })
  else (true, { h with fil := r.2.2, position := h.position + UInt32.ofNat r.2.1.length })

def write (buffer : List UInt8) : Bool × Handle :=
  let at_ := fatSeekEnd e h.mode h.fil h.volume
  let r := fWrite e.disk buffer at_.1 at_.2
  if r.1 ≠ .ok then (false, { h with fil := r.2.2.1, volume := r.2.2.2 })
  else
    let position := h.position + UInt32.ofNat r.2.1
    (true, { h with
      position := position
      size := if h.size < position then position else h.size
      fil := r.2.2.1
      volume := r.2.2.2 })

def lseek (offset : UInt32) (whence : Int) : Bool × Handle :=
  match newPos (fTell h.fil) h.size offset whence with
  | none => (false, h)
  | some pos =>
      let r := fLseek e.disk pos h.fil h.volume
      if r.1 ≠ .ok then (false, { h with fil := r.2.1, volume := r.2.2 })
      else (true, { h with fil := r.2.1, volume := r.2.2, position := pos })

end Handle

def Holds (fd : Fd) (h : Handle) (s : Vfs) : Prop :=
  ∃ f file p priv, s.fdTable fd = some f ∧ s.files.cell f = some file ∧ file.ops = .fat ∧
    file.privateData = .fat p ∧ s.privates.cell p = some priv ∧ s.fils.cell priv.fatFile = some h.fil ∧
    file.position = h.position ∧ priv.mode = h.mode ∧ priv.size = h.size ∧ s.volume = h.volume

inductive Op
  | read (size : UInt32)
  | write (buffer : List UInt8)
  | lseek (offset : UInt32) (whence : Int)

def Op.call (fd : Fd) (o : Op) (s : Vfs) : Bool × Vfs :=
  match o with
  | .read size => ((vfsRead fd size s).1.isSome, (vfsRead fd size s).2)
  | .write buffer => ((vfsWrite fd buffer s).1.isSome, (vfsWrite fd buffer s).2)
  | .lseek offset whence => ((vfsLseek fd offset whence s).1.isSome, (vfsLseek fd offset whence s).2)

def Op.onHandle (e : Env) (o : Op) (h : Handle) : Bool × Handle :=
  match o with
  | .read size => h.read e size
  | .write buffer => h.write e buffer
  | .lseek offset whence => h.lseek e offset whence

section Refinement

variable {fd : Fd} {h : Handle} {s : Vfs}

theorem Holds.unique {h' : Handle} (hs : Holds fd h s) (hs' : Holds fd h' s) : h = h' := by
  obtain ⟨f, file, p, priv, hf, hfile, -, hp, hpriv, hq, hpos, hmode, hsize, hvol⟩ := hs
  obtain ⟨f', file', p', priv', hf', hfile', -, hp', hpriv', hq', hpos', hmode', hsize', hvol'⟩ := hs'
  cases hf.symm.trans hf'
  cases hfile.symm.trans hfile'
  cases hp.symm.trans hp'
  cases hpriv.symm.trans hpriv'
  have hfil := Option.some.inj (hq.symm.trans hq')
  cases h
  cases h'
  simp_all

theorem Holds.volume (hs : Holds fd h s) : s.volume = h.volume := by
  obtain ⟨f, file, p, priv, -, -, -, -, -, -, -, -, -, hvol⟩ := hs
  exact hvol

theorem modify_cell {α : Type} {m : Heap α} {p : Ptr} {a : α} (hp : m.cell p = some a) (g : α → α) :
    (m.modify p g).cell p = some (g a) := by
  rw [Heap.cell_modify, Function.update_self, hp, Option.map_some]

/-- The calls of the VFS do on the memory of the shell what is done here on the data of the
descriptor. -/
theorem Op.call_refines (hs : Holds fd h s) (o : Op) :
    (o.call fd s).1 = (o.onHandle s.env h).1 ∧ Holds fd (o.onHandle s.env h).2 (o.call fd s).2 := by
  obtain ⟨f, file, p, priv, hf, hfile, hops, hp, hpriv, hq, hpos, hmode, hsize, hvol⟩ := hs
  have hf' : s.turn.fdTable fd = some f := hf
  have hfile' : s.turn.files.cell f = some file := hfile
  have hpriv' : s.turn.privates.cell p = some priv := hpriv
  have hq' : s.turn.fils.cell priv.fatFile = some h.fil := hq
  have hvol' : s.turn.volume = h.volume := hvol
  cases o with
  | read size =>
      simp only [Op.call, Op.onHandle, vfsRead, withFile, hf', hfile', hops, fatRead, withFat, hp, hpriv', hq', hvol',
        Handle.read]
      split
      · exact ⟨rfl, f, file, p, priv, hf, hfile, hops, hp, hpriv, modify_cell hq' _, hpos, hmode, hsize, rfl⟩
      · exact ⟨rfl, f, _, p, priv, hf, modify_cell hfile' _, hops, hp, hpriv, modify_cell hq' _,
          congrArg (· + _) hpos, hmode, hsize, rfl⟩
  | write buffer =>
      simp only [Op.call, Op.onHandle, vfsWrite, withFile, hf', hfile', hops, fatWrite, withFat, hp, hpriv', hq', hvol',
        Handle.write, hmode, hpos]
      split
      · exact ⟨rfl, f, file, p, priv, hf, hfile, hops, hp, hpriv, modify_cell hq' _, hpos, hmode, hsize, rfl⟩
      · refine ⟨rfl, f, _, p, _, hf, modify_cell hfile' _, hops, hp, modify_cell hpriv' _, modify_cell hq' _,
          rfl, hmode, ?_, rfl⟩
        rw [← hsize]
  | lseek offset whence =>
      simp only [Op.call, Op.onHandle, vfsLseek, withFile, hf', hfile', hops, fatLseek, withFat, hp, hpriv', hq', hvol',
        Handle.lseek, hsize]
      cases newPos (fTell h.fil) h.size offset whence with
      | none => exact ⟨rfl, f, file, p, priv, hf, hfile, hops, hp, hpriv, hq, hpos, hmode, hsize, hvol⟩
      | some pos =>
          simp only
          split
          · exact ⟨rfl, f, file, p, priv, hf, hfile, hops, hp, hpriv, modify_cell hq' _, hpos, hmode, hsize, rfl⟩
          · exact ⟨rfl, f, _, p, priv, hf, modify_cell hfile' _, hops, hp, hpriv, modify_cell hq' _, rfl,
              hmode, hsize, rfl⟩

end Refinement

section Opening

variable {path : Path} {flags : UInt32} {fd : Fd} {h : Handle} {s t : Vfs}

/-- The data of a descriptor that `vfs_open` has just returned for a FAT file. -/
def openedHandle (path : Path) (flags : UInt32) (s : Vfs) : Handle :=
  let r := fOpen s.env.open_ path (fatMode flags) s.volume
  ⟨0, fatMode flags, fSize r.2.1 r.2.2, r.2.1, r.2.2⟩

theorem fatMode_rdonly : fatMode oRdonly &&& 0x3F = faRead ||| faWrite := by decide

theorem fOpen_rdonly (disk : Disk) (path : Path) (v : Volume) :
    (fOpen disk path (fatMode oRdonly) v).2.2 = v ∧
      ((fOpen disk path (fatMode oRdonly) v).1 = .ok → ∃ ro d, v path = .file ro d) := by
  by_cases hok : (fOpen disk path (fatMode oRdonly) v).1 = .ok
  · obtain ⟨hopen, hvol, -⟩ := fOpen_of_ok hok
    rw [fatMode_rdonly] at hopen hvol
    obtain ⟨ro, d, hfile⟩ : ∃ ro d, v path = .file ro d := by
      cases hx : v path with
      | file ro d => exact ⟨ro, d, rfl⟩
      | none | dir =>
          rw [hx] at hopen
          cases hopen
    refine ⟨?_, fun _ => ⟨ro, d, hfile⟩⟩
    rw [hvol, hfile]
    exact Function.update_eq_self_iff.mpr hfile.symm
  · exact ⟨fOpen_of_error hok, fun h => absurd h hok⟩

theorem allocateFd_some {f : Ptr} (ha : allocateFd f s = (some fd, t)) :
    t = { s.vfsSetFd fd (some f) with fdCount := s.fdCount + 1 } := by
  by_cases hfull : Full s
  · rw [allocateFd_of_full hfull] at ha
    cases ha
  · obtain ⟨fd', -, -, hs⟩ := allocateFd_of_not_full (f := f) hfull
    rw [hs] at ha
    cases ha
    rfl

theorem device_open_ops {e : Env} {f : Ptr} {d : Device} (hd : (d.open_ e f s).1 = true) :
    ∃ g : File → File, (d.open_ e f s).2.files = s.files.modify f g ∧ ∀ file, (g file).ops ≠ .fat := by
  rcases device_open_eq d e f s with ⟨-, ops, hops, he⟩ | ⟨-, data, uptime, he⟩
  · rw [he]
    exact ⟨_, rfl, fun _ => hops⟩
  · cases hp : e.proc with
    | false => simp [he, hp] at hd
    | true =>
        rw [he, hp]
        exact ⟨_, rfl, fun _ h => by cases h⟩

theorem openDriver_not_fat {n : Int} {u : Vfs} (hpend : Pending n s u)
    (ho : openDriver s.env s.files.next path drivers u = (some fd, t)) : ¬ Holds fd h t := by
  rw [openDriver_eq _ _ _ drivers_nodup] at ho
  obtain ⟨file, hfile, -⟩ := hpend.file
  cases hdev : (drivers.find? fun d => path = d.1).map Prod.snd with
  | none => simp [hdev] at ho
  | some d =>
      simp only [hdev] at ho
      split at ho
      next hopen =>
        obtain ⟨g, hg, hops⟩ := device_open_ops hopen
        split at ho
        next fd' t' ha =>
          cases ho
          rintro ⟨f', file', p, priv, hf', hfile', hfat, -⟩
          rw [allocateFd_some ha] at hf' hfile'
          obtain rfl : s.files.next = f' := by simpa [Vfs.vfsSetFd] using hf'
          have hcell : u.files.cell s.files.next = some file := by rw [hfile, Function.update_self]
          have hnow : (d.open_ s.env s.files.next u).2.files.cell s.files.next = some (g file) := by
            rw [hg]
            exact modify_cell hcell g
          cases hnow.symm.trans hfile'
          exact hops file hfat
        next => cases ho
      next => cases ho

theorem allocateFd_none {f : Ptr} (ha : allocateFd f s = (none, t)) : Full s := by
  by_contra hfull
  obtain ⟨fd', -, -, hs⟩ := allocateFd_of_not_full (f := f) hfull
  rw [hs] at ha
  cases ha

theorem open_fat (hfile : s.env.file = true) (hfat : FatOpens path flags s) (hpriv : s.env.priv = true) :
    (Full s ∧ (vfsOpen path flags s).1 = none) ∨
      ∃ fd t, vfsOpen path flags s = (some fd, t) ∧ Holds fd (openedHandle path flags s) t := by
  have hopen : (fOpen s.env.open_ path (fatMode flags) (allocated path s).volume).1 = .ok := hfat.2
  rw [vfsOpen_eq, hfile, fatOpen, hfat.1, hpriv]
  simp only [Bool.not_true, Bool.false_eq_true, if_false, hopen, ne_eq, not_true_eq_false, if_true]
  split
  next fd t ha =>
    refine .inr ⟨fd, t, rfl, ?_⟩
    rw [allocateFd_some ha]
    exact ⟨s.files.next, _, s.privates.next, _, Function.update_self _ _ _,
      modify_cell (Function.update_self _ _ _) _, rfl, rfl, Function.update_self _ _ _,
      Function.update_self _ _ _, rfl, rfl, rfl, rfl⟩
  next t ha => exact .inl ⟨fun fd hfd => allocateFd_none ha fd hfd, rfl⟩

theorem open_holds (ho : vfsOpen path flags s = (some fd, t)) (ht : Holds fd h t) :
    FatOpens path flags s ∧ h = openedHandle path flags s := by
  cases hfile : s.env.file with
  | false => simp [vfsOpen_eq, hfile] at ho
  | true =>
      by_cases hfat : FatOpens path flags s ∧ s.env.priv = true
      · refine ⟨hfat.1, ?_⟩
        rcases open_fat hfile hfat.1 hfat.2 with ⟨-, hnone⟩ | ⟨fd', t', ho', ht'⟩
        · rw [ho] at hnone
          cases hnone
        · cases ho.symm.trans ho'
          exact ht.unique ht'
      · obtain ⟨u, n, hu, hpend, -⟩ := fatOpen_fails hfat
        rw [vfsOpen_eq, hfile] at ho
        simp only [hu, Bool.not_true, Bool.false_eq_true, if_false] at ho
        exact absurd ht (openDriver_not_fat hpend ho)

end Opening

def fiveBytes : Volume := fun path =>
  if path = text "/A" then .file false ⟨[1, 2, 3, 4, 5], by decide⟩ else .none

def shell : Vfs := .start fiveBytes fun _ => .granting ⟨.ok, 64, fun _ => 0⟩

theorem shell_opens (flags : UInt32) (h : openError (fatMode flags &&& 0x3F) (fiveBytes (text "/A")) = .ok) :
    ∃ fd s, vfsOpen (text "/A") flags shell = (some fd, s) ∧
      Holds fd (openedHandle (text "/A") flags shell) s := by
  have hfat : FatOpens (text "/A") flags shell := ⟨rfl, fOpen_ok rfl h⟩
  rcases open_fat rfl hfat rfl with ⟨hfull, -⟩ | hopens
  · exact absurd (hfull 3 (by decide)) (by simp [shell, Vfs.start])
  · exact hopens

end Orion68.FatDescriptor
