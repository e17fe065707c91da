import Orion68.Shell.FatDescriptor
import Orion68.Lib.Runs

namespace Orion68.ReadOnly

open Runs FatFs Shell OpenFailure FatDescriptor

inductive Call
  | op (o : Op)
  | close

def step (fd : Fd) (c : Call) (s : Vfs) : Option Vfs :=
  match c with
  | .op o => some (o.call fd s).2
  | .close => some (vfsClose fd s).2

/-- The bytes that a write puts into the file are there already, and a seek stays within the file
or finds no room for more. -/
def HarmlessOn (e : Env) (c : Call) (h : Handle) : Prop :=
  match c with
  | .op (.read _) | .close => True
  | .op (.write buffer) => h.fil.err = .ok →
      accepted e.disk h.fil buffer <+: (h.fil.bytes h.volume).val.drop h.fil.fptr.toNat
  | .op (.lseek offset whence) => h.fil.err = .ok → ∀ pos, newPos (fTell h.fil) h.size offset whence = some pos →
      pos ≤ fSize h.fil h.volume ∨ UInt32.ofNat e.disk.room ≤ fSize h.fil h.volume

def Harmless (fd : Fd) (c : Call) (s : Vfs) : Prop := ∀ h, Holds fd h s → HarmlessOn s.env c h

/-- What `O_RDONLY` gives: FatFs has been told that the file may be written. -/
structure Writable (h : Handle) : Prop where
  valid : h.fil.valid = true
  entry : ∃ ro d, h.volume h.fil.path = .file ro d
  flag : h.fil.flag &&& faWrite ≠ 0
  mode : h.mode &&& faOpenAppend = 0
  ptr : h.fil.err = .ok → h.fil.fptr.toNat ≤ (h.fil.bytes h.volume).val.length

section Calls

variable {e : Env} {h : Handle}

theorem Writable.of_fptr (hW : Writable h) (fptr : UInt32) (err : FResult)
    (hle : fptr.toNat ≤ (h.fil.bytes h.volume).val.length) {h' : Handle} (hmode : h'.mode = h.mode)
    (hvol : h'.volume = h.volume) (hfil : h'.fil = { h.fil with fptr := fptr, err := err }) : Writable h' := by
  refine ⟨?_, ?_, ?_, by rw [hmode, hW.mode], fun _ => ?_⟩ <;> rw [hfil]
  · exact hW.valid
  · rw [hvol]
    exact hW.entry
  · exact hW.flag
  · rw [hvol]
    exact hle

theorem read_harmless (hW : Writable h) (size : UInt32) :
    (h.read e size).2.volume = h.volume ∧ Writable (h.read e size).2 := by
  rcases fRead_cases e.disk size.toNat (v := h.volume) hW.valid with
    ⟨herr, hr⟩ | ⟨-, -, hr⟩ | ⟨herr, -, bytes, hlen, hr⟩
  · simpa [Handle.read, hr, herr] using hW
  · simpa [Handle.read, hr] using hW
  · have hle : (h.fil.fptr + UInt32.ofNat bytes.length).toNat ≤ (h.fil.bytes h.volume).val.length := by
      have hptr := hW.ptr herr
      rw [fptr_add_toNat hptr (h.fil.bytes h.volume).property hlen]
      omega
    simp only [Handle.read, hr]
    split <;> exact ⟨rfl, hW.of_fptr _ _ hle rfl rfl rfl⟩

theorem write_volume_iff (hW : Writable h) (buffer : List UInt8) :
    (h.write e buffer).2.volume = h.volume ↔ HarmlessOn e (.op (.write buffer)) h := by
  have hseek : fatSeekEnd e h.mode h.fil h.volume = (h.fil, h.volume) := by
    rw [fatSeekEnd, if_neg (not_not.mpr hW.mode)]
  obtain ⟨ro, d, he⟩ := hW.entry
  rcases fWrite_cases e.disk (v := h.volume) buffer hW.valid with ⟨herr, hr⟩ | ⟨-, hflag, -⟩ | ⟨herr, -, hr⟩
  · simp [Handle.write, hseek, hr, herr, HarmlessOn]
  · exact absurd hflag hW.flag
  · have hvol : (h.write e buffer).2.volume = h.volume.setBytes h.fil.path ((h.fil.bytes h.volume).overwrite
        h.fil.fptr.toNat (accepted e.disk h.fil buffer) (accepted_lt e.disk h.fil buffer)) := by
      simp only [Handle.write, hseek, hr]
      split <;> rfl
    rw [hvol, setBytes_eq_self_iff he, Bytes.overwrite_eq_self_iff (hW.ptr herr)]
    exact ⟨fun hpre _ => hpre, fun hC => hC herr⟩

theorem write_writable (hW : Writable h) (buffer : List UInt8) (hC : HarmlessOn e (.op (.write buffer)) h) :
    Writable (h.write e buffer).2 := by
  have hvol := (write_volume_iff hW buffer).mpr hC
  have hseek : fatSeekEnd e h.mode h.fil h.volume = (h.fil, h.volume) := by
    rw [fatSeekEnd, if_neg (not_not.mpr hW.mode)]
  rcases fWrite_cases e.disk (v := h.volume) buffer hW.valid with ⟨herr, hr⟩ | ⟨-, hflag, -⟩ | ⟨herr, -, hr⟩
  · simpa [Handle.write, hseek, hr, herr] using hW
  · exact absurd hflag hW.flag
  · have hlen := (hC herr).length_le
    rw [List.length_drop] at hlen
    have hptr := hW.ptr herr
    have hle := fptr_add_toNat hptr (h.fil.bytes h.volume).property hlen
    refine hW.of_fptr (h.fil.fptr + UInt32.ofNat (accepted e.disk h.fil buffer).length) e.disk.result
      (by omega) ?_ hvol ?_ <;> simp only [Handle.write, hseek, hr] <;> split <;> rfl

theorem lseek_volume_iff (hW : Writable h) (offset : UInt32) (whence : Int) :
    (h.lseek e offset whence).2.volume = h.volume ↔ HarmlessOn e (.op (.lseek offset whence)) h := by
  obtain ⟨ro, d, he⟩ := hW.entry
  cases hp : newPos (fTell h.fil) h.size offset whence with
  | none => simp [Handle.lseek, HarmlessOn, hp]
  | some pos =>
      rcases fLseek_cases e.disk (v := h.volume) pos hW.valid with ⟨herr, hr⟩ | ⟨herr, hr⟩
      · simp [Handle.lseek, HarmlessOn, hp, hr, herr]
      · have hvol : (h.lseek e offset whence).2.volume = h.volume.setBytes h.fil.path
            ((h.fil.bytes h.volume).extend (seekTarget e.disk pos h.fil h.volume) e.disk.fresh) := by
          simp only [Handle.lseek, hp, hr]
          split <;> rfl
        rw [hvol, setBytes_eq_self_iff he, Bytes.extend_eq_self_iff, ← fSize_toNat, ← UInt32.le_iff_toNat_le,
          seekTarget_le_fSize_iff e.disk hW.flag]
        simp [HarmlessOn, herr, hp]

theorem lseek_writable (hW : Writable h) (offset : UInt32) (whence : Int)
    (hC : HarmlessOn e (.op (.lseek offset whence)) h) : Writable (h.lseek e offset whence).2 := by
  have hvol := (lseek_volume_iff hW offset whence).mpr hC
  cases hp : newPos (fTell h.fil) h.size offset whence with
  | none => simpa [Handle.lseek, hp] using hW
  | some pos =>
      rcases fLseek_cases e.disk (v := h.volume) pos hW.valid with ⟨herr, hr⟩ | ⟨herr, hr⟩
      · simpa [Handle.lseek, hp, hr, herr] using hW
      · have hle := (seekTarget_le_fSize_iff e.disk hW.flag).mpr (hC herr pos hp)
        rw [UInt32.le_iff_toNat_le, fSize_toNat] at hle
        refine hW.of_fptr _ e.disk.result hle ?_ hvol ?_ <;>
          simp only [Handle.lseek, hp, hr] <;> split <;> rfl

theorem op_volume_iff (hW : Writable h) (o : Op) :
    (o.onHandle e h).2.volume = h.volume ↔ HarmlessOn e (.op o) h := by
  cases o with
  | read size => exact iff_of_true (read_harmless hW size).1 trivial
  | write buffer => exact write_volume_iff hW buffer
  | lseek offset whence => exact lseek_volume_iff hW offset whence

theorem op_writable (hW : Writable h) (o : Op) (hC : HarmlessOn e (.op o) h) : Writable (o.onHandle e h).2 := by
  cases o with
  | read size => exact (read_harmless hW size).2
  | write buffer => exact write_writable hW buffer hC
  | lseek offset whence => exact lseek_writable hW offset whence hC

end Calls

section Descriptors

variable {path : Path} {fd : Fd} {h : Handle} {s₀ s : Vfs}

theorem close_holds (hs : Holds fd h s) :
    (vfsClose fd s).2.volume = s.volume ∧ (vfsClose fd s).2.fdTable fd = none := by
  obtain ⟨f, file, p, priv, hf, hfile, hops, hp, hpriv, hq, -⟩ := hs
  have hf' : s.turn.fdTable fd = some f := hf
  have hfile' : s.turn.files.cell f = some file := hfile
  have hpriv' : s.turn.privates.cell p = some priv := hpriv
  have hq' : s.turn.fils.cell priv.fatFile = some h.fil := hq
  simp only [vfsClose, withFile, hf', hfile', hops, fatClose, withFat, hp, hpriv', hq']
  refine ⟨?_, Function.update_self _ _ _⟩
  exact freeFile_volume f _

theorem call_of_free (hf : s.fdTable fd = none) {c : Call} {t : Vfs} (ht : step fd c s = some t) : t = s.turn := by
  have hf' : s.turn.fdTable fd = none := hf
  cases c with
  | close =>
      cases ht
      simp only [vfsClose, withFile, hf']
  | op o =>
      cases ht
      cases o with
      | read size => simp only [Op.call, vfsRead, withFile, hf']
      | write buffer => simp only [Op.call, vfsWrite, withFile, hf']
      | lseek offset whence => simp only [Op.call, vfsLseek, withFile, hf']

/-- `O_RDONLY` shares its bit with `O_RDWR`: the file is opened for writing too. Opening it
changes nothing. -/
theorem openedHandle_writable (ho : FatOpens path oRdonly s) :
    (openedHandle path oRdonly s).volume = s.volume ∧ Writable (openedHandle path oRdonly s) := by
  obtain ⟨-, -, hfil⟩ := fOpen_of_ok ho.2
  obtain ⟨hsame, hexists⟩ := fOpen_rdonly s.env.open_ path s.volume
  obtain ⟨ro, d, hfile⟩ := hexists ho.2
  have hend : fatMode oRdonly &&& faOpenAppend = 0 := by decide
  have hwrite : (faRead ||| faWrite) &&& faWrite ≠ 0 := by decide
  have hhandle : (openedHandle path oRdonly s).fil = ⟨path, faRead ||| faWrite, 0, .ok, true⟩ := by
    rw [openedHandle, hfil, fatMode_rdonly]
    rfl
  refine ⟨hsame, ⟨?_, ⟨ro, d, ?_⟩, ?_, hend, fun _ => ?_⟩⟩ <;> rw [hhandle]
  · exact (congrFun hsame path).trans hfile
  · exact hwrite
  · exact Nat.zero_le _

/-- The file is unchanged, and the descriptor is free or may still be written through. -/
def Intact (fd : Fd) (v : Volume) (s : Vfs) : Prop :=
  s.volume = v ∧ (s.fdTable fd = none ∨ ∃ h, Holds fd h s ∧ Writable h)

theorem step_volume_iff {v : Volume} (hI : Intact fd v s) (c : Call) {t : Vfs} (ht : step fd c s = some t) :
    (t.volume = v ↔ Harmless fd c s) ∧ (Harmless fd c s → Intact fd v t) := by
  obtain ⟨hvol, hfree | ⟨h, hs, hW⟩⟩ := hI
  · have hC : Harmless fd c s := by
      rintro h ⟨f, file, p, priv, hf, -⟩
      rw [hfree] at hf
      cases hf
    cases call_of_free hfree ht
    exact ⟨iff_of_true hvol hC, fun _ => ⟨hvol, .inl hfree⟩⟩
  · have hC : Harmless fd c s ↔ HarmlessOn s.env c h := by
      constructor
      · intro h'
        exact h' h hs
      · intro hC h' hs'
        rw [← hs.unique hs']
        exact hC
    have hold : h.volume = v := hs.volume.symm.trans hvol
    rw [hC]
    cases c with
    | close =>
        cases ht
        obtain ⟨hclose, hfree⟩ := close_holds hs
        exact ⟨iff_of_true (hclose.trans hvol) trivial, fun _ => ⟨hclose.trans hvol, .inl hfree⟩⟩
    | op o =>
        cases ht
        have hafter := (Op.call_refines hs o).2
        rw [hafter.volume, ← hold, op_volume_iff hW]
        refine ⟨Iff.rfl, fun hC => ⟨?_, .inr ⟨_, hafter, op_writable hW o hC⟩⟩⟩
        rw [hafter.volume, (op_volume_iff hW o).mpr hC]

/-- A file that is opened with `O_RDONLY` keeps its content and its length exactly as long as what
is written to it is there already, and no seek makes it longer. -/
theorem read_only_iff (cs : List Call) (ho : vfsOpen path oRdonly s₀ = (some fd, s)) (hfat : ∃ h, Holds fd h s) :
    Throughout (step fd) (fun t => t.volume = s₀.volume) cs s ↔ Along (step fd) (Harmless fd) cs s := by
  obtain ⟨h, hs⟩ := hfat
  obtain ⟨hopens, rfl⟩ := open_holds ho hs
  obtain ⟨hvol, hW⟩ := openedHandle_writable hopens
  have hI : Intact fd s₀.volume s := by
    exact ⟨hs.volume.trans hvol, .inr ⟨_, hs, hW⟩⟩
  refine throughout_iff_along (I := Intact fd s₀.volume) (fun t ht => ht.1) ?_ ?_ cs hI
  · intro c t ht hC
    have hstep : ∃ u, step fd c t = some u := by cases c <;> exact ⟨_, rfl⟩
    obtain ⟨u, hu⟩ := hstep
    exact ⟨u, hu, (step_volume_iff ht c hu).2 hC⟩
  · intro c t u ht hC hu
    exact mt (step_volume_iff ht c hu).1.mp hC

end Descriptors

theorem read_only_iff_reading :
    ∃ fd s, vfsOpen (text "/A") oRdonly shell = (some fd, s) ∧
      Throughout (step fd) (fun t => t.volume = fiveBytes) [.op (.read 3), .close] s := by
  obtain ⟨fd, s, ho, hs⟩ := shell_opens oRdonly (by decide)
  refine ⟨fd, s, ho, (read_only_iff [.op (.read 3), .close] ho ⟨_, hs⟩).mpr ⟨?_, fun _ _ => ⟨?_, fun _ _ => trivial⟩⟩⟩
  · intro h _
    trivial
  · intro h _
    trivial

/-- One byte is written to a file that was opened to be read. -/
theorem read_only_file_written :
    ¬ ∀ (path : Path) (fd : Fd) (s₀ s : Vfs) (cs : List Call), vfsOpen path oRdonly s₀ = (some fd, s) →
      (∃ h, Holds fd h s) → Throughout (step fd) (fun t => t.volume = s₀.volume) cs s := by
  intro h
  obtain ⟨fd, s, ho, hs⟩ := shell_opens oRdonly (by decide)
  obtain ⟨-, t, ht, hvol⟩ := h (text "/A") fd shell s [.op (.write [9])] ho ⟨_, hs⟩
  obtain ⟨hopens, -⟩ := open_holds ho hs
  obtain ⟨hsame, hW⟩ := openedHandle_writable hopens
  have henv : s.env = shell.env := by
    have hnext : s = (vfsOpen (text "/A") oRdonly shell).2 := by rw [ho]
    rw [hnext]
    rfl
  have hI : Intact fd shell.volume s := ⟨hs.volume.trans hsame, .inr ⟨_, hs, hW⟩⟩
  have hpre := (step_volume_iff hI _ ht).1.mp hvol _ hs (by decide)
  rw [henv] at hpre
  exact absurd hpre (by decide)

end Orion68.ReadOnly
