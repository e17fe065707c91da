import Orion68.Shell.FatDescriptor
import Orion68.Lib.Runs

namespace Orion68.ShadowPosition

open Runs FatFs Shell OpenFailure FatDescriptor

/-- What the VFS keeps of the position and of the length is what FatFs has. -/
def Synced (h : Handle) : Prop := h.position = fTell h.fil ∧ h.size = fSize h.fil h.volume

def step (fd : Fd) (o : Op) (s : Vfs) : Option Vfs := some (o.call fd s).2

def KeepsShadow (fd : Fd) (o : Op) (s : Vfs) : Prop :=
  (o.call fd s).1 = true → ∃ h, Holds fd h (o.call fd s).2 ∧ Synced h

def writeStart (h : Handle) : UInt32 :=
  if h.mode &&& faOpenAppend ≠ 0 then fSize h.fil h.volume else h.fil.fptr

/-- A file that was opened to be appended to is read and written only from the position that the
VFS keeps, and no seek goes past the end. -/
def InStepOn (e : Env) (o : Op) (h : Handle) : Prop :=
  h.fil.err = .ok → e.disk.result = .ok →
    match o with
    | .read _ => h.mode &&& faOpenAppend ≠ 0 → h.fil.flag &&& faRead ≠ 0 → h.position = fTell h.fil
    | .write _ => h.mode &&& faOpenAppend ≠ 0 → h.fil.flag &&& faWrite ≠ 0 → e.seek.result = .ok →
        h.position = fSize h.fil h.volume
    | .lseek offset whence => ∀ pos, newPos (fTell h.fil) h.size offset whence = some pos →
        pos ≤ fSize h.fil h.volume

def InStep (fd : Fd) (o : Op) (s : Vfs) : Prop := ∀ h, Holds fd h s → InStepOn s.env o h

/-- As long as no error has aborted the file, its size is known and the pointer is within it; the
position is known too, unless the file is appended to. -/
structure Tracked (h : Handle) : Prop where
  valid : h.fil.valid = true
  entry : ∃ ro d, h.volume h.fil.path = .file ro d
  position : h.fil.err = .ok → h.mode &&& faOpenAppend = 0 → h.position = fTell h.fil
  size : h.fil.err = .ok → h.size = fSize h.fil h.volume
  ptr : h.fil.err = .ok → h.fil.fptr.toNat ≤ (h.fil.bytes h.volume).val.length

section Calls

variable {e : Env} {h : Handle}

theorem tracked_of_error {h' : Handle} (hv : h'.fil.valid = true)
    (he : ∃ ro d, h'.volume h'.fil.path = .file ro d) (herr : h'.fil.err ≠ .ok) : Tracked h' :=
  ⟨hv, he, fun h => absurd h herr, fun h => absurd h herr, fun h => absurd h herr⟩

theorem read_tracked (hT : Tracked h) (size : UInt32) : Tracked (h.read e size).2 := by
  obtain ⟨hv, he, hpos, hsize, hptr⟩ := hT
  rcases fRead_cases e.disk size.toNat (v := h.volume) hv with ⟨herr, hr⟩ | ⟨herr, -, hr⟩ | ⟨herr, -, bytes, hlen, hr⟩
  · simp only [Handle.read, hr, ne_eq, herr, not_false_eq_true, if_true]
    exact ⟨hv, he, hpos, hsize, hptr⟩
  · simp only [Handle.read, hr, ne_eq, reduceCtorEq, not_false_eq_true, if_true]
    exact ⟨hv, he, hpos, hsize, hptr⟩
  · by_cases hd : e.disk.result = .ok
    · simp only [Handle.read, hr, ne_eq, hd, not_true_eq_false, if_false]
      refine ⟨hv, he, fun _ hm => congrArg (· + _) (hpos herr hm), fun _ => hsize herr, ?_⟩
      intro _
      change (h.fil.fptr + UInt32.ofNat bytes.length).toNat ≤ (h.fil.bytes h.volume).val.length
      rw [fptr_add_toNat (hptr herr) (h.fil.bytes h.volume).property hlen]
      have hle := hptr herr
      omega
    · simp only [Handle.read, hr, ne_eq, hd, not_false_eq_true, if_true]
      exact tracked_of_error hv he hd

theorem read_synced_iff (hT : Tracked h) (size : UInt32) :
    ((h.read e size).1 = true → Synced (h.read e size).2) ↔ InStepOn e (.read size) h := by
  obtain ⟨hv, he, hpos, hsize, hptr⟩ := hT
  rcases fRead_cases e.disk size.toNat (v := h.volume) hv with
    ⟨herr, hr⟩ | ⟨herr, hflag, hr⟩ | ⟨herr, hflag, bytes, hlen, hr⟩
  · simp [Handle.read, hr, herr, InStepOn]
  · simp [Handle.read, hr, herr, InStepOn, hflag]
  · by_cases hd : e.disk.result = .ok
    · have hsame : fSize { h.fil with fptr := h.fil.fptr + UInt32.ofNat bytes.length, err := FResult.ok } h.volume =
          fSize h.fil h.volume := rfl
      have hknown : ¬ h.mode &&& faOpenAppend = 0 ∨ h.position = h.fil.fptr :=
        Classical.or_iff_not_imp_left.mpr fun hm => hpos herr (not_not.mp hm)
      simp [Handle.read, hr, herr, hd, InStepOn, hflag, Synced, fTell, hsame, hsize herr, hknown]
    · simp [Handle.read, hr, hd, InStepOn]

theorem seekEnd_spec (hvalid : h.fil.valid = true) :
    ∃ f, fatSeekEnd e h.mode h.fil h.volume = (f, h.volume) ∧ f.valid = true ∧ f.path = h.fil.path ∧
      f.flag = h.fil.flag ∧
      (f.err = .ok ↔ h.fil.err = .ok ∧ (h.mode &&& faOpenAppend ≠ 0 → e.seek.result = .ok)) ∧
      (f.err = .ok → f.fptr = writeStart h) := by
  by_cases hm : h.mode &&& faOpenAppend = 0
  · refine ⟨h.fil, ?_, hvalid, rfl, rfl, ?_, ?_⟩
    · rw [fatSeekEnd, if_neg (not_not.mpr hm)]
    · simp [hm]
    · intro _
      rw [writeStart, if_neg (not_not.mpr hm)]
  · rw [fatSeekEnd, if_pos hm]
    rcases fLseek_cases e.seek (v := h.volume) (fSize h.fil h.volume) hvalid with ⟨herr, hr⟩ | ⟨herr, hr⟩
    · rw [hr]
      exact ⟨h.fil, rfl, hvalid, rfl, rfl, by simp [herr], fun he => absurd he herr⟩
    · obtain ⟨hle, heq⟩ := seekTarget_le (f := h.fil) (v := h.volume) e.seek (UInt32.le_refl _)
      have hsame : (h.fil.bytes h.volume).extend (seekTarget e.seek (fSize h.fil h.volume) h.fil h.volume)
          e.seek.fresh = h.fil.bytes h.volume := by
        rw [Bytes.extend_eq_self_iff, ← fSize_toNat, ← UInt32.le_iff_toNat_le]
        exact hle
      rw [hr, hsame, setBytes_self]
      refine ⟨_, rfl, hvalid, rfl, rfl, by simp [herr, hm], ?_⟩
      intro hok
      rw [writeStart, if_pos hm]
      exact heq hok

theorem writeStart_le (hT : Tracked h) (herr : h.fil.err = .ok) :
    (writeStart h).toNat ≤ (h.fil.bytes h.volume).val.length := by
  rw [writeStart]
  split
  · rw [fSize_toNat]
  · exact hT.ptr herr

theorem length_overwrite {f : Fil} {v : Volume} {ro : Bool} {d : Bytes} (he : v f.path = .file ro d) {k : Nat}
    (hk : k ≤ (f.bytes v).val.length) {x : List UInt8} (hx : k + x.length < 2 ^ 32) (g : Fil) (hg : g.path = f.path) :
    (g.bytes (v.setBytes f.path ((f.bytes v).overwrite k x hx))).val.length =
      max (f.bytes v).val.length (k + x.length) := by
  rw [Fil.bytes, hg, setBytes_file he]
  exact Files.length_overwrite hk

def WriteGranted (e : Env) (h : Handle) : Prop :=
  h.fil.err = .ok ∧ e.disk.result = .ok ∧ h.fil.flag &&& faWrite ≠ 0 ∧
    (h.mode &&& faOpenAppend ≠ 0 → e.seek.result = .ok)

/-- A write has stored `n` bytes. -/
structure Written (n : Nat) (h h' : Handle) : Prop where
  fits : (writeStart h).toNat + n < 2 ^ 32
  position : h'.position = h.position + UInt32.ofNat n
  mode : h'.mode = h.mode
  size : h'.size = if h.size < h'.position then h'.position else h.size
  valid : h'.fil.valid = true
  fptr : h'.fil.fptr = writeStart h + UInt32.ofNat n
  entry : ∃ ro d, h'.volume h'.fil.path = .file ro d
  length : (h'.fil.bytes h'.volume).val.length = max (h.fil.bytes h.volume).val.length ((writeStart h).toNat + n)

theorem write_cases (hT : Tracked h) (buffer : List UInt8) :
    (¬ WriteGranted e h ∧ (h.write e buffer).1 = false ∧ Tracked (h.write e buffer).2) ∨
    (WriteGranted e h ∧ (h.write e buffer).1 = true ∧ ∃ n, Written n h (h.write e buffer).2) := by
  obtain ⟨f, hf, hv, hpath, hflag, herr, hstart⟩ := seekEnd_spec (e := e) hT.valid
  obtain ⟨ro, d, he⟩ := hT.entry
  have he' : h.volume f.path = .file ro d := by rw [hpath, he]
  have hbytes : f.bytes h.volume = h.fil.bytes h.volume := by rw [Fil.bytes, Fil.bytes, hpath]
  have hle (hok : f.err = .ok) : f.fptr.toNat ≤ (f.bytes h.volume).val.length := by
    rw [hbytes, hstart hok]
    exact writeStart_le hT (herr.mp hok).1
  rcases fWrite_cases e.disk (v := h.volume) buffer hv with ⟨hne, hr⟩ | ⟨hok, hw, hr⟩ | ⟨hok, hw, hr⟩
  · refine .inl ⟨fun hg => hne (herr.mpr ⟨hg.1, hg.2.2.2⟩), ?_, ?_⟩
    · simp [Handle.write, hf, hr, hne]
    · simp only [Handle.write, hf, hr, ne_eq, hne, not_false_eq_true, if_true]
      exact tracked_of_error hv ⟨ro, d, he'⟩ hne
  · refine .inl ⟨fun hg => hg.2.2.1 (by rw [← hflag, hw]), ?_, ?_⟩
    · simp [Handle.write, hf, hr]
    · simp only [Handle.write, hf, hr, ne_eq, reduceCtorEq, not_false_eq_true, if_true]
      refine ⟨hv, ⟨ro, d, he'⟩, fun _ hm => ?_, fun _ => ?_, fun _ => hle hok⟩
      · change h.position = f.fptr
        rw [hstart hok, writeStart, if_neg (not_not.mpr hm)]
        exact hT.position (herr.mp hok).1 hm
      · change h.size = fSize f h.volume
        rw [hT.size (herr.mp hok).1, fSize, fSize, hbytes]
  · by_cases hd : e.disk.result = .ok
    · refine .inr ⟨⟨(herr.mp hok).1, hd, hflag ▸ hw, (herr.mp hok).2⟩, ?_, (accepted e.disk f buffer).length, ?_⟩
      · simp [Handle.write, hf, hr, hd]
      · simp only [Handle.write, hf, hr, hd, ne_eq, not_true_eq_false, if_false]
        have hfits := accepted_lt e.disk f buffer
        refine ⟨hstart hok ▸ hfits, rfl, rfl, rfl, hv, congrArg (· + _) (hstart hok), ⟨ro, _, setBytes_file he' _⟩, ?_⟩
        refine (length_overwrite he' (hle hok) hfits _ rfl).trans ?_
        rw [hbytes, hstart hok]
    · refine .inl ⟨fun hg => hd hg.2.1, ?_, ?_⟩
      · simp [Handle.write, hf, hr, hd]
      · simp only [Handle.write, hf, hr, hd, ne_eq, not_false_eq_true, if_true]
        exact tracked_of_error hv ⟨ro, _, setBytes_file he' _⟩ hd

theorem write_inStep (hT : Tracked h) (buffer : List UInt8) :
    InStepOn e (.write buffer) h ↔ (WriteGranted e h → h.position = writeStart h) := by
  by_cases hm : h.mode &&& faOpenAppend = 0
  · rw [writeStart, if_neg (not_not.mpr hm)]
    exact ⟨fun _ hg => hT.position hg.1 hm, fun _ _ _ h' => absurd hm h'⟩
  · rw [writeStart, if_pos hm]
    exact ⟨fun hC hg => hC hg.1 hg.2.1 hm hg.2.2.1 (hg.2.2.2 hm),
      fun hC herr hd _ hw hs => hC ⟨herr, hd, hw, fun _ => hs⟩⟩

theorem size_after_write {position size : UInt32} {len k : Nat} (hsize : size.toNat = len)
    (hpos : position.toNat = k) :
    (if size < position then position else size).toNat = max len k := by
  split
  next h =>
    rw [UInt32.lt_iff_toNat_lt] at h
    omega
  next h =>
    rw [UInt32.lt_iff_toNat_lt] at h
    omega

theorem write_synced_iff (hT : Tracked h) (buffer : List UInt8) :
    ((h.write e buffer).1 = true → Synced (h.write e buffer).2) ↔ InStepOn e (.write buffer) h := by
  rw [write_inStep hT]
  rcases write_cases (e := e) hT buffer with ⟨hg, hr, -⟩ | ⟨hg, hr, n, hw⟩
  · simp [hg, hr]
  · constructor
    · intro hs _
      have hpos := (hs hr).1
      rw [hw.position, fTell, hw.fptr] at hpos
      exact (UInt32.add_left_inj _).mp hpos
    · intro hstart _
      have hpos := hstart hg
      have hptr : (h.write e buffer).2.position = (h.write e buffer).2.fil.fptr := by
        rw [hw.position, hw.fptr, hpos]
      refine ⟨hptr, ?_⟩
      have hlen : h.size.toNat = (h.fil.bytes h.volume).val.length := by rw [hT.size hg.1, fSize_toNat]
      have hnext : (h.write e buffer).2.position.toNat = (writeStart h).toNat + n := by
        rw [hptr, hw.fptr]
        exact fptr_add_toNat (Nat.le_add_right _ n) hw.fits (by omega)
      rw [← UInt32.toNat_inj, hw.size, size_after_write hlen hnext, fSize_toNat, hw.length]

theorem write_tracked (hT : Tracked h) (buffer : List UInt8) (hC : InStepOn e (.write buffer) h) :
    Tracked (h.write e buffer).2 := by
  rcases write_cases (e := e) hT buffer with ⟨-, -, htracked⟩ | ⟨hg, hr, n, hw⟩
  · exact htracked
  · obtain ⟨hpos, hsize⟩ := (write_synced_iff hT buffer).mpr hC hr
    refine ⟨hw.valid, hw.entry, fun _ _ => hpos, fun _ => hsize, fun _ => ?_⟩
    rw [hw.length, hw.fptr, UInt32.toNat_add]
    have hmod := Nat.mod_le ((writeStart h).toNat + (UInt32.ofNat n).toNat) (2 ^ 32)
    have hn : (UInt32.ofNat n).toNat ≤ n := by
      rw [UInt32.toNat_ofNat']
      exact Nat.mod_le _ _
    omega

def sought (e : Env) (pos : UInt32) (h : Handle) : Handle :=
  { h with
    position := pos
    fil := { h.fil with fptr := seekTarget e.disk pos h.fil h.volume, err := .ok }
    volume := h.volume.setBytes h.fil.path
      ((h.fil.bytes h.volume).extend (seekTarget e.disk pos h.fil h.volume) e.disk.fresh) }

theorem lseek_cases (hT : Tracked h) (offset : UInt32) (whence : Int) :
    ((h.lseek e offset whence).1 = false ∧ Tracked (h.lseek e offset whence).2 ∧
      InStepOn e (.lseek offset whence) h) ∨
    (h.fil.err = .ok ∧ e.disk.result = .ok ∧ ∃ pos, newPos (fTell h.fil) h.size offset whence = some pos ∧
      h.lseek e offset whence = (true, sought e pos h)) := by
  obtain ⟨ro, d, he⟩ := hT.entry
  cases hp : newPos (fTell h.fil) h.size offset whence with
  | none =>
      refine .inl ⟨by simp [Handle.lseek, hp], by simpa [Handle.lseek, hp] using hT, ?_⟩
      intro _ _ pos hpos
      rw [hp] at hpos
      cases hpos
  | some pos =>
      rcases fLseek_cases e.disk (v := h.volume) pos hT.valid with ⟨herr, hr⟩ | ⟨herr, hr⟩
      · refine .inl ⟨by simp [Handle.lseek, hp, hr, herr], ?_, fun h' => absurd h' herr⟩
        simp only [Handle.lseek, hp, hr, ne_eq, herr, not_false_eq_true, if_true]
        exact hT
      · by_cases hd : e.disk.result = .ok
        · refine .inr ⟨herr, hd, pos, rfl, ?_⟩
          simp only [Handle.lseek, hp, hr, hd, ne_eq, not_true_eq_false, if_false]
          rfl
        · refine .inl ⟨by simp [Handle.lseek, hp, hr, hd], ?_, fun _ h' => absurd h' hd⟩
          simp only [Handle.lseek, hp, hr, hd, ne_eq, not_false_eq_true, if_true]
          exact tracked_of_error hT.valid ⟨ro, _, setBytes_file he _⟩ hd

theorem sought_within (herr : h.fil.err = .ok) (hd : e.disk.result = .ok) {pos : UInt32}
    (hpos : pos ≤ fSize h.fil h.volume) :
    sought e pos h = { h with position := pos, fil := { h.fil with fptr := pos } } := by
  have htarget := (seekTarget_le (f := h.fil) (v := h.volume) e.disk hpos).2 hd
  have hsame : (h.fil.bytes h.volume).extend pos e.disk.fresh = h.fil.bytes h.volume := by
    rw [Bytes.extend_eq_self_iff, ← fSize_toNat, ← UInt32.le_iff_toNat_le]
    exact hpos
  rw [sought, htarget, hsame, setBytes_self, ← herr]

/-- Past the end, either the file has grown, which the VFS does not note, or the pointer has not
reached the position. -/
theorem sought_synced_iff (hT : Tracked h) (herr : h.fil.err = .ok) (hd : e.disk.result = .ok) (pos : UInt32) :
    Synced (sought e pos h) ↔ pos ≤ fSize h.fil h.volume := by
  constructor
  · rintro ⟨hpos, hsize⟩
    obtain ⟨ro, d, he⟩ := hT.entry
    have htarget : pos = seekTarget e.disk pos h.fil h.volume := hpos
    have hgrown : ((sought e pos h).fil.bytes (sought e pos h).volume).val.length =
        max (h.fil.bytes h.volume).val.length (seekTarget e.disk pos h.fil h.volume).toNat := by
      change ((h.volume.setBytes h.fil.path _) h.fil.path).data.val.length = _
      rw [setBytes_file he]
      exact Files.length_extend _
    have hold : h.size = fSize (sought e pos h).fil (sought e pos h).volume := hsize
    rw [hT.size herr, ← UInt32.toNat_inj, fSize_toNat, fSize_toNat, hgrown, ← htarget] at hold
    rw [UInt32.le_iff_toNat_le, fSize_toNat]
    omega
  · intro hpos
    rw [sought_within herr hd hpos]
    exact ⟨rfl, hT.size herr⟩

theorem lseek_synced_iff (hT : Tracked h) (offset : UInt32) (whence : Int) :
    ((h.lseek e offset whence).1 = true → Synced (h.lseek e offset whence).2) ↔
      InStepOn e (.lseek offset whence) h := by
  rcases lseek_cases (e := e) hT offset whence with ⟨hr, -, hC⟩ | ⟨herr, hd, pos, hp, hr⟩
  · simp [hr, hC]
  · simp [hr, InStepOn, herr, hd, hp, sought_synced_iff hT herr hd]

theorem lseek_tracked (hT : Tracked h) (offset : UInt32) (whence : Int) (hC : InStepOn e (.lseek offset whence) h) :
    Tracked (h.lseek e offset whence).2 := by
  rcases lseek_cases (e := e) hT offset whence with ⟨-, htracked, -⟩ | ⟨herr, hd, pos, hp, hr⟩
  · exact htracked
  · have hpos := hC herr hd pos hp
    rw [hr, sought_within herr hd hpos]
    refine ⟨hT.valid, hT.entry, fun _ _ => rfl, fun _ => hT.size herr, fun _ => ?_⟩
    rw [UInt32.le_iff_toNat_le, fSize_toNat] at hpos
    exact hpos

theorem synced_iff (hT : Tracked h) (o : Op) :
    ((o.onHandle e h).1 = true → Synced (o.onHandle e h).2) ↔ InStepOn e o h := by
  cases o with
  | read size => exact read_synced_iff hT size
  | write buffer => exact write_synced_iff hT buffer
  | lseek offset whence => exact lseek_synced_iff hT offset whence

theorem tracked (hT : Tracked h) (o : Op) (hC : InStepOn e o h) : Tracked (o.onHandle e h).2 := by
  cases o with
  | read size => exact read_tracked hT size
  | write buffer => exact write_tracked hT buffer hC
  | lseek offset whence => exact lseek_tracked hT offset whence hC

end Calls

section Descriptors

variable {path : Path} {flags : UInt32} {fd : Fd} {h : Handle} {s₀ s : Vfs}

theorem keepsShadow_iff (hs : Holds fd h s) (hT : Tracked h) (o : Op) : KeepsShadow fd o s ↔ InStep fd o s := by
  obtain ⟨hr, hafter⟩ := Op.call_refines hs o
  have hstep : InStep fd o s ↔ InStepOn s.env o h := by
    constructor
    · intro h'
      exact h' h hs
    · intro hC h' hs'
      rw [← hs.unique hs']
      exact hC
  rw [hstep, ← synced_iff hT, KeepsShadow, hr]
  apply imp_congr_right
  intro _
  constructor
  · rintro ⟨h', hs', hsynced⟩
    rw [hafter.unique hs']
    exact hsynced
  · intro hsynced
    exact ⟨_, hafter, hsynced⟩

theorem openEntry_file {mode : UInt8} {x : Entry} (h : openError mode x = .ok) :
    ∃ ro d, openEntry mode x = .file ro d := by
  cases x with
  | none => exact ⟨_, _, rfl⟩
  | file ro d =>
      rw [openEntry]
      split
      · exact ⟨_, _, rfl⟩
      · exact ⟨ro, d, rfl⟩
  | dir =>
      rw [openError] at h
      split at h
      · split at h <;> cases h
      · cases h

theorem append_of_seekEnd {m : UInt8} (h : m &&& faOpenAppend = 0) : m &&& 0x3F &&& faSeekEnd = 0 := by
  have hend : faOpenAppend &&& faSeekEnd = (0x3F : UInt8) &&& faSeekEnd := by decide
  rw [UInt8.and_assoc, ← hend, ← UInt8.and_assoc, h, UInt8.zero_and]

theorem openedHandle_tracked (ho : FatOpens path flags s) : Tracked (openedHandle path flags s) := by
  obtain ⟨hopen, hvol, hfil⟩ := fOpen_of_ok ho.2
  obtain ⟨ro, d, hfile⟩ := openEntry_file hopen
  have hpath : (openedHandle path flags s).fil.path = path := by rw [openedHandle, hfil]
  have hptr : (openedHandle path flags s).fil.fptr = if fatMode flags &&& 0x3F &&& faSeekEnd ≠ 0 then
      fSize (openedHandle path flags s).fil (openedHandle path flags s).volume else 0 := by
    simp only [openedHandle, hfil]
    rfl
  refine ⟨by rw [openedHandle, hfil], ⟨ro, d, ?_⟩, fun _ hm => ?_, fun _ => rfl, fun _ => ?_⟩
  · have hnow : (openedHandle path flags s).volume = Function.update s.volume path _ := hvol
    rw [hpath, hnow, Function.update_self, hfile]
  · have hm' : fatMode flags &&& faOpenAppend = 0 := hm
    rw [fTell, hptr, append_of_seekEnd hm', if_neg (not_not.mpr rfl)]
    rfl
  · rw [hptr]
    split
    · rw [fSize_toNat]
    · exact Nat.zero_le _

/-- Along any calls on a descriptor of a FAT file, the VFS knows the position and the length
exactly as long as the file is read and written from where the VFS has it, and not sought past
its end. -/
theorem shadow_kept_iff (ops : List Op) (ho : vfsOpen path flags s₀ = (some fd, s)) (hfat : ∃ h, Holds fd h s) :
    Along (step fd) (KeepsShadow fd) ops s ↔ Along (step fd) (InStep fd) ops s := by
  obtain ⟨h, hs⟩ := hfat
  obtain ⟨hopens, hh⟩ := open_holds ho hs
  have hI : ∃ h, Holds fd h s ∧ Tracked h := ⟨h, hs, hh ▸ openedHandle_tracked hopens⟩
  refine along_iff_along (I := fun u => ∃ h, Holds fd h u ∧ Tracked h) ?_ ?_ ops hI
  · rintro o u t ⟨h, hu, hT⟩ hC ht
    cases ht
    exact ⟨_, (Op.call_refines hu o).2, tracked hT o (hC h hu)⟩
  · rintro o u ⟨h, hu, hT⟩
    exact keepsShadow_iff hu hT o

end Descriptors

theorem shadow_kept_iff_reading :
    ∃ fd s, vfsOpen (text "/A") oRdonly shell = (some fd, s) ∧ Along (step fd) (KeepsShadow fd) [.read 3] s := by
  obtain ⟨fd, s, ho, hs⟩ := shell_opens oRdonly (by decide)
  refine ⟨fd, s, ho, (shadow_kept_iff [.read 3] ho ⟨_, hs⟩).mpr ⟨?_, fun _ _ => trivial⟩⟩
  intro h hs' _ _ hm
  rw [← hs.unique hs'] at hm
  exact absurd (by decide) hm

/-- The first byte that is appended. -/
theorem append_loses_position :
    ¬ ∀ (path : Path) (flags : UInt32) (fd : Fd) (s₀ s : Vfs) (ops : List Op),
      vfsOpen path flags s₀ = (some fd, s) → (∃ h, Holds fd h s) → Along (step fd) (KeepsShadow fd) ops s := by
  intro h
  obtain ⟨fd, s, ho, hs⟩ := shell_opens (oWronly ||| oAppend) (by decide)
  have hkept := (h (text "/A") (oWronly ||| oAppend) fd shell s [.write [6]] ho ⟨_, hs⟩).1
  obtain ⟨hopens, -⟩ := open_holds ho hs
  rw [keepsShadow_iff hs (openedHandle_tracked hopens)] at hkept
  have henv : s.env = shell.env := by
    have hnext : s = (vfsOpen (text "/A") (oWronly ||| oAppend) shell).2 := by rw [ho]
    rw [hnext]
    rfl
  have hpos := hkept _ hs (by decide) (by rw [henv]; rfl) (by decide) (by decide) (by rw [henv]; rfl)
  exact absurd hpos (by decide)

end Orion68.ShadowPosition
