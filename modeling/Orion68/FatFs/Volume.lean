import Orion68.Lib.Files
import Mathlib.Algebra.Group.Nat.Defs
import Mathlib.Logic.Function.Basic

namespace Orion68.FatFs

open Files

abbrev Path := List UInt8

inductive FResult
  | ok
  | diskErr
  | intErr
  | notReady
  | noFile
  | noPath
  | invalidName
  | denied
  | exist
  | invalidObject
  deriving DecidableEq

def faRead : UInt8 := 0x01
def faWrite : UInt8 := 0x02
def faCreateNew : UInt8 := 0x04
def faCreateAlways : UInt8 := 0x08
def faOpenAlways : UInt8 := 0x10
def faSeekEnd : UInt8 := 0x20
def faOpenAppend : UInt8 := 0x30

/-- The contents of a file on a FAT volume, where none reaches 4 GiB. -/
abbrev Bytes := { l : List UInt8 // l.length < 2 ^ 32 }

inductive Entry
  | none
  | file (readOnly : Bool) (data : Bytes)
  | dir

def Entry.data : Entry → Bytes
  | .file _ d => d
  | _ => ⟨[], by decide⟩

def Entry.setData (d : Bytes) : Entry → Entry
  | .file readOnly _ => .file readOnly d
  | e => e

abbrev Volume := Path → Entry

/-- An open file; `valid` is its pointer to the volume, and `err` keeps the error that aborted it. -/
structure Fil where
  path : Path
  flag : UInt8
  fptr : UInt32
  err : FResult
  valid : Bool

/-- What the drive lets a call do: its result, how far it gets before the disk is full or an
error comes, and what new clusters hold. -/
structure Disk where
  result : FResult
  room : Nat
  fresh : Nat → UInt8

def Fil.bytes (f : Fil) (v : Volume) : Bytes := (v f.path).data

def fSize (f : Fil) (v : Volume) : UInt32 := UInt32.ofNat (f.bytes v).val.length

def fTell (f : Fil) : UInt32 := f.fptr

def creates (mode : UInt8) : Bool := mode &&& (faCreateAlways ||| faOpenAlways ||| faCreateNew) ≠ 0

def openError (mode : UInt8) : Entry → FResult
  | .none => if creates mode then .ok else .noFile
  | .file readOnly _ =>
      if creates mode then
        if mode &&& faCreateNew ≠ 0 then .exist else if readOnly then .denied else .ok
      else if mode &&& faWrite ≠ 0 ∧ readOnly then .denied else .ok
  | .dir =>
      if creates mode then if mode &&& faCreateNew ≠ 0 then .exist else .denied else .noFile

/-- A new file is empty, and so is one that is opened with `faCreateAlways`. -/
def openEntry (mode : UInt8) : Entry → Entry
  | .none => .file false ⟨[], by decide⟩
  | .file readOnly d => if mode &&& faCreateAlways ≠ 0 then .file false ⟨[], by decide⟩ else .file readOnly d
  | .dir => .dir

def fOpen (disk : Disk) (path : Path) (mode : UInt8) (v : Volume) : FResult × Fil × Volume :=
  let mode := mode &&& 0x3F
  let res := if disk.result = .ok then openError mode (v path) else disk.result
  if res = .ok then
    let v := Function.update v path (openEntry mode (v path))
    let f : Fil := ⟨path, mode, 0, .ok, true⟩
    (.ok, { f with fptr := if mode &&& faSeekEnd ≠ 0 then fSize f v else 0 }, v)
  else (res, ⟨path, mode, 0, .ok, false⟩, v)

theorem fOpen_of_ok {disk : Disk} {path : Path} {mode : UInt8} {v : Volume}
    (h : (fOpen disk path mode v).1 = .ok) :
    openError (mode &&& 0x3F) (v path) = .ok ∧
      (fOpen disk path mode v).2.2 = Function.update v path (openEntry (mode &&& 0x3F) (v path)) ∧
      (fOpen disk path mode v).2.1 = ⟨path, mode &&& 0x3F, if mode &&& 0x3F &&& faSeekEnd ≠ 0 then
        fSize ⟨path, mode &&& 0x3F, 0, .ok, true⟩ (fOpen disk path mode v).2.2 else 0, .ok, true⟩ := by
  by_cases hres : (if disk.result = .ok then openError (mode &&& 0x3F) (v path) else disk.result) = .ok
  · rw [fOpen, if_pos hres]
    refine ⟨?_, rfl, rfl⟩
    split at hres
    next => exact hres
    next hdisk => exact absurd hres hdisk
  · rw [fOpen, if_neg hres] at h
    exact absurd h hres

theorem fOpen_of_error {disk : Disk} {path : Path} {mode : UInt8} {v : Volume}
    (h : (fOpen disk path mode v).1 ≠ .ok) : (fOpen disk path mode v).2.2 = v := by
  by_cases hres : (if disk.result = .ok then openError (mode &&& 0x3F) (v path) else disk.result) = .ok
  · rw [fOpen, if_pos hres] at h
    exact absurd rfl h
  · rw [fOpen, if_neg hres]

theorem fOpen_ok {disk : Disk} {path : Path} {mode : UInt8} {v : Volume} (hd : disk.result = .ok)
    (h : openError (mode &&& 0x3F) (v path) = .ok) : (fOpen disk path mode v).1 = .ok := by
  have hres : (if disk.result = .ok then openError (mode &&& 0x3F) (v path) else disk.result) = .ok := by
    rw [if_pos hd, h]
  rw [fOpen, if_pos hres]

def validate (f : Fil) : FResult := if f.valid then f.err else .invalidObject

def fRead (disk : Disk) (btr : Nat) (f : Fil) (v : Volume) : FResult × List UInt8 × Fil :=
  if validate f ≠ .ok then (validate f, [], f)
  else if f.flag &&& faRead = 0 then (.denied, [], f)
  else
    let btr := if disk.result = .ok then btr else min btr disk.room
    let bytes := ((f.bytes v).val.drop f.fptr.toNat).take btr
    (disk.result, bytes, { f with fptr := f.fptr + UInt32.ofNat bytes.length, err := disk.result })

/-- Of the bytes to be written, those that do not take the file to 4 GiB and get on the disk. -/
def accepted (disk : Disk) (f : Fil) (buff : List UInt8) : List UInt8 :=
  let btw := if f.fptr.toNat + buff.length < 2 ^ 32 then buff.length else 2 ^ 32 - 1 - f.fptr.toNat
  buff.take (min btw disk.room)

theorem accepted_lt (disk : Disk) (f : Fil) (buff : List UInt8) :
    f.fptr.toNat + (accepted disk f buff).length < 2 ^ 32 := by
  have hlt := f.fptr.toNat_lt
  rw [accepted, List.length_take]
  split <;> omega

def Bytes.overwrite (b : Bytes) (k : Nat) (d : List UInt8) (h : k + d.length < 2 ^ 32) : Bytes :=
  ⟨Files.overwrite k d b.val, Nat.lt_of_le_of_lt (length_overwrite_le _ _ _) (Nat.max_lt.mpr ⟨b.property, h⟩)⟩

def Bytes.extend (b : Bytes) (n : UInt32) (fresh : Nat → UInt8) : Bytes :=
  ⟨Files.extend n.toNat fresh b.val, by
    rw [length_extend]
    exact Nat.max_lt.mpr ⟨b.property, n.toNat_lt⟩⟩

def Volume.setBytes (v : Volume) (path : Path) (b : Bytes) : Volume :=
  Function.update v path ((v path).setData b)

def fWrite (disk : Disk) (buff : List UInt8) (f : Fil) (v : Volume) : FResult × Nat × Fil × Volume :=
  if validate f ≠ .ok then (validate f, 0, f, v)
  else if f.flag &&& faWrite = 0 then (.denied, 0, f, v)
  else
    let d := accepted disk f buff
    (disk.result, d.length, { f with fptr := f.fptr + UInt32.ofNat d.length, err := disk.result },
      v.setBytes f.path ((f.bytes v).overwrite f.fptr.toNat d (accepted_lt disk f buff)))

/-- Where a seek ends: it is clipped at the end of the file unless the file may be written, and
otherwise takes the end with it, as far as the disk has room. -/
def seekTarget (disk : Disk) (ofs : UInt32) (f : Fil) (v : Volume) : UInt32 :=
  let size := fSize f v
  let target := if ofs ≤ size then ofs
    else if f.flag &&& faWrite = 0 then size
    else max size (min ofs (UInt32.ofNat disk.room))
  if disk.result = .ok then target else min target (UInt32.ofNat disk.room)

def fLseek (disk : Disk) (ofs : UInt32) (f : Fil) (v : Volume) : FResult × Fil × Volume :=
  if validate f ≠ .ok then (validate f, f, v)
  else
    let ptr := seekTarget disk ofs f v
    (disk.result, { f with fptr := ptr, err := disk.result },
      v.setBytes f.path ((f.bytes v).extend ptr disk.fresh))

def fClose (disk : Disk) (f : Fil) : FResult × Fil :=
  if f.valid then (disk.result, { f with valid := decide (disk.result ≠ .ok) })
  else (.invalidObject, f)

def fMkdir (disk : Disk) (path : Path) (v : Volume) : FResult × Volume :=
  if disk.result ≠ .ok then (disk.result, v)
  else
    match v path with
    | .none => (.ok, Function.update v path .dir)
    | _ => (.exist, v)

section Calls

variable (disk : Disk) (f : Fil) (v : Volume)

theorem fSize_toNat : (fSize f v).toNat = (f.bytes v).val.length :=
  UInt32.toNat_ofNat_of_lt' (f.bytes v).property

theorem Entry.setData_data (e : Entry) : e.setData e.data = e := by
  cases e <;> rfl

variable {f v}

theorem setBytes_self : v.setBytes f.path (f.bytes v) = v := by
  rw [Volume.setBytes, Fil.bytes, Entry.setData_data, Function.update_eq_self]

theorem setBytes_file {ro : Bool} {d : Bytes} (h : v f.path = .file ro d) (b : Bytes) :
    (v.setBytes f.path b) f.path = .file ro b := by
  rw [Volume.setBytes, Function.update_self, h]
  rfl

theorem setBytes_eq_self_iff {ro : Bool} {d : Bytes} (h : v f.path = .file ro d) {b : Bytes} :
    v.setBytes f.path b = v ↔ b = f.bytes v := by
  constructor
  · intro he
    have hp := congrFun he f.path
    rw [setBytes_file h] at hp
    rw [Fil.bytes, ← hp]
    rfl
  · rintro rfl
    exact setBytes_self

theorem Bytes.extend_eq_self_iff (b : Bytes) (n : UInt32) (fresh : Nat → UInt8) :
    b.extend n fresh = b ↔ n.toNat ≤ b.val.length := by
  rw [← Subtype.coe_inj]
  exact Files.extend_eq_self_iff fresh

theorem fptr_add_toNat {a : UInt32} {n k : Nat} (ha : a.toNat ≤ n) (hn : n < 2 ^ 32) (hk : k ≤ n - a.toNat) :
    (a + UInt32.ofNat k).toNat = a.toNat + k := by
  have hsize : UInt32.size = 2 ^ 32 := rfl
  rw [UInt32.toNat_add, UInt32.toNat_ofNat_of_lt' (by omega), Nat.mod_eq_of_lt (by omega)]

theorem fRead_cases (n : Nat) (hv : f.valid = true) :
    (f.err ≠ .ok ∧ fRead disk n f v = (f.err, [], f)) ∨
    (f.err = .ok ∧ f.flag &&& faRead = 0 ∧ fRead disk n f v = (.denied, [], f)) ∨
    (f.err = .ok ∧ f.flag &&& faRead ≠ 0 ∧ ∃ bytes : List UInt8,
      bytes.length ≤ (f.bytes v).val.length - f.fptr.toNat ∧
      fRead disk n f v =
        (disk.result, bytes, { f with fptr := f.fptr + UInt32.ofNat bytes.length, err := disk.result })) := by
  have hval : validate f = f.err := by rw [validate, if_pos hv]
  by_cases he : f.err = .ok
  · by_cases hr : f.flag &&& faRead = 0
    · exact .inr (.inl ⟨he, hr, by rw [fRead, hval, if_neg (not_not.mpr he), if_pos hr]⟩)
    · refine .inr (.inr ⟨he, hr, _, ?_, by rw [fRead, hval, if_neg (not_not.mpr he), if_neg hr]⟩)
      rw [List.length_take, List.length_drop]
      exact Nat.min_le_right _ _
  · exact .inl ⟨he, by rw [fRead, hval, if_pos he]⟩

theorem fWrite_cases (buff : List UInt8) (hv : f.valid = true) :
    (f.err ≠ .ok ∧ fWrite disk buff f v = (f.err, 0, f, v)) ∨
    (f.err = .ok ∧ f.flag &&& faWrite = 0 ∧ fWrite disk buff f v = (.denied, 0, f, v)) ∨
    (f.err = .ok ∧ f.flag &&& faWrite ≠ 0 ∧
      fWrite disk buff f v = (disk.result, (accepted disk f buff).length,
        { f with fptr := f.fptr + UInt32.ofNat (accepted disk f buff).length, err := disk.result },
        v.setBytes f.path ((f.bytes v).overwrite f.fptr.toNat (accepted disk f buff) (accepted_lt disk f buff)))) := by
  have hval : validate f = f.err := by rw [validate, if_pos hv]
  by_cases he : f.err = .ok
  · by_cases hr : f.flag &&& faWrite = 0
    · exact .inr (.inl ⟨he, hr, by rw [fWrite, hval, if_neg (not_not.mpr he), if_pos hr]⟩)
    · exact .inr (.inr ⟨he, hr, by rw [fWrite, hval, if_neg (not_not.mpr he), if_neg hr]⟩)
  · exact .inl ⟨he, by rw [fWrite, hval, if_pos he]⟩

theorem fLseek_cases (ofs : UInt32) (hv : f.valid = true) :
    (f.err ≠ .ok ∧ fLseek disk ofs f v = (f.err, f, v)) ∨
    (f.err = .ok ∧ fLseek disk ofs f v =
      (disk.result, { f with fptr := seekTarget disk ofs f v, err := disk.result },
        v.setBytes f.path ((f.bytes v).extend (seekTarget disk ofs f v) disk.fresh))) := by
  have hval : validate f = f.err := by rw [validate, if_pos hv]
  by_cases he : f.err = .ok
  · exact .inr ⟨he, by rw [fLseek, hval, if_neg (not_not.mpr he)]⟩
  · exact .inl ⟨he, by rw [fLseek, hval, if_pos he]⟩

theorem Bytes.overwrite_eq_self_iff {b : Bytes} {k : Nat} {d : List UInt8} (hk : k ≤ b.val.length)
    (h : k + d.length < 2 ^ 32) : b.overwrite k d h = b ↔ d <+: b.val.drop k := by
  rw [← Subtype.coe_inj, List.prefix_iff_eq_take, eq_comm (a := d)]
  exact Files.overwrite_eq_self_iff hk

/-- A seek in a file that may be written stays within it when it goes no further, or when there
is no room. -/
theorem seekTarget_le_fSize_iff {ofs : UInt32} (h : f.flag &&& faWrite ≠ 0) :
    seekTarget disk ofs f v ≤ fSize f v ↔ ofs ≤ fSize f v ∨ UInt32.ofNat disk.room ≤ fSize f v := by
  have hmin (a b : UInt32) : min a b = if a ≤ b then a else b := rfl
  have hmax (a b : UInt32) : max a b = if a ≤ b then b else a := rfl
  rw [seekTarget, if_neg h]
  generalize fSize f v = size
  generalize UInt32.ofNat disk.room = room
  simp only [hmin, hmax, UInt32.le_iff_toNat_le]
  split <;> split <;> grind

theorem seekTarget_le {ofs : UInt32} (h : ofs ≤ fSize f v) :
    seekTarget disk ofs f v ≤ ofs ∧ (disk.result = .ok → seekTarget disk ofs f v = ofs) := by
  have hmin (a b : UInt32) : min a b = if a ≤ b then a else b := rfl
  simp only [seekTarget, h, if_true]
  constructor
  · split
    · exact UInt32.le_refl _
    · rw [hmin]
      split
      next => exact UInt32.le_refl _
      next hlt => exact UInt32.le_of_lt (UInt32.not_le.mp hlt)
  · intro hd
    rw [if_pos hd]

end Calls

end Orion68.FatFs
