import Orion68.Shell.Descriptors
import Orion68.Shell.ShadowPosition

namespace Orion68.Truncation

open Runs FatFs Shell OpenFailure FatDescriptor Descriptors
open ShadowPosition (step seekEnd_spec writeStart)

def contentOf (path : Path) (s : Vfs) : List UInt8 := (s.volume path).data.val

/-- What the call writes goes to the end of the file, and it returns how many bytes these are. -/
def AppendsAtEnd (fd : Fd) (path : Path) (o : Op) (s : Vfs) : Prop :=
  ∀ buffer, o = .write buffer → ∃ n, contentOf path (o.call fd s).2 = contentOf path s ++ buffer.take n ∧
    ∀ k, (vfsWrite fd buffer s).1 = some k → k.toNat = (buffer.take n).length

/-- After it has been opened the file is as it was, and with `O_APPEND` every later write goes to its end. -/
def KeepsFile (path : Path) (flags : UInt32) (fd : Fd) (s t : Vfs) : Prop :=
  t.volume path = s.volume path ∧
    (flags &&& oAppend ≠ 0 → ∀ h, Holds fd h t → ∀ ops, Along (step fd) (AppendsAtEnd fd path) ops t)

/-- A file that has been opened to be appended to. -/
structure Appending (path : Path) (h : Handle) : Prop where
  valid : h.fil.valid = true
  place : h.fil.path = path
  entry : ∃ ro d, h.volume path = .file ro d
  mode : h.mode &&& faOpenAppend ≠ 0

/-- How many bytes `fat_write` has FatFs write. -/
def written (e : Env) (h : Handle) (buffer : List UInt8) : Nat :=
  (fWrite e.disk buffer (fatSeekEnd e h.mode h.fil h.volume).1 (fatSeekEnd e h.mode h.fil h.volume).2).2.1

theorem written_lt (e : Env) (h : Handle) (buffer : List UInt8) : written e h buffer < 2 ^ 32 := by
  rw [written, fWrite]
  split
  · exact Nat.two_pow_pos 32
  · split
    · exact Nat.two_pow_pos 32
    · exact Nat.lt_of_le_of_lt (Nat.le_add_left _ _) (accepted_lt e.disk _ buffer)

section Flags

variable {flags : UInt32}

theorem createAlways_iff (h : flags &&& oTrunc = 0) :
    fatMode flags &&& 0x3F &&& faCreateAlways ≠ 0 ↔ flags &&& oCreat ≠ 0 := by
  have hmask : (0x3F : UInt8) &&& faCreateAlways = faCreateAlways := by decide
  rw [UInt8.and_assoc, hmask, fatMode, if_neg (not_not.mpr h)]
  by_cases hcreat : flags &&& oCreat = 0
  · rw [if_neg (not_not.mpr hcreat)]
    refine iff_of_false (not_not.mpr ?_) (not_not.mpr hcreat)
    split_ifs <;> decide
  · rw [if_pos hcreat]
    refine iff_of_true ?_ hcreat
    split_ifs <;> decide

theorem not_createNew (flags : UInt32) : fatMode flags &&& 0x3F &&& faCreateNew = 0 := by
  simp only [fatMode]
  split_ifs <;> decide

theorem append_mode (h : flags &&& oAppend ≠ 0) : fatMode flags &&& faOpenAppend ≠ 0 := by
  simp only [fatMode, if_pos h]
  split_ifs <;> decide

theorem creates_of_createAlways {m : UInt8} (h : m &&& faCreateAlways ≠ 0) : creates m = true := by
  rw [creates, decide_eq_true_iff]
  intro hnone
  apply h
  have hmask : (faCreateAlways ||| faOpenAlways ||| faCreateNew) &&& faCreateAlways = faCreateAlways := by decide
  rw [← hmask, ← UInt8.and_assoc, hnone, UInt8.zero_and]

end Flags

section Writing

variable {e : Env} {h : Handle} {path : Path} {s : Vfs} {fd : Fd}

theorem read_appending (hA : Appending path h) (size : UInt32) : Appending path (h.read e size).2 := by
  rcases fRead_cases e.disk size.toNat (v := h.volume) hA.valid with ⟨herr, hr⟩ | ⟨-, -, hr⟩ | ⟨-, -, bytes, -, hr⟩
  · simpa [Handle.read, hr, herr] using hA
  · simpa [Handle.read, hr] using hA
  · simp only [Handle.read, hr]
    split <;> exact ⟨hA.valid, hA.place, hA.entry, hA.mode⟩

theorem lseek_appending (hA : Appending path h) (offset : UInt32) (whence : Int) :
    Appending path (h.lseek e offset whence).2 := by
  obtain ⟨hvalid, rfl, ⟨ro, d, he⟩, hmode⟩ := hA
  rw [Handle.lseek]
  cases newPos (fTell h.fil) h.size offset whence with
  | none => exact ⟨hvalid, rfl, ⟨ro, d, he⟩, hmode⟩
  | some pos =>
      rcases fLseek_cases e.disk (v := h.volume) pos hvalid with ⟨herr, hr⟩ | ⟨-, hr⟩
      · simp only [hr, ne_eq, herr, not_false_eq_true, if_true]
        exact ⟨hvalid, rfl, ⟨ro, d, he⟩, hmode⟩
      · simp only [hr]
        split <;> exact ⟨hvalid, rfl, ⟨ro, _, setBytes_file he _⟩, hmode⟩

theorem write_appends (hA : Appending path h) (buffer : List UInt8) :
    ∃ n, ((h.write e buffer).2.volume path).data.val = (h.volume path).data.val ++ buffer.take n ∧
      written e h buffer = (buffer.take n).length ∧
      Appending path (h.write e buffer).2 := by
  obtain ⟨f, hf, hvalid, hpath, -, -, hstart⟩ := seekEnd_spec (e := e) hA.valid
  obtain ⟨-, rfl, ⟨ro, d, he⟩, hmode⟩ := hA
  have hnothing : (h.volume h.fil.path).data.val = (h.volume h.fil.path).data.val ++ buffer.take 0 := by
    rw [List.take_zero, List.append_nil]
  rcases fWrite_cases e.disk (v := h.volume) buffer hvalid with ⟨hne, hr⟩ | ⟨-, -, hr⟩ | ⟨hok, -, hr⟩
  · refine ⟨0, ?_⟩
    simp only [Handle.write, written, hf, hr, ne_eq, hne, not_false_eq_true, if_true]
    exact ⟨hnothing, rfl, hvalid, hpath, ⟨ro, d, he⟩, hmode⟩
  · refine ⟨0, ?_⟩
    simp only [Handle.write, written, hf, hr, ne_eq, reduceCtorEq, not_false_eq_true, if_true]
    exact ⟨hnothing, rfl, hvalid, hpath, ⟨ro, d, he⟩, hmode⟩
  · have hend : f.fptr = fSize h.fil h.volume := by
      rw [hstart hok, writeStart, if_pos hmode]
    have hfile : h.volume f.path = .file ro d := by rw [hpath, he]
    have hbytes : f.bytes h.volume = h.fil.bytes h.volume := by rw [Fil.bytes, Fil.bytes, hpath]
    have hptr : f.fptr.toNat = (f.bytes h.volume).val.length := by rw [hend, fSize_toNat, hbytes]
    obtain ⟨n, hn⟩ : ∃ n, accepted e.disk f buffer = buffer.take n := ⟨_, rfl⟩
    have hcontent : ((h.volume.setBytes f.path ((f.bytes h.volume).overwrite f.fptr.toNat (accepted e.disk f buffer)
        (accepted_lt e.disk f buffer))) f.path).data.val = (h.volume f.path).data.val ++ buffer.take n := by
      rw [setBytes_file hfile]
      change Files.overwrite f.fptr.toNat (accepted e.disk f buffer) (f.bytes h.volume).val = _
      rw [hptr, Files.overwrite, List.take_length, List.drop_eq_nil_of_le (Nat.le_add_right _ _), List.append_nil, hn]
      rfl
    refine ⟨n, ?_⟩
    simp only [Handle.write, written, hf, hr]
    rw [← hpath]
    split <;> exact ⟨hcontent, congrArg List.length hn, hvalid, rfl, ⟨ro, _, setBytes_file hfile _⟩, hmode⟩

theorem vfsWrite_count (hs : Holds fd h s) {buffer : List UInt8} {k : UInt32} (hk : (vfsWrite fd buffer s).1 = some k) :
    k = UInt32.ofNat (written s.env h buffer) := by
  obtain ⟨f, file, p, priv, hf, hfile, hops, hp, hpriv, hq, -, hmode, -, hvol⟩ := hs
  have hf' : s.turn.fdTable fd = some f := hf
  have hfile' : s.turn.files.cell f = some file := hfile
  have hpriv' : s.turn.privates.cell p = some priv := hpriv
  have hq' : s.turn.fils.cell priv.fatFile = some h.fil := hq
  have hvol' : s.turn.volume = h.volume := hvol
  simp only [vfsWrite, withFile, hf', hfile', hops, fatWrite, withFat, hp, hpriv', hq', hvol', hmode] at hk
  split at hk
  · cases hk
  · exact (Option.some.inj hk).symm

theorem call_appending (hs : Holds fd h s) (hA : Appending path h) (o : Op) :
    AppendsAtEnd fd path o s ∧ ∃ h', Holds fd h' (o.call fd s).2 ∧ Appending path h' := by
  have hafter := (Op.call_refines hs o).2
  cases o with
  | read size => exact ⟨fun _ he => (nomatch he), _, hafter, read_appending hA size⟩
  | lseek offset whence => exact ⟨fun _ he => (nomatch he), _, hafter, lseek_appending hA offset whence⟩
  | write buffer =>
      obtain ⟨n, hcontent, hwritten, hA'⟩ := write_appends (e := s.env) hA buffer
      refine ⟨?_, _, hafter, hA'⟩
      rintro _ ⟨⟩
      refine ⟨n, ?_, ?_⟩
      · rw [contentOf, contentOf, hafter.volume, hs.volume]
        exact hcontent
      · intro k hk
        rw [vfsWrite_count hs hk, hwritten]
        apply UInt32.toNat_ofNat_of_lt'
        rw [← hwritten]
        exact written_lt s.env h buffer

end Writing

section Opening

variable {path : Path} {flags : UInt32} {fd : Fd} {h : Handle} {s t : Vfs} {ro : Bool} {d : Bytes}

theorem openedHandle_appending (ho : FatOpens path flags s) (ha : flags &&& oAppend ≠ 0) :
    Appending path (openedHandle path flags s) := by
  obtain ⟨hopen, hvol, hfil⟩ := fOpen_of_ok ho.2
  obtain ⟨ro, d, hfile⟩ := ShadowPosition.openEntry_file hopen
  refine ⟨by rw [openedHandle, hfil], by rw [openedHandle, hfil], ⟨ro, d, ?_⟩, append_mode ha⟩
  have hnow : (openedHandle path flags s).volume = Function.update s.volume path _ := hvol
  rw [hnow, Function.update_self, hfile]

theorem fOpen_kept_iff (disk : Disk) {v : Volume} (hfile : v path = .file ro d) (hflags : flags &&& oTrunc = 0) :
    (fOpen disk path (fatMode flags) v).2.2 path = v path ↔
      flags &&& oCreat = 0 ∨ d.val = [] ∨ ro = true ∨ disk.result ≠ .ok := by
  have hcreate := createAlways_iff hflags
  by_cases hok : (fOpen disk path (fatMode flags) v).1 = .ok
  · obtain ⟨hopen, hvol, -⟩ := fOpen_of_ok hok
    rw [hvol, Function.update_self, hfile, openEntry]
    by_cases hcreat : flags &&& oCreat = 0
    · rw [if_neg (mt hcreate.mp (not_not.mpr hcreat))]
      exact iff_of_true rfl (.inl hcreat)
    · have hmode := hcreate.mpr hcreat
      have hdisk : disk.result = .ok := by
        by_contra hne
        rw [fOpen, if_neg hne, if_neg hne] at hok
        exact hne hok
      have hro : ro = false := by
        rw [hfile, openError, creates_of_createAlways hmode, if_pos rfl, if_neg (not_not.mpr (not_createNew flags))] at hopen
        cases ro with
        | false => rfl
        | true => cases hopen
      rw [if_pos hmode, hro, or_iff_right hcreat]
      simp only [Entry.file.injEq, true_and, Bool.false_eq_true, hdisk, ne_eq, not_true_eq_false, or_false]
      rw [eq_comm, ← Subtype.coe_inj]
  · rw [fOpen_of_error hok]
    refine iff_of_true rfl ?_
    by_contra hnone
    simp only [not_or, not_not, Bool.not_eq_true] at hnone
    obtain ⟨hcreat, -, rfl, hdisk⟩ := hnone
    have hmode := hcreate.mpr hcreat
    apply hok
    apply fOpen_ok hdisk
    rw [hfile, openError, creates_of_createAlways hmode, if_pos rfl, if_neg (not_not.mpr (not_createNew flags))]
    rfl

/-- Without `O_TRUNC`, opening a file keeps it exactly when `O_CREAT` is not given, there is nothing to lose, or
`f_open` does not open the file. -/
theorem open_keeps_iff (hfile : s.volume path = .file ro d) (hflags : flags &&& oTrunc = 0)
    (ho : vfsOpen path flags s = (some fd, t)) :
    KeepsFile path flags fd s t ↔
      flags &&& oCreat = 0 ∨ d.val = [] ∨ ro = true ∨ s.env.fil = false ∨ s.env.open_.result ≠ .ok := by
  have happends : flags &&& oAppend ≠ 0 → ∀ h, Holds fd h t → ∀ ops, Along (step fd) (AppendsAtEnd fd path) ops t := by
    intro ha h ht ops
    obtain ⟨hopens, rfl⟩ := open_holds ho ht
    refine along_of_invariant (I := fun u => ∃ h, Holds fd h u ∧ Appending path h) ?_ ops
      ⟨_, ht, openedHandle_appending hopens ha⟩
    rintro o u ⟨h, hu, hA⟩
    obtain ⟨happends, hnext⟩ := call_appending hu hA o
    exact ⟨happends, fun v hv => by cases hv; exact hnext⟩
  have hmemory : s.env.file = true := by
    by_contra hnone
    rw [vfsOpen_eq, Bool.eq_false_iff.mpr hnone] at ho
    cases ho
  have hvol := vfsOpen_volume path flags s
  rw [ho, hmemory, Bool.true_and] at hvol
  rw [KeepsFile, and_iff_left happends, hvol]
  cases s.env.fil with
  | false => exact iff_of_true rfl (.inr (.inr (.inr (.inl rfl))))
  | true =>
      rw [if_pos rfl, fOpen_kept_iff s.env.open_ hfile hflags]
      simp only [Bool.true_eq_false, false_or]

end Opening

/-- A file is opened to be appended to, without `O_CREAT`. -/
theorem append_keeps : ∃ fd t, vfsOpen (text "/A") (oWronly ||| oAppend) shell = (some fd, t) ∧
    KeepsFile (text "/A") (oWronly ||| oAppend) fd shell t := by
  obtain ⟨fd, t, ho, -⟩ := shell_opens (oWronly ||| oAppend) (by decide)
  exact ⟨fd, t, ho, (open_keeps_iff rfl (by decide) ho).mpr (.inl (by decide))⟩

/-- With `O_CREAT` the five bytes of the file are lost. -/
theorem create_truncates :
    ¬ ∀ (path : Path) (flags : UInt32) (fd : Fd) (s t : Vfs), (∃ ro d, s.volume path = .file ro d) →
      flags &&& oTrunc = 0 → vfsOpen path flags s = (some fd, t) → KeepsFile path flags fd s t := by
  intro hall
  obtain ⟨fd, t, ho, hs⟩ := shell_opens (oWronly ||| oCreat) (by decide)
  have hkept := (hall (text "/A") (oWronly ||| oCreat) fd shell t ⟨_, _, rfl⟩ (by decide) ho).1
  have hlost : t.volume (text "/A") = .file false ⟨[], by decide⟩ := by
    rw [hs.volume]
    rfl
  have hbytes : shell.volume (text "/A") = .file false ⟨[1, 2, 3, 4, 5], by decide⟩ := rfl
  rw [hlost, hbytes] at hkept
  cases hkept

end Orion68.Truncation
