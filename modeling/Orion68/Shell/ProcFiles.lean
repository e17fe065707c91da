import Orion68.Shell.ShadowPosition

namespace Orion68.ProcFiles

open Ownership Runs FatFs Shell OpenFailure FatDescriptor
open ShadowPosition (step)

/-- The descriptor leads to a file of `/proc` with this content. -/
def Leads (fd : Fd) (content : List UInt8) (file : File) (data : ProcData) (s : Vfs) : Prop :=
  ∃ f p q, s.fdTable fd = some f ∧ s.files.cell f = some file ∧ file.ops = .proc ∧
    file.privateData = .proc p ∧ s.procs.cell p = some data ∧ data.data = some q ∧
    s.strings.cell q = some content ∧ data.size.toNat = content.length

/-- What the VFS and the driver keep of the position agrees, and is within the file. -/
structure Sound (file : File) (data : ProcData) : Prop where
  within : data.position ≤ data.size
  same : file.position = data.position

/-- The bytes that `proc_read` copies, counted from `position`. -/
def toRead (data : ProcData) (size : UInt32) : UInt32 :=
  if size < data.size - data.position then size else data.size - data.position

/-- `vfs_read` until it returns 0; `none` when it has not by the last of these sizes. -/
def readUntil (fd : Fd) : List UInt32 → Vfs → Option (List UInt8)
  | [], _ => none
  | size :: sizes, s =>
      match vfsRead fd size s with
      | (some [], _) => some []
      | (some (b :: bs), t) => (readUntil fd sizes t).map (b :: bs ++ ·)
      | (none, _) => none

theorem procOpen_leads {e : Env} {f : Ptr} {content : List UInt8} {fd : Fd} {file : File} {s t : Vfs}
    (hfile : s.files.cell f = some file) (hdata : e.data = true) (hlen : content.length < 2 ^ 32)
    (ha : allocateFd f (procOpen e f content s).2 = (some fd, t)) :
    ∃ file' data, Leads fd content file' data t ∧ data.position = 0 ∧ file'.position = 0 := by
  rw [allocateFd_some ha]
  refine ⟨_, _, ⟨f, s.procs.next, s.strings.next, Function.update_self _ _ _, modify_cell hfile _, rfl, rfl,
    Function.update_self _ _ _, if_pos hdata, ?_, UInt32.toNat_ofNat_of_lt' hlen⟩, rfl, rfl⟩
  change (if e.data = true then s.strings.alloc content else s.strings).cell s.strings.next = some content
  rw [if_pos hdata]
  exact Function.update_self _ _ _

theorem fatOpen_uptime (e : Env) (f : Ptr) (path : Path) (flags : UInt32) (s : Vfs) :
    (fatOpen e f path flags s).2.uptime = s.uptime := by
  simp only [fatOpen]
  split_ifs <;> rfl

theorem length_uptime {uptime : Nat} (h : uptime < 10 ^ 10) : (text s!"{uptime} seconds\n").length < 2 ^ 32 := by
  have hdigits : (Nat.repr uptime).length ≤ 10 := (Nat.length_repr_le_iff (by decide)).mpr h
  have hseconds : (" seconds\n" : String).length = 9 := by decide
  rw [text, List.length_map, String.length_toList]
  change (Nat.repr uptime ++ " seconds\n").length < 2 ^ 32
  rw [String.length_append, hseconds]
  omega

theorem device_open_proc {d : Device} (hd : holdsData d = true) (e : Env) (f : Ptr) {s : Vfs}
    (hup : s.uptime + 10 < 2 ^ 31) : ∃ content uptime, content.length < 2 ^ 32 ∧
      d.open_ e f s = if !e.proc then (false, s) else procOpen e f content { s with uptime := uptime } := by
  cases d with
  | tty | null | zero | serial => cases hd
  | meminfo => exact ⟨_, s.uptime, by decide, rfl⟩
  | cpuinfo => exact ⟨_, s.uptime, by decide, rfl⟩
  | uptime => exact ⟨_, s.uptime + 10, length_uptime (by omega), rfl⟩

/-- Where `vfs_open` opens a file of `/proc` and `strdup` has memory, which `proc_*_open` does not check, the
descriptor leads to its content. -/
theorem open_leads {path : Path} {flags : UInt32} {d : Device} {fd : Fd} {s t : Vfs}
    (hdev : deviceOf path = some d) (hd : holdsData d = true) (hfat : ¬ (FatOpens path flags s ∧ s.env.priv = true))
    (hdata : s.env.data = true) (hup : s.uptime + 10 < 2 ^ 31) (ho : vfsOpen path flags s = (some fd, t)) :
    ∃ content file data, Leads fd content file data t ∧ data.position = 0 ∧ file.position = 0 := by
  obtain ⟨u, n, hu, hpend, -⟩ := fatOpen_fails hfat
  have huptime : u.uptime = s.uptime := by
    have h := fatOpen_uptime s.env s.files.next path flags (allocated path s)
    rw [hu] at h
    exact h
  obtain ⟨file, hfile, -⟩ := hpend.file
  obtain ⟨content, uptime, hlen, hopen⟩ := device_open_proc hd s.env s.files.next (s := u) (huptime ▸ hup)
  have hdev' : (drivers.find? fun d => path = d.1).map Prod.snd = some d := hdev
  rw [vfsOpen_eq, hu] at ho
  simp only [openDriver_eq _ _ _ drivers_nodup, hdev', hopen, Bool.false_eq_true, if_false] at ho
  split at ho
  next => cases ho
  next =>
    cases hproc : s.env.proc with
    | false => simp [hproc] at ho
    | true =>
        simp only [hproc, Bool.not_true, Bool.false_eq_true, if_false] at ho
        split at ho
        next =>
          split at ho
          next fd' t' ha =>
            cases ho
            exact ⟨content, procOpen_leads (by rw [hfile, Function.update_self]) hdata hlen ha⟩
          next => cases ho
        next => cases ho

section Calls

variable {fd : Fd} {content : List UInt8} {file : File} {data : ProcData} {s : Vfs}

theorem toRead_toNat (h : data.position ≤ data.size) (size : UInt32) :
    (toRead data size).toNat = min size.toNat (data.size.toNat - data.position.toNat) := by
  have havailable := UInt32.toNat_sub_of_le _ _ h
  rw [toRead]
  split
  next hlt =>
    rw [UInt32.lt_iff_toNat_lt, havailable] at hlt
    omega
  next hle =>
    rw [UInt32.not_lt, UInt32.le_iff_toNat_le, havailable] at hle
    omega

theorem toRead_within (h : data.position ≤ data.size) (size : UInt32) :
    data.position.toNat + (toRead data size).toNat ≤ data.size.toNat := by
  rw [UInt32.le_iff_toNat_le] at h
  rw [toRead_toNat h]
  omega

theorem position_add_toNat (h : data.position ≤ data.size) (size : UInt32) :
    (data.position + toRead data size).toNat = data.position.toNat + (toRead data size).toNat := by
  have hwithin := toRead_within h size
  have hlt := data.size.toNat_lt
  rw [UInt32.toNat_add, Nat.mod_eq_of_lt (by omega)]

theorem read_leads (hs : Leads fd content file data s) (hsound : Sound file data) (size : UInt32) :
    ∃ t file' data', vfsRead fd size s = (some ((content.drop data.position.toNat).take (toRead data size).toNat), t) ∧
      Leads fd content file' data' t ∧ Sound file' data' ∧ data'.size = data.size ∧
      data'.position = data.position + toRead data size := by
  obtain ⟨f, p, q, hf, hfile, hops, hp, hdata, hq, hcontent, hsize⟩ := hs
  have hf' : s.turn.fdTable fd = some f := hf
  have hfile' : s.turn.files.cell f = some file := hfile
  have hdata' : s.turn.procs.cell p = some data := hdata
  have hcontent' : s.turn.strings.cell q = some content := hcontent
  have htoRead : (if size < data.size - data.position then size else data.size - data.position) = toRead data size := rfl
  simp only [vfsRead, withFile, hf', hfile', hops, procRead, withProc, hp, hdata', hq, Option.bind_some, hcontent',
    htoRead]
  by_cases hzero : toRead data size = 0
  · rw [if_pos hzero, hzero, UInt32.add_zero]
    refine ⟨s.turn, file, data, ?_, ⟨f, p, q, hf, hfile, hops, hp, hdata, hq, hcontent, hsize⟩, hsound, rfl, rfl⟩
    rw [UInt32.toNat_zero, List.take_zero]
  · rw [if_neg hzero]
    refine ⟨_, _, _, rfl, ⟨f, p, q, hf, modify_cell hfile' _, hops, hp, modify_cell hdata' _, hq, hcontent, hsize⟩,
      ⟨?_, rfl⟩, rfl, rfl⟩
    rw [UInt32.le_iff_toNat_le]
    exact (position_add_toNat hsound.within size).trans_le (toRead_within hsound.within size)

theorem lseek_leads (hs : Leads fd content file data s) (hsound : Sound file data) (offset : UInt32) (whence : Int) :
    ∃ file' data', Leads fd content file' data' (vfsLseek fd offset whence s).2 ∧ Sound file' data' := by
  obtain ⟨f, p, q, hf, hfile, hops, hp, hdata, hq, hcontent, hsize⟩ := hs
  have hf' : s.turn.fdTable fd = some f := hf
  have hfile' : s.turn.files.cell f = some file := hfile
  have hdata' : s.turn.procs.cell p = some data := hdata
  simp only [vfsLseek, withFile, hf', hfile', hops, procLseek, withProc, hp, hdata']
  cases newPos data.position data.size offset whence with
  | none => exact ⟨file, data, ⟨f, p, q, hf, hfile, hops, hp, hdata, hq, hcontent, hsize⟩, hsound⟩
  | some pos =>
      refine ⟨_, _, ⟨f, p, q, hf, modify_cell hfile' _, hops, hp, modify_cell hdata' _, hq, hcontent, hsize⟩, ?_, rfl⟩
      -- past the end the position is clamped
      dsimp only
      split
      next => exact UInt32.le_refl _
      next hle => exact UInt32.not_lt.mp hle

theorem write_leads (hs : Leads fd content file data s) (buffer : List UInt8) :
    Leads fd content file data (vfsWrite fd buffer s).2 := by
  obtain ⟨f, p, q, hf, hfile, hops, hrest⟩ := hs
  have hf' : s.turn.fdTable fd = some f := hf
  have hfile' : s.turn.files.cell f = some file := hfile
  simp only [vfsWrite, withFile, hf', hfile', hops]
  exact ⟨f, p, q, hf, hfile, hops, hrest⟩

theorem call_leads (hs : Leads fd content file data s) (hsound : Sound file data) (o : Op) :
    ∃ file' data', Leads fd content file' data' (o.call fd s).2 ∧ Sound file' data' := by
  cases o with
  | read size =>
      obtain ⟨t, file', data', hread, hleads, hsound', -⟩ := read_leads hs hsound size
      refine ⟨file', data', ?_, hsound'⟩
      rwa [Op.call, hread]
  | write buffer => exact ⟨file, data, write_leads hs buffer, hsound⟩
  | lseek offset whence => exact lseek_leads hs hsound offset whence

theorem readUntil_eq (hs : Leads fd content file data s) (hsound : Sound file data) {sizes : List UInt32}
    (hpos : ∀ size ∈ sizes, 0 < size) (hlen : data.size.toNat - data.position.toNat < sizes.length) :
    readUntil fd sizes s = some (content.drop data.position.toNat) := by
  induction sizes generalizing file data s with
  | nil => exact absurd hlen (Nat.not_lt_zero _)
  | cons size sizes ih =>
      obtain ⟨hsize, hsizes⟩ := List.forall_mem_cons.mp hpos
      rw [UInt32.lt_iff_toNat_lt, UInt32.toNat_zero] at hsize
      rw [List.length_cons] at hlen
      obtain ⟨t, file', data', hread, hleads, hsound', hsame, hnext⟩ := read_leads hs hsound size
      have hcount := toRead_toNat hsound.within size
      have hposition : data'.position.toNat = data.position.toNat + (toRead data size).toNat := by
        rw [hnext, position_add_toNat hsound.within]
      have hwithin := UInt32.le_iff_toNat_le.mp hsound.within
      obtain ⟨-, -, -, -, -, -, -, -, -, -, hlength⟩ := hs
      rw [readUntil, hread]
      cases hbytes : (content.drop data.position.toNat).take (toRead data size).toNat with
      | nil =>
          -- nothing is left, since at least one byte has been asked for
          have hnone := congrArg List.length hbytes
          rw [List.length_take, List.length_drop, List.length_nil] at hnone
          rw [List.drop_eq_nil_of_le (by omega)]
      | cons b bs =>
          have hsome := congrArg List.length hbytes
          rw [List.length_take, List.length_drop, List.length_cons] at hsome
          have hrest := ih hleads hsound' hsizes (by rw [hsame, hposition]; omega)
          dsimp only
          rw [hrest, Option.map_some, ← hbytes, hposition, ← List.drop_drop, List.take_append_drop]

end Calls

section Descriptors

variable {fd : Fd} {content : List UInt8} {file : File} {data : ProcData} {s : Vfs}

/-- After any calls on a descriptor of a file of `/proc`, the positions agree within the file, a read gives
exactly the next bytes, which are in the file, and reading on until 0 gives all that is left. -/
theorem proc_reads_exact (hs : Leads fd content file data s) (hstart : data.position = 0 ∧ file.position = 0)
    (ops : List Op) :
    ∃ t file' data', run (step fd) ops s = some t ∧ Leads fd content file' data' t ∧
      data'.position ≤ data'.size ∧ file'.position = data'.position ∧
      (∀ size : UInt32, data'.position.toNat + (toRead data' size).toNat ≤ content.length ∧
        (vfsRead fd size t).1 =
          some ((content.drop data'.position.toNat).take (min size.toNat (content.length - data'.position.toNat)))) ∧
      ∀ sizes : List UInt32, (∀ size ∈ sizes, 0 < size) → content.length - data'.position.toNat < sizes.length →
        readUntil fd sizes t = some (content.drop data'.position.toNat) := by
  have hsound : Sound file data := by
    refine ⟨?_, hstart.2.trans hstart.1.symm⟩
    rw [hstart.1, UInt32.le_iff_toNat_le]
    exact Nat.zero_le _
  have hstep (o : Op) (t : Vfs) (ht : ∃ file data, Leads fd content file data t ∧ Sound file data) :
      ∃ u, step fd o t = some u ∧ ∃ file data, Leads fd content file data u ∧ Sound file data := by
    obtain ⟨_, _, ht, hsound⟩ := ht
    exact ⟨_, rfl, call_leads ht hsound o⟩
  obtain ⟨t, ht, file', data', hleads, hsound'⟩ := run_total hstep ops ⟨file, data, hs, hsound⟩
  have hlength : data'.size.toNat = content.length := by
    obtain ⟨-, -, -, -, -, -, -, -, -, -, hlength⟩ := hleads
    exact hlength
  refine ⟨t, file', data', ht, hleads, hsound'.within, hsound'.same, ?_, ?_⟩
  · intro size
    obtain ⟨u, -, -, hread, -⟩ := read_leads hleads hsound' size
    rw [hread, toRead_toNat hsound'.within, hlength]
    refine ⟨?_, rfl⟩
    have hwithin := UInt32.le_iff_toNat_le.mp hsound'.within
    omega
  · intro sizes hpos hlen
    exact readUntil_eq hleads hsound' hpos (by rwa [hlength])

end Descriptors

/-- `/proc/meminfo` is read, sought and read on. -/
theorem meminfo_reads_exact : ∃ content t file data,
    run (step 3) [.read 9, .lseek 4 1, .lseek 0xFFFFFFFF 2] (vfsOpen (text "/proc/meminfo") oRdonly shell).2 = some t ∧
      Leads 3 content file data t ∧ data.position ≤ data.size ∧ file.position = data.position := by
  have hs : Leads 3 (text "MemTotal: 1024 KB\nMemFree:  512 KB\nMemUsed:  512 KB\nMemAvail: 256 KB\n") _ _
      (vfsOpen (text "/proc/meminfo") oRdonly shell).2 := ⟨_, _, _, rfl, rfl, rfl, rfl, rfl, rfl, rfl, by decide⟩
  obtain ⟨t, file, data, ht, hleads, hwithin, hsame, -⟩ :=
    proc_reads_exact hs ⟨rfl, rfl⟩ [.read 9, .lseek 4 1, .lseek 0xFFFFFFFF 2]
  exact ⟨_, t, file, data, ht, hleads, hwithin, hsame⟩

end Orion68.ProcFiles
