import Orion68.FatFs.Volume
import Orion68.Lib.Ownership
import Mathlib.Data.Finset.Card
import Mathlib.Data.Fintype.Basic

namespace Orion68.Shell

open Ownership FatFs

abbrev Ptr := Nat

/-- An index of `fd_table`; `none` stands for `-1`. -/
abbrev Fd := Fin 256

abbrev stdin : Fd := 0
abbrev stdout : Fd := 1

def text (s : String) : List UInt8 := s.toList.map fun c => UInt8.ofNat c.toNat

theorem text_ne_zero {s : String} (h : (text s).all (· != 0) = true) : ∀ b ∈ text s, b ≠ 0 := by
  intro b hb
  exact bne_iff_ne.mp (List.all_eq_true.mp h b hb)

def oRdonly : UInt32 := 0x01
def oWronly : UInt32 := 0x02
def oRdwr : UInt32 := 0x03
def oCreat : UInt32 := 0x04
def oTrunc : UInt32 := 0x08
def oAppend : UInt32 := 0x10

/-- The functions that a `File` points to; `memset` leaves them null. -/
inductive Ops
  | null
  | fat
  | tty
  | devNull
  | zero
  | serial
  | proc
  deriving DecidableEq

inductive PrivateData
  | null
  | fat (p : Ptr)
  | proc (p : Ptr)

structure File where
  name : Option Ptr
  position : UInt32
  privateData : PrivateData
  ops : Ops

structure FatPrivate where
  fatFile : Ptr
  mode : UInt8
  size : UInt32

structure ProcData where
  data : Option Ptr
  size : UInt32
  position : UInt32

/-- What the allocator, the drive and the devices do in one call of the VFS. -/
structure Env where
  file : Bool
  name : Bool
  fil : Bool
  priv : Bool
  proc : Bool
  data : Bool
  open_ : Disk
  seek : Disk
  disk : Disk
  keys : Nat → UInt8
  ready : Nat

def Env.granting (disk : Disk) : Env := ⟨true, true, true, true, true, true, disk, disk, disk, fun _ => 0, 0⟩

/-- The memory of the shell and the disk. `opened` counts the calls of `f_open` less those of
`f_close`, `misuse` records the use of a freed block or of a null pointer, and `world` has what
comes from outside in the next calls. -/
structure Vfs where
  files : Heap File
  strings : Heap (List UInt8)
  fils : Heap Fil
  privates : Heap FatPrivate
  procs : Heap ProcData
  fdTable : Fd → Option Ptr
  fdCount : Int
  uptime : Nat
  volume : Volume
  opened : Int
  misuse : Bool
  world : Nat → Env

namespace Vfs

def start (volume : Volume) (world : Nat → Env) : Vfs :=
  ⟨.empty, .empty, .empty, .empty, .empty, fun _ => none, 0, 0, volume, 0, false, world⟩

def env (s : Vfs) : Env := s.world 0

def turn (s : Vfs) : Vfs := { s with world := fun n => s.world (n + 1) }

def misused (s : Vfs) : Vfs := { s with misuse := true }

def setFile (f : Ptr) (g : File → File) (s : Vfs) : Vfs := { s with files := s.files.modify f g }

/-- `free` of a string, or of a null pointer. -/
def freeString (p : Option Ptr) (s : Vfs) : Vfs := p.elim s fun p => { s with strings := s.strings.free p }

/-- `free(file->name)` and `free(file)`. -/
def freeFile (f : Ptr) (s : Vfs) : Vfs :=
  match s.files.cell f with
  | none => s.misused
  | some file => { s.freeString file.name with files := s.files.free f }

end Vfs

section Fat

/-- `O_RDWR` has the bit of `O_RDONLY`. -/
def fatMode (flags : UInt32) : UInt8 :=
  let m : UInt8 := 0
  let m := if flags &&& oRdonly ≠ 0 then m ||| faRead else m
  let m := if flags &&& oWronly ≠ 0 then m ||| faWrite else m
  let m := if flags &&& oRdwr ≠ 0 then m ||| (faRead ||| faWrite) else m
  let m := if flags &&& oCreat ≠ 0 then m ||| faCreateAlways else m
  let m := if flags &&& oTrunc ≠ 0 then m ||| faCreateAlways else m
  if flags &&& oAppend ≠ 0 then m ||| faOpenAppend else m

def fatClosed (q : Ptr) (disk : Disk) (fil : Fil) (s : Vfs) : FResult × Vfs :=
  let r := fClose disk fil
  (r.1, { s with
    fils := s.fils.modify q fun _ => r.2
    opened := if r.1 = .ok then s.opened - 1 else s.opened })

def fatOpen (e : Env) (f : Ptr) (path : Path) (flags : UInt32) (s : Vfs) : Bool × Vfs :=
  if !e.fil then (false, s)
  else
    let q := s.fils.next
    let r := fOpen e.open_ path (fatMode flags) s.volume
    let s := { s with fils := s.fils.alloc r.2.1, volume := r.2.2 }
    if r.1 ≠ .ok then (false, { s with fils := s.fils.free q })
    else
      let s := { s with opened := s.opened + 1 }
      if !e.priv then
        let s := (fatClosed q e.disk r.2.1 s).2
        (false, { s with fils := s.fils.free q })
      else
        let p := s.privates.next
        let s := { s with privates := s.privates.alloc ⟨q, fatMode flags, fSize r.2.1 r.2.2⟩ }
        (true, s.setFile f fun file => { file with privateData := .fat p, position := 0, ops := .fat })

/-- The private data and the file object that a FAT file leads to. -/
def withFat {α : Type} (file : File) (failure : α) (k : Ptr → FatPrivate → Fil → α × Vfs) (s : Vfs) : α × Vfs :=
  match file.privateData with
  | .fat p =>
      match s.privates.cell p with
      | none => (failure, s.misused)
      | some priv =>
          match s.fils.cell priv.fatFile with
          | none => (failure, s.misused)
          | some fil => k p priv fil
  | .null => (failure, s)
  | .proc _ => (failure, s.misused)

def fatRead (e : Env) (f : Ptr) (file : File) (size : UInt32) (s : Vfs) : Option (List UInt8) × Vfs :=
  withFat file none (fun _ priv fil =>
    let r := fRead e.disk size.toNat fil s.volume
    let s := { s with fils := s.fils.modify priv.fatFile fun _ => r.2.2 }
    if r.1 ≠ .ok then (none, s)
    else (some r.2.1, s.setFile f fun file =>
      { file with position := file.position + UInt32.ofNat r.2.1.length })) s

/-- Where `fat_write` starts: with `FA_OPEN_APPEND` it goes to the end first. -/
def fatSeekEnd (e : Env) (mode : UInt8) (fil : Fil) (v : Volume) : Fil × Volume :=
  if mode &&& faOpenAppend ≠ 0 then (fLseek e.seek (fSize fil v) fil v).2 else (fil, v)

def fatWrite (e : Env) (f : Ptr) (file : File) (buffer : List UInt8) (s : Vfs) : Option UInt32 × Vfs :=
  withFat file none (fun p priv fil =>
    let at_ := fatSeekEnd e priv.mode fil s.volume
    let r := fWrite e.disk buffer at_.1 at_.2
    let s := { s with fils := s.fils.modify priv.fatFile fun _ => r.2.2.1, volume := r.2.2.2 }
    if r.1 ≠ .ok then (none, s)
    else
      let position := file.position + UInt32.ofNat r.2.1
      let s := s.setFile f fun file => { file with position := position }
      (some (UInt32.ofNat r.2.1), { s with
        privates := s.privates.modify p fun priv =>
          { priv with size := if priv.size < position then position else priv.size } })) s

def fatClose (e : Env) (f : Ptr) (file : File) (s : Vfs) : Bool × Vfs :=
  withFat file false (fun p priv fil =>
    let r := fatClosed priv.fatFile e.disk fil s
    let s := { r.2 with fils := r.2.fils.free priv.fatFile, privates := r.2.privates.free p }
    (decide (r.1 = .ok), s.setFile f fun file => { file with privateData := .null })) s

/-- The target of a seek; the sum wraps around, as a negative offset needs. -/
def newPos (current size offset : UInt32) (whence : Int) : Option UInt32 :=
  match whence with
  | 0 => some offset
  | 1 => some (current + offset)
  | 2 => some (size + offset)
  | _ => none

def fatLseek (e : Env) (f : Ptr) (file : File) (offset : UInt32) (whence : Int) (s : Vfs) : Option UInt32 × Vfs :=
  withFat file none (fun _ priv fil =>
    match newPos (fTell fil) priv.size offset whence with
    | none => (none, s)
    | some pos =>
        let r := fLseek e.disk pos fil s.volume
        let s := { s with fils := s.fils.modify priv.fatFile fun _ => r.2.1, volume := r.2.2 }
        if r.1 ≠ .ok then (none, s)
        else (some pos, s.setFile f fun file => { file with position := pos })) s

end Fat

section Drivers

/-- A device without private data. -/
def plainOpen (ops : Ops) (f : Ptr) (s : Vfs) : Bool × Vfs :=
  (true, s.setFile f fun file => { file with privateData := .null, position := 0, ops := ops })

def ttyOpen := plainOpen .tty
def nullOpen := plainOpen .devNull
def zeroOpen := plainOpen .zero
def serialOpen := plainOpen .serial

def totalMemory : Nat := 1024
def freeMemory : Nat := 512
def cpuName : String := "Motorola 68000"
def cpuClock : Nat := 8

/-- A file of `/proc` whose text has just been printed. -/
def procOpen (e : Env) (f : Ptr) (data : List UInt8) (s : Vfs) : Bool × Vfs :=
  let d := if e.data then some s.strings.next else none
  let p := s.procs.next
  let s := { s with
    strings := if e.data then s.strings.alloc data else s.strings
    procs := s.procs.alloc ⟨d, UInt32.ofNat data.length, 0⟩ }
  (true, s.setFile f fun file => { file with privateData := .proc p, position := 0, ops := .proc })

def procMeminfoOpen (e : Env) (f : Ptr) (s : Vfs) : Bool × Vfs :=
  let used := totalMemory - freeMemory
  let available := freeMemory / 2
  if !e.proc then (false, s)
  else procOpen e f (text (s!"MemTotal: {totalMemory} KB\nMemFree:  {freeMemory} KB\n" ++
    s!"MemUsed:  {used} KB\nMemAvail: {available} KB\n")) s

def procCpuinfoOpen (e : Env) (f : Ptr) (s : Vfs) : Bool × Vfs :=
  if !e.proc then (false, s)
  else procOpen e f (text (s!"CPU:       {cpuName}\nClock:     {cpuClock} MHz\n" ++
    "Features:  FPU (sim)\nCores:     1\nFamily:    m68k\n")) s

def procUptimeOpen (e : Env) (f : Ptr) (s : Vfs) : Bool × Vfs :=
  if !e.proc then (false, s)
  else
    let uptime := s.uptime + 10
    procOpen e f (text s!"{uptime} seconds\n") { s with uptime := uptime }

inductive Device
  | tty
  | null
  | zero
  | serial
  | meminfo
  | cpuinfo
  | uptime

def drivers : List (Path × Device) :=
  [(text "/dev/tty", .tty), (text "/dev/null", .null), (text "/dev/zero", .zero),
    (text "/dev/serial0", .serial), (text "/proc/meminfo", .meminfo),
    (text "/proc/cpuinfo", .cpuinfo), (text "/proc/uptime", .uptime)]

def Device.open_ (d : Device) (e : Env) (f : Ptr) (s : Vfs) : Bool × Vfs :=
  match d with
  | .tty => ttyOpen f s
  | .null => nullOpen f s
  | .zero => zeroOpen f s
  | .serial => serialOpen f s
  | .meminfo => procMeminfoOpen e f s
  | .cpuinfo => procCpuinfoOpen e f s
  | .uptime => procUptimeOpen e f s

def withProc {α : Type} (file : File) (failure : α) (k : Ptr → ProcData → α × Vfs) (s : Vfs) : α × Vfs :=
  match file.privateData with
  | .proc p =>
      match s.procs.cell p with
      | none => (failure, s.misused)
      | some data => k p data
  | .null => (failure, s)
  | .fat _ => (failure, s.misused)

def procRead (f : Ptr) (file : File) (size : UInt32) (s : Vfs) : Option (List UInt8) × Vfs :=
  withProc file none (fun p data =>
    let available := data.size - data.position
    let toRead := if size < available then size else available
    if toRead = 0 then (some [], s)
    else
      match data.data.bind s.strings.cell with
      | none => (none, s.misused)
      | some bytes =>
          let position := data.position + toRead
          let s := s.setFile f fun file => { file with position := position }
          (some ((bytes.drop data.position.toNat).take toRead.toNat),
            { s with procs := s.procs.modify p fun data => { data with position := position } })) s

def procClose (f : Ptr) (file : File) (s : Vfs) : Bool × Vfs :=
  withProc file true (fun p data =>
    let s := { s.freeString data.data with procs := s.procs.free p }
    (true, s.setFile f fun file => { file with privateData := .null })) s

def procLseek (f : Ptr) (file : File) (offset : UInt32) (whence : Int) (s : Vfs) : Option UInt32 × Vfs :=
  withProc file none (fun p data =>
    match newPos data.position data.size offset whence with
    | none => (none, s)
    | some pos =>
        let pos := if data.size < pos then data.size else pos
        let s := s.setFile f fun file => { file with position := pos }
        (some pos, { s with procs := s.procs.modify p fun data => { data with position := pos } })) s

def ttyRead (e : Env) (size : UInt32) : List UInt8 :=
  let typed := (List.range size.toNat).map e.keys
  typed.take (typed.findIdx (fun c => c = 0x0D ∨ c = 0x0A) + 1)

def serialRead (e : Env) (size : UInt32) : List UInt8 := (List.range (min size.toNat e.ready)).map e.keys

def zeroLseek (f : Ptr) (file : File) (offset : UInt32) (whence : Int) (s : Vfs) : Option UInt32 × Vfs :=
  match newPos file.position 0 offset whence with
  | none => (none, s)
  | some pos => (some pos, s.setFile f fun file => { file with position := pos })

end Drivers

section Descriptors

def Vfs.vfsSetFd (fd : Fd) (f : Option Ptr) (s : Vfs) : Vfs := { s with fdTable := Function.update s.fdTable fd f }

@[simp] theorem Vfs.fdTable_vfsSetFd (fd : Fd) (f : Option Ptr) (s : Vfs) :
    (s.vfsSetFd fd f).fdTable = Function.update s.fdTable fd f := rfl

@[simp] theorem Vfs.files_vfsSetFd (fd : Fd) (f : Option Ptr) (s : Vfs) : (s.vfsSetFd fd f).files = s.files := rfl

def allocateFd (f : Ptr) (s : Vfs) : Option Fd × Vfs :=
  match (List.finRange 256).find? fun fd => decide (3 ≤ fd.val) && (s.fdTable fd).isNone with
  | some fd => (some fd, { s.vfsSetFd fd (some f) with fdCount := s.fdCount + 1 })
  | none => (none, s)

def freeFd (fd : Fd) (s : Vfs) : Vfs := { s.vfsSetFd fd none with fdCount := s.fdCount - 1 }

/-- The loop over `drivers`, with what follows it. -/
def openDriver (e : Env) (f : Ptr) (path : Path) : List (Path × Device) → Vfs → Option Fd × Vfs
  | [], s => (none, s.freeFile f)
  | (p, d) :: ds, s =>
      if path = p then
        let r := d.open_ e f s
        if r.1 then
          match allocateFd f r.2 with
          | (some fd, s) => (some fd, s)
          | (none, s) => openDriver e f path ds s
        else openDriver e f path ds r.2
      else openDriver e f path ds s

def vfsOpen (path : Path) (flags : UInt32) (s : Vfs) : Option Fd × Vfs :=
  let e := s.env
  let s := s.turn
  if !e.file then (none, s)
  else
    let f := s.files.next
    let s := { s with
      files := s.files.alloc ⟨if e.name then some s.strings.next else none, 0, .null, .null⟩
      strings := if e.name then s.strings.alloc path else s.strings }
    let r := fatOpen e f path flags s
    if r.1 then
      match allocateFd f r.2 with
      | (some fd, s) => (some fd, s)
      | (none, s) => (none, s.freeFile f)
    else openDriver e f path drivers r.2

/-- The file behind a descriptor, `failure` when there is none. -/
def withFile {α : Type} (fd : Fd) (failure : α) (k : Env → Ptr → File → Vfs → α × Vfs) (s : Vfs) : α × Vfs :=
  let e := s.env
  let s := s.turn
  match s.fdTable fd with
  | none => (failure, s)
  | some f =>
      match s.files.cell f with
      | none => (failure, s.misused)
      | some file => k e f file s

def vfsRead (fd : Fd) (size : UInt32) (s : Vfs) : Option (List UInt8) × Vfs :=
  withFile fd none (fun e f file s =>
    match file.ops with
    | .null => (none, s)
    | .fat => fatRead e f file size s
    | .tty => (some (ttyRead e size), s)
    | .devNull => (some [], s)
    | .zero => (some (List.replicate size.toNat 0), s.setFile f fun file =>
        { file with position := file.position + size })
    | .serial => (some (serialRead e size), s)
    | .proc => procRead f file size s) s

def vfsWrite (fd : Fd) (buffer : List UInt8) (s : Vfs) : Option UInt32 × Vfs :=
  withFile fd none (fun e f file s =>
    match file.ops with
    | .null | .proc => (none, s)
    | .fat => fatWrite e f file buffer s
    | .tty | .devNull | .zero | .serial => (some (UInt32.ofNat buffer.length), s)) s

def vfsClose (fd : Fd) (s : Vfs) : Bool × Vfs :=
  withFile fd false (fun e f file s =>
    let r := match file.ops with
      | .fat => fatClose e f file s
      | .proc => procClose f file s
      | .null | .tty | .devNull | .zero | .serial => (true, s)
    (r.1, freeFd fd (r.2.freeFile f))) s

def tiocClear : Int := 0x01

def vfsIoctl (fd : Fd) (cmd : Int) (s : Vfs) : Bool × Vfs :=
  withFile fd false (fun _ _ file s =>
    match file.ops with
    | .tty => (decide (cmd = tiocClear), s)
    | _ => (false, s)) s

def vfsLseek (fd : Fd) (offset : UInt32) (whence : Int) (s : Vfs) : Option UInt32 × Vfs :=
  withFile fd none (fun e f file s =>
    match file.ops with
    | .null =>
        match whence with
        | 0 => (some offset, s.setFile f fun file => { file with position := offset })
        | 1 => (some (file.position + offset), s.setFile f fun file => { file with position := file.position + offset })
        | _ => (none, s)
    | .fat => fatLseek e f file offset whence s
    | .tty | .serial => (none, s)
    | .devNull => (some offset, s)
    | .zero => zeroLseek f file offset whence s
    | .proc => procLseek f file offset whence s) s

/-- The descriptor `fd` takes over the file of `r`; with a null result the table is read before
its start. -/
def moveFd (fd : Fd) (r : Option Fd) (s : Vfs) : Vfs :=
  match r with
  | none => s.misused
  | some r =>
      if r = fd then s
      else { (s.vfsSetFd fd (s.fdTable r)).vfsSetFd r none with fdCount := s.fdCount - 1 }

def vfsInit (s : Vfs) : Vfs :=
  let s := { s with fdTable := fun _ => none, fdCount := 0 }
  let r0 := vfsOpen (text "/dev/tty") oRdwr s
  let r1 := vfsOpen (text "/dev/tty") oRdwr r0.2
  let r2 := vfsOpen (text "/dev/tty") oRdwr r1.2
  moveFd 2 r2.1 (moveFd 1 r1.1 (moveFd 0 r0.1 r2.2))

end Descriptors

end Orion68.Shell
