import Orion68.FatFs.Volume
import Orion68.Lib.Memory
import Orion68.Shell.ExecuteLine

namespace Orion68.LoaderPic

open Memory FatFs Shell

section Slots

def slotBase : UInt32 := 0x00092000
def slotSize : UInt32 := 0x00040000

abbrev Slot := Fin 10

/-- `slot_in_use`. -/
abbrev SlotTable := Slot → Bool

def slotsInit : SlotTable := fun _ => false

def slotsAlloc (t : SlotTable) : Option Slot × SlotTable :=
  match (List.finRange 10).find? fun i => !t i with
  | some i => (some i, Function.update t i true)
  | none => (none, t)

def slotsFree (i : Slot) (t : SlotTable) : SlotTable := Function.update t i false

def slotsBaseAddr (i : Slot) : UInt32 := slotBase + UInt32.ofNat i.val * slotSize

def slotArea (i : Slot) : Span := ⟨slotsBaseAddr i, slotSize.toNat⟩

end Slots

section Headers

def be16 (b : List UInt8) (i : Nat) : UInt16 := (b.getD i 0).toUInt16 <<< 8 ||| (b.getD (i + 1) 0).toUInt16

def be32 (b : List UInt8) (i : Nat) : UInt32 :=
  word32 (b.getD i 0) (b.getD (i + 1) 0) (b.getD (i + 2) 0) (b.getD (i + 3) 0)

/-- What the loader takes from the header of the file. -/
structure ElfHeader where
  entry : UInt32
  phoff : UInt32
  shoff : UInt32
  phentsize : UInt16
  phnum : UInt16
  shentsize : UInt16
  shnum : UInt16
  shstrndx : UInt16

def ElfHeader.ofBytes (b : List UInt8) : ElfHeader where
  entry := be32 b 0x18
  phoff := be32 b 0x1C
  shoff := be32 b 0x20
  phentsize := be16 b 0x2A
  phnum := be16 b 0x2C
  shentsize := be16 b 0x2E
  shnum := be16 b 0x30
  shstrndx := be16 b 0x32

/-- The checks on the header: a 32-bit big-endian executable for the 68k. -/
def aceita (b : List UInt8) : Bool :=
  b.take 4 = [0x7F, 0x45, 0x4C, 0x46] ∧ b.getD 6 0 = 1 ∧ b.getD 4 0 = 1 ∧ b.getD 5 0 = 2 ∧
    be16 b 0x10 = 2 ∧ be16 b 0x12 = 4

/-- Where the header of segment `i` starts in the file, and that of section `i`. -/
def ElfHeader.segmento (h : ElfHeader) (i : Nat) : UInt32 := UInt32.ofNat i * h.phentsize.toUInt32 + h.phoff

def ElfHeader.secao (h : ElfHeader) (i : Nat) : UInt32 := UInt32.ofNat i * h.shentsize.toUInt32 + h.shoff

structure ProgHeader where
  type : UInt32
  offset : UInt32
  paddr : UInt32
  filesz : UInt32
  memsz : UInt32

def ProgHeader.ofBytes (b : List UInt8) : ProgHeader where
  type := be32 b 0
  offset := be32 b 4
  paddr := be32 b 12
  filesz := be32 b 16
  memsz := be32 b 20

def ptLoad : UInt32 := 1
def ptDynamic : UInt32 := 2
def ptInterp : UInt32 := 3
def ptShlib : UInt32 := 5

end Headers

/-- The open file, with what the drive lets the calls to come do. -/
structure Leitor where
  fil : Fil
  volume : Volume
  discos : Nat → Disk

def Leitor.abre (path : Path) (v : Volume) (discos : Nat → Disk) : Leitor := ⟨⟨path, faRead, 0, .ok, true⟩, v, discos⟩

/-- `flseek` and `fread`. -/
def Leitor.le (ofs : UInt32) (n : Nat) (l : Leitor) : FResult × List UInt8 × Leitor :=
  let (_, fil, volume) := fLseek (l.discos 0) ofs l.fil l.volume
  let (fr, bytes, fil) := fRead (l.discos 1) n fil volume
  (fr, bytes, ⟨fil, volume, fun i => l.discos (i + 2)⟩)

def Leitor.leTudo (ofs : UInt32) (n : Nat) (l : Leitor) : Option (List UInt8) × Leitor :=
  let (fr, bytes, l) := l.le ofs n
  (if fr = .ok ∧ bytes.length = n then some bytes else none, l)

/-- `escritas` are the spans of memory that have been written. -/
structure Carga where
  leitor : Leitor
  ram : Ram
  escritas : List Span

def Carga.grava (a : UInt32) (d : List UInt8) (c : Carga) : Carga :=
  { c with ram := write a d c.ram, escritas := c.escritas ++ [⟨a, d.length⟩] }

/-- `*p += task_base`. -/
def Carga.soma (base a : UInt32) (c : Carga) : Carga :=
  { c with ram := add32 base a c.ram, escritas := c.escritas ++ [⟨a, 4⟩] }

section Tables

/-- The loop of `find_got_section` over `n` sections from section `i`: whether one has been found,
`min_addr` and `max_end`. -/
def findGotLoop (h : ElfHeader) (strtab : UInt32) :
    Nat → Nat → Bool × UInt32 × UInt32 → Leitor → Option (Bool × UInt32 × UInt32) × Leitor
  | 0, _, acc, l => (some acc, l)
  | n + 1, i, (found, minAddr, maxEnd), l =>
      match l.leTudo (h.secao i) 40 with
      | (none, l) => (none, l)
      | (some hdr, l) =>
          let (_, name, l) := l.le (strtab + be32 hdr 0) 9
          if name.take 4 = text ".got" then
            let addr := be32 hdr 0x0C
            let size := be32 hdr 0x14
            findGotLoop h strtab n (i + 1)
              (true, if addr < minAddr then addr else minAddr,
                if maxEnd < addr + size then addr + size else maxEnd) l
          else findGotLoop h strtab n (i + 1) (found, minAddr, maxEnd) l

def findGotSection (h : ElfHeader) (l : Leitor) : Option (UInt32 × UInt32) × Leitor :=
  match l.leTudo (h.secao h.shstrndx.toNat) 40 with
  | (none, l) => (none, l)
  | (some hdr, l) =>
      match findGotLoop h (be32 hdr 0x10) h.shnum.toNat 0 (false, 0xFFFFFFFF, 0) l with
      | (some (true, minAddr, maxEnd), l) => (some (minAddr, maxEnd - minAddr), l)
      | (_, l) => (none, l)

/-- The patch of `n` words of the GOT, from word `w`. -/
def patchGot (base got : UInt32) : Nat → Nat → Carga → Carga
  | 0, _, c => c
  | n + 1, w, c => patchGot base got n (w + 1) (c.soma base (got + 4 * UInt32.ofNat w))

/-- The entries of `.rela.data`; only `R_68K_32` is applied. -/
def applyRelas (base relaOffset : UInt32) : Nat → Nat → Carga → Carga
  | 0, _, c => c
  | n + 1, r, c =>
      match c.leitor.leTudo (relaOffset + UInt32.ofNat r * 12) 12 with
      | (none, l) => applyRelas base relaOffset n (r + 1) { c with leitor := l }
      | (some rela, l) =>
          let c := { c with leitor := l }
          if be32 rela 4 &&& 0xFF ≠ 1 then applyRelas base relaOffset n (r + 1) c
          else applyRelas base relaOffset n (r + 1) (c.soma base (base + be32 rela 0))

def applyDataRelocationsLoop (h : ElfHeader) (strtab base : UInt32) : Nat → Nat → Carga → Carga
  | 0, _, c => c
  | n + 1, i, c =>
      match c.leitor.leTudo (h.secao i) 40 with
      | (none, l) => applyDataRelocationsLoop h strtab base n (i + 1) { c with leitor := l }
      | (some hdr, l) =>
          let (_, name, l) := l.le (strtab + be32 hdr 0) 15
          if cString name ≠ text ".rela.data" then
            applyDataRelocationsLoop h strtab base n (i + 1) { c with leitor := l }
          else applyRelas base (be32 hdr 0x10) (be32 hdr 0x14 / 12).toNat 0 { c with leitor := l }

def applyDataRelocations (h : ElfHeader) (base : UInt32) (c : Carga) : Carga :=
  match c.leitor.leTudo (h.secao h.shstrndx.toNat) 40 with
  | (none, l) => { c with leitor := l }
  | (some hdr, l) => applyDataRelocationsLoop h (be32 hdr 0x10) base h.shnum.toNat 0 { c with leitor := l }

end Tables

/-- A `PT_LOAD` segment, up to the patches. -/
def loadSegment (base : UInt32) (ph : ProgHeader) (c : Carga) : Bool × Carga :=
  let actualAddr := base + ph.paddr
  let (fr, bytes, l) := c.leitor.le ph.offset ph.filesz.toNat
  let c := { c with leitor := l }.grava actualAddr bytes
  if fr ≠ .ok ∨ bytes.length ≠ ph.filesz.toNat then (false, c)
  else if ph.filesz < ph.memsz then
    (true, c.grava (actualAddr + ph.filesz) (List.replicate (ph.memsz - ph.filesz).toNat 0))
  else (true, c)

/-- What follows the second segment; `got_addr_saved` is returned. -/
def patchData (h : ElfHeader) (base gotAddrSaved : UInt32) (c : Carga) : UInt32 × Carga :=
  match findGotSection h c.leitor with
  | (some (gotAddr, gotSize), l) =>
      (gotAddr, applyDataRelocations h base
        (patchGot base (base + gotAddr) (gotSize / 4).toNat 0 { c with leitor := l }))
  | (none, l) => (gotAddrSaved, applyDataRelocations h base { c with leitor := l })

/-- The body of the loop over the program headers, with `pt_load_seen` and `got_addr_saved`; the
loop goes on with those that are returned. -/
def loadHeader (h : ElfHeader) (base : UInt32) (progIndex seen : Nat) (gotAddr : UInt32) (c : Carga) :
    Option (Nat × UInt32) × Carga :=
  match c.leitor.leTudo (h.segmento progIndex) 32 with
  | (none, l) => (none, { c with leitor := l })
  | (some b, l) =>
      let ph := ProgHeader.ofBytes b
      let c := { c with leitor := l }
      if ph.type = ptLoad then
        let (ok, c) := loadSegment base ph c
        if ok = false then (none, c)
        else if seen = 1 then
          let (gotAddr, c) := patchData h base gotAddr c
          (some (seen + 1, gotAddr), c)
        else (some (seen + 1, gotAddr), c)
      else if ph.type = ptDynamic ∨ ph.type = ptShlib ∨ ph.type = ptInterp then (none, c)
      else (some (seen, gotAddr), c)

def loadLoop (h : ElfHeader) (base : UInt32) :
    Nat → Nat → Nat → UInt32 → Carga → Option (Nat × UInt32) × Carga
  | 0, _, seen, gotAddr, c => (some (seen, gotAddr), c)
  | n + 1, progIndex, seen, gotAddr, c =>
      match loadHeader h base progIndex seen gotAddr c with
      | (none, c) => (none, c)
      | (some (seen, gotAddr), c) => loadLoop h base n (progIndex + 1) seen gotAddr c

/-- From the read of the header to the check of `pt_load_seen`: the entry and the value of A5 that
the program is called with, or that the loading has failed. -/
def loadPicElf (base : UInt32) (c : Carga) : Option (UInt32 × UInt32) × Carga :=
  match c.leitor.leTudo 0 52 with
  | (none, l) => (none, { c with leitor := l })
  | (some b, l) =>
      let h := ElfHeader.ofBytes b
      if aceita b then
        match loadLoop h base h.phnum.toNat 0 0 0 { c with leitor := l } with
        | (some (seen, gotAddr), c) => (if seen = 2 then some (base + h.entry, base + gotAddr) else none, c)
        | (none, c) => (none, c)
      else (none, { c with leitor := l })

inductive Desfecho
  | semSlot
  | falha
  | chama (entry a5 : UInt32)
  deriving DecidableEq

/-- Up to the call of the program, which goes on with its slot in use. -/
def loadPicElfStandalone (t : SlotTable) (c : Carga) : Desfecho × SlotTable × Carga :=
  match slotsAlloc t with
  | (none, t) => (.semSlot, t, c)
  | (some i, t) =>
      match loadPicElf (slotsBaseAddr i) c with
      | (some (entry, a5), c) => (.chama entry a5, t, c)
      | (none, c) => (.falha, slotsFree i t, c)

end Orion68.LoaderPic
