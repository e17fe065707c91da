import Orion68.Loader.Patches

namespace Orion68.LoaderReading

open Memory FatFs Shell LoaderPic LoaderPatches

/-- An open file with these contents, on a drive that does not fail. -/
structure Reads (c : List UInt8) (l : Leitor) : Prop where
  valid : l.fil.valid = true
  ok : l.fil.err = .ok
  readable : l.fil.flag &&& faRead ≠ 0
  readOnly : l.fil.flag &&& faWrite = 0
  contents : (l.fil.bytes l.volume).val = c
  drive : ∀ i, (l.discos i).result = .ok

def slice (c : List UInt8) (ofs : UInt32) (n : Nat) : List UInt8 := (c.drop ofs.toNat).take n

theorem length_slice {c : List UInt8} {ofs : UInt32} {n : Nat} (h : ofs.toNat + n ≤ c.length) :
    (slice c ofs n).length = n := by
  rw [slice, List.length_take, List.length_drop]
  omega

structure Aberto (c : List UInt8) (l : Leitor) : Prop where
  valid : l.fil.valid = true
  readable : l.fil.flag &&& faRead ≠ 0
  readOnly : l.fil.flag &&& faWrite = 0
  contents : (l.fil.bytes l.volume).val = c

theorem Reads.aberto {c : List UInt8} {l : Leitor} (h : Reads c l) : Aberto c l :=
  ⟨h.valid, h.readable, h.readOnly, h.contents⟩

section Calls

variable {c : List UInt8} {l : Leitor}

theorem seekTarget_le_length (disk : Disk) (ofs : UInt32) (f : Fil) (v : Volume) (h : f.flag &&& faWrite = 0) :
    (seekTarget disk ofs f v).toNat ≤ (f.bytes v).val.length := by
  have hmin (a b : UInt32) : min a b = if a ≤ b then a else b := rfl
  rw [← fSize_toNat, ← UInt32.le_iff_toNat_le, seekTarget, if_pos h]
  simp only [hmin, UInt32.le_iff_toNat_le]
  grind

theorem drop_seekTarget {disk : Disk} (ofs : UInt32) (f : Fil) (v : Volume) (h : f.flag &&& faWrite = 0)
    (hd : disk.result = .ok) :
    (f.bytes v).val.drop (seekTarget disk ofs f v).toNat = (f.bytes v).val.drop ofs.toNat := by
  have hsize := fSize_toNat f v
  rw [seekTarget, if_pos hd, if_pos h]
  split
  next => rfl
  next hof =>
    rw [UInt32.not_le, UInt32.lt_iff_toNat_lt, hsize] at hof
    rw [hsize, List.drop_length, List.drop_eq_nil_of_le (Nat.le_of_lt hof)]

theorem Aberto.lseek (h : Aberto c l) (disk : Disk) (ofs : UInt32) :
    ∃ fil, fLseek disk ofs l.fil l.volume = (fil.err, fil, l.volume) ∧
      Aberto c { l with fil := fil } ∧ (fil.err = .ok ↔ l.fil.err = .ok ∧ disk.result = .ok) ∧
      (fil.err = .ok → c.drop fil.fptr.toNat = c.drop ofs.toNat) := by
  rcases fLseek_cases disk (v := l.volume) ofs h.valid with ⟨herr, hseek⟩ | ⟨herr, hseek⟩
  · exact ⟨l.fil, hseek, h, ⟨fun he => absurd he herr, fun he => he.1⟩, fun he => absurd he herr⟩
  · rw [(Bytes.extend_eq_self_iff _ _ _).mpr (seekTarget_le_length disk ofs l.fil l.volume h.readOnly),
      setBytes_self] at hseek
    refine ⟨{ l.fil with fptr := seekTarget disk ofs l.fil l.volume, err := disk.result }, hseek,
      ⟨h.valid, h.readable, h.readOnly, h.contents⟩, ⟨fun he => ⟨herr, he⟩, fun he => he.2⟩, ?_⟩
    intro hd
    have hdrop := drop_seekTarget ofs l.fil l.volume h.readOnly hd
    rwa [h.contents] at hdrop

/-- A read succeeds when nothing has failed before and the drive does not fail, and then gives what
the file has there. -/
theorem Aberto.le (h : Aberto c l) (ofs : UInt32) (n : Nat) :
    ∃ fr bytes l', l.le ofs n = (fr, bytes, l') ∧ Aberto c l' ∧ l'.discos = (fun i => l.discos (i + 2)) ∧
      (fr = .ok ↔ l.fil.err = .ok ∧ (l.discos 0).result = .ok ∧ (l.discos 1).result = .ok) ∧
      (l'.fil.err = .ok ↔ fr = .ok) ∧ (fr = .ok → bytes = slice c ofs n) := by
  obtain ⟨fil, hseek, hfil, hok, hdrop⟩ := h.lseek (l.discos 0) ofs
  rw [Leitor.le, hseek]
  dsimp only
  by_cases herr : fil.err = .ok
  · have hval : validate fil = .ok := by rw [validate, if_pos hfil.valid, herr]
    have hcontents : (fil.bytes l.volume).val = c := hfil.contents
    rw [fRead, hval, if_neg (not_not.mpr rfl), if_neg hfil.readable]
    refine ⟨_, _, _, rfl, ⟨hfil.valid, hfil.readable, hfil.readOnly, hcontents⟩, rfl, ?_, Iff.rfl, ?_⟩
    · rw [← and_assoc, ← hok]
      exact (and_iff_right herr).symm
    · intro hd
      rw [if_pos hd, hcontents, hdrop herr]
      rfl
  · have hval : validate fil = fil.err := by rw [validate, if_pos hfil.valid]
    rw [fRead, hval, if_pos herr]
    refine ⟨_, _, _, rfl, ⟨hfil.valid, hfil.readable, hfil.readOnly, hfil.contents⟩, rfl, ?_, Iff.rfl,
      fun he => absurd he herr⟩
    rw [← and_assoc, ← hok]
    exact ⟨fun he => absurd he herr, fun he => absurd he.1 herr⟩

theorem Reads.le (h : Reads c l) (ofs : UInt32) (n : Nat) :
    ∃ l', l.le ofs n = (.ok, slice c ofs n, l') ∧ Reads c l' := by
  obtain ⟨fr, bytes, l', hle, hl', hdiscos, hfr, herr, hbytes⟩ := h.aberto.le ofs n
  obtain rfl : fr = .ok := hfr.mpr ⟨h.ok, h.drive 0, h.drive 1⟩
  obtain rfl := hbytes rfl
  refine ⟨l', hle, hl'.valid, herr.mpr rfl, hl'.readable, hl'.readOnly, hl'.contents, ?_⟩
  intro i
  rw [hdiscos]
  exact h.drive (i + 2)

theorem Reads.leTudo (h : Reads c l) {ofs : UInt32} {n : Nat} (hlen : ofs.toNat + n ≤ c.length) :
    ∃ l', l.leTudo ofs n = (some (slice c ofs n), l') ∧ Reads c l' := by
  obtain ⟨l', hle, hl'⟩ := h.le ofs n
  refine ⟨l', ?_, hl'⟩
  rw [Leitor.leTudo, hle]
  dsimp only
  rw [if_pos ⟨rfl, length_slice hlen⟩]

end Calls

section File

def header (c : List UInt8) : ElfHeader := ElfHeader.ofBytes (c.take 52)

def sectionHeader (c : List UInt8) (i : Nat) : List UInt8 := slice c ((header c).secao i) 40

def programHeader (c : List UInt8) (i : Nat) : ProgHeader := ProgHeader.ofBytes (slice c ((header c).segmento i) 32)

def strtab (c : List UInt8) : UInt32 := be32 (sectionHeader c (header c).shstrndx.toNat) 0x10

def sectionName (c hdr : List UInt8) : List UInt8 := cString (c.drop (strtab c + be32 hdr 0).toNat)

def sections (c : List UInt8) : List (List UInt8) := (List.range (header c).shnum.toNat).map (sectionHeader c)

/-- The address and the size of each section named `.got*`. -/
def gotOf (c : List UInt8) : List (UInt32 × UInt32) :=
  ((sections c).filter fun hdr => decide (text ".got" <+: sectionName c hdr)).map fun hdr =>
    (be32 hdr 0x0C, be32 hdr 0x14)

def relaTables (c : List UInt8) : List (List UInt8) :=
  (sections c).filter fun hdr => decide (sectionName c hdr = text ".rela.data")

/-- The offset and the size in the file of entry `r` of a table. -/
def entryOffset (hdr : List UInt8) (r : Nat) : UInt32 := be32 hdr 0x10 + UInt32.ofNat r * 12

def entryCount (hdr : List UInt8) : Nat := (be32 hdr 0x14 / 12).toNat

/-- The targets of the `R_68K_32` entries of a table. -/
def tableTargets (c hdr : List UInt8) : List UInt32 :=
  (((List.range (entryCount hdr)).map fun r => slice c (entryOffset hdr r) 12).filter fun rela =>
    be32 rela 4 &&& 0xFF = 1).map fun rela => be32 rela 0

def fileTargets (c : List UInt8) : List UInt32 := (relaTables c).flatMap (tableTargets c)

def loads (c : List UInt8) : List ProgHeader :=
  ((List.range (header c).phnum.toNat).map (programHeader c)).filter fun ph => ph.type = ptLoad

end File

section Names

theorem got_name_iff (s : List UInt8) : (s.take 9).take 4 = text ".got" ↔ text ".got" <+: cString s := by
  have hlen : (text ".got").length = 4 := rfl
  have hall : ∀ b ∈ text ".got", b ≠ 0 := text_ne_zero (by decide)
  rw [List.take_take]
  constructor
  · intro h
    have hpre : text ".got" <+: s := h ▸ List.take_prefix 4 s
    obtain ⟨r, rfl⟩ := hpre
    rw [cString, List.takeWhile_append_of_pos (by simpa using hall)]
    exact List.prefix_append _ _
  · intro h
    have hpre := h.trans (List.takeWhile_prefix _)
    rw [List.prefix_iff_eq_take, hlen] at hpre
    exact hpre.symm

theorem rela_name_iff (s : List UInt8) : cString (s.take 15) = text ".rela.data" ↔ cString s = text ".rela.data" := by
  have hlen : (text ".rela.data").length = 10 := rfl
  rw [cString, ← List.take_takeWhile]
  change (cString s).take 15 = _ ↔ _
  constructor
  · intro h
    have hshort := congrArg List.length h
    rw [List.length_take, hlen] at hshort
    rwa [List.take_of_length_le (by omega)] at h
  · intro h
    rw [h]
    rfl

end Names

section Tables

variable {c : List UInt8} {l : Leitor}

theorem Reads.section (h : Reads c l) {i : Nat} (hlen : ((header c).secao i).toNat + 40 ≤ c.length) :
    ∃ l', l.leTudo ((header c).secao i) 40 = (some (sectionHeader c i), l') ∧ Reads c l' := h.leTudo hlen

theorem got_section_iff (c hdr : List UInt8) :
    (slice c (strtab c + be32 hdr 0) 9).take 4 = text ".got" ↔ text ".got" <+: sectionName c hdr := got_name_iff _

theorem rela_section_iff (c hdr : List UInt8) :
    cString (slice c (strtab c + be32 hdr 0) 15) = text ".rela.data" ↔ sectionName c hdr = text ".rela.data" :=
  rela_name_iff _

theorem gotSections_eq (h : Reads c l) (n i : Nat)
    (hr : ∀ j, i ≤ j → j < i + n → ((header c).secao j).toNat + 40 ≤ c.length) :
    ∃ l', gotSections (header c) (strtab c) n i l =
      (some ((((List.range' i n).map (sectionHeader c)).filter fun hdr =>
        decide (text ".got" <+: sectionName c hdr)).map fun hdr => (be32 hdr 0x0C, be32 hdr 0x14)), l') ∧
      Reads c l' := by
  induction n generalizing i l with
  | zero => exact ⟨l, rfl, h⟩
  | succ n ih =>
      obtain ⟨l₁, hhdr, h₁⟩ := h.section (hr i (Nat.le_refl i) (by omega))
      obtain ⟨l₂, hname, h₂⟩ := h₁.le (strtab c + be32 (sectionHeader c i) 0) 9
      obtain ⟨l₃, hrest, h₃⟩ := ih h₂ (i + 1) fun j hj hlt => hr j (by omega) (by omega)
      refine ⟨l₃, ?_, h₃⟩
      rw [gotSections, hhdr]
      dsimp only
      rw [hname]
      dsimp only
      simp only [hrest, List.range'_succ, List.map_cons, List.filter_cons, got_section_iff, decide_eq_true_eq]
      split <;> rfl

end Tables

end Orion68.LoaderReading
