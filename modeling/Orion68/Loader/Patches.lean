import Orion68.Loader.LoaderPic

namespace Orion68.LoaderPatches

open Memory FatFs Shell LoaderPic

section Tables

/-- The address and the size of each of the `n` sections from `i` that is named `.got*`, unless a
header cannot be read. -/
def gotSections (h : ElfHeader) (strtab : UInt32) : Nat → Nat → Leitor → Option (List (UInt32 × UInt32)) × Leitor
  | 0, _, l => (some [], l)
  | n + 1, i, l =>
      match l.leTudo (h.secao i) 40 with
      | (none, l) => (none, l)
      | (some hdr, l) =>
          let (_, name, l) := l.le (strtab + be32 hdr 0) 9
          let (rest, l) := gotSections h strtab n (i + 1) l
          (if name.take 4 = text ".got" then rest.map ((be32 hdr 0x0C, be32 hdr 0x14) :: ·) else rest, l)

/-- The lowest address and the highest end of some sections. -/
def gotStart (secs : List (UInt32 × UInt32)) : UInt32 :=
  secs.foldl (fun a s => if s.1 < a then s.1 else a) 0xFFFFFFFF

def gotEnd (secs : List (UInt32 × UInt32)) : UInt32 :=
  secs.foldl (fun a s => if a < s.1 + s.2 then s.1 + s.2 else a) 0

/-- The words from the lowest address to the highest end. -/
def gotWords (secs : List (UInt32 × UInt32)) : List UInt32 :=
  (List.range ((gotEnd secs - gotStart secs) / 4).toNat).map fun w => gotStart secs + 4 * UInt32.ofNat w

def gotPatches (h : ElfHeader) (l : Leitor) : List UInt32 × Leitor :=
  match l.leTudo (h.secao h.shstrndx.toNat) 40 with
  | (none, l) => ([], l)
  | (some hdr, l) =>
      let (secs, l) := gotSections h (be32 hdr 0x10) h.shnum.toNat 0 l
      (gotWords (secs.getD []), l)

/-- The targets of the `R_68K_32` entries among `n` entries of a table. -/
def targets (relaOffset : UInt32) : Nat → Nat → Leitor → List UInt32 × Leitor
  | 0, _, l => ([], l)
  | n + 1, r, l =>
      match l.leTudo (relaOffset + UInt32.ofNat r * 12) 12 with
      | (none, l) => targets relaOffset n (r + 1) l
      | (some rela, l) =>
          let (rest, l) := targets relaOffset n (r + 1) l
          (if be32 rela 4 &&& 0xFF ≠ 1 then rest else be32 rela 0 :: rest, l)

/-- The targets in the first section named `.rela.data`. -/
def relaSection (h : ElfHeader) (strtab : UInt32) : Nat → Nat → Leitor → List UInt32 × Leitor
  | 0, _, l => ([], l)
  | n + 1, i, l =>
      match l.leTudo (h.secao i) 40 with
      | (none, l) => relaSection h strtab n (i + 1) l
      | (some hdr, l) =>
          let (_, name, l) := l.le (strtab + be32 hdr 0) 15
          if cString name ≠ text ".rela.data" then relaSection h strtab n (i + 1) l
          else targets (be32 hdr 0x10) (be32 hdr 0x14 / 12).toNat 0 l

def relaPatches (h : ElfHeader) (l : Leitor) : List UInt32 × Leitor :=
  match l.leTudo (h.secao h.shstrndx.toNat) 40 with
  | (none, l) => ([], l)
  | (some hdr, l) => relaSection h (be32 hdr 0x10) h.shnum.toNat 0 l

/-- All the words that are patched, relative to `task_base`. -/
def patches (h : ElfHeader) (l : Leitor) : List UInt32 × Leitor :=
  let (got, l) := gotPatches h l
  let (relas, l) := relaPatches h l
  (got ++ relas, l)

end Tables

/-- Some words have been patched and the file has been read on. -/
def patched (base : UInt32) (ws : List UInt32) (l : Leitor) (c : Carga) : Carga :=
  ⟨l, adds base (ws.map (base + ·)) c.ram, c.escritas ++ ws.map fun a => ⟨base + a, 4⟩⟩

section Passes

variable {h : ElfHeader} {base : UInt32} {c : Carga} {l : Leitor}

theorem patched_leitor (ws : List UInt32) : (patched base ws l c).leitor = l := rfl

theorem patched_nil : patched base [] l c = { c with leitor := l } := by
  simp [patched, adds]

theorem patched_cons (l' : Leitor) {a : UInt32} {ws : List UInt32} :
    patched base (a :: ws) l c = patched base ws l ({ c with leitor := l' }.soma base (base + a)) := by
  simp [patched, adds, Carga.soma]

theorem patched_patched {ws ws' : List UInt32} {l' : Leitor} :
    patched base ws' l' (patched base ws l c) = patched base (ws ++ ws') l' c := by
  simp [patched, adds_append]

theorem findGotLoop_eq (h : ElfHeader) (strtab : UInt32) (n i : Nat) (acc : Bool × UInt32 × UInt32) (l : Leitor) :
    findGotLoop h strtab n i acc l =
      ((gotSections h strtab n i l).1.map fun secs =>
        (acc.1 || !secs.isEmpty, secs.foldl (fun a s => if s.1 < a then s.1 else a) acc.2.1,
          secs.foldl (fun a s => if a < s.1 + s.2 then s.1 + s.2 else a) acc.2.2),
        (gotSections h strtab n i l).2) := by
  induction n generalizing i acc l with
  | zero => simp [findGotLoop, gotSections]
  | succ n ih =>
      obtain ⟨found, minAddr, maxEnd⟩ := acc
      rw [findGotLoop, gotSections]
      cases hr : l.leTudo (h.secao i) 40 with
      | mk r l₁ =>
          cases r with
          | none => rfl
          | some hdr =>
              dsimp only
              cases hn : l₁.le (strtab + be32 hdr 0) 9 with
              | mk fr p =>
                  obtain ⟨name, l₂⟩ := p
                  dsimp only
                  split
                  · rw [ih, Option.map_map]
                    congr 2
                    funext secs
                    simp
                  · rw [ih]

theorem patchGot_eq (base got : UInt32) (n w : Nat) (c : Carga) :
    patchGot base (base + got) n w c =
      patched base ((List.range' w n).map fun w => got + 4 * UInt32.ofNat w) c.leitor c := by
  induction n generalizing w c with
  | zero => exact patched_nil.symm
  | succ n ih =>
      rw [patchGot, List.range'_succ, List.map_cons, patched_cons c.leitor, ih, UInt32.add_assoc]
      rfl

theorem applyRelas_eq (base relaOffset : UInt32) (n r : Nat) (c : Carga) :
    applyRelas base relaOffset n r c =
      patched base (targets relaOffset n r c.leitor).1 (targets relaOffset n r c.leitor).2 c := by
  induction n generalizing r c with
  | zero => exact patched_nil.symm
  | succ n ih =>
      rw [applyRelas, targets]
      cases hr : c.leitor.leTudo (relaOffset + UInt32.ofNat r * 12) 12 with
      | mk b l =>
          cases b with
          | none => exact ih (r + 1) { c with leitor := l }
          | some rela =>
              dsimp only
              split
              · exact ih (r + 1) { c with leitor := l }
              · rw [patched_cons l]
                exact ih (r + 1) _

theorem applyDataRelocationsLoop_eq (h : ElfHeader) (strtab base : UInt32) (n i : Nat) (c : Carga) :
    applyDataRelocationsLoop h strtab base n i c =
      patched base (relaSection h strtab n i c.leitor).1 (relaSection h strtab n i c.leitor).2 c := by
  induction n generalizing i c with
  | zero => exact patched_nil.symm
  | succ n ih =>
      rw [applyDataRelocationsLoop, relaSection]
      cases hr : c.leitor.leTudo (h.secao i) 40 with
      | mk b l =>
          cases b with
          | none => exact ih (i + 1) { c with leitor := l }
          | some hdr =>
              dsimp only
              split
              · exact ih (i + 1) _
              · exact applyRelas_eq base _ _ 0 _

theorem applyDataRelocations_eq (h : ElfHeader) (base : UInt32) (c : Carga) :
    applyDataRelocations h base c =
      patched base (relaPatches h c.leitor).1 (relaPatches h c.leitor).2 c := by
  rw [applyDataRelocations, relaPatches]
  cases hr : c.leitor.leTudo (h.secao h.shstrndx.toNat) 40 with
  | mk b l =>
      cases b with
      | none => exact patched_nil.symm
      | some hdr => exact applyDataRelocationsLoop_eq h _ base _ 0 _

theorem gotWords_nil : gotWords [] = [] := by
  decide

theorem patchData_eq (h : ElfHeader) (base g : UInt32) (c : Carga) :
    (patchData h base g c).2 = patched base (patches h c.leitor).1 (patches h c.leitor).2 c := by
  have hgot : ∃ ws l, gotPatches h c.leitor = (ws, l) ∧
      (patchData h base g c).2 = applyDataRelocations h base (patched base ws l c) := by
    rw [gotPatches, patchData, findGotSection]
    cases hr : c.leitor.leTudo (h.secao h.shstrndx.toNat) 40 with
    | mk b l =>
        cases b with
        | none => exact ⟨_, _, rfl, by rw [patched_nil]⟩
        | some hdr =>
            dsimp only
            rw [findGotLoop_eq]
            cases hs : gotSections h (be32 hdr 0x10) h.shnum.toNat 0 l with
            | mk secs l' =>
                refine ⟨_, _, rfl, ?_⟩
                rcases secs with _ | _ | ⟨s, secs⟩
                · simp [gotWords_nil, patched_nil]
                · simp [gotWords_nil, patched_nil]
                · simp only [Option.map_some, List.isEmpty_cons, Bool.not_false, Bool.or_true, patchGot_eq]
                  rw [← List.range_eq_range']
                  rfl
  obtain ⟨ws, l, hws, hp⟩ := hgot
  rw [hp, applyDataRelocations_eq, patched_patched, patches, hws]
  rfl

end Passes

end Orion68.LoaderPatches
