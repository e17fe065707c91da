import Orion68.Loader.Patches

namespace Orion68.LoaderParts

open Memory FatFs Shell LoaderPic LoaderPatches

/-- What a file asks for at an offset from `task_base`: bytes, or a word that `task_base` is added to. -/
inductive Parte
  | bytes (off : UInt32) (d : List UInt8)
  | palavra (off : UInt32)

def Parte.aplica (base : UInt32) : Parte → Ram → Ram
  | .bytes off d => write (base + off) d
  | .palavra off => add32 base (base + off)

def Parte.span (base : UInt32) : Parte → Span
  | .bytes off d => ⟨base + off, d.length⟩
  | .palavra off => ⟨base + off, 4⟩

def sobrepoe (base : UInt32) (ps : List Parte) (m : Ram) : Ram := ps.foldl (fun m p => p.aplica base m) m

def zeros (ph : ProgHeader) : List Parte :=
  if ph.filesz < ph.memsz then [.bytes (ph.paddr + ph.filesz) (List.replicate (ph.memsz - ph.filesz).toNat 0)] else []

/-- Where the words of the GOT begin, `g` without a table of them. -/
def gotAddr (h : ElfHeader) (g : UInt32) (l : Leitor) : UInt32 :=
  match (findGotSection h l).1 with
  | some (addr, _) => addr
  | none => g

/-- The parts that the walk over `n` program headers from header `i` finds in the file, and the number of
segments and the address of the GOT when the walk comes to its end. -/
def partes (h : ElfHeader) : ℕ → ℕ → ℕ → UInt32 → Leitor → List Parte × Option (ℕ × UInt32)
  | 0, _, seen, g, _ => ([], some (seen, g))
  | n + 1, i, seen, g, l =>
      match l.leTudo (h.segmento i) 32 with
      | (none, _) => ([], none)
      | (some b, l) =>
          let ph := ProgHeader.ofBytes b
          if ph.type = ptLoad then
            let (fr, bytes, l) := l.le ph.offset ph.filesz.toNat
            if fr = .ok ∧ bytes.length = ph.filesz.toNat then
              if seen = 1 then
                let r := partes h n (i + 1) (seen + 1) (gotAddr h g l) (patches h l).2
                (.bytes ph.paddr bytes :: zeros ph ++ (patches h l).1.map .palavra ++ r.1, r.2)
              else
                let r := partes h n (i + 1) (seen + 1) g l
                (.bytes ph.paddr bytes :: zeros ph ++ r.1, r.2)
            else ([.bytes ph.paddr bytes], none)
          else if ph.type = ptDynamic ∨ ph.type = ptShlib ∨ ph.type = ptInterp then ([], none)
          else partes h n (i + 1) seen g l

/-- The same for a whole file, with the entry and the address of the GOT of one that can be run. -/
def partesDoArquivo (l : Leitor) : List Parte × Option (UInt32 × UInt32) :=
  match l.leTudo 0 52 with
  | (none, _) => ([], none)
  | (some b, l) =>
      let h := ElfHeader.ofBytes b
      if aceita b then
        let r := partes h h.phnum.toNat 0 0 0 l
        (r.1, r.2.bind fun s => if s.1 = 2 then some (h.entry, s.2) else none)
      else ([], none)

variable {base : UInt32} {m : Ram} {ps ps' : List Parte}

theorem sobrepoe_append : sobrepoe base (ps ++ ps') m = sobrepoe base ps' (sobrepoe base ps m) := List.foldl_append

theorem sobrepoe_of_notMem {x : UInt32} (h : ∀ p ∈ ps, x ∉ p.span base) : sobrepoe base ps m x = m x := by
  induction ps generalizing m with
  | nil => rfl
  | cons p ps ih =>
      obtain ⟨hp, hps⟩ := List.forall_mem_cons.mp h
      refine (ih hps).trans ?_
      cases p with
      | bytes off d => exact write_of_notMem m hp
      | palavra off => exact add32_of_notMem base m hp

theorem sobrepoe_palavras (ws : List UInt32) :
    sobrepoe base (ws.map .palavra) m = adds base (ws.map (base + ·)) m := by
  rw [sobrepoe, adds, List.foldl_map, List.foldl_map]
  rfl

theorem patchData_fst (h : ElfHeader) (base g : UInt32) (c : Carga) : (patchData h base g c).1 = gotAddr h g c.leitor := by
  rw [patchData, gotAddr]
  split
  next heq => rw [heq]
  next heq => rw [heq]

theorem loadSegment_parts (base : UInt32) (ph : ProgHeader) (c : Carga) {fr : FResult} {bytes : List UInt8}
    {l : Leitor} (hle : c.leitor.le ph.offset ph.filesz.toNat = (fr, bytes, l)) :
    (loadSegment base ph c).2.leitor = l ∧
      if fr = .ok ∧ bytes.length = ph.filesz.toNat then
        (loadSegment base ph c).1 = true ∧
          (loadSegment base ph c).2.ram = sobrepoe base (.bytes ph.paddr bytes :: zeros ph) c.ram
      else
        (loadSegment base ph c).1 = false ∧ (loadSegment base ph c).2.ram = sobrepoe base [.bytes ph.paddr bytes] c.ram := by
  rw [loadSegment, hle]
  dsimp only
  by_cases hok : fr = .ok ∧ bytes.length = ph.filesz.toNat
  · rw [if_neg (by tauto), if_pos hok, zeros]
    by_cases hbss : ph.filesz < ph.memsz
    · rw [if_pos hbss, if_pos hbss]
      refine ⟨rfl, rfl, ?_⟩
      dsimp only [Carga.grava]
      rw [UInt32.add_assoc]
      rfl
    · rw [if_neg hbss, if_neg hbss]
      exact ⟨rfl, rfl, rfl⟩
  · rw [if_pos (by tauto), if_neg hok]
    exact ⟨rfl, rfl, rfl⟩

theorem loadLoop_parts (h : ElfHeader) (base : UInt32) (n i seen : ℕ) (g : UInt32) (c : Carga) :
    (loadLoop h base n i seen g c).1 = (partes h n i seen g c.leitor).2 ∧
      (loadLoop h base n i seen g c).2.ram = sobrepoe base (partes h n i seen g c.leitor).1 c.ram := by
  induction n generalizing i seen g c with
  | zero => exact ⟨rfl, rfl⟩
  | succ n ih =>
      rw [loadLoop, loadHeader, partes]
      rcases hr : c.leitor.leTudo (h.segmento i) 32 with ⟨_ | b, l⟩
      · exact ⟨rfl, rfl⟩
      · dsimp only
        by_cases hload : (ProgHeader.ofBytes b).type = ptLoad
        · rw [if_pos hload, if_pos hload]
          rcases hle : l.le (ProgHeader.ofBytes b).offset (ProgHeader.ofBytes b).filesz.toNat with ⟨fr, bytes, l'⟩
          obtain ⟨hleitor, hseg⟩ := loadSegment_parts base (ProgHeader.ofBytes b) { c with leitor := l } hle
          rcases hs : loadSegment base (ProgHeader.ofBytes b) { c with leitor := l } with ⟨ok, c'⟩
          rw [hs] at hleitor hseg
          dsimp only at hleitor hseg ⊢
          subst hleitor
          by_cases hok : fr = .ok ∧ bytes.length = (ProgHeader.ofBytes b).filesz.toNat
          · rw [if_pos hok] at hseg ⊢
            obtain ⟨rfl, hram⟩ := hseg
            rw [if_neg Bool.noConfusion]
            by_cases hseen : seen = 1
            · rw [if_pos hseen, if_pos hseen]
              obtain ⟨hres, hmem⟩ := ih (i + 1) (seen + 1) (patchData h base g c').1 (patchData h base g c').2
              dsimp only
              rw [hres, hmem, patchData_fst, patchData_eq, patched_leitor, sobrepoe_append, sobrepoe_append,
                sobrepoe_palavras, ← hram]
              exact ⟨rfl, rfl⟩
            · rw [if_neg hseen, if_neg hseen]
              obtain ⟨hres, hmem⟩ := ih (i + 1) (seen + 1) g c'
              dsimp only
              rw [hres, hmem, sobrepoe_append, ← hram]
              exact ⟨rfl, rfl⟩
          · rw [if_neg hok] at hseg ⊢
            obtain ⟨rfl, hram⟩ := hseg
            rw [if_pos rfl]
            exact ⟨rfl, hram⟩
        · rw [if_neg hload, if_neg hload]
          by_cases hdyn : (ProgHeader.ofBytes b).type = ptDynamic ∨ (ProgHeader.ofBytes b).type = ptShlib ∨
              (ProgHeader.ofBytes b).type = ptInterp
          · rw [if_pos hdyn, if_pos hdyn]
            exact ⟨rfl, rfl⟩
          · rw [if_neg hdyn, if_neg hdyn]
            exact ih (i + 1) seen g { c with leitor := l }

/-- The loader lays the parts of the file over the memory, and finds what can be run from the file alone. -/
theorem loadPicElf_parts (base : UInt32) (c : Carga) :
    (loadPicElf base c).1 = (partesDoArquivo c.leitor).2.map (fun e => (base + e.1, base + e.2)) ∧
      (loadPicElf base c).2.ram = sobrepoe base (partesDoArquivo c.leitor).1 c.ram := by
  rw [loadPicElf, partesDoArquivo]
  rcases hr : c.leitor.leTudo 0 52 with ⟨_ | b, l⟩
  · exact ⟨rfl, rfl⟩
  · dsimp only
    by_cases ha : aceita b = true
    · rw [if_pos ha, if_pos ha]
      obtain ⟨hres, hmem⟩ := loadLoop_parts (ElfHeader.ofBytes b) base (ElfHeader.ofBytes b).phnum.toNat 0 0 0
        { c with leitor := l }
      rcases hl : loadLoop (ElfHeader.ofBytes b) base (ElfHeader.ofBytes b).phnum.toNat 0 0 0
        { c with leitor := l } with ⟨_ | ⟨seen, g⟩, c'⟩
      · rw [hl] at hres hmem
        dsimp only at hres hmem ⊢
        rw [← hres]
        exact ⟨rfl, hmem⟩
      · rw [hl] at hres hmem
        dsimp only at hres hmem ⊢
        rw [← hres]
        refine ⟨?_, hmem⟩
        rw [Option.bind_some]
        split
        next => rfl
        next => rfl
    · rw [if_neg ha, if_neg ha]
      exact ⟨rfl, rfl⟩

end Orion68.LoaderParts
