import Orion68.Loader.ElfAgreement
import Orion68.Loader.Bounds

namespace Orion68.ElfStart

open Memory FatFs LoaderReading LoaderBounds LoaderElf LoaderElfAgreement
open LoaderPic hiding Carga loadSegment loadHeader

/-- What is found at an address that is called: it is given the arguments and the memory, and returns
a value with the memory that it leaves. -/
abbrev Funcao := UInt32 → ℕ → (ℕ → UInt32) → Ram → Int × Ram

/-- What is returned, the calls of the entry with the memory they find, and what is printed. -/
structure Retorno where
  ret : Int
  ram : Ram
  chamadas : List (UInt32 × Ram)
  erro : Option String

def loadElfExecutable (funcao : Funcao) (argc : ℕ) (argv : ℕ → UInt32) (l : Leitor) (ram : Ram) : Retorno :=
  match LoaderElf.loadElfExecutable l ram with
  | (.error erro, _, ram) => ⟨-1, ram, [], some erro⟩
  | (.ok entry, _, ram) =>
      let (ret, ram') := funcao entry argc argv ram
      ⟨ret, ram', [(entry, ram)], none⟩

section Image

/-- What a segment is in memory: its bytes of the file, and zeros up to its size. -/
def bytesSegmento (f : List UInt8) (ph : ProgHeader) : List UInt8 :=
  slice f ph.offset ph.filesz.toNat ++ List.replicate (ph.memsz.toNat - ph.filesz.toNat) 0

/-- The memory with the segments of the file written over it, in the order of their headers. -/
def carregada (f : List UInt8) (ram : Ram) : Ram :=
  (loads f).foldl (fun m ph => write ph.paddr (bytesSegmento f ph) m) ram

variable {f : List UInt8}

theorem segmento_write {ph : ProgHeader} (h : Dentro f ph.offset ph.filesz.toNat) (ram : Ram) :
    zeraBss ph (write ph.paddr (slice f ph.offset ph.filesz.toNat) ram) =
      write ph.paddr (bytesSegmento f ph) ram := by
  have hlen := length_slice_iff.mpr h
  have hfile := ph.filesz.toNat_lt
  have hmem := ph.memsz.toNat_lt
  rw [zeraBss, bytesSegmento]
  by_cases hlt : ph.filesz < ph.memsz
  · have hle := UInt32.le_of_lt hlt
    have happend := write_append ph.paddr (slice f ph.offset ph.filesz.toNat)
      (List.replicate (ph.memsz.toNat - ph.filesz.toNat) 0) ram (by rw [hlen, List.length_replicate]; omega)
      (by rwa [hlen])
    rw [hlen, UInt32.ofNat_toNat] at happend
    rw [if_pos hlt, UInt32.toNat_sub_of_le _ _ hle, happend]
  · have hge := UInt32.le_iff_toNat_le.mp (UInt32.not_lt.mp hlt)
    rw [if_neg hlt, Nat.sub_eq_zero_of_le hge, List.replicate_zero, List.append_nil]

theorem imagem_eq_foldl (n i : ℕ) (h : ∀ k, i ≤ k → k < i + n → Contido f k) (ram : Ram) :
    imagem f n i ram = (((List.range' i n).map (programHeader f)).filter fun ph => ph.type = ptLoad).foldl
      (fun m ph => write ph.paddr (bytesSegmento f ph) m) ram := by
  induction n generalizing i ram with
  | zero => rfl
  | succ n ih =>
      have hrest : ∀ k, i + 1 ≤ k → k < i + 1 + n → Contido f k := fun k hk hlt => h k (by omega) (by omega)
      obtain ⟨-, hsegment⟩ := h i (Nat.le_refl i) (by omega)
      rw [imagem, ih (i + 1) hrest, List.range'_succ, List.map_cons, List.filter_cons, segmentoEm]
      by_cases hload : (programHeader f i).type = ptLoad
      · rw [if_pos hload, if_pos (decide_eq_true hload), segmento_write (hsegment hload), List.foldl_cons]
      · rw [if_neg hload, if_neg (by simpa using hload)]

theorem imagem_eq_carregada (h : ElfAceito f) (ram : Ram) :
    imagem f (header f).phnum.toNat 0 ram = carregada f ram := by
  have hall : ∀ k, 0 ≤ k → k < 0 + (header f).phnum.toNat → Contido f k :=
    fun k _ hk => (h.2.2 k (by omega)).1
  rw [imagem_eq_foldl _ 0 hall, ← List.range_eq_range']
  rfl

end Image

section Start

variable {f : List UInt8} {l : Leitor}

/-- The entry is called when FatFs reads all that it is asked for and the file is accepted, with the
segments in memory and nothing else changed; otherwise -1 is returned, and it is not called. -/
theorem starts_iff (h : Aberto f l) (funcao : Funcao) (argc : ℕ) (argv : ℕ → UInt32) (ram : Ram) :
    ((Responde l (chamadasElf f) ∧ ElfAceito f) ∧
        (loadElfExecutable funcao argc argv l ram).chamadas = [((header f).entry, carregada f ram)] ∧
        (loadElfExecutable funcao argc argv l ram).ret =
          (funcao (header f).entry argc argv (carregada f ram)).1) ∨
      ¬ (Responde l (chamadasElf f) ∧ ElfAceito f) ∧
        (loadElfExecutable funcao argc argv l ram).chamadas = [] ∧
        (loadElfExecutable funcao argc argv l ram).ret = -1 := by
  rcases loadElfExecutable_cases h ram with ⟨hresponde, haceito, l', hload⟩ | ⟨hnot, erro, l', ram', hload⟩
  · rw [imagem_eq_carregada haceito] at hload
    rw [loadElfExecutable, hload]
    exact .inl ⟨⟨hresponde, haceito⟩, rfl, rfl⟩
  · rw [loadElfExecutable, hload]
    exact .inr ⟨hnot, rfl, rfl⟩

def devolveTres : Funcao := fun _ _ _ ram => (3, ram)

/-- A program with zeros alone is called with them in memory. -/
theorem starts_bss :
    (loadElfExecutable devolveTres 0 (fun _ => 0) (bssFile 0x1000 0x20) fun _ => 1).chamadas =
      [((header (bssAt 0x1000 0x20)).entry, carregada (bssAt 0x1000 0x20) fun _ => 1)] := by
  have haberto : Aberto (bssAt 0x1000 0x20) (bssFile 0x1000 0x20) := ⟨rfl, by decide, by decide, rfl⟩
  rcases starts_iff haberto devolveTres 0 (fun _ => 0) fun _ => 1 with ⟨-, hcall, -⟩ | ⟨-, -, hret⟩
  · exact hcall
  · exact absurd hret (by decide +kernel)

end Start

end Orion68.ElfStart
