import Orion68.Loader.Bounds
import Orion68.Loader.FileParts
import Mathlib.Data.List.Infix

namespace Orion68.Standalone

open Memory FatFs Shell LoaderBounds LoaderParts
open LoaderPic hiding slotsAlloc slotsFree loadPicElfStandalone

/-- The pointers of an argument vector, as the strings they lead to. -/
abbrev Argv := ℕ → Option Path

/-- What `call_with_a5` runs: it is given the entry, A5 and the arguments. -/
abbrev Programa := UInt32 → UInt32 → ℕ → Argv → Carga → Int × Carga

section Code

/-- Where `slot_in_use[i]` is; the table is in the memory that the loader stores to. -/
def slotInUse (tabela : UInt32) (i : Slot) : UInt32 := tabela + UInt32.ofNat i.val

def slotsAlloc (tabela : UInt32) (m : Ram) : Option Slot × Ram :=
  match (List.finRange 10).find? fun i => m (slotInUse tabela i) = 0 with
  | some i => (some i, write (slotInUse tabela i) [1] m)
  | none => (none, m)

def slotsFree (tabela : UInt32) (i : Slot) (c : Carga) : Carga := { c with ram := write (slotInUse tabela i) [0] c.ram }

/-- `marca` is a store to `slot_in_use`, and `roda` the call of the program, with the memory it finds. -/
inductive Evento
  | imprime (mensagem : String)
  | abre (caminho : Path) (modo : UInt8)
  | marca (i : Slot) (emUso : Bool)
  | roda (entry a5 : UInt32) (m : Ram)

/-- What a call returns and leaves behind, and what has happened. -/
structure Retorno where
  ret : Int
  carga : Carga
  eventos : List Evento

/-- To its return; `fail` is the second of the two ways out with the slot. -/
def loadPicElfStandalone (tabela : UInt32) (programa : Programa) (argc : ℕ) (argv : Argv) (c : Carga) : Retorno :=
  match slotsAlloc tabela c.ram with
  | (none, _) => ⟨-1, c, []⟩
  | (some i, m) =>
      match loadPicElf (slotsBaseAddr i) { c with ram := m } with
      | (some (entry, a5), c) =>
          let (ret, c') := programa entry a5 argc argv c
          ⟨ret, slotsFree tabela i c', [.marca i true, .roda entry a5 c.ram, .marca i false]⟩
      | (none, c) => ⟨-1, slotsFree tabela i c, [.marca i true, .marca i false]⟩

end Code

section Slots

def Livre (tabela : UInt32) (m : Ram) (i : Slot) : Prop :=
  m (slotInUse tabela i) = 0 ∧ ∀ j < i, m (slotInUse tabela j) ≠ 0

/-- The parts of the file, laid over the memory from slot `i` on, agree with the table in the bytes of the
other slots, and the file is not one that can be run and puts a zero in the byte of its own. -/
def Inofensivo (tabela : UInt32) (i : Slot) (c : Carga) : Prop :=
  let m := sobrepoe (slotsBaseAddr i) (partesDoArquivo c.leitor).1 (write (slotInUse tabela i) [1] c.ram)
  (∀ j, j ≠ i → m (slotInUse tabela j) = c.ram (slotInUse tabela j)) ∧
    ((partesDoArquivo c.leitor).2.isSome → m (slotInUse tabela i) ≠ 0)

instance (tabela : UInt32) (i : Slot) (c : Carga) : Decidable (Inofensivo tabela i c) :=
  inferInstanceAs (Decidable (_ ∧ _))

variable {tabela : UInt32} {m : Ram} {c : Carga} {i j : Slot} {programa : Programa}

theorem slotInUse_injective (h : slotInUse tabela i = slotInUse tabela j) : i = j := by
  have hnat := congrArg UInt32.toNat ((UInt32.add_right_inj _).mp h)
  have hlt (i : Slot) : i.val < UInt32.size := Nat.lt_trans i.isLt (by decide)
  rw [UInt32.toNat_ofNat_of_lt' (hlt i), UInt32.toNat_ofNat_of_lt' (hlt j)] at hnat
  exact Fin.ext hnat

theorem write_slot_self (b : UInt8) : write (slotInUse tabela i) [b] m (slotInUse tabela i) = b := by
  rw [write, UInt32.sub_self]
  rfl

theorem write_slot_of_ne (b : UInt8) (h : j ≠ i) :
    write (slotInUse tabela i) [b] m (slotInUse tabela j) = m (slotInUse tabela j) := by
  apply write_of_notMem
  rw [Span.mem_iff]
  intro hlt
  have hzero : (slotInUse tabela j - slotInUse tabela i).toNat = 0 := Nat.lt_one_iff.mp hlt
  have heq := UInt32.sub_eq_iff_eq_add.mp (UInt32.toNat_inj.mp hzero : slotInUse tabela j - slotInUse tabela i = 0)
  rw [UInt32.zero_add] at heq
  exact h (slotInUse_injective heq)

theorem Livre.unique (hi : Livre tabela m i) (hj : Livre tabela m j) : i = j := by
  rcases lt_trichotomy i j with hlt | heq | hlt
  · exact absurd hi.1 (hj.2 i hlt)
  · exact heq
  · exact absurd hj.1 (hi.2 j hlt)

theorem inofensivo_of_apart (h : ∀ p ∈ (partesDoArquivo c.leitor).1, ∀ j, slotInUse tabela j ∉ p.span (slotsBaseAddr i)) :
    Inofensivo tabela i c := by
  have hsame (j : Slot) := sobrepoe_of_notMem (m := write (slotInUse tabela i) [1] c.ram) fun p hp => h p hp j
  constructor
  · intro j hj
    rw [hsame, write_slot_of_ne 1 hj]
  · intro _
    rw [hsame, write_slot_self]
    decide

def emUso (tabela : UInt32) (m : Ram) : SlotTable := fun j => decide (m (slotInUse tabela j) ≠ 0)

theorem roda_iff (tabela : UInt32) (programa : Programa) (argc : ℕ) (argv : Argv) (c : Carga) (entry a5 : UInt32) :
    (∃ m, .roda entry a5 m ∈ (loadPicElfStandalone tabela programa argc argv c).eventos) ↔
      (LoaderPic.loadPicElfStandalone (emUso tabela c.ram) c).1 = .chama entry a5 := by
  have halloc : (LoaderPic.slotsAlloc (emUso tabela c.ram)).1 = (slotsAlloc tabela c.ram).1 := by
    have hpred : (fun i => !emUso tabela c.ram i) = fun i => decide (c.ram (slotInUse tabela i) = 0) := by
      funext i
      simp [emUso]
    rw [LoaderPic.slotsAlloc, slotsAlloc, hpred]
    cases (List.finRange 10).find? fun i => decide (c.ram (slotInUse tabela i) = 0) <;> rfl
  rw [loadPicElfStandalone, LoaderPic.loadPicElfStandalone]
  rcases ha : LoaderPic.slotsAlloc (emUso tabela c.ram) with ⟨r, t⟩
  rcases hb : slotsAlloc tabela c.ram with ⟨r', m⟩
  rw [ha, hb] at halloc
  dsimp only at halloc
  subst halloc
  cases r with
  | none => simp
  | some i =>
      dsimp only
      have hsame : (loadPicElf (slotsBaseAddr i) { c with ram := m }).1 = (loadPicElf (slotsBaseAddr i) c).1 := by
        rw [(loadPicElf_parts _ _).1, (loadPicElf_parts _ _).1]
      rcases hl : loadPicElf (slotsBaseAddr i) c with ⟨r, c₁⟩
      rcases hl' : loadPicElf (slotsBaseAddr i) { c with ram := m } with ⟨r', c₂⟩
      rw [hl, hl'] at hsame
      dsimp only at hsame
      subst hsame
      rcases r' with _ | ⟨entry', a5'⟩
      · simp
      · simp [eq_comm]

end Slots

section LoaderPic

/-- The filter of the names: `strstr` as the standard has it, which finds the second string in the
first. -/
def strstrAcha (str1 str2 : Path) : Bool := decide (str2 <:+: str1)

/-- What `loader_pic` finds: where `slot_in_use` is, the memory, the volume and the drive; `nulo` is the
string that address 0 leads to. -/
structure Maquina where
  tabela : UInt32
  ram : Ram
  volume : Volume
  discos : ℕ → Disk
  nulo : Path

def loaderPic (programa : Programa) (argc : ℕ) (argv : Argv) (m : Maquina) : Int × List Evento :=
  match argv 0 with
  | none => (1, [.imprime "No parameters passed\n"])
  | some nome =>
      if strstrAcha (text ".elf") nome = false then (1, [.imprime "File is not an executable\n"])
      else
        let caminho := (argv 1).getD m.nulo
        let (fr, fil, volume) := fOpen (m.discos 0) caminho faRead m.volume
        if fr ≠ .ok then (0, [.abre caminho faRead, .imprime "Erro ao tentar abrir o arquivo\n"])
        else
          let c := ⟨⟨fil, volume, fun i => m.discos (i + 1)⟩, m.ram, []⟩
          (0, .abre caminho faRead :: (loadPicElfStandalone m.tabela programa argc argv c).eventos)

def Abre (eventos : List Evento) : Prop := ∃ caminho modo, .abre caminho modo ∈ eventos

def Recusa (eventos : List Evento) : Prop := .imprime "File is not an executable\n" ∈ eventos

def FiltraElf (nome : Path) (eventos : List Evento) : Prop :=
  (Abre eventos ↔ text ".elf" <:+: nome) ∧ (¬ text ".elf" <:+: nome → Recusa eventos ∧ ¬ Abre eventos)

variable {argv : Argv} {nome : Path} (programa : Programa) (argc : ℕ) (m : Maquina)

theorem loaderPic_opens (h0 : argv 0 = some nome) (h : nome <:+: text ".elf") :
    Abre (loaderPic programa argc argv m).2 := by
  have hacha : strstrAcha (text ".elf") nome = true := decide_eq_true h
  refine ⟨(argv 1).getD m.nulo, faRead, ?_⟩
  rw [loaderPic, h0]
  dsimp only
  rw [hacha, if_neg (by decide)]
  split <;> simp

theorem loaderPic_refuses (h0 : argv 0 = some nome) (h : ¬ nome <:+: text ".elf") :
    Recusa (loaderPic programa argc argv m).2 ∧ ¬ Abre (loaderPic programa argc argv m).2 := by
  have hacha : strstrAcha (text ".elf") nome = false := decide_eq_false h
  rw [loaderPic, h0]
  dsimp only
  rw [hacha, if_pos rfl, Recusa, Abre]
  constructor
  · simp
  · simp

/-- The strings stand the wrong way round: the filter is right for a name when neither of the two
contains the other, or when they are the same. -/
theorem filters_elf_iff (h0 : argv 0 = some nome) :
    FiltraElf nome (loaderPic programa argc argv m).2 ↔
      nome = text ".elf" ∨ ¬ text ".elf" <:+: nome ∧ ¬ nome <:+: text ".elf" := by
  by_cases h : nome <:+: text ".elf"
  · have habre := loaderPic_opens programa argc m h0 h
    constructor
    · rintro ⟨hiff, -⟩
      have helf := hiff.mp habre
      exact .inl (h.eq_of_length_le helf.length_le)
    · rintro (rfl | ⟨-, hnot⟩)
      · exact ⟨iff_of_true habre h, fun hnot => absurd h hnot⟩
      · exact absurd h hnot
  · obtain ⟨hrecusa, hnao⟩ := loaderPic_refuses programa argc m h0 h
    constructor
    · rintro ⟨hiff, -⟩
      exact .inr ⟨fun helf => hnao (hiff.mpr helf), h⟩
    · rintro (rfl | ⟨helf, -⟩)
      · exact absurd List.infix_rfl h
      · exact ⟨iff_of_false hnao helf, fun _ => ⟨hrecusa, hnao⟩⟩

/-- A machine with nothing on the volume. -/
def vazia : Maquina := ⟨0x88988, fun _ => 0, fun _ => .none, fun _ => ⟨.ok, 0, fun _ => 0⟩, []⟩

def argvDe (nome : Path) : Argv := fun i => if i < 2 then some nome else none

def chamada (nome : Path) : List Evento := (loaderPic (fun _ _ _ _ c => (0, c)) 2 (argvDe nome) vazia).2

theorem txt_refused : FiltraElf (text "prog.txt") (chamada (text "prog.txt")) := by
  have hname : argvDe (text "prog.txt") 0 = some (text "prog.txt") := rfl
  apply (filters_elf_iff _ 2 vazia hname).mpr
  exact .inr ⟨by decide, by decide⟩

/-- An ordinary program is not taken for one. -/
theorem elf_refused : ¬ FiltraElf (text "prog.elf") (chamada (text "prog.elf")) ∧
    Recusa (chamada (text "prog.elf")) := by
  have hname : argvDe (text "prog.elf") 0 = some (text "prog.elf") := rfl
  obtain ⟨hrecusa, hnao⟩ := loaderPic_refuses (fun _ _ _ _ c => (0, c)) 2 vazia hname (by decide)
  refine ⟨?_, hrecusa⟩
  intro hfiltra
  exact hnao (hfiltra.1.mpr (by decide))

end LoaderPic

end Orion68.Standalone
