import Orion68.Loader.Reading

namespace Orion68.LoaderElf

open Files Memory FatFs LoaderPic

/-- The bytes past the end of the file, and between it and the end of the segment. -/
def zeraBss (ph : ProgHeader) (ram : Ram) : Ram :=
  if ph.filesz < ph.memsz then
    write (ph.paddr + ph.filesz) (List.replicate (ph.memsz - ph.filesz).toNat 0) ram
  else ram

section CarregarElf32Fatfs

/-- A call of `f_read`: its result, how many bytes it was asked for and how many came. -/
structure Leitura where
  resultado : FResult
  pedido : ℕ
  bytesLidos : ℕ
  deriving DecidableEq

def Leitura.Completa (r : Leitura) : Prop := r.resultado = .ok ∧ r.bytesLidos = r.pedido

instance (r : Leitura) : Decidable r.Completa := inferInstanceAs (Decidable (_ ∧ _))

/-- `leituras` are the calls of `f_read` so far. -/
structure Carga where
  leitor : Leitor
  ram : Ram
  leituras : List Leitura

/-- `f_lseek` and `f_read`. -/
def Carga.le (ofs : UInt32) (n : ℕ) (c : Carga) : FResult × List UInt8 × Carga :=
  let (fr, bytes, l) := c.leitor.le ofs n
  (fr, bytes, { c with leitor := l, leituras := c.leituras ++ [⟨fr, n, bytes.length⟩] })

/-- The checks on the header: ELF, big-endian, with an even entry. -/
def valida (b : List UInt8) : Bool :=
  b.take 4 = [0x7F, 0x45, 0x4C, 0x46] ∧ b.getD 5 0 = 2 ∧ (ElfHeader.ofBytes b).entry &&& 1 = 0

/-- A `PT_LOAD` segment; neither the results nor the count of the bytes are looked at. -/
def carregaSegmento (ph : ProgHeader) (c : Carga) : Carga :=
  if 0 < ph.filesz then
    let (_, bytes, c) := c.le ph.offset ph.filesz.toNat
    { c with ram := zeraBss ph (write ph.paddr bytes c.ram) }
  else { c with ram := zeraBss ph c.ram }

/-- `phdr` is a local that nothing initialises: what is not read keeps what the stack holds. -/
def phdrLido (bytes : List UInt8) (lixo : Fin 32 → UInt8) : ProgHeader :=
  ProgHeader.ofBytes (overwrite 0 bytes (List.ofFn lixo))

/-- The loop over the program headers, with `n` more of them from number `i`. -/
def carregaHeaders (h : ElfHeader) (lixo : ℕ → Fin 32 → UInt8) : ℕ → ℕ → Carga → Bool × Carga
  | 0, _, c => (true, c)
  | n + 1, i, c =>
      let (fr, bytes, c) := c.le (h.phoff + UInt32.ofNat i * h.phentsize.toUInt32) 32
      if fr ≠ .ok then (false, c)
      else
        let phdr := phdrLido bytes (lixo i)
        carregaHeaders h lixo n (i + 1) (if phdr.type = ptLoad then carregaSegmento phdr c else c)

/-- The entry, or 0, with what has been loaded. -/
def carregarElf32Fatfs (caminho : Path) (v : Volume) (discos : ℕ → Disk) (lixo : ℕ → Fin 32 → UInt8) (ram : Ram) :
    UInt32 × Carga :=
  let (fr, file, v) := fOpen (discos 0) caminho faRead v
  let (frHeader, b, fil) := fRead (discos 1) 52 file v
  let aberta : Carga := ⟨⟨file, v, fun i => discos (i + 1)⟩, ram, []⟩
  let lida : Carga := ⟨⟨fil, v, fun i => discos (i + 2)⟩, ram, [⟨frHeader, 52, b.length⟩]⟩
  if fr ≠ .ok then (0, aberta)
  else if frHeader ≠ .ok ∨ b.length < 52 then (0, lida)
  else if valida b = false then (0, lida)
  else
    let h := ElfHeader.ofBytes b
    let (ok, c) := carregaHeaders h lixo h.phnum.toNat 0 lida
    (if ok then h.entry else 0, c)

end CarregarElf32Fatfs

section LoadElfExecutable

def ptNull : UInt32 := 0
def ptNote : UInt32 := 4
def ptPhdr : UInt32 := 6

def erroHeader (b : List UInt8) : Option String :=
  if b.take 4 ≠ [0x7F, 0x45, 0x4C, 0x46] ∨ b.getD 6 0 ≠ 1 then some "Bad ELF header\n"
  else if b.getD 4 0 ≠ 1 ∨ b.getD 5 0 ≠ 2 ∨ b.getD 7 0 ≠ 0 ∨ b.getD 8 0 ≠ 0 then
    some "Not a 32-bit ELF file.\n"
  else if be16 b 0x10 ≠ 2 then some "ELF file is not an executable.\n"
  else if be16 b 0x12 ≠ 4 then some "ELF file is not for 68000 processor.\n"
  else none

def loadSegment (ph : ProgHeader) (l : Leitor) (ram : Ram) : Option String × Leitor × Ram :=
  let (fr, bytes, l) := l.le ph.offset ph.filesz.toNat
  let ram := write ph.paddr bytes ram
  if fr ≠ .ok ∨ bytes.length ≠ ph.filesz.toNat then (some "Unable to read segment from ELF file.\n", l, ram)
  else (none, l, zeraBss ph ram)

/-- The body of the loop: the text of the error that ends the loading, if there is one. -/
def loadHeader (h : ElfHeader) (progIndex : ℕ) (l : Leitor) (ram : Ram) : Option String × Leitor × Ram :=
  match l.leTudo (h.segmento progIndex) 32 with
  | (none, l) => (some "Cannot read ELF program header.\n", l, ram)
  | (some b, l) =>
      let ph := ProgHeader.ofBytes b
      if ph.type = ptNull ∨ ph.type = ptNote ∨ ph.type = ptPhdr then (none, l, ram)
      else if ph.type = ptShlib ∨ ph.type = ptDynamic then
        (some "ELF executable is dynamically linked.\n", l, ram)
      else if ph.type = ptLoad then loadSegment ph l ram
      else if ph.type = ptInterp then (some "ELF executable requires an interpreter.\n", l, ram)
      else (none, l, ram)

def loadHeaders (h : ElfHeader) : ℕ → ℕ → Leitor → Ram → Option String × Leitor × Ram
  | 0, _, l, ram => (none, l, ram)
  | n + 1, progIndex, l, ram =>
      match loadHeader h progIndex l ram with
      | (some erro, l, ram) => (some erro, l, ram)
      | (none, l, ram) => loadHeaders h n (progIndex + 1) l ram

/-- Up to the call of the entry: its address, or the text of the error with which -1 is returned. -/
def loadElfExecutable (l : Leitor) (ram : Ram) : Except String UInt32 × Leitor × Ram :=
  match l.leTudo 0 52 with
  | (none, l) => (.error "Cannot read ELF file header\n", l, ram)
  | (some b, l) =>
      match erroHeader b with
      | some erro => (.error erro, l, ram)
      | none =>
          let h := ElfHeader.ofBytes b
          match loadHeaders h h.phnum.toNat 0 l ram with
          | (some erro, l, ram) => (.error erro, l, ram)
          | (none, l, ram) => (.ok h.entry, l, ram)

end LoadElfExecutable

end Orion68.LoaderElf
