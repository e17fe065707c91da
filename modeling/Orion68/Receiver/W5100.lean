import Orion68.Bios.Download
import Orion68.Shell.Vfs

namespace Orion68.Receiver

open FatFs Download Shell
open PicoServer (ofLe32)

section Chip

/-- The receive side of socket 0. The chip keeps `rxWr` to itself; what is between the two pointers
has come and has not been read. -/
structure W5100 where
  rx : Nat → UInt8
  rxRd : UInt16
  rxWr : UInt16

def s0Mask : Nat := 0x07FF

/-- The register `S0_RX_RSR`. -/
def W5100.rsr (w : W5100) : UInt16 := w.rxWr - w.rxRd

/-- Data that come from the peer, as far as the buffer of 2 KB takes them. -/
def W5100.chega (d : List UInt8) (w : W5100) : Option W5100 :=
  if w.rsr.toNat + d.length ≤ 2048 then
    some { w with
      rx := fun x => if x < 2048 then d.getD ((x + 65536 - w.rxWr.toNat) % 2048) (w.rx x) else w.rx x
      rxWr := w.rxWr + UInt16.ofNat d.length }
  else none

def W5100.chegam : List (List UInt8) → W5100 → Option W5100
  | [], w => some w
  | d :: ds, w => (w.chega d).bind (W5100.chegam ds)

/-- `w5100_get_rx_size`, where each of `durante` comes between the two reads of a round; those that
have not come by then come afterwards. -/
def W5100.getRxSize : List (List UInt8) → W5100 → Option (UInt16 × W5100)
  | [], w => some (w.rsr, w)
  | d :: ds, w =>
      if w.rsr = 0 then (w.chegam (d :: ds)).map fun w' => (0, w')
      else
        (w.chega d).bind fun w' =>
          if w'.rsr = w.rsr then (w'.chegam ds).map fun w'' => (w.rsr, w'') else w'.getRxSize ds

/-- `w5100_recv_bytes`, up to where the bytes go. -/
def W5100.recvBytes (len : UInt16) (w : W5100) : List UInt8 × W5100 :=
  ((List.range len.toNat).map fun i => w.rx ((w.rxRd.toNat + i) &&& s0Mask), { w with rxRd := w.rxRd + len })

end Chip

section Loop

def bufferArquivo : Nat := 0x00092000

/-- Where the stack of `bios68.ld` lies, at the end of the RAM. Addresses have no end here; up to which size a
file stays below the stack is told by `stores_below_stack`. -/
def stackStart : Nat := 0x00100000 - 0x2000

def sockClosed : UInt8 := 0x00
def sockInit : UInt8 := 0x13
def sockEstablished : UInt8 := 0x17
def sockCloseWait : UInt8 := 0x1C

def crOpen : UInt8 := 0x01
def crListen : UInt8 := 0x02
def crDiscon : UInt8 := 0x08
def crSend : UInt8 := 0x20
def crRecv : UInt8 := 0x40

inductive Estado
  | header
  | payload
  deriving DecidableEq

/-- The receiver with its chip: `comandos` has been written to `S0_CR`, `enviados` has been sent,
and `lidos` has been read since the socket was opened. At the end (`fim`) the loop has returned 0. -/
structure Receptor where
  w : W5100
  ram : Nat → UInt8
  estado : Estado
  tamanhoTotal : UInt32
  bytesRecebidos : UInt32
  comandos : List UInt8
  enviados : List (List UInt8)
  lidos : List UInt8
  fim : Bool

def guarda (a : Nat) (d : List UInt8) (ram : Nat → UInt8) : Nat → UInt8 :=
  fun x => if a ≤ x then d.getD (x - a) (ram x) else ram x

/-- Before the loop is entered; nothing has come yet. -/
def Receptor.inicial (rx : Nat → UInt8) (ptr : UInt16) (ram : Nat → UInt8) : Receptor :=
  ⟨⟨rx, ptr, ptr⟩, ram, .header, 0, 0, [], [], [], false⟩

def faseCabecalho (rxAvail : UInt16) (r : Receptor) : Receptor :=
  if 21 ≤ rxAvail then
    let (cabecalhoRaw, w) := r.w.recvBytes 21
    { r with
      w := w
      ram := guarda bufferArquivo cabecalhoRaw r.ram
      estado := .payload
      tamanhoTotal := ofLe32 cabecalhoRaw
      bytesRecebidos := 21
      comandos := r.comandos ++ [crRecv]
      lidos := r.lidos ++ cabecalhoRaw }
  else r

def fasePayload (rxAvail : UInt16) (r : Receptor) : Receptor :=
  if 0 < rxAvail then
    let restante := r.tamanhoTotal - r.bytesRecebidos
    let bloco := if rxAvail.toUInt32 < restante then rxAvail else restante.toUInt16
    let (dados, w) := r.w.recvBytes bloco
    let r := { r with
      w := w
      ram := guarda (bufferArquivo + r.bytesRecebidos.toNat) dados r.ram
      bytesRecebidos := r.bytesRecebidos + bloco.toUInt32
      comandos := r.comandos ++ [crRecv]
      lidos := r.lidos ++ dados }
    if r.tamanhoTotal ≤ r.bytesRecebidos then
      { r with
        estado := .header
        comandos := r.comandos ++ [crSend, crDiscon]
        enviados := r.enviados ++ [text "Arq lido"]
        fim := true }
    else r
  else r

/-- The case of an established connection, with the size that has been read. -/
def atende (rxAvail : UInt16) (r : Receptor) : Receptor :=
  match r.estado with
  | .header => faseCabecalho rxAvail r
  | .payload => fasePayload rxAvail r

/-- `w5100_getter_loop` when `S0_SR` reads `sr` and `durante` comes while it asks for the size. -/
def w5100GetterLoop (sr : UInt8) (durante : List (List UInt8)) (r : Receptor) : Option Receptor :=
  if sr = sockClosed then
    some { r with
      w := { r.w with rxWr := r.w.rxRd }
      estado := .header
      bytesRecebidos := 0
      comandos := r.comandos ++ [crOpen]
      lidos := [] }
  else if sr = sockInit then some { r with comandos := r.comandos ++ [crListen] }
  else if sr = sockEstablished then
    (r.w.getRxSize durante).map fun (rxAvail, w) => atende rxAvail { r with w := w }
  else if sr = sockCloseWait then some { r with comandos := r.comandos ++ [crDiscon], fim := true }
  else some r

inductive Evento
  | chega (d : List UInt8)
  | sonda (sr : UInt8) (durante : List (List UInt8))

/-- `main` calls the loop until it returns 0. -/
def step (e : Evento) (r : Receptor) : Option Receptor :=
  if r.fim then some r
  else
    match e with
    | .chega d => (r.w.chega d).map fun w => { r with w := w }
    | .sonda sr durante => w5100GetterLoop sr durante r

def Nomeia (ram : Nat → UInt8) (nome : Path) : Prop :=
  (∀ i (h : i < nome.length), ram (bufferArquivo + 8 + i) = nome[i]) ∧ ram (bufferArquivo + 8 + nome.length) = 0

/-- `saving_file`, when the name in the buffer is `nome`. -/
def savingFile (abre escreve fecha : Disk) (nome : Path) (r : Receptor) (v : Volume) : Bool × Volume :=
  let tamanho := r.tamanhoTotal
  if tamanho = 0 then (false, v)
  else gravaArquivo abre escreve fecha nome
    ((List.range tamanho.toNat).map fun i => r.ram (bufferArquivo + 21 + i)) v

end Loop

end Orion68.Receiver
