import Orion68.Receiver.W5100
import Orion68.Lib.Memory

namespace Orion68.DhcpClient

open Memory Receiver

section Registers

def W5100_SHAR : ℕ := 0x0009
def W5100_SIPR : ℕ := 0x000F
def S0_MR : ℕ := 0x0400
def S0_PORT : ℕ := 0x0404
def S0_DIPR : ℕ := 0x040C
def S0_DPORT : ℕ := 0x0410

def DHCP_DISCOVER : UInt8 := 1
def DHCP_OFFER : UInt8 := 2
def DHCP_REQUEST : UInt8 := 3
def DHCP_ACK : UInt8 := 5

def OFF_YIADDR : ℕ := 16
def OFF_SIADDR : ℕ := 20
def OFF_OPTIONS : ℕ := 240

/-- `rx_buf`; nothing initialises it. -/
abbrev RxBuf := Fin 320 → UInt8

/-- The chip, the registers that are only written, what is in `rx_buf`, and the packets sent. -/
structure Cliente where
  w : W5100
  regs : ℕ → UInt8
  rxBuf : RxBuf
  enviados : List (List UInt8)

def Cliente.escreve (reg : ℕ) (d : List UInt8) (s : Cliente) : Cliente := { s with regs := guarda reg d s.regs }

end Registers

section Receiving

/-- One round of `wait_rx_at_least`: what comes while the size is read, and the clock after it. -/
structure Sonda where
  chegam : List (List UInt8)
  systick : UInt32

/-- A call of `wait_rx_at_least`: the clock at its start, and its rounds. -/
structure Espera where
  inicio : UInt32
  sondas : List Sonda

/-- The loop of `wait_rx_at_least`; `none` when it goes on after the last of the rounds. -/
def waitLoop (minBytes : UInt16) (timeoutMs start : UInt32) : List Sonda → W5100 → Option (Bool × W5100)
  | [], _ => none
  | sonda :: sondas, w =>
      (w.getRxSize sonda.chegam).bind fun (size, w) =>
        if size < minBytes then
          if timeoutMs ≤ sonda.systick * 10 - start then some (false, w)
          else waitLoop minBytes timeoutMs start sondas w
        else some (true, w)

def waitRxAtLeast (minBytes : UInt16) (timeoutMs : UInt32) (espera : Espera) (w : W5100) : Option (Bool × W5100) :=
  waitLoop minBytes timeoutMs (espera.inicio * 10) espera.sondas w

/-- The loop that discards what does not fit, for at most `n` rounds. -/
def descarta : ℕ → UInt16 → W5100 → W5100
  | 0, _, w => w
  | n + 1, remaining, w =>
      if 0 < remaining then
        let chunk := if remaining < 32 then remaining else 32
        descarta n (remaining - chunk) (w.recvBytes chunk).2
      else w

/-- Bytes written to `rx_buf` from its start on. -/
def copia (d : List UInt8) (rxBuf : RxBuf) : RxBuf := fun j => d.getD j.val (rxBuf j)

/-- `w5100_recv_udp_packet`, up to where the bytes go: the size of the datagram, and what is copied
of it. -/
def recvUdpPacket (bufCap : UInt16) (w : W5100) : UInt16 × List UInt8 × W5100 :=
  let (udpHeader, w) := w.recvBytes 8
  let dataLen := (udpHeader.getD 6 0).toUInt16 <<< 8 ||| (udpHeader.getD 7 0).toUInt16
  let toCopy := if dataLen < bufCap then dataLen else bufCap
  let (d, w) := if 0 < toCopy then w.recvBytes toCopy else ([], w)
  let remaining := dataLen - toCopy
  (dataLen, d, descarta remaining.toNat remaining w)

end Receiving

section Packets

/-- `enviar_pacote_dhcp`; `ids` are `req_ip` and `server_ip`. -/
def enviarPacoteDhcp (msgType : UInt8) (xid : UInt32) (mac hostname : List UInt8)
    (ids : Option (List UInt8 × List UInt8)) (s : Cliente) : Cliente :=
  let len := UInt8.ofNat hostname.length
  let opt := [53, 1, msgType] ++
    (match ids with
      | some (reqIp, serverIp) => if msgType = DHCP_REQUEST then [50, 4] ++ reqIp ++ [54, 4] ++ serverIp else []
      | none => []) ++
    [12, len] ++ hostname.take len.toNat ++ [55, 3, 1, 3, 6] ++ [0xFF]
  let pkt := [1, 1, 6, 0] ++ bytes32 xid ++ [0x00, 0x00, 0x80, 0x00] ++ List.replicate 16 0 ++ mac.take 6 ++
    List.replicate 202 0 ++ bytes32 0x63825363 ++ opt
  { s with enviados := s.enviados ++ [pkt ++ List.replicate (300 - pkt.length) 0] }

def quatro (raw : ℕ → UInt8) (i : ℕ) : List UInt8 := [raw i, raw (i + 1), raw (i + 2), raw (i + 3)]

/-- The loop over the options, with `msg_type` and `out_server_ip`; `n` rounds are enough. -/
def parseLoop (raw : ℕ → UInt8) (rawLen : ℕ) : ℕ → ℕ → UInt8 → List UInt8 → UInt8 × List UInt8
  | 0, _, msgType, serverIp => (msgType, serverIp)
  | n + 1, i, msgType, serverIp =>
      if i < rawLen ∧ raw i ≠ 0xFF then
        let code := raw i
        if code = 0 then parseLoop raw rawLen n (i + 1) msgType serverIp
        else
          let optLen := raw (i + 1)
          parseLoop raw rawLen n (i + 2 + optLen.toNat)
            (if code = 53 ∧ optLen = 1 then raw (i + 2) else msgType)
            (if code = 54 ∧ optLen = 4 then quatro raw (i + 2) else serverIp)
      else (msgType, serverIp)

def parseDhcpOptions (raw : ℕ → UInt8) (rawLen : ℕ) (serverIp : List UInt8) : UInt8 × List UInt8 :=
  parseLoop raw rawLen (rawLen - OFF_OPTIONS) OFF_OPTIONS 0 serverIp

end Packets

section Request

def mac : List UInt8 := [0x00, 0x23, 0x69, 0x44, 0x52, 0x5C]

def ip : List UInt8 := [192, 168, 1, 48]

/-- What is around a call: what the chip makes of each `CR_OPEN`, and the two waits. -/
structure Ambiente where
  aberto : W5100 → W5100
  reaberto : W5100 → W5100
  oferta : Espera
  confirmacao : Espera

def prepara (aberto : W5100 → W5100) (s : Cliente) : Cliente :=
  let s := s.escreve W5100_SHAR mac
  let s := s.escreve W5100_SIPR ip
  let s := s.escreve S0_MR [0x02]
  let s := s.escreve S0_PORT [0, 68]
  let s := { s with w := aberto s.w }
  let s := s.escreve S0_DIPR [255, 255, 255, 255]
  s.escreve S0_DPORT [0, 67]

/-- `rx_buf`, and what is behind it: the parser does not stay within its 320 bytes. -/
def vista (rxBuf : RxBuf) (alem : ℕ → UInt8) : ℕ → UInt8 := fun j => if h : j < 320 then rxBuf ⟨j, h⟩ else alem j

/-- A datagram is received into `rx_buf`. -/
def Cliente.recebe (w : W5100) (s : Cliente) : Cliente :=
  let pacote := recvUdpPacket 320 w
  { s with w := pacote.2.2, rxBuf := copia pacote.2.1 s.rxBuf }

/-- What is made of the second packet; a NAK and any other packet end the same way. -/
def conclui (alem : ℕ → UInt8) (s : Cliente) : ℕ × Cliente :=
  let msgType := (parseDhcpOptions (vista s.rxBuf alem) 320 [0, 0, 0, 0]).1
  if msgType ≠ DHCP_ACK then (0, s) else (1, s.escreve W5100_SIPR (quatro (vista s.rxBuf alem) OFF_YIADDR))

def faseRequest (amb : Ambiente) (alem : ℕ → UInt8) (xid : UInt32) (hostname offeredIp serverIp : List UInt8)
    (s : Cliente) : Option (ℕ × Cliente) :=
  let s := enviarPacoteDhcp DHCP_REQUEST xid mac hostname (some (offeredIp, serverIp)) (prepara amb.reaberto s)
  (waitRxAtLeast 240 50000 amb.confirmacao s.w).map fun
    | (false, w) => (0, { s with w := w })
    | (true, w) => conclui alem (s.recebe w)

def requisita (amb : Ambiente) (alem1 alem2 : ℕ → UInt8) (xid : UInt32) (hostname : List UInt8) (s : Cliente) :
    Option (ℕ × Cliente) :=
  let offeredIp := quatro (vista s.rxBuf alem1) OFF_YIADDR
  let options := parseDhcpOptions (vista s.rxBuf alem1) 320 [0, 0, 0, 0]
  if options.1 ≠ DHCP_OFFER then some (0, s)
  else
    let serverIp := if options.2 = [0, 0, 0, 0] then quatro (vista s.rxBuf alem1) OFF_SIADDR else options.2
    faseRequest amb alem2 xid hostname offeredIp serverIp s

/-- `alem1` and `alem2` lie behind `rx_buf` when the two packets are parsed; `none` when a wait does
not end. -/
def w5100DhcpRequest (amb : Ambiente) (alem1 alem2 : ℕ → UInt8) (xid : UInt32) (hostname : List UInt8)
    (s : Cliente) : Option (ℕ × Cliente) :=
  let s := enviarPacoteDhcp DHCP_DISCOVER xid mac hostname none (prepara amb.aberto s)
  (waitRxAtLeast 240 30000 amb.oferta s.w).bind fun
    | (false, w) => some (0, { s with w := w })
    | (true, w) => requisita amb alem1 alem2 xid hostname (s.recebe w)

end Request

end Orion68.DhcpClient
