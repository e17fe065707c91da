import Orion68.Bios.Save2

namespace Orion68.Interrupts

open Runs Interactions Memory FatFs PicoBus PicoBusRuns PicoW ReceberArquivo Save2

def mascara (sr : UInt16) : UInt16 := sr >>> 8 &&& 7

def m68kDisableAllInterrupts (sr : UInt16) : UInt16 := sr ||| 0x0200

def m68kEnableAllInterrupts (sr : UInt16) : UInt16 := sr &&& 0xF8FF

/-- What the processor makes of the status register when it accepts an interrupt of level 2. -/
def srNivel2 (sr : UInt16) : UInt16 := sr &&& 0x78FF ||| 0x2200

abbrev Drive := Fin 2

def isTerminator (c : UInt8) : Bool := c < 0x21

def isDigit (c : UInt8) : Bool := 0x30 ≤ c && c ≤ 0x39

/-- The volume that a path leads to, `none` when its drive number is not valid. -/
def getLdnumber (currVol : Drive) (path : Path) : Option Drive :=
  match path.find? fun c => isTerminator c || c == 0x3A with
  | some 0x3A =>
      match path with
      | d :: 0x3A :: _ => if h : isDigit d ∧ d.toNat - 0x30 < 2 then some ⟨d.toNat - 0x30, h.2⟩ else none
      | _ => none
  | _ => some currVol

/-- Foreground code, outside FatFs or in a call on a volume; `setor` tells that the call is between `LOCK`
and `UNLOCK`. The last two are history that no code reads: how many sectors the call has transferred,
and the status register it began with. -/
inductive Fundo
  | fora
  | emFatFs (drive : Drive) (setor : Bool) (setores : ℕ) (entrada : UInt16)

inductive Chamada
  | fOpen
  | fWrite
  | fClose

/-- How far `Int2Handler` has come: in a call of FatFs that `do_save2` makes, behind one, or at its end,
with `do_save2` called or not. -/
inductive Ponto
  | emFatFs (c : Chamada) (drive : Option Drive) (setor : Bool)
  | voltou (c : Chamada) (drive : Option Drive) (ok : Bool)
  | fim (salvou : Bool)

/-- A run of `Int2Handler`, with the status register that `rte` brings back, and how many sectors its
calls of FatFs have transferred. -/
structure Quadro where
  sr : UInt16
  ponto : Ponto
  setores : ℕ

/-- The 68k and the Pico; the innermost run of the handler comes first in `quadros`, and the foreground
goes on when there is none. -/
structure Maquina where
  sr : UInt16
  systemTick : UInt32
  tickCount : UInt16
  led : Bool
  pico : Pico
  ram : Ram
  currVol : Drive
  fundo : Fundo
  quadros : List Quadro

/-- Around an access of `do_save2`: the callbacks that come before it, and the byte that it finds when
the Pico has none at the place. -/
structure Entre where
  redes : List PicoServer.Event
  solto : UInt8

def numero : Registro → UInt8
  | .data => 0x00
  | .status => 0x01
  | .sizeHigh => 0x02
  | .sizeLow => 0x03
  | .crc3 => 0x04
  | .crc2 => 0x05
  | .crc1 => 0x06
  | .crc0 => 0x07

/-- A register is read; no Pico is left when a callback gets stuck. -/
def le (q : Registro) (s : Option Pico × List Entre) : UInt8 × Option Pico × List Entre :=
  let e := s.2.headD ⟨[], 0⟩
  let pico := s.1.bind (run PicoBus.step (e.redes.map .rede))
  let acesso := gerenciarBarramento (pacote false (numero q) 0) false
  ((pico.bind fun p => p.carrega (acesso p).1).getD e.solto, pico.map fun p => (acesso p).2, s.2.tail)

/-- From the vector to the first place where the mask can fall below 2. Meanwhile the Pico goes on. -/
def int2Handler (entre : List Entre) (s : Maquina) : Option Maquina :=
  let t : Maquina := { s with
    systemTick := s.systemTick + 1
    tickCount := s.tickCount + 1
    sr := srNivel2 s.sr
    quadros := ⟨s.sr, .fim false, 0⟩ :: s.quadros }
  if t.tickCount = 400 then some { t with led := true }
  else if t.tickCount = 800 then
    (exec le (doSave2 s.ram) (some s.pico, entre)).bind fun r => r.2.1.map fun pico =>
      match r.1.1 with
      | none => { t with
          led := false
          tickCount := 0
          pico := pico
          ram := r.1.2
          sr := 0x2000
          quadros := ⟨s.sr, .fim true, 0⟩ :: s.quadros }
      | some nome => { t with
          led := false
          tickCount := 0
          pico := pico
          ram := r.1.2
          sr := 0x2700
          quadros := ⟨s.sr, .emFatFs .fOpen (getLdnumber s.currVol nome) false, 0⟩ :: s.quadros }
  else some t

inductive Acao
  | acesso (pacote : UInt16) (leu : Bool)
  | escreve (a : UInt32) (b : UInt8)
  | desabilita
  | habilita
  | chdrive (drive : Drive)
  | chama (drive : Drive)

/-- The foreground; within FatFs it only writes to memory. -/
def age (a : Acao) (s : Maquina) : Maquina :=
  match a, s.fundo with
  | .escreve a b, _ => { s with ram := write a [b] s.ram }
  | _, .emFatFs _ _ _ _ => s
  | .acesso pacote leu, .fora => { s with pico := (gerenciarBarramento pacote leu s.pico).2 }
  | .desabilita, .fora => { s with sr := m68kDisableAllInterrupts s.sr }
  | .habilita, .fora => { s with sr := m68kEnableAllInterrupts s.sr }
  | .chdrive drive, .fora => { s with currVol := drive }
  | .chama drive, .fora => { s with fundo := .emFatFs drive false 0 s.sr }

/-- `LOCK` at the start of the transfer of a sector. -/
def lock (s : Maquina) : Maquina :=
  match s.quadros, s.fundo with
  | [], .emFatFs drive false n entrada =>
      { s with fundo := .emFatFs drive true n entrada, sr := m68kDisableAllInterrupts s.sr }
  | ⟨sr, .emFatFs c drive false, n⟩ :: qs, _ =>
      { s with quadros := ⟨sr, .emFatFs c drive true, n⟩ :: qs, sr := m68kDisableAllInterrupts s.sr }
  | _, _ => s

/-- `UNLOCK` at its end; the status register that has been saved is not looked at. -/
def unlock (s : Maquina) : Maquina :=
  match s.quadros, s.fundo with
  | [], .emFatFs drive true n entrada =>
      { s with fundo := .emFatFs drive false (n + 1) entrada, sr := m68kEnableAllInterrupts s.sr }
  | ⟨sr, .emFatFs c drive true, n⟩ :: qs, _ =>
      { s with quadros := ⟨sr, .emFatFs c drive false, n + 1⟩ :: qs, sr := m68kEnableAllInterrupts s.sr }
  | _, _ => s

def retorna (ok : Bool) (s : Maquina) : Maquina :=
  match s.quadros, s.fundo with
  | [], .emFatFs _ false _ _ => { s with fundo := .fora }
  | ⟨sr, .emFatFs c drive false, n⟩ :: qs, _ =>
      { s with quadros := ⟨sr, .voltou c drive (ok && drive.isSome), n⟩ :: qs }
  | _, _ => s

/-- `do_save2` goes on behind a call of FatFs; it closes the file whether it has been written
or not. -/
def segue (s : Maquina) : Maquina :=
  match s.quadros with
  | ⟨sr, .voltou .fOpen drive true, n⟩ :: qs => { s with quadros := ⟨sr, .emFatFs .fWrite drive false, n⟩ :: qs }
  | ⟨sr, .voltou .fWrite drive _, n⟩ :: qs => { s with quadros := ⟨sr, .emFatFs .fClose drive false, n⟩ :: qs }
  | ⟨sr, .voltou _ _ _, n⟩ :: qs => { s with quadros := ⟨sr, .fim true, n⟩ :: qs, sr := 0x2000 }
  | _ => s

def rte (s : Maquina) : Maquina :=
  match s.quadros with
  | ⟨sr, .fim _, _⟩ :: qs => { s with quadros := qs, sr := sr }
  | _ => s

inductive Event
  | tick (entre : List Entre)
  | rede (e : PicoServer.Event)
  | age (a : Acao)
  | lock
  | unlock
  | retorna (ok : Bool)
  | segue
  | rte

/-- A request of the timer waits as long as the mask is 2 or above. -/
def step : Event → Maquina → Option Maquina
  | .tick entre, s => if mascara s.sr < 2 then int2Handler entre s else some s
  | .rede e, s => (PicoBus.step (.rede e) s.pico).map fun p => { s with pico := p }
  | .age a, s => if s.quadros.isEmpty then some (age a s) else some s
  | .lock, s => some (lock s)
  | .unlock, s => some (unlock s)
  | .retorna ok, s => some (retorna ok s)
  | .segue, s => some (segue s)
  | .rte, s => some (rte s)

/-- Power comes on; memory and the counters may hold anything. -/
def liga (cartao : UInt16 → Setor) (s : Maquina) : Maquina :=
  { s with pico := PicoBus.inicial cartao, fundo := .fora, quadros := [] }

def Fundo.emUso : Fundo → Option Drive
  | .fora => none
  | .emFatFs drive _ _ _ => some drive

def Ponto.emUso : Ponto → Option Drive
  | .emFatFs _ drive _ => drive
  | _ => none

/-- No call that the handler makes is in progress on a volume on which a call of the foreground is. -/
def SemReentrada (s : Maquina) : Prop :=
  ∀ drive, s.fundo.emUso = some drive → ∀ q ∈ s.quadros, q.ponto.emUso ≠ some drive

section Condition

/-- A call of the foreground lets the timer in outside the transfer of a sector: from its start, when it
began with a mask below 2, and behind the first sector in any case. -/
def Fundo.Janela : Fundo → Prop
  | .fora => False
  | .emFatFs _ setor setores entrada => setor = false ∧ (0 < setores ∨ mascara entrada < 2)

/-- `do_save2` does so behind the first sector that it has transferred, and so does the handler behind
`do_save2`. -/
def Quadro.Janela (q : Quadro) : Prop :=
  match q.ponto with
  | .emFatFs _ _ setor => setor = false ∧ 0 < q.setores
  | .voltou _ _ _ => 0 < q.setores
  | .fim salvou => salvou = true

def Janela (s : Maquina) : Prop :=
  match s.quadros with
  | [] => s.fundo.Janela
  | q :: _ => q.Janela

/-- The Pico hands out a whole file of that name to one reading after another. -/
def Chega (entre : List Entre) (s : Maquina) (nome : Path) : Prop :=
  ∃ es t, Answered le es (some s.pico, entre) t ∧ Entregue s.ram nome es

/-- The 800th tick does not come where a call of the foreground lets it in while the Pico has a file for
the same volume. -/
def SemColisao : Event → Maquina → Prop
  | .tick entre, s => Janela s → s.tickCount + 1 = 800 → ∀ drive, s.fundo.emUso = some drive →
      ∀ nome, Chega entre s nome → getLdnumber s.currVol nome ≠ some drive
  | _, _ => True

end Condition

section Masks

theorem mascara_disable (sr : UInt16) : mascara (m68kDisableAllInterrupts sr) = mascara sr ||| 2 := by
  rw [mascara, m68kDisableAllInterrupts, UInt16.shiftRight_or]
  exact UInt16.toBitVec_inj.mp BitVec.and_or_distrib_right

theorem mascara_enable (sr : UInt16) : mascara (m68kEnableAllInterrupts sr) = 0 := by
  rw [mascara, m68kEnableAllInterrupts, UInt16.shiftRight_and, UInt16.and_assoc]
  exact UInt16.and_zero

theorem not_disable_lt (sr : UInt16) : ¬mascara (m68kDisableAllInterrupts sr) < 2 := by
  rw [mascara_disable, UInt16.not_lt]
  exact UInt16.right_le_or

theorem enable_lt (sr : UInt16) : mascara (m68kEnableAllInterrupts sr) < 2 := by
  rw [mascara_enable]
  decide

theorem not_srNivel2_lt (sr : UInt16) : ¬mascara (srNivel2 sr) < 2 := by
  have hmask : mascara (srNivel2 sr) = mascara (sr &&& 0x78FF) ||| 2 := by
    rw [mascara, srNivel2, UInt16.shiftRight_or]
    exact UInt16.toBitVec_inj.mp BitVec.and_or_distrib_right
  rw [hmask, UInt16.not_lt]
  exact UInt16.right_le_or

theorem mascara_2000_lt : mascara 0x2000 < 2 := by decide

theorem not_mascara_2700_lt : ¬mascara 0x2700 < 2 := by decide

end Masks

section Invariant

def Ponto.drive : Ponto → Option Drive
  | .emFatFs _ drive _ | .voltou _ drive _ => drive
  | .fim _ => none

theorem Ponto.drive_of_emUso {p : Ponto} {drive : Drive} (h : p.emUso = some drive) : p.drive = some drive := by
  cases p with
  | emFatFs c d setor => exact h
  | voltou c d ok => cases h
  | fim salvou => cases h

/-- The mask is below 2 where the history has it so: in the code that runs, and in the code that each
run of the handler will go back to. -/
def Concorda (fundo : Fundo) : UInt16 → List Quadro → Prop
  | sr, [] => fundo.emUso.isSome → (mascara sr < 2 ↔ fundo.Janela)
  | sr, q :: qs => (mascara sr < 2 ↔ q.Janela) ∧ mascara q.sr < 2 ∧ Concorda fundo q.sr qs

/-- Between its calls, too, the handler is on no volume that the foreground uses. -/
structure Inv (s : Maquina) : Prop where
  bus : BusInv s.pico
  concorda : Concorda s.fundo s.sr s.quadros
  livre : ∀ drive, s.fundo.emUso = some drive → ∀ q ∈ s.quadros, q.ponto.drive ≠ some drive

variable {s t : Maquina}

theorem Inv.semReentrada (h : Inv s) : SemReentrada s := by
  intro drive hf q hq hu
  exact h.livre drive hf q hq (Ponto.drive_of_emUso hu)

theorem liga_inv (cartao : UInt16 → Setor) (s : Maquina) : Inv (liga cartao s) := by
  refine ⟨inicial_busInv cartao, ?_, ?_⟩
  · intro hf
    cases hf
  · intro drive hf
    cases hf

theorem Inv.janela_iff (h : Inv s) {drive : Drive} (hf : s.fundo.emUso = some drive) :
    mascara s.sr < 2 ↔ Janela s := by
  have hm := h.concorda
  rw [Janela]
  cases hq : s.quadros with
  | nil =>
      rw [hq] at hm
      exact hm (Option.isSome_iff_exists.mpr ⟨drive, hf⟩)
  | cons q qs =>
      rw [hq] at hm
      exact hm.1

theorem Inv.of_foreground (hp : BusInv t.pico) (hq : t.quadros = [])
    (hm : t.fundo.emUso.isSome → (mascara t.sr < 2 ↔ t.fundo.Janela)) : Inv t := by
  refine ⟨hp, ?_, ?_⟩
  · rw [hq]
    exact hm
  · intro drive _ q hmem
    rw [hq] at hmem
    cases hmem

theorem Inv.of_head (h : Inv s) {q q' : Quadro} {qs : List Quadro} (hs : s.quadros = q :: qs)
    (hp : t.pico = s.pico) (hf : t.fundo = s.fundo) (ht : t.quadros = q' :: qs) (hsr : q'.sr = q.sr)
    (hm : (mascara s.sr < 2 ↔ q.Janela) → (mascara t.sr < 2 ↔ q'.Janela))
    (hd : q'.ponto.drive = none ∨ q'.ponto.drive = q.ponto.drive) : Inv t := by
  have hmask := h.concorda
  rw [hs] at hmask
  refine ⟨hp ▸ h.bus, ?_, ?_⟩
  · rw [ht, hf]
    refine ⟨hm hmask.1, ?_⟩
    rw [hsr]
    exact hmask.2
  · intro drive hu r hr hdrive
    rw [hf] at hu
    rw [ht] at hr
    rcases List.mem_cons.mp hr with rfl | hr
    · rcases hd with hnone | hsame
      · rw [hnone] at hdrive
        cases hdrive
      · exact h.livre drive hu q (by simp [hs]) (hsame ▸ hdrive)
    · exact h.livre drive hu r (by simp [hs, hr]) hdrive

end Invariant

section Steps

variable {s t : Maquina}

theorem lock_inv (h : Inv s) : Inv (lock s) := by
  rw [lock]
  split
  next hq _ => exact .of_foreground h.bus hq fun _ => iff_of_false (not_disable_lt _) fun hj => nomatch hj.1
  next hq =>
    refine h.of_head hq rfl rfl rfl rfl ?_ (.inr rfl)
    exact fun _ => iff_of_false (not_disable_lt _) fun hj => nomatch hj.1
  next => exact h

theorem unlock_inv (h : Inv s) : Inv (unlock s) := by
  rw [unlock]
  split
  next hq _ => exact .of_foreground h.bus hq fun _ => iff_of_true (enable_lt _) ⟨rfl, .inl (Nat.succ_pos _)⟩
  next hq =>
    refine h.of_head hq rfl rfl rfl rfl ?_ (.inr rfl)
    exact fun _ => iff_of_true (enable_lt _) ⟨rfl, Nat.succ_pos _⟩
  next => exact h

theorem retorna_inv (h : Inv s) (ok : Bool) : Inv (retorna ok s) := by
  rw [retorna]
  split
  next hq _ => exact .of_foreground h.bus hq nofun
  next hq => exact h.of_head hq rfl rfl rfl rfl (fun hm => hm.trans (and_iff_right rfl)) (.inr rfl)
  next => exact h

theorem segue_inv (h : Inv s) : Inv (segue s) := by
  rw [segue]
  split
  next hq => exact h.of_head hq rfl rfl rfl rfl (fun hm => hm.trans (and_iff_right rfl).symm) (.inr rfl)
  next hq => exact h.of_head hq rfl rfl rfl rfl (fun hm => hm.trans (and_iff_right rfl).symm) (.inr rfl)
  next hq => exact h.of_head hq rfl rfl rfl rfl (fun _ => iff_of_true mascara_2000_lt rfl) (.inl rfl)
  next => exact h

theorem rte_inv (h : Inv s) : Inv (rte s) := by
  rw [rte]
  split
  next q qs hq =>
    have hm := h.concorda
    rw [hq] at hm
    refine ⟨h.bus, hm.2.2, ?_⟩
    intro drive hf r hr
    exact h.livre drive hf r (by rw [hq]; exact .tail _ hr)
  next => exact h

theorem age_inv (h : Inv s) (hq : s.quadros = []) (a : Acao) : Inv (age a s) := by
  have hm := h.concorda
  rw [hq] at hm
  unfold age
  split
  · exact .of_foreground h.bus hq hm
  · exact h
  next hf => exact .of_foreground (acesso_busInv h.bus _ _) hq hm
  next hf => exact .of_foreground h.bus hq (by rw [hf]; exact nofun)
  next hf => exact .of_foreground h.bus hq (by rw [hf]; exact nofun)
  next hf => exact .of_foreground h.bus hq hm
  next hf => exact .of_foreground h.bus hq fun _ => (and_iff_right rfl).trans (or_iff_right (Nat.lt_irrefl 0)) |>.symm

theorem redes_busInv {p : Pico} (h : BusInv p) (redes : List PicoServer.Event) :
    ∃ p', run PicoBus.step (redes.map .rede) p = some p' ∧ BusInv p' := by
  induction redes generalizing p with
  | nil => exact ⟨p, rfl, h⟩
  | cons e redes ih =>
      obtain ⟨u, hu, -⟩ := PicoBlockOwners.step_inv h.owners e
      have hstep : PicoBus.step (.rede e) p = some { p with server := u } := by
        rw [PicoBus.step, hu]
        rfl
      obtain ⟨p', hp', hinv⟩ := ih (step_busInv h hstep)
      exact ⟨p', (run_cons_of_step hstep _).trans hp', hinv⟩

theorem doSave2_returns (h : BusInv s.pico) (entre : List Entre) :
    ∃ (r : Option Path × Ram) (p : Pico × List Entre),
      exec le (doSave2 s.ram) (some s.pico, entre) = some (r, some p.1, p.2) ∧ BusInv p.1 ∧
        ∀ nome, r.1 = some nome ↔ Chega entre s nome := by
  obtain ⟨⟨r, t⟩, hexec⟩ : ∃ r, exec le (doSave2 s.ram) (some s.pico, entre) = some r :=
    exec_of_ends (doSave2_ends s.ram) _
  have hpico : ∃ p, t.1 = some p ∧ BusInv p := by
    refine exec_keeps (V := fun t => ∃ p, t.1 = some p ∧ BusInv p) ?_ ⟨s.pico, rfl, h⟩ hexec
    rintro q ⟨-, entre⟩ ⟨p, rfl, hp⟩
    obtain ⟨p', hp', hinv⟩ := redes_busInv hp (entre.headD ⟨[], 0⟩).redes
    refine ⟨_, ?_, acesso_busInv hinv (pacote false (numero q) 0) false⟩
    simp only [le, Option.bind_some, hp', Option.map_some]
  obtain ⟨p, hp, hinv⟩ := hpico
  obtain ⟨t₁, t₂⟩ := t
  obtain rfl : t₁ = some p := hp
  refine ⟨r, (p, t₂), hexec, hinv, ?_⟩
  intro nome
  constructor
  · intro hr
    obtain ⟨es, hruns, ht⟩ := exec_eq_some_iff.mp hexec
    obtain ⟨r, ram⟩ := r
    obtain rfl : r = some nome := hr
    exact ⟨es, _, ht, runs_doSave2_iff.mp ⟨ram, hruns⟩⟩
  · rintro ⟨es, t, ht, hes⟩
    obtain ⟨ram, hruns⟩ := runs_doSave2_iff.mpr hes
    cases hexec.symm.trans (exec_eq_some_iff.mpr ⟨es, hruns, ht⟩)
    rfl

/-- What the handler does up to where it can be interrupted: it is at its end, or `do_save2` has come
to its first call of FatFs, on the volume of a file that the Pico has. -/
theorem int2Handler_cases (h : Inv s) (entre : List Entre) :
    ∃ t p, int2Handler entre s = some t ∧ BusInv t.pico ∧ t.fundo = s.fundo ∧
      t.quadros = ⟨s.sr, p, 0⟩ :: s.quadros ∧ (mascara t.sr < 2 ↔ Quadro.Janela ⟨s.sr, p, 0⟩) ∧ p.emUso = p.drive ∧
      ∀ drive, p.drive = some drive ↔
        s.tickCount + 1 = 800 ∧ ∃ nome, Chega entre s nome ∧ getLdnumber s.currVol nome = some drive := by
  by_cases h400 : s.tickCount + 1 = 400
  · rw [int2Handler, if_pos h400]
    refine ⟨_, .fim false, rfl, h.bus, rfl, rfl, iff_of_false (not_srNivel2_lt _) nofun, rfl, ?_⟩
    intro drive
    refine iff_of_false nofun ?_
    rintro ⟨h800, -⟩
    rw [h400] at h800
    exact absurd h800 (by decide)
  · by_cases h800 : s.tickCount + 1 = 800
    · obtain ⟨⟨r, ram⟩, ⟨p, entre'⟩, hexec, hp, hr⟩ := doSave2_returns h.bus entre
      rw [int2Handler, if_neg h400, if_pos h800, hexec]
      cases r with
      | none =>
          refine ⟨_, .fim true, rfl, hp, rfl, rfl, iff_of_true mascara_2000_lt rfl, rfl, ?_⟩
          intro drive
          refine iff_of_false nofun ?_
          rintro ⟨-, nome, hchega, -⟩
          exact nomatch (hr nome).mpr hchega
      | some nome =>
          refine ⟨_, .emFatFs .fOpen (getLdnumber s.currVol nome) false, rfl, hp, rfl, rfl, ?_, rfl, ?_⟩
          · exact iff_of_false not_mascara_2700_lt fun hj => absurd hj.2 (Nat.lt_irrefl 0)
          · intro drive
            constructor
            · exact fun hd => ⟨h800, nome, (hr nome).mp rfl, hd⟩
            · rintro ⟨-, nome', hchega, hd⟩
              cases (hr nome').mpr hchega
              exact hd
    · rw [int2Handler, if_neg h400, if_neg h800]
      refine ⟨_, .fim false, rfl, h.bus, rfl, rfl, iff_of_false (not_srNivel2_lt _) nofun, rfl, ?_⟩
      exact fun drive => iff_of_false nofun fun hand => h800 hand.1

theorem tick_inv (h : Inv s) {entre : List Entre} (hm : mascara s.sr < 2) (hC : SemColisao (.tick entre) s) :
    ∃ t, int2Handler entre s = some t ∧ Inv t := by
  obtain ⟨t, p, ht, hp, hf, hq, hmask, -, hdrive⟩ := int2Handler_cases h entre
  refine ⟨t, ht, hp, ?_, ?_⟩
  · rw [hq, hf]
    exact ⟨hmask, hm, h.concorda⟩
  · intro drive hu q hmem hd
    rw [hf] at hu
    rw [hq] at hmem
    rcases List.mem_cons.mp hmem with rfl | hmem
    · obtain ⟨h800, nome, hchega, hvol⟩ := (hdrive drive).mp hd
      exact hC ((h.janela_iff hu).mp hm) h800 drive hu nome hchega hvol
    · exact h.livre drive hu q hmem hd

/-- Otherwise the timer is let in, and the handler calls `f_open` inside the call of the foreground. -/
theorem tick_collides (h : Inv s) {entre : List Entre} (hC : ¬ SemColisao (.tick entre) s)
    (ht : step (.tick entre) s = some t) : ¬ SemReentrada t := by
  simp only [SemColisao, not_forall, not_not] at hC
  obtain ⟨hj, h800, drive, hu, nome, hchega, hvol⟩ := hC
  obtain ⟨t', p, ht', -, hf, hq, -, huso, hdrive⟩ := int2Handler_cases h entre
  rw [step, if_pos ((h.janela_iff hu).mpr hj)] at ht
  cases ht.symm.trans ht'
  intro hsem
  have hmem : ⟨s.sr, p, 0⟩ ∈ t.quadros := by
    rw [hq]
    exact .head _
  exact hsem drive (hf ▸ hu) _ hmem (huso.trans ((hdrive drive).mpr ⟨h800, nome, hchega, hvol⟩))

theorem step_inv (h : Inv s) {e : Event} (hC : SemColisao e s) : ∃ t, step e s = some t ∧ Inv t := by
  cases e with
  | tick entre =>
      rw [step]
      split
      next hm => exact tick_inv h hm hC
      next => exact ⟨s, rfl, h⟩
  | rede e =>
      obtain ⟨p, hp, hinv⟩ := redes_busInv h.bus [e]
      obtain ⟨p', hstep, hp'⟩ := run_cons_eq_some.mp hp
      cases hp'
      refine ⟨{ s with pico := p }, ?_, hinv, h.concorda, h.livre⟩
      rw [step, hstep]
      rfl
  | age a =>
      rw [step]
      split
      next hq => exact ⟨_, rfl, age_inv h (List.isEmpty_iff.mp hq) a⟩
      next => exact ⟨s, rfl, h⟩
  | lock => exact ⟨_, rfl, lock_inv h⟩
  | unlock => exact ⟨_, rfl, unlock_inv h⟩
  | retorna ok => exact ⟨_, rfl, retorna_inv h ok⟩
  | segue => exact ⟨_, rfl, segue_inv h⟩
  | rte => exact ⟨_, rfl, rte_inv h⟩

end Steps

/-- `do_save2` never calls FatFs inside a call that the foreground has begun on the same volume, in
exactly the runs in which the 800th tick never finds the two together outside the transfer of a sector. -/
theorem fatfs_not_reentered_iff (cartao : UInt16 → Setor) (s : Maquina) (es : List Event) :
    Throughout step SemReentrada es (liga cartao s) ↔ Along step SemColisao es (liga cartao s) := by
  apply throughout_iff_along (fun _ h => h.semReentrada) (fun _ _ h hC => step_inv h hC) ?_ es (liga_inv cartao s)
  intro e s t h hC ht
  cases e with
  | tick entre => exact tick_collides h hC ht
  | _ => exact absurd trivial hC

/-- One tick before the 800th. -/
def vespera : Maquina :=
  ⟨0x2000, 0, 799, false, PicoBus.inicial fun _ => Vector.replicate 512 0, fun _ => 0, 0, .fora, []⟩

/-- A file of one byte comes; the foreground begins a call on volume 0 and has transferred one sector
when the timer comes. -/
def colisao : List Event :=
  [.rede (.accept true true),
    .rede (.segment 0 ⟨⟨PicoServer.le32 1 ++ List.replicate 12 0x41 ++ [7], by decide⟩, []⟩ (some fun _ => 0)),
    .age (.chama 0), .lock, .unlock, .tick []]

theorem handler_reenters_fatfs :
    ¬ ∀ (cartao : UInt16 → Setor) (s : Maquina) (es : List Event),
      Throughout step SemReentrada es (liga cartao s) := by
  intro h
  have hrun : (run step colisao (liga (fun _ => Vector.replicate 512 0) vespera)).map
      (fun s => (s.fundo.emUso, s.quadros.map (·.ponto.emUso))) = some (some 0, [some 0]) := by decide +kernel
  obtain ⟨t, ht, huso⟩ := Option.map_eq_some_iff.mp hrun
  have hsem := (h _ vespera colisao).last ht
  obtain ⟨hf, hq⟩ := Prod.mk.inj huso
  have hmem : some 0 ∈ t.quadros.map (·.ponto.emUso) := by
    rw [hq]
    exact .head _
  obtain ⟨q, hq, hdrive⟩ := List.mem_map.mp hmem
  exact hsem 0 hf q hq hdrive

end Orion68.Interrupts
