import Orion68.Rtc.Chips
import Orion68.Lib.Runs
import Mathlib.Order.Nat

namespace Orion68.I2cbb

open Interactions TwoWire Runs

section Chamadas

inductive Pedido
  | escreve (addr : BitVec 16) (data : Byte)
  | le (addr : BitVec 16)

def Pedido.executa : Pedido → Driver (Option Byte)
  | escreve addr data => do
      eepromWriteByte addr data
      return none
  | le addr => do
      let val ← eepromReadByte addr
      return some val

/-- A call: the microseconds since the one before, those that a write cycle it begins takes, and
what the clock's registers have come to. -/
structure Passo where
  espera : ℕ
  ciclo : ℕ
  ciclo_le : ciclo ≤ 10000
  relogio : ℕ → Byte
  pedido : Pedido

def passa (p : Passo) (b : Bus Placa) : Bus Placa :=
  { b with slave := (b.slave.1, { b.slave.2.1 with registradores := p.relogio },
      { b.slave.2.2 with restante := b.slave.2.2.restante - p.espera }) }

def chama (p : Passo) (b : Bus Placa) : Option (Option Byte × Bus Placa) :=
  exec (wire (placa p.ciclo)) (handle primitiva p.pedido.executa) (passa p b)

/-- The bus, and the calls that have been made, the last one first. -/
structure Estado where
  feitos : List Passo
  barra : Bus Placa

def livre (s : Placa) : Bus Placa := barramento (placa 0) .free (.off, s)

def proximoEstado (p : Passo) (s : Estado) : Option Estado :=
  (chama p s.barra).map fun x => ⟨p :: s.feitos, x.2⟩

/-- What was last written to the addresses `quais`. -/
def ultimo (quais : BitVec 16 → Bool) : List Passo → Option Byte
  | [] => none
  | p :: ps =>
      match p.pedido with
      | .escreve addr data => if quais addr then some data else ultimo quais ps
      | .le _ => ultimo quais ps

/-- The byte of the EEPROM at an address, of which it takes 12 bits. -/
def celula (addr : BitVec 16) : BitVec 12 := addr.setWidth 12

/-- What is left of the write cycle of the last write after these calls; `n` was left at first. -/
def emCurso (n : ℕ) : List Passo → ℕ
  | [] => n
  | p :: ps =>
      match p.pedido with
      | .escreve _ _ => p.ciclo
      | .le _ => emCurso n ps - p.espera

/-- The call returns; a write is written by the EEPROM, and a read returns what was last written to its address. -/
def Lei (p : Passo) (s : Estado) : Prop :=
  ∃ x, chama p s.barra = some x ∧
    match p.pedido with
    | .escreve addr data => x.2.slave.2.2.gravados = (celula addr, data) :: s.barra.slave.2.2.gravados
    | .le addr => ∀ v, ultimo (· = addr) s.feitos = some v → x.1 = some v

/-- No write is made in a write cycle; and where an address is read that has been written, the byte
is 0xFF in a write cycle, and outside of one the last that was written to the same cell. -/
def Cabe (n : ℕ) (p : Passo) (s : Estado) : Prop :=
  match p.pedido with
  | .escreve _ _ => emCurso n s.feitos ≤ p.espera
  | .le addr => ∀ v, ultimo (· = addr) s.feitos = some v →
      if emCurso n s.feitos ≤ p.espera then ultimo (fun a => celula a = celula addr) s.feitos = some v else v = 0xFF

end Chamadas

section Bytes

variable {s : Placa}

theorem append_bytes (addr : BitVec 16) : ((addr >>> 8).setWidth 8 ++ (addr &&& 0xFF).setWidth 8 : BitVec 16) = addr := by
  have hlow : (addr &&& 0xFF).setWidth 8 = addr.setWidth 8 := by
    rw [BitVec.setWidth_and]
    exact BitVec.and_allOnes
  rw [hlow]
  apply BitVec.eq_of_getLsbD_eq
  intro i hi
  rw [BitVec.getLsbD_append, BitVec.getLsbD_setWidth, BitVec.getLsbD_setWidth, BitVec.getLsbD_ushiftRight]
  split
  next h => simp [h]
  next h =>
    have hsum : 8 + (i - 8) = i := by omega
    have hlt : i - 8 < 8 := by omega
    simp [hsum, hlt]

theorem celula_eq (addr : BitVec 16) :
    ((addr >>> 8).setWidth 8 ++ (addr &&& 0xFF).setWidth 8 : BitVec 16).setWidth 12 = celula addr :=
  congrArg (BitVec.setWidth 12) (append_bytes addr)

theorem exec_escreve (ciclo : ℕ) (addr : BitVec 16) (data : Byte) (h : s.2.restante = 0) :
    ∃ r a, exec (bytes (placa ciclo)) (eepromWriteByte addr data) (.off, s) =
      some ((), (.off, (r, ⟨s.2.inicial, (celula addr, data) :: s.2.gravados, ciclo, a, [], .fora⟩))) := by
  obtain ⟨r, inicial, gravados, restante, ponteiro, pagina, etapa⟩ := s
  obtain rfl := h
  rw [← celula_eq]
  exact ⟨_, _, rfl⟩

theorem exec_escreve_ocupada (ciclo : ℕ) (addr : BitVec 16) (data : Byte) (h : s.2.restante ≠ 0) :
    ∃ r, exec (bytes (placa ciclo)) (eepromWriteByte addr data) (.off, s) =
      some ((), (.off, (r, { s.2 with pagina := [], etapa := .fora }))) := by
  obtain ⟨r, inicial, gravados, restante | n, ponteiro, pagina, etapa⟩ := s
  · exact absurd rfl h
  · exact ⟨_, rfl⟩

theorem exec_le (ciclo : ℕ) (addr : BitVec 16) (h : s.2.restante = 0) :
    ∃ r a, exec (bytes (placa ciclo)) (eepromReadByte addr) (.off, s) =
      some (s.2.conteudo (celula addr), (.off, (r, ⟨s.2.inicial, s.2.gravados, 0, a, [], .fora⟩))) := by
  obtain ⟨r, inicial, gravados, restante, ponteiro, pagina, etapa⟩ := s
  obtain rfl := h
  rw [← celula_eq, ← BitVec.allOnes_and (x := At24c32.conteudo _ _)]
  exact ⟨_, _, rfl⟩

theorem exec_le_ocupada (ciclo : ℕ) (addr : BitVec 16) (h : s.2.restante ≠ 0) :
    ∃ r, exec (bytes (placa ciclo)) (eepromReadByte addr) (.off, s) =
      some (0xFF, (.off, (r, { s.2 with pagina := [], etapa := .fora }))) := by
  obtain ⟨r, inicial, gravados, restante | n, ponteiro, pagina, etapa⟩ := s
  · exact absurd rfl h
  · exact ⟨_, rfl⟩

end Bytes

section Corridas

theorem follows_pedido (q : Pedido) : Follows format q.executa .free .free := by
  cases q with
  | escreve addr data => exact (follows_eepromWriteByte addr data).bind fun _ => rfl
  | le addr => exact (follows_eepromReadByte addr).bind fun _ => rfl

def depoisDe (p : Passo) (s : Placa) : Placa :=
  ({ s.1 with registradores := p.relogio }, { s.2 with restante := s.2.restante - p.espera })

theorem chama_livre (p : Passo) (s : Placa) : chama p (livre s) =
    (exec (bytes (placa p.ciclo)) p.pedido.executa (.off, depoisDe p s)).map fun x => (x.1, livre x.2.2) :=
  wire_free (d := placa p.ciclo) (follows_pedido p.pedido) (depoisDe p s)

variable {n : ℕ} {p : Passo} {ps : List Passo} {s : Placa} {t u : Estado} {addr : BitVec 16} {data v : Byte}

theorem chama_escreve (hp : p.pedido = .escreve addr data) (h : s.2.restante ≤ p.espera) :
    ∃ r a, chama p (livre s) =
      some (none, livre (r, ⟨s.2.inicial, (celula addr, data) :: s.2.gravados, p.ciclo, a, [], .fora⟩)) := by
  obtain ⟨r, a, he⟩ := exec_escreve (s := depoisDe p s) p.ciclo addr data
    (Nat.sub_eq_zero_of_le h)
  refine ⟨r, a, ?_⟩
  rw [chama_livre, hp, Pedido.executa, exec_bind, he]
  rfl

theorem chama_escreve_ocupada (hp : p.pedido = .escreve addr data) (h : p.espera < s.2.restante) :
    ∃ r, chama p (livre s) =
      some (none, livre (r, { s.2 with restante := s.2.restante - p.espera, pagina := [], etapa := .fora })) := by
  obtain ⟨r, he⟩ := exec_escreve_ocupada (s := depoisDe p s) p.ciclo addr data
    (Nat.sub_ne_zero_of_lt h)
  refine ⟨r, ?_⟩
  rw [chama_livre, hp, Pedido.executa, exec_bind, he]
  rfl

theorem chama_le (hp : p.pedido = .le addr) (h : s.2.restante ≤ p.espera) :
    ∃ r a, chama p (livre s) =
      some (some (s.2.conteudo (celula addr)), livre (r, ⟨s.2.inicial, s.2.gravados, 0, a, [], .fora⟩)) := by
  obtain ⟨r, a, he⟩ := exec_le (s := depoisDe p s) p.ciclo addr (Nat.sub_eq_zero_of_le h)
  refine ⟨r, a, ?_⟩
  rw [chama_livre, hp, Pedido.executa, exec_bind, he]
  rfl

theorem chama_le_ocupada (hp : p.pedido = .le addr) (h : p.espera < s.2.restante) :
    ∃ r, chama p (livre s) =
      some (some 0xFF, livre (r, { s.2 with restante := s.2.restante - p.espera, pagina := [], etapa := .fora })) := by
  obtain ⟨r, he⟩ := exec_le_ocupada (s := depoisDe p s) p.ciclo addr (Nat.sub_ne_zero_of_lt h)
  refine ⟨r, ?_⟩
  rw [chama_livre, hp, Pedido.executa, exec_bind, he]
  rfl

/-- While no write is lost, the EEPROM holds what was last written to each of its bytes, and is busy
for as long as the last write takes. -/
structure Fiel (n : ℕ) (t : Estado) (s : Placa) : Prop where
  barra : t.barra = livre s
  restante : s.2.restante = emCurso n t.feitos
  conteudo : ∀ c v, ultimo (celula · = c) t.feitos = some v → s.2.conteudo c = v

theorem exists_ultimo_celula (h : ultimo (· = addr) ps = some v) : ∃ w, ultimo (celula · = celula addr) ps = some w := by
  induction ps with
  | nil => cases h
  | cons p ps ih =>
      rw [ultimo] at h ⊢
      cases hp : p.pedido with
      | le a =>
          rw [hp] at h
          exact ih h
      | escreve a d =>
          rw [hp] at h
          by_cases hc : celula a = celula addr
          · exact ⟨d, if_pos (decide_eq_true hc)⟩
          · have ha : a ≠ addr := fun ha => hc (congrArg celula ha)
            dsimp only at h ⊢
            rw [if_neg (by simpa using ha)] at h
            rw [if_neg (by simpa using hc)]
            exact ih h

theorem lei_iff_cabe (hs : Fiel n t s) : Lei p t ↔ Cabe n p t := by
  rw [Lei, Cabe, hs.barra]
  cases hp : p.pedido with
  | escreve addr data =>
      dsimp only
      rcases le_or_gt (emCurso n t.feitos) p.espera with hle | hlt
      · obtain ⟨r, a, hc⟩ := chama_escreve hp (hs.restante.trans_le hle)
        exact iff_of_true ⟨_, hc, rfl⟩ hle
      · obtain ⟨r, hc⟩ := chama_escreve_ocupada hp (hlt.trans_eq hs.restante.symm)
        refine iff_of_false ?_ (not_le_of_gt hlt)
        rintro ⟨x, hx, hg⟩
        obtain rfl := Option.some.inj (hx.symm.trans hc)
        exact List.cons_ne_self _ _ hg.symm
  | le addr =>
      dsimp only
      rcases le_or_gt (emCurso n t.feitos) p.espera with hle | hlt
      · obtain ⟨r, a, hc⟩ := chama_le hp (hs.restante.trans_le hle)
        rw [hc]
        simp only [Option.some.injEq, exists_eq_left', if_pos hle]
        apply forall₂_congr
        intro v hv
        obtain ⟨w, hw⟩ := exists_ultimo_celula hv
        rw [hs.conteudo _ w hw, hw, Option.some.injEq]
      · obtain ⟨r, hc⟩ := chama_le_ocupada hp (hlt.trans_eq hs.restante.symm)
        rw [hc]
        simp only [Option.some.injEq, exists_eq_left', if_neg (not_le_of_gt hlt)]
        apply forall₂_congr
        intro v hv
        exact eq_comm

theorem conteudo_cons (e : At24c32) (c c' : BitVec 12) (b : Byte) (a : BitVec 12) (k : ℕ) :
    At24c32.conteudo ⟨e.inicial, (c', b) :: e.gravados, k, a, [], .fora⟩ c = if c = c' then b else e.conteudo c := by
  rw [At24c32.conteudo, List.lookup_cons]
  by_cases h : c = c'
  · simp [h]
  · have hb : (c == c') = false := by simpa using h
    simp [h, hb, At24c32.conteudo]

theorem fiel_chama (hs : Fiel n t s) (hc : Cabe n p t) (h : proximoEstado p t = some u) : ∃ s', Fiel n u s' := by
  rw [proximoEstado, hs.barra] at h
  cases hp : p.pedido with
  | escreve addr data =>
      have hle : emCurso n t.feitos ≤ p.espera := by rwa [Cabe, hp] at hc
      obtain ⟨r, a, hx⟩ := chama_escreve hp (hs.restante.trans_le hle)
      rw [hx] at h
      obtain rfl := Option.some.inj h
      refine ⟨_, rfl, by rw [emCurso, hp], ?_⟩
      intro c v hv
      rw [ultimo, hp] at hv
      dsimp only at hv ⊢
      rw [conteudo_cons]
      by_cases hcel : celula addr = c
      · rw [if_pos (decide_eq_true hcel)] at hv
        rw [if_pos hcel.symm]
        exact Option.some.inj hv
      · rw [if_neg (by simpa using hcel)] at hv
        rw [if_neg (Ne.symm hcel)]
        exact hs.conteudo c v hv
  | le addr =>
      have hresto : s.2.restante - p.espera = emCurso n (p :: t.feitos) := by rw [emCurso, hp, hs.restante]
      have hconteudo (c : BitVec 12) (v : Byte) (hv : ultimo (celula · = c) (p :: t.feitos) = some v) :
          s.2.conteudo c = v := by
        rw [ultimo, hp] at hv
        exact hs.conteudo c v hv
      rcases le_or_gt s.2.restante p.espera with hle | hlt
      · obtain ⟨r, a, hx⟩ := chama_le hp hle
        rw [hx] at h
        obtain rfl := Option.some.inj h
        exact ⟨_, rfl, (Nat.sub_eq_zero_of_le hle).symm.trans hresto, hconteudo⟩
      · obtain ⟨r, hx⟩ := chama_le_ocupada hp hlt
        rw [hx] at h
        obtain rfl := Option.some.inj h
        exact ⟨_, rfl, hresto, hconteudo⟩

/-- Nothing has been called; whatever the EEPROM holds counts as what it held at first. -/
def inicio (s : Placa) : Estado := ⟨[], livre s⟩

theorem fiel_inicio (s : Placa) : Fiel s.2.restante (inicio s) s := ⟨rfl, rfl, fun c v hv => by cases hv⟩

theorem along_lei_iff (ps : List Passo) (s : Placa) :
    Along proximoEstado Lei ps (inicio s) ↔ Along proximoEstado (Cabe s.2.restante) ps (inicio s) := by
  apply along_iff_along (I := fun t => ∃ s', Fiel s.2.restante t s') ?_ ?_ ps ⟨s, fiel_inicio s⟩
  · rintro p t u ⟨s', hs⟩ hc h
    exact fiel_chama hs hc h
  · rintro p t ⟨s', hs⟩
    exact lei_iff_cabe hs

theorem exists_chama (p : Passo) (s : Placa) : ∃ x s', chama p (livre s) = some (x, livre s') := by
  cases hp : p.pedido with
  | escreve addr data =>
      rcases le_or_gt s.2.restante p.espera with hle | hlt
      · obtain ⟨r, a, h⟩ := chama_escreve hp hle
        exact ⟨_, _, h⟩
      · obtain ⟨r, h⟩ := chama_escreve_ocupada hp hlt
        exact ⟨_, _, h⟩
  | le addr =>
      rcases le_or_gt s.2.restante p.espera with hle | hlt
      · obtain ⟨r, a, h⟩ := chama_le hp hle
        exact ⟨_, _, h⟩
      · obtain ⟨r, h⟩ := chama_le_ocupada hp hlt
        exact ⟨_, _, h⟩

/-- Every run of calls on the board returns; in it each read returns what was last written and no
write is lost exactly when the calls are made as `Cabe` says. -/
theorem eeprom_store_iff (ps : List Passo) (s : Placa) :
    (∃ t, run proximoEstado ps (inicio s) = some t) ∧
      (Along proximoEstado Lei ps (inicio s) ↔ Along proximoEstado (Cabe s.2.restante) ps (inicio s)) := by
  refine ⟨?_, along_lei_iff ps s⟩
  have hstep (p : Passo) (t : Estado) (ht : ∃ s, t.barra = livre s) :
      ∃ u, proximoEstado p t = some u ∧ ∃ s, u.barra = livre s := by
    obtain ⟨s, hs⟩ := ht
    obtain ⟨x, s', hx⟩ := exists_chama p s
    refine ⟨⟨p :: t.feitos, livre s'⟩, ?_, s', rfl⟩
    rw [proximoEstado, hs, hx]
    rfl
  obtain ⟨t, ht, -⟩ := run_total hstep ps (s := inicio s) ⟨s, rfl⟩
  exact ⟨t, ht⟩

def seguidas : List Passo :=
  [⟨0, 5000, by decide, fun _ => 0, .escreve 0 0x55⟩, ⟨0, 5000, by decide, fun _ => 0, .escreve 1 0xAA⟩]

def apagada : Placa := (⟨fun _ => 0, 0, .fora⟩, ⟨fun _ => 0xFF, [], 0, 0, [], .fora⟩)

theorem second_write_lost : ¬ Along proximoEstado Lei seguidas (inicio apagada) := by
  intro h
  have hcabe := (along_lei_iff seguidas apagada).mp h
  obtain ⟨-, hresto⟩ := hcabe
  obtain ⟨x, s', hx⟩ := exists_chama (seguidas.get ⟨0, by decide⟩) apagada
  have hdepois : proximoEstado (seguidas.get ⟨0, by decide⟩) (inicio apagada) = some ⟨_, livre s'⟩ :=
    congrArg (Option.map _) hx
  have hle : 5000 ≤ 0 := (hresto _ hdepois).1
  omega

section Espacadas

theorem emCurso_le (hn : n ≤ 10000) : emCurso n ps ≤ 10000 := by
  induction ps with
  | nil => exact hn
  | cons p ps ih =>
      rw [emCurso]
      cases p.pedido with
      | escreve addr data => exact p.ciclo_le
      | le addr => exact (Nat.sub_le _ _).trans ih

theorem ultimo_celula_eq (h : addr < 4096) (hps : ∀ p ∈ ps, ∀ a d, p.pedido = .escreve a d → a < 4096) :
    ultimo (celula · = celula addr) ps = ultimo (· = addr) ps := by
  induction ps with
  | nil => rfl
  | cons p ps ih =>
      have hrest := ih fun q hq => hps q (List.mem_cons_of_mem p hq)
      rw [ultimo, ultimo]
      cases hp : p.pedido with
      | le a => exact hrest
      | escreve a d =>
          have ha : a < 4096 := hps p List.mem_cons_self a d hp
          have hcel : celula a = celula addr ↔ a = addr := by
            refine ⟨fun hc => ?_, congrArg celula⟩
            have hnat := congrArg BitVec.toNat hc
            rw [celula, celula, BitVec.toNat_setWidth, BitVec.toNat_setWidth] at hnat
            bv_omega
          simp only [hcel, hrest]

/-- Ten milliseconds after the call before, any call meets the condition, where the EEPROM has the
addresses that are written and read. -/
theorem cabe_of_espera (hn : n ≤ 10000) (hp : 10000 ≤ p.espera) (haddr : ∀ a, p.pedido = .le a → a < 4096)
    (hfeitos : ∀ q ∈ t.feitos, ∀ a d, q.pedido = .escreve a d → a < 4096) : Cabe n p t := by
  have hle : emCurso n t.feitos ≤ p.espera := (emCurso_le hn).trans hp
  rw [Cabe]
  cases hq : p.pedido with
  | escreve a d => exact hle
  | le a =>
      intro v hv
      rw [if_pos hle]
      exact (ultimo_celula_eq (haddr a hq) hfeitos).trans hv

end Espacadas

end Corridas

end Orion68.I2cbb
