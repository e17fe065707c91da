import Orion68.Dhcp.Client

namespace Orion68.DhcpOptions

open DhcpClient

section Knowledge

abbrev Sabido := ℕ → Option UInt8

def Sabido.Contida (b b' : Sabido) : Prop := ∀ j x, b j = some x → b' j = some x

def total (raw : ℕ → UInt8) : Sabido := fun j => some (raw j)

/-- What a round of the parser comes to: the type is found, or the parser goes on. -/
inductive Passo
  | fim (msgType : UInt8)
  | segue (i : ℕ) (msgType : UInt8)

/-- An option at `i` that is not the last one. -/
def opcao (b : Sabido) (i : ℕ) (code msgType : UInt8) : Option Passo :=
  (b (i + 1)).bind fun optLen =>
    if code = 53 ∧ optLen = 1 then (b (i + 2)).map (Passo.segue (i + 3))
    else some (.segue (i + 2 + optLen.toNat) msgType)

/-- A round at `i`, when the bytes that it needs are known. The length of an option is not needed
when it is the last one anyway. -/
def passo (b : Sabido) (i : ℕ) (msgType : UInt8) : Option Passo :=
  if 320 ≤ i then some (.fim msgType)
  else
    (b i).bind fun code =>
      if code = 0xFF then some (.fim msgType)
      else if code = 0 then some (.segue (i + 1) msgType)
      else if code ≠ 53 ∧ 320 ≤ i + 2 then some (.fim msgType)
      else opcao b i code msgType

/-- The type that the parser finds, unless it needs a byte that is not known. -/
def tipo (b : Sabido) : ℕ → ℕ → UInt8 → Option UInt8
  | 0, _, msgType => some msgType
  | n + 1, i, msgType =>
      (passo b i msgType).bind fun
        | .fim msgType => some msgType
        | .segue i msgType => tipo b n i msgType

end Knowledge

section Parser

variable {b b' : Sabido} {n i : ℕ} {code msgType t : UInt8} {p : Passo}

theorem passo_fim (h : 320 ≤ i) : passo b i msgType = some (.fim msgType) := if_pos h

theorem tipo_fim (h : 320 ≤ i) : tipo b n i msgType = some msgType := by
  cases n with
  | zero => rfl
  | succ n =>
      rw [tipo, passo_fim h]
      rfl

theorem opcao_mono (h : b.Contida b') (hp : opcao b i code msgType = some p) : opcao b' i code msgType = some p := by
  obtain ⟨optLen, hlen, hp⟩ := Option.bind_eq_some_iff.mp hp
  rw [opcao, h (i + 1) optLen hlen, Option.bind_some]
  split at hp
  next htipo =>
    obtain ⟨x, hx, rfl⟩ := Option.map_eq_some_iff.mp hp
    rw [if_pos htipo, h (i + 2) x hx, Option.map_some]
  next htipo => rwa [if_neg htipo]

theorem passo_mono (h : b.Contida b') (hp : passo b i msgType = some p) : passo b' i msgType = some p := by
  rw [passo] at hp ⊢
  split at hp
  next hi => rwa [if_pos hi]
  next hi =>
    obtain ⟨code, hcode, hp⟩ := Option.bind_eq_some_iff.mp hp
    rw [if_neg hi, h i code hcode, Option.bind_some]
    split at hp
    next hff => rwa [if_pos hff]
    next hff =>
      rw [if_neg hff]
      split at hp
      next hzero => rwa [if_pos hzero]
      next hzero =>
        rw [if_neg hzero]
        split at hp
        next hlast => rwa [if_pos hlast]
        next hlast =>
          rw [if_neg hlast]
          exact opcao_mono h hp

theorem tipo_mono (h : b.Contida b') (ht : tipo b n i msgType = some t) : tipo b' n i msgType = some t := by
  induction n generalizing i msgType with
  | zero => exact ht
  | succ n ih =>
      obtain ⟨p, hp, ht⟩ := Option.bind_eq_some_iff.mp ht
      rw [tipo, passo_mono h hp, Option.bind_some]
      cases p with
      | fim msgType => exact ht
      | segue i msgType => exact ih ht

theorem parseLoop_fim {raw : ℕ → UInt8} {rawLen : ℕ} {serverIp : List UInt8} (h : rawLen ≤ i) :
    parseLoop raw rawLen n i msgType serverIp = (msgType, serverIp) := by
  cases n with
  | zero => rfl
  | succ n => rw [parseLoop, if_neg (by omega)]

theorem tipo_total (raw : ℕ → UInt8) (n i : ℕ) (msgType : UInt8) (serverIp : List UInt8) :
    tipo (total raw) n i msgType = some (parseLoop raw 320 n i msgType serverIp).1 := by
  induction n generalizing i msgType serverIp with
  | zero => rfl
  | succ n ih =>
      by_cases hi : 320 ≤ i
      · rw [tipo_fim hi, parseLoop_fim hi]
      · rw [tipo, passo, if_neg hi, parseLoop, total, Option.bind_some]
        by_cases hff : raw i = 0xFF
        · rw [if_pos hff, if_neg (fun hboth => hboth.2 hff)]
          rfl
        · have hround : i < 320 ∧ raw i ≠ 0xFF := ⟨by omega, hff⟩
          rw [if_neg hff, if_pos hround]
          by_cases hzero : raw i = 0
          · rw [if_pos hzero, if_pos hzero]
            exact ih _ _ _
          · rw [if_neg hzero, if_neg hzero]
            by_cases hlast : raw i ≠ 53 ∧ 320 ≤ i + 2
            · rw [if_pos hlast, parseLoop_fim (by omega), if_neg (fun hboth => hlast.1 hboth.1)]
              rfl
            · rw [if_neg hlast, opcao]
              dsimp only [total, Option.bind_some, Option.map_some]
              by_cases htipo : raw i = 53 ∧ raw (i + 1) = 1
              · rw [if_pos htipo, if_pos htipo, htipo.2]
                exact ih _ _ _
              · rw [if_neg htipo, if_neg htipo]
                exact ih _ _ _

end Parser

section Stuck

variable {b : Sabido} {alem : ℕ → UInt8} {n i i' : ℕ} {msgType t : UInt8}

/-- What is known of `rx_buf`, with the bytes behind it. -/
def ver (b : Sabido) (alem : ℕ → UInt8) : Sabido := fun j => if j < 320 then b j else some (alem j)

/-- The parser needs a byte of `rx_buf` that is not known: the code of an option, its length, or
the type of the message. -/
inductive Preso (b : Sabido) (i : ℕ) : Prop
  | codigo (hi : i < 320) (h : b i = none)
  | tamanho (code : UInt8) (hi : i + 1 < 320) (hcode : b i = some code) (hff : code ≠ 0xFF) (hzero : code ≠ 0)
      (hlast : ¬ (code ≠ 53 ∧ 320 ≤ i + 2)) (h : b (i + 1) = none)
  | valor (hi : i + 2 < 320) (hcode : b i = some 53) (hlen : b (i + 1) = some 1) (h : b (i + 2) = none)

theorem ver_of_lt (hi : i < 320) : ver b alem i = b i := if_pos hi

theorem ver_of_ge (hi : 320 ≤ i) : ver b alem i = some (alem i) := if_neg (by omega)

theorem passo_dentro (hp : passo (ver b alem) i msgType = some (.segue i' t)) (hi' : i' < 320) :
    passo b i msgType = some (.segue i' t) ∧ i < i' := by
  rw [passo] at hp ⊢
  split at hp
  next => cases hp
  next hi =>
    rw [ver_of_lt (by omega)] at hp
    obtain ⟨code, hcode, hp⟩ := Option.bind_eq_some_iff.mp hp
    rw [if_neg hi, hcode, Option.bind_some]
    split at hp
    next => cases hp
    next hff =>
      rw [if_neg hff]
      split at hp
      next hzero =>
        cases hp
        exact ⟨if_pos hzero, Nat.lt_succ_self i⟩
      next hzero =>
        rw [if_neg hzero]
        split at hp
        next => cases hp
        next hlast =>
          rw [if_neg hlast, opcao]
          obtain ⟨optLen, hlen, hp⟩ := Option.bind_eq_some_iff.mp hp
          split at hp
          next htipo =>
            obtain ⟨x, hx, hsegue⟩ := Option.map_eq_some_iff.mp hp
            cases hsegue
            rw [ver_of_lt (by omega)] at hlen hx
            rw [hlen, Option.bind_some, if_pos htipo, hx, Option.map_some]
            exact ⟨rfl, by omega⟩
          next htipo =>
            cases hp
            rw [ver_of_lt (by omega)] at hlen
            rw [hlen, Option.bind_some, if_neg htipo]
            exact ⟨rfl, by omega⟩

theorem preso_of_passo (hp : passo (ver b alem) i msgType = none) : Preso b i := by
  rw [passo] at hp
  split at hp
  next => cases hp
  next hi =>
    rw [ver_of_lt (by omega)] at hp
    cases hcode : b i with
    | none => exact .codigo (by omega) hcode
    | some code =>
        rw [hcode, Option.bind_some] at hp
        split at hp
        next => cases hp
        next hff =>
          split at hp
          next => cases hp
          next hzero =>
            split at hp
            next => cases hp
            next hlast =>
              rw [opcao] at hp
              by_cases hi₁ : i + 1 < 320
              · rw [ver_of_lt hi₁] at hp
                cases hlen : b (i + 1) with
                | none => exact .tamanho code hi₁ hcode hff hzero hlast hlen
                | some optLen =>
                    rw [hlen, Option.bind_some] at hp
                    split at hp
                    next htipo =>
                      obtain ⟨rfl, rfl⟩ := htipo
                      by_cases hi₂ : i + 2 < 320
                      · rw [ver_of_lt hi₂, Option.map_eq_none_iff] at hp
                        exact .valor hi₂ hcode hlen hp
                      · rw [ver_of_ge (by omega)] at hp
                        cases hp
                    next => cases hp
              · rw [ver_of_ge (by omega), ver_of_ge (by omega), Option.bind_some, Option.map_some] at hp
                split at hp
                all_goals cases hp

theorem tipo_none (h : tipo (ver b alem) n i msgType = none) (hn : 320 ≤ i + n) :
    ∃ n' i' msgType', Preso b i' ∧ i ≤ i' ∧ 320 ≤ i' + (n' + 1) ∧
      ∀ b', b.Contida b' → tipo b' n i msgType = tipo b' (n' + 1) i' msgType' := by
  induction n generalizing i msgType with
  | zero => cases h
  | succ n ih =>
      cases hp : passo (ver b alem) i msgType with
      | none => exact ⟨n, i, msgType, preso_of_passo hp, Nat.le_refl i, hn, fun b' _ => rfl⟩
      | some p =>
          rw [tipo, hp, Option.bind_some] at h
          cases p with
          | fim t => cases h
          | segue i' t =>
              dsimp only at h
              have hi' : i' < 320 := by
                by_contra hge
                rw [tipo_fim (by omega)] at h
                cases h
              obtain ⟨hround, hlt⟩ := passo_dentro hp hi'
              obtain ⟨n', i'', t', hpreso, hle, hn', hrest⟩ := ih h (by omega)
              refine ⟨n', i'', t', hpreso, by omega, hn', ?_⟩
              intro b' hb'
              rw [tipo, passo_mono hb' hround, Option.bind_some]
              exact hrest b' hb'

end Stuck

section Completion

variable {b : Sabido} {raw : ℕ → UInt8} {n i : ℕ} {msgType t : UInt8}

def Inicial (b : Sabido) : Prop := ∀ j k, j ≤ k → b j = none → b k = none

def completa (b : Sabido) (g : ℕ → UInt8) : ℕ → UInt8 := fun j => (b j).getD (g j)

theorem completa_of_some {j : ℕ} {x : UInt8} (g : ℕ → UInt8) (h : b j = some x) : completa b g j = x := by
  rw [completa, h]
  rfl

theorem completa_of_none {j : ℕ} (g : ℕ → UInt8) (h : b j = none) : completa b g j = g j := by
  rw [completa, h]
  rfl

theorem tipo_ff (h : 320 ≤ i ∨ raw i = 0xFF) : tipo (total raw) n i msgType = some msgType := by
  rcases h with hge | hff
  · exact tipo_fim hge
  · cases n with
    | zero => rfl
    | succ n =>
        by_cases hge : 320 ≤ i
        · exact tipo_fim hge
        · rw [tipo, passo, if_neg hge, total, Option.bind_some, if_pos hff]
          rfl

theorem tipo_outra (hi : i < 320) (hff : raw i ≠ 0xFF) (hzero : raw i ≠ 0)
    (hlast : ¬ (raw i ≠ 53 ∧ 320 ≤ i + 2)) (h : ¬ (raw i = 53 ∧ raw (i + 1) = 1)) :
    tipo (total raw) (n + 1) i msgType = tipo (total raw) n (i + 2 + (raw (i + 1)).toNat) msgType := by
  rw [tipo, passo, if_neg (by omega), total, Option.bind_some, if_neg hff, if_neg hzero, if_neg hlast, opcao]
  dsimp only [total, Option.bind_some]
  rw [if_neg h]
  rfl

theorem tipo_mensagem (hi : i < 320) (hraw : raw i = 53) (hlen : raw (i + 1) = 1) :
    tipo (total raw) (n + 1) i msgType = tipo (total raw) n (i + 3) (raw (i + 2)) := by
  have hne : raw i ≠ 0xFF ∧ raw i ≠ 0 := by
    rw [hraw]
    decide
  rw [tipo, passo, if_neg (by omega), total, Option.bind_some, if_neg hne.1, if_neg hne.2,
    if_neg (fun hboth => hboth.1 hraw), opcao]
  dsimp only [total, Option.bind_some]
  rw [if_pos ⟨hraw, hlen⟩]
  rfl

theorem tipo_ultima (hi : i < 320) (hraw : raw i = 53) (hlen : raw (i + 1) = 1) (hx : raw (i + 2) = t)
    (hend : raw (i + 3) = 0xFF) : tipo (total raw) (n + 1) i msgType = some t := by
  rw [tipo_mensagem hi hraw hlen, hx]
  exact tipo_ff (.inr hend)

/-- The bytes `53 1 t`, and then the end. -/
def mensagem (i : ℕ) (t : UInt8) : ℕ → UInt8 := fun j =>
  if j = i then 53 else if j = i + 1 then 1 else if j = i + 2 then t else 0xFF

theorem mensagem_bytes (i : ℕ) (t : UInt8) :
    mensagem i t i = 53 ∧ mensagem i t (i + 1) = 1 ∧ mensagem i t (i + 2) = t ∧ mensagem i t (i + 3) = 0xFF := by
  refine ⟨if_pos rfl, ?_, ?_, ?_⟩
  · rw [mensagem, if_neg (by omega), if_pos rfl]
  · rw [mensagem, if_neg (by omega), if_neg (by omega), if_pos rfl]
  · rw [mensagem, if_neg (by omega), if_neg (by omega), if_neg (by omega)]

/-- The length 0 for the option at `i`, and a message behind it. -/
def semDados (i : ℕ) (t : UInt8) : ℕ → UInt8 := fun j => if j = i + 1 then 0 else mensagem (i + 2) t j

theorem Preso.completa (h : Preso b i) (hb : Inicial b) (hn : 320 ≤ i + (n + 1)) (msgType t : UInt8) :
    ∃ g, tipo (total (completa b g)) (n + 1) i msgType = some t := by
  obtain ⟨h0, h1, h2, h3⟩ := mensagem_bytes i t
  cases h with
  | codigo hi hnone =>
      refine ⟨mensagem i t, tipo_ultima hi ?_ ?_ ?_ ?_⟩
      · rw [completa_of_none _ hnone, h0]
      · rw [completa_of_none _ (hb i _ (by omega) hnone), h1]
      · rw [completa_of_none _ (hb i _ (by omega) hnone), h2]
      · rw [completa_of_none _ (hb i _ (by omega) hnone), h3]
  | tamanho code hi hcode hff hzero hlast hnone =>
      by_cases htipo : code = 53
      · subst htipo
        refine ⟨mensagem i t, tipo_ultima (by omega) (completa_of_some _ hcode) ?_ ?_ ?_⟩
        · rw [completa_of_none _ hnone, h1]
        · rw [completa_of_none _ (hb (i + 1) _ (by omega) hnone), h2]
        · rw [completa_of_none _ (hb (i + 1) _ (by omega) hnone), h3]
      · obtain ⟨k0, k1, k2, k3⟩ := mensagem_bytes (i + 2) t
        have hi₂ : i + 2 < 320 := Nat.lt_of_not_le fun hge => hlast ⟨htipo, hge⟩
        obtain ⟨k, rfl⟩ := Nat.exists_eq_add_one_of_ne_zero (show n ≠ 0 by omega)
        have hraw := completa_of_some (semDados i t) hcode
        have hlen : DhcpOptions.completa b (semDados i t) (i + 1) = 0 := by
          rw [completa_of_none _ hnone, semDados, if_pos rfl]
        have hrest (k : ℕ) (hk : i + 2 ≤ k) : DhcpOptions.completa b (semDados i t) k = mensagem (i + 2) t k := by
          rw [completa_of_none _ (hb (i + 1) k (by omega) hnone), semDados, if_neg (by omega)]
        refine ⟨semDados i t, ?_⟩
        rw [tipo_outra (by omega) (by rwa [hraw]) (by rwa [hraw]) (by rwa [hraw]) (by rw [hraw]; tauto), hlen]
        refine tipo_ultima hi₂ ?_ ?_ ?_ ?_
        · exact (hrest _ (by omega)).trans k0
        · exact (hrest _ (by omega)).trans k1
        · exact (hrest _ (by omega)).trans k2
        · exact (hrest _ (by omega)).trans k3
  | valor hi hcode hlen hnone =>
      refine ⟨mensagem i t, tipo_ultima (by omega) (completa_of_some _ hcode) (completa_of_some _ hlen) ?_ ?_⟩
      · rw [completa_of_none _ hnone, h2]
      · rw [completa_of_none _ (hb (i + 2) _ (by omega) hnone), h3]

theorem Preso.com_ff (h : Preso b i) (hb : Inicial b) (hi₀ : 240 ≤ i) (n : ℕ) (msgType : UInt8) :
    ∃ t, ∀ raw, b.Contida (total raw) → (∀ j < 320, b j = none → raw j = 0xFF) →
      tipo (total raw) (n + 1) i msgType = some t := by
  cases h with
  | codigo hi hnone => exact ⟨msgType, fun raw _ hraw => tipo_ff (.inr (hraw i hi hnone))⟩
  | tamanho code hi hcode hff hzero hlast hnone =>
      refine ⟨msgType, fun raw hcontida hraw => ?_⟩
      have hx : raw i = code := Option.some.inj (hcontida i code hcode)
      have hlen := hraw (i + 1) hi hnone
      rw [tipo_outra (by omega) (by rwa [hx]) (by rwa [hx]) (by rwa [hx])]
      · rw [hlen]
        exact tipo_fim (show 320 ≤ i + 2 + 255 by omega)
      · rw [hlen]
        exact fun hboth => absurd hboth.2 (by decide)
  | valor hi hcode hlen hnone =>
      refine ⟨0xFF, fun raw hcontida hraw => ?_⟩
      rw [tipo_mensagem (by omega) (Option.some.inj (hcontida i 53 hcode)) (Option.some.inj (hcontida (i + 1) 1 hlen)),
        hraw (i + 2) hi hnone]
      by_cases hge : 320 ≤ i + 3
      · exact tipo_fim hge
      · exact tipo_ff (.inr (hraw (i + 3) (by omega) (hb (i + 2) _ (by omega) hnone)))

end Completion

end Orion68.DhcpOptions
