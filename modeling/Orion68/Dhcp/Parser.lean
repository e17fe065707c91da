import Orion68.Dhcp.Client
import Orion68.Lib.Loops
import Orion68.Lib.TypeLength

namespace Orion68.DhcpParser

open DhcpClient Loops TypeLength

section Code

/-- The locals of `parse_dhcp_options`: `server_ip` is what `out_server_ip` points to, `none` when it is
null, and `lidos` are the indices at which `raw` has been read. -/
structure Locais where
  i : UInt16
  msgType : UInt8
  serverIp : Option (List UInt8)
  lidos : List ℕ

def rodada (raw : ℕ → UInt8) (s : Locais) : Locais :=
  let i := s.i.toNat
  let code := raw i
  if code = 0 then { s with i := s.i + 1, lidos := s.lidos ++ [i] }
  else
    let optLen := raw (i + 1)
    let s := { s with i := s.i + (2 + optLen.toUInt16), lidos := s.lidos ++ [i, i + 1] }
    if code = 53 ∧ optLen = 1 then { s with msgType := raw (i + 2), lidos := s.lidos ++ [i + 2] }
    else if code = 54 ∧ optLen = 4 ∧ s.serverIp.isSome then
      { s with serverIp := some (quatro raw (i + 2)), lidos := s.lidos ++ [i + 2, i + 3, i + 4, i + 5] }
    else s

/-- The condition of the loop; it reads `raw` only where `i` is below `raw_len`. -/
def continua (raw : ℕ → UInt8) (rawLen : UInt16) (s : Locais) : Bool := s.i < rawLen && raw s.i.toNat != 0xFF

/-- For any `raw_len`; `none` when the loop has not ended after `n - 1` rounds. -/
def parseDhcpOptions (raw : ℕ → UInt8) (rawLen : UInt16) (serverIp : Option (List UInt8)) (n : ℕ) : Option Locais :=
  whileLoop (continua raw rawLen) (fun s => some (rodada raw s)) n ⟨240, 0, serverIp, []⟩

end Code

section Meaning

def formato : Format UInt8 := ⟨0, 0xFF, UInt8.toNat⟩

def bytes (raw : ℕ → UInt8) (i n : ℕ) : List UInt8 := (List.range' i (n - i)).map raw

/-- What an option says of the type of the message and the server. -/
def aplica (r : UInt8 × Option (List UInt8)) (o : UInt8 × List UInt8) : UInt8 × Option (List UInt8) :=
  if o.1 = 53 ∧ o.2.length = 1 then (o.2.headD 0, r.2)
  else if o.1 = 54 ∧ o.2.length = 4 then (r.1, r.2.map fun _ => o.2)
  else r

/-- The loop ends, has read nothing behind `raw_len`, and what it returns comes from the options that
are in the packet. -/
def Correto (raw : ℕ → UInt8) (rawLen : UInt16) (serverIp : Option (List UInt8)) : Prop :=
  ∃ n s, parseDhcpOptions raw rawLen serverIp n = some s ∧ (∀ j ∈ s.lidos, j < rawLen.toNat) ∧
    (s.msgType, s.serverIp) = (options formato (bytes raw 240 rawLen.toNat)).foldl aplica (0, serverIp)

/-- The value of such an option is read; `out` says that `out_server_ip` is not null. -/
def Lida (out : Bool) (code len : UInt8) : Prop := code = 53 ∧ len = 1 ∨ code = 54 ∧ len = 4 ∧ out = true

/-- From offset `i` on the options come to an end, and no byte is missing that is asked for: none is
cut off, or one whose length is there and whose value is not read, and then the same holds from
where it would end; offsets are taken mod 65536, so that this is behind the packet or at the start
of it. The last argument are the options on the way. -/
inductive Acaba (raw : ℕ → UInt8) (n : ℕ) (out : Bool) : ℕ → List (UInt8 × List UInt8) → Prop
  | inteira {i : ℕ} (h : cut formato (bytes raw i n) = []) : Acaba raw n out i (options formato (bytes raw i n))
  | cortada {i : ℕ} {code len : UInt8} {rest : List UInt8} {os : List (UInt8 × List UInt8)}
      (h : cut formato (bytes raw i n) = code :: len :: rest) (hread : ¬ Lida out code len)
      (hos : Acaba raw n out ((n - rest.length + len.toNat) % 65536) os) :
      Acaba raw n out i (options formato (bytes raw i n) ++ os)

end Meaning

section Rounds

variable {raw : ℕ → UInt8} {i j n k : ℕ} {out : Bool} {s : Locais} {os os₀ : List (UInt8 × List UInt8)}

theorem bytes_of_le (h : n ≤ i) : bytes raw i n = [] := by
  rw [bytes, Nat.sub_eq_zero_of_le h, List.range'_zero, List.map_nil]

theorem bytes_cons (h : i < n) : bytes raw i n = raw i :: bytes raw (i + 1) n := by
  obtain ⟨k, rfl⟩ := Nat.exists_eq_add_of_lt h
  rw [bytes, bytes, Nat.add_assoc, Nat.add_sub_cancel_left, List.range'_succ, List.map_cons]
  congr 3
  omega

@[simp] theorem length_bytes : (bytes raw i n).length = n - i := by
  rw [bytes, List.length_map, List.length_range']

theorem drop_bytes (raw : ℕ → UInt8) (i n k : ℕ) : (bytes raw i n).drop k = bytes raw (i + k) n := by
  rw [bytes, bytes, ← List.map_drop, List.drop_range', Nat.mul_one, Nat.sub_sub]

theorem take_bytes (h : i + k ≤ n) : (bytes raw i n).take k = bytes raw i (i + k) := by
  rw [bytes, bytes, ← List.map_take, List.take_range'_of_length_ge (by omega), Nat.add_sub_cancel_left]

theorem bytes_one (raw : ℕ → UInt8) (i : ℕ) : bytes raw i (i + (1 : UInt8).toNat) = [raw i] := by
  rw [bytes, Nat.add_sub_cancel_left]
  rfl

theorem bytes_four (raw : ℕ → UInt8) (i : ℕ) : bytes raw i (i + (4 : UInt8).toNat) = quatro raw i := by
  rw [bytes, Nat.add_sub_cancel_left]
  rfl

/-- What is read in a round that begins at `i`. -/
def leituras (raw : ℕ → UInt8) (out : Bool) (i : ℕ) : List ℕ :=
  if raw i = 0 then [i]
  else if raw i = 53 ∧ raw (i + 1) = 1 then [i, i + 1, i + 2]
  else if raw i = 54 ∧ raw (i + 1) = 4 ∧ out = true then [i, i + 1, i + 2, i + 3, i + 4, i + 5]
  else [i, i + 1]

theorem rodada_lidos (raw : ℕ → UInt8) (s : Locais) :
    (rodada raw s).lidos = s.lidos ++ leituras raw s.serverIp.isSome s.i.toNat := by
  rw [rodada, leituras]
  dsimp only
  split
  next => rfl
  next =>
    split
    next => exact List.append_assoc ..
    next =>
      split
      next => exact List.append_assoc ..
      next => rfl

theorem rodada_isSome (raw : ℕ → UInt8) (s : Locais) : (rodada raw s).serverIp.isSome = s.serverIp.isSome := by
  rw [rodada]
  dsimp only
  split
  next => rfl
  next =>
    split
    next => rfl
    next =>
      split
      next h => exact h.2.2.symm
      next => rfl

def Locais.achado (s : Locais) : UInt8 × Option (List UInt8) := (s.msgType, s.serverIp)

theorem rodada_pad (h : raw s.i.toNat = 0) (hn : s.i.toNat < n) (hlt : n < 65536) :
    (rodada raw s).i.toNat = s.i.toNat + 1 ∧ (rodada raw s).achado = s.achado := by
  rw [rodada]
  dsimp only
  rw [if_pos h]
  refine ⟨?_, rfl⟩
  rw [UInt16.toNat_add]
  exact Nat.mod_eq_of_lt (show s.i.toNat + 1 < 65536 by omega)

theorem rodada_i (h : raw s.i.toNat ≠ 0) :
    (rodada raw s).i.toNat = (s.i.toNat + 2 + (raw (s.i.toNat + 1)).toNat) % 65536 := by
  have hsum : (s.i + (2 + (raw (s.i.toNat + 1)).toUInt16)).toNat =
      (s.i.toNat + 2 + (raw (s.i.toNat + 1)).toNat) % 65536 := by
    rw [UInt16.toNat_add, UInt16.toNat_add, UInt8.toNat_toUInt16, Nat.add_mod_mod, Nat.add_assoc]
    rfl
  rw [rodada]
  dsimp only
  rw [if_neg h]
  split
  next => exact hsum
  next => split <;> exact hsum

theorem rodada_outra (h : raw s.i.toNat ≠ 0) (hread : ¬ Lida s.serverIp.isSome (raw s.i.toNat) (raw (s.i.toNat + 1))) :
    (rodada raw s).achado = s.achado := by
  rw [rodada]
  dsimp only
  rw [if_neg h, if_neg fun htype => hread (.inl htype), if_neg fun hserver => hread (.inr hserver)]
  rfl

theorem rodada_whole (h : raw s.i.toNat ≠ 0) (hn : s.i.toNat + 2 + (raw (s.i.toNat + 1)).toNat ≤ n) :
    (rodada raw s).achado = aplica s.achado (raw s.i.toNat,
      (bytes raw (s.i.toNat + 2) n).take (raw (s.i.toNat + 1)).toNat) := by
  have hlen (k : UInt8) : (raw (s.i.toNat + 1)).toNat = k.toNat ↔ raw (s.i.toNat + 1) = k := UInt8.toNat_inj
  have hone : (raw (s.i.toNat + 1)).toNat = 1 ↔ raw (s.i.toNat + 1) = 1 := hlen 1
  have hfour : (raw (s.i.toNat + 1)).toNat = 4 ↔ raw (s.i.toNat + 1) = 4 := hlen 4
  rw [take_bytes hn, aplica]
  simp only [length_bytes, Nat.add_sub_cancel_left, hone, hfour]
  by_cases htype : raw s.i.toNat = 53 ∧ raw (s.i.toNat + 1) = 1
  · rw [if_pos htype, htype.2, bytes_one, rodada]
    dsimp only
    rw [if_neg h, if_pos htype]
    rfl
  · rw [if_neg htype]
    by_cases hserver : raw s.i.toNat = 54 ∧ raw (s.i.toNat + 1) = 4
    · rw [if_pos hserver, hserver.2, bytes_four]
      cases hip : s.serverIp with
      | none =>
          rw [rodada_outra h]
          · simp [Locais.achado, hip]
          · rintro (htype' | ⟨-, -, hsome⟩)
            · exact htype htype'
            · rw [hip] at hsome
              cases hsome
      | some ip =>
          rw [rodada]
          dsimp only
          rw [if_neg h, if_neg htype, if_pos ⟨hserver.1, hserver.2, by rw [hip]; rfl⟩]
          simp only [Locais.achado, hip]
          rfl
    · rw [if_neg hserver, rodada_outra h]
      rintro (htype' | ⟨hcode, hfour', -⟩)
      · exact htype htype'
      · exact hserver ⟨hcode, hfour'⟩

end Rounds

section Chain

variable {raw : ℕ → UInt8} {i j n : ℕ} {out : Bool} {os os₀ : List (UInt8 × List UInt8)}

theorem chain_ended (h : n ≤ i ∨ raw i = 0xFF) :
    options formato (bytes raw i n) = [] ∧ cut formato (bytes raw i n) = [] := by
  by_cases hi : n ≤ i
  · rw [bytes_of_le hi]
    exact ⟨options_nil, cut_nil⟩
  · rw [bytes_cons (by omega), h.resolve_left hi]
    exact ⟨options_stop _, cut_stop _⟩

/-- Behind `os₀`, which comes first, the two offsets have the same options. -/
structure Leva (raw : ℕ → UInt8) (n i : ℕ) (os₀ : List (UInt8 × List UInt8)) (j : ℕ) : Prop where
  options : options formato (bytes raw i n) = os₀ ++ options formato (bytes raw j n)
  cut : cut formato (bytes raw i n) = cut formato (bytes raw j n)

theorem leva_pad (hi : i < n) (h : raw i = 0) : Leva raw n i [] (i + 1) := by
  have hne : formato.pad ≠ formato.stop := by decide
  have hpad : raw i = formato.pad := h
  constructor
  · rw [bytes_cons hi, hpad, options_pad hne]
    rfl
  · rw [bytes_cons hi, hpad, cut_pad hne]

theorem leva_whole (hff : raw i ≠ 0xFF) (h : raw i ≠ 0) (hn : i + 2 + (raw (i + 1)).toNat ≤ n) :
    Leva raw n i [(raw i, (bytes raw (i + 2) n).take (raw (i + 1)).toNat)] (i + 2 + (raw (i + 1)).toNat) := by
  have hsize : formato.size (raw (i + 1)) ≤ (bytes raw (i + 2) n).length := by
    rw [length_bytes]
    change (raw (i + 1)).toNat ≤ _
    omega
  have hdrop : (bytes raw (i + 2) n).drop (formato.size (raw (i + 1))) = bytes raw (i + 2 + (raw (i + 1)).toNat) n :=
    drop_bytes raw (i + 2) n _
  constructor
  · rw [bytes_cons (by omega), bytes_cons (by omega), options_whole hff h hsize, hdrop]
    rfl
  · rw [bytes_cons (by omega), bytes_cons (by omega), cut_whole hff h hsize, hdrop]

theorem chain_alone (hi : i + 1 = n) (hff : raw i ≠ 0xFF) (h : raw i ≠ 0) :
    cut formato (bytes raw i n) = [raw i] := by
  rw [bytes_cons (by omega), bytes_of_le (by omega)]
  exact cut_singleton hff h

theorem chain_short (hi : i + 1 < n) (hff : raw i ≠ 0xFF) (h : raw i ≠ 0)
    (hn : n < i + 2 + (raw (i + 1)).toNat) : options formato (bytes raw i n) = [] ∧
      cut formato (bytes raw i n) = raw i :: raw (i + 1) :: bytes raw (i + 2) n := by
  have hsize : (bytes raw (i + 2) n).length < formato.size (raw (i + 1)) := by
    rw [length_bytes]
    change _ < (raw (i + 1)).toNat
    omega
  rw [bytes_cons (by omega), bytes_cons (by omega)]
  exact ⟨options_short hff h hsize, cut_short hff h hsize⟩

theorem acaba_ended (h : n ≤ i ∨ raw i = 0xFF) : Acaba raw n out i [] := by
  obtain ⟨hopt, hcut⟩ := chain_ended h
  have hend : Acaba raw n out i _ := .inteira hcut
  rwa [hopt] at hend

theorem Leva.acaba (h : Leva raw n i os₀ j) (hj : Acaba raw n out j os) : Acaba raw n out i (os₀ ++ os) := by
  cases hj with
  | inteira hcut =>
      rw [← h.options]
      exact .inteira (h.cut.trans hcut)
  | cortada hcut hread hos =>
      rw [← List.append_assoc, ← h.options]
      exact .cortada (h.cut.trans hcut) hread hos

theorem acaba_short (hi : i + 1 < n) (hff : raw i ≠ 0xFF) (h : raw i ≠ 0) (hn : n < i + 2 + (raw (i + 1)).toNat)
    (hread : ¬ Lida out (raw i) (raw (i + 1))) (hos : Acaba raw n out ((i + 2 + (raw (i + 1)).toNat) % 65536) os) :
    Acaba raw n out i os := by
  obtain ⟨hopt, hcut⟩ := chain_short hi hff h hn
  have hend : n - (bytes raw (i + 2) n).length + (raw (i + 1)).toNat = i + 2 + (raw (i + 1)).toNat := by
    rw [length_bytes]
    omega
  have hshort := Acaba.cortada hcut hread (hend.symm ▸ hos)
  rwa [hopt] at hshort

end Chain

section Runs

variable {raw : ℕ → UInt8} {rawLen : UInt16} {i j m : ℕ} {out : Bool} {s t : Locais}
  {os os₀ : List (UInt8 × List UInt8)}

theorem continua_iff : continua raw rawLen s = true ↔ s.i.toNat < rawLen.toNat ∧ raw s.i.toNat ≠ 0xFF := by
  rw [continua, Bool.and_eq_true, decide_eq_true_iff, UInt16.lt_iff_toNat_lt, bne_iff_ne]

theorem continua_false (h : continua raw rawLen s = false) : rawLen.toNat ≤ s.i.toNat ∨ raw s.i.toNat = 0xFF := by
  by_contra hno
  rw [not_or, Nat.not_le] at hno
  exact Bool.eq_false_iff.mp h (continua_iff.mpr hno)

theorem lidos_rodada (h : j ∈ s.lidos) : j ∈ (rodada raw s).lidos := by
  rw [rodada_lidos]
  exact List.mem_append_left _ h

theorem lidos_loop (h : whileLoop (continua raw rawLen) (fun s => some (rodada raw s)) m s = some t)
    (hj : j ∈ s.lidos) : j ∈ t.lidos := by
  refine (whileLoop_preserves (I := fun s => j ∈ s.lidos) ?_ hj h).1
  intro s t hs _ ht
  obtain rfl := Option.some.inj ht
  exact lidos_rodada hs

theorem leituras_pad (h : raw i = 0) : leituras raw out i = [i] := if_pos h

theorem leituras_whole {n : ℕ} (h : raw i ≠ 0) (hn : i + 2 + (raw (i + 1)).toNat ≤ n) :
    ∀ j ∈ leituras raw out i, j < n := by
  rw [leituras, if_neg h]
  split
  next htype =>
    rw [htype.2] at hn
    change i + 2 + 1 ≤ n at hn
    simp only [List.mem_cons, List.not_mem_nil, or_false]
    omega
  next =>
    split
    next hserver =>
      rw [hserver.2.1] at hn
      change i + 2 + 4 ≤ n at hn
      simp only [List.mem_cons, List.not_mem_nil, or_false]
      omega
    next =>
      simp only [List.mem_cons, List.not_mem_nil, or_false]
      omega

theorem leituras_outra (h : raw i ≠ 0) (hread : ¬ Lida out (raw i) (raw (i + 1))) : leituras raw out i = [i, i + 1] := by
  rw [leituras, if_neg h, if_neg fun htype => hread (.inl htype), if_neg fun hserver => hread (.inr hserver)]

theorem mem_leituras (h : raw i ≠ 0) : i + 1 ∈ leituras raw out i := by
  rw [leituras, if_neg h]
  split
  next => simp
  next => split <;> simp

theorem leituras_short {n : ℕ} (h : raw i ≠ 0) (hn : n < i + 2 + (raw (i + 1)).toNat)
    (hread : Lida out (raw i) (raw (i + 1))) : ∃ j ∈ leituras raw out i, n ≤ j := by
  rcases hread with htype | hserver
  · rw [htype.2] at hn
    change n < i + 2 + 1 at hn
    refine ⟨i + 2, ?_, by omega⟩
    rw [leituras, if_neg h, if_pos htype]
    simp
  · rw [hserver.2.1] at hn
    change n < i + 2 + 4 at hn
    refine ⟨i + 5, ?_, by omega⟩
    have htype : ¬ (raw i = 53 ∧ raw (i + 1) = 1) := by
      rw [hserver.1]
      exact fun htype => absurd htype.1 (by decide)
    rw [leituras, if_neg h, if_neg htype, if_pos hserver]
    simp

def Dentro (rawLen : UInt16) (s : Locais) : Prop := ∀ j ∈ s.lidos, j < rawLen.toNat

theorem dentro_rodada (h : Dentro rawLen s) (hread : ∀ j ∈ leituras raw s.serverIp.isSome s.i.toNat, j < rawLen.toNat) :
    Dentro rawLen (rodada raw s) := by
  intro j hj
  rw [rodada_lidos] at hj
  rcases List.mem_append.mp hj with hj | hj
  · exact h j hj
  · exact hread j hj

/-- One that the loop leaves so: what it has found, and that nothing has been read behind the packet. -/
def Entrega (raw : ℕ → UInt8) (rawLen : UInt16) (s : Locais) (os : List (UInt8 × List UInt8)) : Prop :=
  ∃ m t, whileLoop (continua raw rawLen) (fun s => some (rodada raw s)) m s = some t ∧ Dentro rawLen t ∧
    t.achado = os.foldl aplica s.achado

theorem entrega_ended (h : rawLen.toNat ≤ s.i.toNat ∨ raw s.i.toNat = 0xFF) (hs : Dentro rawLen s) :
    Entrega raw rawLen s [] := by
  refine ⟨1, s, ?_, hs, rfl⟩
  rw [whileLoop, if_neg]
  rw [continua_iff]
  rintro ⟨hi, hff⟩
  exact h.elim (fun hle => absurd hi (Nat.not_lt.mpr hle)) hff

theorem entrega_rodada (hi : s.i.toNat < rawLen.toNat) (hff : raw s.i.toNat ≠ 0xFF)
    (hachado : (rodada raw s).achado = os₀.foldl aplica s.achado) (h : Entrega raw rawLen (rodada raw s) os) :
    Entrega raw rawLen s (os₀ ++ os) := by
  obtain ⟨m, t, ht, hdentro, hfound⟩ := h
  refine ⟨m + 1, t, ?_, hdentro, ?_⟩
  · rw [whileLoop, if_pos (continua_iff.mpr ⟨hi, hff⟩)]
    exact ht
  · rw [hfound, hachado, List.foldl_append]

/-- A round that does not read behind the packet: how the options go on, and what it finds. -/
structure Segue (raw : ℕ → UInt8) (rawLen : UInt16) (s : Locais) (os₀ : List (UInt8 × List UInt8)) : Prop where
  i : s.i.toNat < rawLen.toNat
  code : raw s.i.toNat ≠ 0xFF
  reads : ∀ j ∈ leituras raw s.serverIp.isSome s.i.toNat, j < rawLen.toNat
  achado : (rodada raw s).achado = os₀.foldl aplica s.achado

theorem Segue.entrega (h : Segue raw rawLen s os₀) (hr : Entrega raw rawLen (rodada raw s) os) :
    Entrega raw rawLen s (os₀ ++ os) := entrega_rodada h.i h.code h.achado hr

theorem segue_pad (hi : s.i.toNat < rawLen.toNat) (h : raw s.i.toNat = 0) :
    Segue raw rawLen s [] ∧ (rodada raw s).i.toNat = s.i.toNat + 1 := by
  obtain ⟨hnext, hachado⟩ := rodada_pad h hi rawLen.toNat_lt
  refine ⟨⟨hi, by rw [h]; decide, ?_, hachado⟩, hnext⟩
  rw [leituras_pad h, List.forall_mem_singleton]
  exact hi

theorem segue_whole (hff : raw s.i.toNat ≠ 0xFF) (h : raw s.i.toNat ≠ 0)
    (hn : s.i.toNat + 2 + (raw (s.i.toNat + 1)).toNat ≤ rawLen.toNat) :
    Segue raw rawLen s [(raw s.i.toNat, (bytes raw (s.i.toNat + 2) rawLen.toNat).take (raw (s.i.toNat + 1)).toNat)] ∧
      (rodada raw s).i.toNat = s.i.toNat + 2 + (raw (s.i.toNat + 1)).toNat := by
  refine ⟨⟨by omega, hff, leituras_whole h hn, rodada_whole h hn⟩, ?_⟩
  rw [rodada_i h]
  exact Nat.mod_eq_of_lt (Nat.lt_of_le_of_lt hn rawLen.toNat_lt)

theorem segue_short (hi : s.i.toNat + 1 < rawLen.toNat) (hff : raw s.i.toNat ≠ 0xFF) (h : raw s.i.toNat ≠ 0)
    (hread : ¬ Lida s.serverIp.isSome (raw s.i.toNat) (raw (s.i.toNat + 1))) : Segue raw rawLen s [] := by
  refine ⟨by omega, hff, ?_, rodada_outra h hread⟩
  rw [leituras_outra h hread]
  simp only [List.mem_cons, List.not_mem_nil, or_false]
  omega

/-- From every state at an offset, the loop delivers these options. -/
def EntregaDe (raw : ℕ → UInt8) (rawLen : UInt16) (out : Bool) (i : ℕ) (os : List (UInt8 × List UInt8)) : Prop :=
  ∀ s, s.i.toNat = i → s.serverIp.isSome = out → Dentro rawLen s → Entrega raw rawLen s os

theorem entregaDe_leva (hleva : Leva raw rawLen.toNat i os₀ j)
    (hround : ∀ s, s.i.toNat = i → Segue raw rawLen s os₀ ∧ (rodada raw s).i.toNat = j)
    (h : EntregaDe raw rawLen out j (options formato (bytes raw j rawLen.toNat) ++ os)) :
    EntregaDe raw rawLen out i (options formato (bytes raw i rawLen.toNat) ++ os) := by
  intro s hs hout hdentro
  obtain ⟨hsegue, hnext⟩ := hround s hs
  rw [hleva.options, List.append_assoc]
  refine hsegue.entrega (h (rodada raw s) hnext ?_ (dentro_rodada hdentro hsegue.reads))
  rw [rodada_isSome, hout]

/-- The options from `i` on are passed one by one; then none is left, or the one that is cut off. -/
theorem entregaDe_chain
    (htail : cut formato (bytes raw i rawLen.toNat) = [] ∧ os = [] ∨
      ∃ code len rest, cut formato (bytes raw i rawLen.toNat) = code :: len :: rest ∧ ¬ Lida out code len ∧
        EntregaDe raw rawLen out ((rawLen.toNat - rest.length + len.toNat) % 65536) os) :
    EntregaDe raw rawLen out i (options formato (bytes raw i rawLen.toNat) ++ os) := by
  induction hk : rawLen.toNat - i using Nat.strong_induction_on generalizing i with
  | h k ih =>
      by_cases hend : rawLen.toNat ≤ i ∨ raw i = 0xFF
      · obtain ⟨hopt, hcut⟩ := chain_ended hend
        rcases htail with ⟨-, rfl⟩ | ⟨code, len, rest, hcons, -⟩
        · intro s hs _ hdentro
          rw [hopt]
          exact entrega_ended (hs.symm ▸ hend) hdentro
        · rw [hcut] at hcons
          cases hcons
      · obtain ⟨hi, hff⟩ := not_or.mp hend
        rw [Nat.not_le] at hi
        by_cases hzero : raw i = 0
        · have hleva := leva_pad hi hzero
          refine entregaDe_leva hleva ?_ (ih _ (by omega) (hleva.cut ▸ htail) rfl)
          rintro s rfl
          exact segue_pad hi hzero
        · by_cases hn : i + 2 + (raw (i + 1)).toNat ≤ rawLen.toNat
          · have hleva := leva_whole hff hzero hn
            refine entregaDe_leva hleva ?_ (ih _ (by omega) (hleva.cut ▸ htail) rfl)
            rintro s rfl
            exact segue_whole hff hzero hn
          · -- the option at `i` is cut off
            by_cases halone : i + 1 = rawLen.toNat
            · rw [chain_alone halone hff hzero] at htail
              rcases htail with ⟨hnil, -⟩ | ⟨code, len, rest, hcons, -⟩
              · cases hnil
              · cases hcons
            · obtain ⟨hopt, hcut⟩ := chain_short (by omega) hff hzero (Nat.not_le.mp hn)
              rw [hcut] at htail
              rcases htail with ⟨hnil, -⟩ | ⟨code, len, rest, hcons, hread, hrest⟩
              · cases hnil
              · cases hcons
                rintro s rfl hout hdentro
                have hsegue : Segue raw rawLen s [] := segue_short (by omega) hff hzero (hout.symm ▸ hread)
                rw [hopt]
                refine hsegue.entrega (hrest (rodada raw s) ?_ ?_ (dentro_rodada hdentro hsegue.reads))
                · rw [rodada_i hzero, length_bytes]
                  congr 1
                  omega
                · rw [rodada_isSome, hout]

theorem Acaba.entregaDe (h : Acaba raw rawLen.toNat out i os) : EntregaDe raw rawLen out i os := by
  induction h with
  | inteira hcut =>
      have hall : EntregaDe raw rawLen out _ (_ ++ []) := entregaDe_chain (.inl ⟨hcut, rfl⟩)
      rwa [List.append_nil] at hall
  | cortada hcut hread _ ih => exact entregaDe_chain (.inr ⟨_, _, _, hcut, hread, ih⟩)

/-- What the loop leaves has come from options that come to an end, if nothing has been read behind
the packet. -/
theorem acaba_of_loop (h : whileLoop (continua raw rawLen) (fun s => some (rodada raw s)) m s = some t)
    (ht : Dentro rawLen t) :
    ∃ os, Acaba raw rawLen.toNat s.serverIp.isSome s.i.toNat os ∧ t.achado = os.foldl aplica s.achado := by
  induction m generalizing s with
  | zero => cases h
  | succ m ih =>
      rw [whileLoop] at h
      split at h
      next hc =>
        obtain ⟨hi, hff⟩ := continua_iff.mp hc
        rw [Option.bind_some] at h
        have hreads : ∀ j ∈ leituras raw s.serverIp.isSome s.i.toNat, j < rawLen.toNat := by
          intro j hj
          refine ht j (lidos_loop h ?_)
          rw [rodada_lidos]
          exact List.mem_append_right _ hj
        obtain ⟨os, hos, hfound⟩ := ih h
        rw [rodada_isSome] at hos
        by_cases hzero : raw s.i.toNat = 0
        · obtain ⟨hsegue, hnext⟩ := segue_pad hi hzero
          rw [hnext] at hos
          exact ⟨os, (leva_pad hi hzero).acaba hos, by rw [hfound, hsegue.achado]; rfl⟩
        · by_cases hn : s.i.toNat + 2 + (raw (s.i.toNat + 1)).toNat ≤ rawLen.toNat
          · obtain ⟨hsegue, hnext⟩ := segue_whole hff hzero hn
            rw [hnext] at hos
            exact ⟨_, (leva_whole hff hzero hn).acaba hos, by rw [hfound, hsegue.achado, ← List.foldl_append]⟩
          · have hlen := hreads _ (mem_leituras hzero)
            have hread : ¬ Lida s.serverIp.isSome (raw s.i.toNat) (raw (s.i.toNat + 1)) := by
              intro hread
              obtain ⟨j, hj, hle⟩ := leituras_short hzero (Nat.not_le.mp hn) hread
              exact absurd (hreads j hj) (Nat.not_lt.mpr hle)
            have hsegue := segue_short hlen hff hzero hread
            rw [rodada_i hzero] at hos
            exact ⟨os, acaba_short hlen hff hzero (Nat.not_le.mp hn) hread hos, by rw [hfound, hsegue.achado]; rfl⟩
      next hc =>
        cases h
        exact ⟨[], acaba_ended (continua_false (Bool.eq_false_iff.mpr hc)), rfl⟩

theorem Acaba.correto {serverIp : Option (List UInt8)} (h : Acaba raw rawLen.toNat serverIp.isSome 240 os)
    (heq : os.foldl aplica (0, serverIp) =
      (options formato (bytes raw 240 rawLen.toNat)).foldl aplica (0, serverIp)) : Correto raw rawLen serverIp := by
  obtain ⟨m, t, hloop, hdentro, hfound⟩ := h.entregaDe ⟨240, 0, serverIp, []⟩ rfl rfl fun j hj => by cases hj
  exact ⟨m, t, hloop, hdentro, hfound.trans heq⟩

/-- The parser is right exactly when the options come to an end with no byte missing, and those that
come where the offset has wrapped around, if any, leave the type and the server as they are. -/
theorem parse_correct_iff (raw : ℕ → UInt8) (rawLen : UInt16) (serverIp : Option (List UInt8)) :
    Correto raw rawLen serverIp ↔
      ∃ os, Acaba raw rawLen.toNat serverIp.isSome 240 os ∧
        os.foldl aplica (0, serverIp) = (options formato (bytes raw 240 rawLen.toNat)).foldl aplica (0, serverIp) := by
  constructor
  · rintro ⟨m, t, hloop, hdentro, hfound⟩
    obtain ⟨os, hos, heq⟩ := acaba_of_loop hloop hdentro
    exact ⟨os, hos, heq.symm.trans hfound⟩
  · rintro ⟨os, hos, heq⟩
    exact hos.correto heq

theorem loop_client {ip : List UInt8} (h : whileLoop (continua raw 320) (fun s => some (rodada raw s)) m s = some t)
    (hip : s.serverIp = some ip) (k : ℕ) (hk : 320 ≤ s.i.toNat + k) :
    t.achado = Prod.map id some (parseLoop raw 320 k s.i.toNat s.msgType ip) := by
  induction m generalizing s ip k with
  | zero => cases h
  | succ m ih =>
      rw [whileLoop] at h
      split at h
      next hc =>
        obtain ⟨hi, hff⟩ := continua_iff.mp hc
        change s.i.toNat < 320 at hi
        obtain ⟨k, rfl⟩ : ∃ k', k = k' + 1 := Nat.exists_eq_succ_of_ne_zero (by omega)
        rw [Option.bind_some] at h
        rw [parseLoop, if_pos ⟨hi, hff⟩]
        by_cases hzero : raw s.i.toNat = 0
        · obtain ⟨hnext, hachado⟩ := rodada_pad (n := 320) hzero hi (by decide)
          obtain ⟨hmsg, hserver⟩ := Prod.mk.inj hachado
          rw [ih h (hserver.trans hip) k (by omega), hnext, hmsg, if_pos hzero]
        · have hnext := rodada_i hzero
          have hlen := (raw (s.i.toNat + 1)).toNat_lt
          rw [Nat.mod_eq_of_lt (by omega)] at hnext
          have hserver : (rodada raw s).serverIp =
              some (if raw s.i.toNat = 54 ∧ raw (s.i.toNat + 1) = 4 then quatro raw (s.i.toNat + 2) else ip) := by
            rw [rodada]
            dsimp only
            rw [if_neg hzero]
            split
            next htype =>
              rw [if_neg, ← hip]
              rw [htype.1]
              exact fun hcode => absurd hcode.1 (by decide)
            next =>
              split
              next hserver => rw [if_pos ⟨hserver.1, hserver.2.1⟩]
              next hserver =>
                rw [if_neg, ← hip]
                exact fun hboth => hserver ⟨hboth.1, hboth.2, by rw [hip]; rfl⟩
          have hmsg : (rodada raw s).msgType =
              if raw s.i.toNat = 53 ∧ raw (s.i.toNat + 1) = 1 then raw (s.i.toNat + 2) else s.msgType := by
            rw [rodada]
            dsimp only
            rw [if_neg hzero]
            split
            next => rfl
            next => split <;> rfl
          rw [ih h hserver k (by omega), hnext, hmsg, if_neg hzero]
      next hc =>
        cases h
        have hend := continua_false (Bool.eq_false_iff.mpr hc)
        have hleft : parseLoop raw 320 k t.i.toNat t.msgType ip = (t.msgType, ip) := by
          cases k with
          | zero => rfl
          | succ k =>
              rw [parseLoop, if_neg]
              rintro ⟨hi, hff⟩
              exact hend.elim (fun hle => absurd hi (Nat.not_lt.mpr hle)) hff
        rw [hleft, Locais.achado, hip]
        rfl

theorem parse_client {ip : List UInt8} (h : parseDhcpOptions raw 320 (some ip) m = some t) :
    t.achado = Prod.map id some (DhcpClient.parseDhcpOptions raw 320 ip) :=
  loop_client h rfl (320 - OFF_OPTIONS) (Nat.le_refl 320)

/-- An option 61 with 76 values, and then the code and the length of an option 53: 320 bytes in all. -/
def semValor (j : ℕ) : UInt8 :=
  if j = 240 then 61 else if j = 241 then 76 else if j = 318 then 53 else if j = 319 then 1 else 0

theorem value_behind_packet : ¬ Correto semValor 320 none := by
  rintro ⟨m, t, hloop, hdentro, -⟩
  obtain ⟨os, hos, -⟩ := acaba_of_loop hloop hdentro
  have hcut : cut formato (bytes semValor 240 320) = [53, 1] := by
    have hbytes : bytes semValor 240 320 = 61 :: 76 :: (List.replicate 76 0 ++ [53, 1]) := by decide +kernel
    rw [hbytes, cut_whole (by decide) (by decide) (by decide +kernel)]
    exact cut_short (by decide) (by decide) (by decide)
  cases hos with
  | inteira h => exact absurd (hcut.symm.trans h) (by decide)
  | cortada h hread _ =>
      have heq := hcut.symm.trans h
      cases heq
      exact hread (.inl ⟨rfl, rfl⟩)

end Runs

end Orion68.DhcpParser
