import Mathlib.Data.List.Count
import Orion68.Libc.Sprintf

namespace Orion68.Stdio

section Decimals

/-- Each entry is at least a tenth of what is left before it. -/
def Decades : List UInt32 → Nat → Prop
  | [], _ => True
  | power :: powers, limit => limit ≤ 10 * power.toNat ∧ Decades powers power.toNat

variable {ps : List UInt32} {limit : Nat} {value : UInt32}

theorem decades_powers : Decades powers (2 ^ 32) := by
  simp [powers, Decades]

theorem digito_of_lt {d : UInt32} (h : d.toNat < 10) : Digito (ch '0' + d.toUInt8) := by
  have h0 : ch '0' = 48 := rfl
  have h9 : ch '9' = 57 := rfl
  rw [Digito, h0, h9, UInt8.le_iff_toNat_le, UInt8.le_iff_toNat_le, UInt8.toNat_add, UInt32.toNat_toUInt8]
  simp only [UInt8.reduceToNat]
  omega

theorem contaSubtracoes_eq {power : UInt32} {n : Nat} (h : value.toNat < n * power.toNat) (digit : UInt32) :
    contaSubtracoes n power value digit = (value % power, digit + value / power) := by
  induction n generalizing value digit with
  | zero => exact absurd h (by rw [Nat.zero_mul]; exact Nat.not_lt_zero _)
  | succ n ih =>
      rw [Nat.succ_mul] at h
      rw [contaSubtracoes]
      split
      next hle =>
        have hle' := UInt32.le_iff_toNat_le.mp hle
        have hpos : 0 < power.toNat := by
          by_contra h0
          rw [Nat.eq_zero_of_not_pos h0, Nat.mul_zero] at h
          exact absurd h (Nat.not_lt_zero _)
        have hsub : (value - power).toNat = value.toNat - power.toNat := UInt32.toNat_sub_of_le value power hle
        have hmod : (value - power) % power = value % power := by
          rw [← UInt32.toNat_inj, UInt32.toNat_mod, UInt32.toNat_mod, hsub, Nat.mod_eq_sub_mod hle']
        have hdiv : value / power = (value - power) / power + 1 := by
          have hq := Nat.div_eq_sub_div hpos hle'
          have hlt := (value / power).toNat_lt
          rw [UInt32.toNat_div, hq] at hlt
          rw [← UInt32.toNat_inj, UInt32.toNat_add, UInt32.toNat_div, UInt32.toNat_div, hsub, hq]
          exact (Nat.mod_eq_of_lt hlt).symm
        rw [ih (by omega), hmod, hdiv, UInt32.add_assoc, UInt32.add_comm 1]
      next hlt =>
        have hlt' := UInt32.lt_iff_toNat_lt.mp (UInt32.not_le.mp hlt)
        have hmod : value % power = value := by
          rw [← UInt32.toNat_inj, UInt32.toNat_mod, Nat.mod_eq_of_lt hlt']
        have hdiv : value / power = 0 := by
          rw [← UInt32.toNat_inj, UInt32.toNat_div, Nat.div_eq_of_lt hlt']
          rfl
        rw [hmod, hdiv, UInt32.add_zero]

theorem decimal_cons {power : UInt32} (h : value.toNat < 10 * power.toNat) (started : Bool) :
    decimal (power :: ps) value started =
      if value / power ≠ 0 ∨ started then (ch '0' + (value / power).toUInt8) :: decimal ps (value % power) true
      else decimal ps (value % power) started := by
  rw [decimal, contaSubtracoes_eq h, UInt32.zero_add]

theorem decimal_digito (hps : Decades ps limit) (hv : value.toNat < limit) (started : Bool) :
    ∀ c ∈ decimal ps value started, Digito c := by
  induction ps generalizing limit value started with
  | nil => exact nofun
  | cons power ps ih =>
      have hpos : 0 < power.toNat := by have := hps.1; omega
      have hmod : (value % power).toNat < power.toNat := by
        rw [UInt32.toNat_mod]
        exact Nat.mod_lt _ hpos
      have hdigit : (value / power).toNat < 10 := by
        rw [UInt32.toNat_div, Nat.div_lt_iff_lt_mul hpos]
        exact hv.trans_le hps.1
      rw [decimal_cons (hv.trans_le hps.1)]
      split
      next =>
        rw [List.forall_mem_cons]
        exact ⟨digito_of_lt hdigit, ih hps.2 hmod true⟩
      next => exact ih hps.2 hmod started

theorem decimal_ne_nil (hps : Decades ps limit) (hlt : value.toNat < limit) (hv : value ≠ 0) (h1 : 1 ∈ ps) :
    decimal ps value false ≠ [] := by
  induction ps generalizing limit with
  | nil => exact absurd h1 List.not_mem_nil
  | cons power ps ih =>
      rw [decimal_cons (hlt.trans_le hps.1)]
      split
      next => exact List.cons_ne_nil _ _
      next hdigit =>
        have hzero : value / power = 0 := by
          by_contra h
          exact hdigit (.inl h)
        have hmod : value % power = value := by
          have hdiv := Nat.mod_add_div value.toNat power.toNat
          rw [← UInt32.toNat_div, hzero, UInt32.toNat_zero, Nat.mul_zero, Nat.add_zero] at hdiv
          apply UInt32.toNat.inj
          rw [UInt32.toNat_mod]
          exact hdiv
        have hne : (1 : UInt32) ≠ power := by
          rintro rfl
          rw [UInt32.div_one] at hzero
          exact hv hzero
        have hbelow : value.toNat < power.toNat := by
          have hpos : 0 < power.toNat := by have := hps.1; omega
          rw [← hmod, UInt32.toNat_mod]
          exact Nat.mod_lt _ hpos
        rw [hmod]
        exact ih hps.2 hbelow ((List.mem_cons.mp h1).resolve_left hne)

theorem itodec_digito {f : Flags} (h : f.larga) : itodec f.width ≠ [] ∧ ∀ c ∈ itodec f.width, Digito c := by
  have hne : f.width ≠ 0 := by
    intro h0
    have hpos := h.1
    rw [h0] at hpos
    exact UInt32.lt_irrefl 0 hpos
  rw [itodec, if_neg hne, if_neg (UInt32.not_le.mpr h.2)]
  exact ⟨decimal_ne_nil decades_powers f.width.toNat_lt hne (by decide),
    decimal_digito decades_powers f.width.toNat_lt false⟩

end Decimals

section Directives

variable {cstr : UInt32 → List UInt8} {c : UInt8} {f : Flags} {arg : UInt32}

def Numerica (c : UInt8) : Prop := c ∈ [ch 'd', ch 'i', ch 'u', ch 'x', ch 'X', ch 'o']

def Conhecida (c : UInt8) : Prop := c ∈ [ch 'c', ch 'f', ch 'F', ch 's', ch '%'] ∨ Numerica c

instance (c : UInt8) : Decidable (Numerica c) := inferInstanceAs (Decidable (c ∈ _))

instance (c : UInt8) : Decidable (Conhecida c) := inferInstanceAs (Decidable (_ ∨ _))

/-- The flags that a letter can have: no more zeros than `buffer` holds, none before an unknown one. -/
def Serve (c : UInt8) (f : Flags) : Prop :=
  if Conhecida c then Numerica c → f.zeroPad → f.larga → f.width.toNat < 32 else f.zeroPad = false ∧ ¬ f.larga

theorem numero_isSome (h : f.zeroPad → f.larga → f.width.toNat < 32) (str : List UInt8) : (numero f str).isSome := by
  rw [numero]
  split
  next hpad =>
    rw [padZeros, if_pos (h hpad.1 hpad.2)]
    split
    next => rfl
    next => rfl
  next => rfl

theorem lt_of_numero {str : List UInt8} (hlen : str.length < 32) (h : (numero f str).isSome) (hz : f.zeroPad)
    (hl : f.larga) : f.width.toNat < 32 := by
  rw [numero, if_pos ⟨hz, hl⟩, padZeros] at h
  split at h
  next hle => omega
  next =>
    split at h
    next hlt => exact hlt
    next => exact absurd h Bool.false_ne_true

theorem printfSwitch_of_conhecida (h : Conhecida c) :
    printfSwitch cstr c f arg = (sprintfSwitch cstr c f arg).map fun e => ⟨e.1, e.1.length, e.2⟩ := by
  have hnum (str : List UInt8) : (numero f str).map Efeito.numero =
      ((numero f str).map fun str => (str, 1)).map fun e => (⟨e.1, e.1.length, e.2⟩ : Efeito) := by
    rw [Option.map_map]
    rfl
  simp only [Conhecida, Numerica, List.mem_cons, List.not_mem_nil, or_false] at h
  rcases h with (rfl | rfl | rfl | rfl | rfl) | rfl | rfl | rfl | rfl | rfl | rfl
  · rfl
  · rfl
  · rfl
  · change (if arg ≠ 0 then _ else _) = some (Efeito.mk (if arg = 0 then _ else _) _ _)
    by_cases harg : arg = 0
    · rw [if_neg (not_not.mpr harg), if_pos harg]
      rfl
    · rw [if_pos harg, if_neg harg]
  · rfl
  · exact hnum (itodec arg)
  · exact hnum (itodec arg)
  · exact hnum (itoudec arg)
  · exact hnum (itox arg)
  · exact hnum (itox arg)
  · exact hnum (itooct arg)

theorem printfSwitch_of_not_conhecida (h : ¬ Conhecida c) : printfSwitch cstr c f arg = printfDefault c f := by
  simp only [Conhecida, Numerica, List.mem_cons, List.not_mem_nil, or_false, not_or] at h
  simp [printfSwitch, h]

theorem sprintfSwitch_of_not_conhecida (h : ¬ Conhecida c) :
    sprintfSwitch cstr c f arg = some ([ch '%', c], 0) := by
  simp only [Conhecida, Numerica, List.mem_cons, List.not_mem_nil, or_false, not_or] at h
  simp [sprintfSwitch, h]

variable (cstr arg) in
theorem sprintfSwitch_isSome (h : Serve c f) : (sprintfSwitch cstr c f arg).isSome := by
  by_cases hk : Conhecida c
  · rw [Serve, if_pos hk] at h
    have hnum (hn : Numerica c) (str : List UInt8) : ((numero f str).map fun str => (str, 1)).isSome := by
      rw [Option.isSome_map]
      exact numero_isSome (h hn) str
    rw [sprintfSwitch]
    simp only [Conhecida, Numerica, List.mem_cons, List.not_mem_nil, or_false] at hk
    rcases hk with (rfl | rfl | rfl | rfl | rfl) | rfl | rfl | rfl | rfl | rfl | rfl
    · rfl
    · rfl
    · rfl
    · rfl
    · rfl
    · exact hnum (by decide) (itodec arg)
    · exact hnum (by decide) (itodec arg)
    · exact hnum (by decide) (itoudec arg)
    · exact hnum (by decide) (itox arg)
    · exact hnum (by decide) (itox arg)
    · exact hnum (by decide) (itooct arg)
  · rw [sprintfSwitch_of_not_conhecida hk]
    rfl

variable (cstr arg) in
theorem switch_agree (h : Serve c f) : ∃ out words, sprintfSwitch cstr c f arg = some (out, words) ∧
    printfSwitch cstr c f arg = some ⟨out, out.length, words⟩ := by
  obtain ⟨⟨out, words⟩, hs⟩ := Option.isSome_iff_exists.mp (sprintfSwitch_isSome cstr arg h)
  refine ⟨out, words, hs, ?_⟩
  by_cases hk : Conhecida c
  · rw [printfSwitch_of_conhecida hk, hs]
    rfl
  · rw [sprintfSwitch_of_not_conhecida hk] at hs
    rw [Serve, if_neg hk] at h
    cases hs
    rw [printfSwitch_of_not_conhecida hk, printfDefault, if_neg h.2, h.1]
    rfl

theorem printfDefault_out {e : Efeito} (h : printfDefault c f = some e) : e.out =
    ch '%' :: ((if f.zeroPad then [ch '0'] else []) ++ (if f.larga then itodec f.width else []) ++ [c]) := by
  rw [printfDefault] at h
  dsimp only at h
  split at h
  next hl =>
    split at h
    next =>
      cases h
      rw [if_pos hl]
      rfl
    next => cases h
  next hl =>
    cases h
    rw [if_neg hl, List.append_nil]
    rfl

theorem printfDefault_ne {e : Efeito} (hc : ¬ Digito c) (hf : ¬ (f.zeroPad = false ∧ ¬ f.larga))
    (he : printfDefault c f = some e) (p s : List UInt8) : e.out ++ p ≠ ch '%' :: c :: s := by
  intro heq
  rw [printfDefault_out he, List.cons_append, List.cons.injEq] at heq
  cases hz : f.zeroPad with
  | true =>
      rw [hz] at heq
      have hzero : ch '0' = c := (List.cons.inj heq.2).1
      exact hc (hzero ▸ by decide)
  | false =>
      have hl : f.larga := by
        by_contra hl
        exact hf ⟨hz, hl⟩
      obtain ⟨hne, hdigits⟩ := itodec_digito hl
      obtain ⟨d, ds, hds⟩ := List.exists_cons_of_ne_nil hne
      rw [hz, if_pos hl, hds] at heq
      have hd : d = c := (List.cons.inj heq.2).1
      exact hc (hd ▸ hdigits d (hds ▸ List.mem_cons_self))

end Directives

end Orion68.Stdio
