import Orion68.Lib.Buffers
import Orion68.Libc.Agreement
import Orion68.Libc.Conversions

namespace Orion68.Stdio

open Buffers Numerals

section Code

/-- A read of the format, or a store into one of the arrays on the stack. -/
inductive Acesso
  | format (i : ℕ)
  | buffer (i : ℕ)
  | numStr (i : ℕ)
  deriving DecidableEq

/-- A conversion stores one character after the other, and the `'\0'`. -/
def escritas (str : List UInt8) : List ℕ := List.range (str.length + 1)

/-- The text is moved to the right from its end on, then the zeros are stored. -/
def padZerosEscritas (len width : ℕ) : List ℕ :=
  if width ≤ len then []
  else (List.range (len + 1)).reverse.map (· + (width - len)) ++ List.range (width - len)

def numeroEscritas (f : Flags) (str : List UInt8) : List Acesso :=
  (escritas str ++ if f.zeroPad ∧ f.larga then padZerosEscritas str.length f.width.toNat else []).map .buffer

/-- What the two functions differ in: whether an `l` is passed over, and the stores for an unknown letter. -/
structure Funcao where
  comL : Bool
  outra : Flags → List Acesso

def Funcao.printf : Funcao where
  comL := true
  outra f := (List.range 10 ++ if f.larga then escritas (itodec f.width) else []).map .numStr

def Funcao.sprintf : Funcao := ⟨false, fun _ => []⟩

def Funcao.switch (F : Funcao) (c : UInt8) (f : Flags) (arg : UInt32) : List Acesso :=
  if c = ch 'd' ∨ c = ch 'i' then numeroEscritas f (itodec arg)
  else if c = ch 'u' then numeroEscritas f (itoudec arg)
  else if c = ch 'x' ∨ c = ch 'X' then numeroEscritas f (itox arg)
  else if c = ch 'o' then numeroEscritas f (itooct arg)
  else if Conhecida c then []
  else F.outra f

def palavras (c : UInt8) : ℕ :=
  if c = ch 'f' ∨ c = ch 'F' then 2 else if Conhecida c ∧ c ≠ ch '%' then 1 else 0

/-- One character of the format: what is read next, and the flags if it is the letter of a directive. -/
def LePrintf.avanca (comL : Bool) (c : UInt8) : LePrintf → Option (LePrintf × Option Flags)
  | .texto => if c = 0 then none else if c = ch '%' then some (.digitos .nenhuma, none) else some (.texto, none)
  | .digitos f =>
      if Digito c then some (.digitos (f.le c), none)
      else if comL ∧ c = ch 'l' then some (.letra f, none)
      else some (.texto, some f)
  | .letra f => some (.texto, some f)

/--
The first `n` characters of a run from `format[i]` on, with the memory that the format lies in; nothing stops a run at
the end of the format but the test in the text.
-/
def Funcao.acessos (F : Funcao) (m : ℕ → UInt8) : ℕ → LePrintf → ℕ → (ℕ → UInt32) → List Acesso
  | 0, _, _, _ => []
  | n + 1, le, i, args =>
      .format i ::
        match le.avanca F.comL (m i) with
        | none => []
        | some (le, none) => F.acessos m n le (i + 1) args
        | some (le, some f) =>
            F.switch (m i) f (args 0) ++ F.acessos m n le (i + 1) (pula (palavras (m i)) args)

def printfAcessos (m : ℕ → UInt8) (n : ℕ) (args : ℕ → UInt32) : List Acesso := Funcao.printf.acessos m n .texto 0 args

def sprintfAcessos (m : ℕ → UInt8) (n : ℕ) (args : ℕ → UInt32) : List Acesso := Funcao.sprintf.acessos m n .texto 0 args

end Code

section Statement

/-- Within the format of that length, its `'\0'` included, and within the arrays. -/
def Acesso.Dentro (len : ℕ) : Acesso → Prop
  | format i => i ≤ len
  | buffer i => i < 32
  | numStr i => i < 10

/-- The letters of the directives with their flags, unless the format ends within a directive. -/
def diretivas (comL : Bool) : LePrintf → List UInt8 → Option (List (UInt8 × Flags))
  | .texto, [] => some []
  | _, [] => none
  | le, c :: format =>
      match le.avanca comL c with
      | none => none
      | some (le, none) => diretivas comL le format
      | some (le, some f) => (diretivas comL le format).map ((c, f) :: ·)

/-- The zeros leave room for the `'\0'`. -/
def CabeNumero (c : UInt8) (f : Flags) : Prop := Numerica c → f.zeroPad → f.larga → f.width.toNat ≤ 31

/-- A width before an unknown letter has at most nine digits. -/
def CabeOutra (c : UInt8) (f : Flags) : Prop := ¬Conhecida c → f.larga → f.width.toNat < 10 ^ 9

instance (c : UInt8) (f : Flags) : Decidable (CabeNumero c f) := inferInstanceAs (Decidable (_ → _))

instance (c : UInt8) (f : Flags) : Decidable (CabeOutra c f) := inferInstanceAs (Decidable (_ → _))

/-- The format ends in the text, and each of its directives has a property. -/
def Contido (comL : Bool) (P : UInt8 → Flags → Prop) (le : LePrintf) (s : List UInt8) : Prop :=
  ∃ ds, diretivas comL le s = some ds ∧ ∀ d ∈ ds, P d.1 d.2

theorem foldl_le_width {ds : List UInt8} (hds : ∀ c ∈ ds, Digito c) :
    (ds.foldl (fun f c => f.le c) Flags.nenhuma).width.toNat =
      value 10 (ds.map fun c => (c - ch '0').toNat) % 2 ^ 32 := by
  induction ds using List.reverseRecOn with
  | nil => rfl
  | append_singleton ds c ih =>
      have hwidth (f : Flags) : (f.le c).width = f.width * 10 + (c - ch '0').toUInt32 := by
        rw [Flags.le]
        split
        next h => rw [h.1, h.2]; rfl
        next => rfl
      rw [List.foldl_append, List.map_append, List.map_singleton, value_concat, List.foldl_cons, List.foldl_nil, hwidth,
        UInt32.toNat_add, UInt32.toNat_mul, ih fun c hc => hds c (List.mem_append_left _ hc), UInt8.toNat_toUInt32]
      simp only [UInt32.reduceToNat]
      omega

end Statement

section Lengths

variable (value : UInt32)

theorem decimal_length (hne : value ≠ 0) : (decimal powers value false).length = (numeral 10 value.toNat).length := by
  rw [decimal_eq_numeral value hne, List.length_map]

theorem itodec_length_le : (itodec value).length ≤ 11 := by
  have hle (v : UInt32) (hne : v ≠ 0) : (decimal powers v false).length ≤ 10 := by
    rw [decimal_length v hne, numeral_length_le_iff (by decide) (by decide)]
    exact v.toNat_lt.trans (by norm_num)
  rw [itodec]
  split
  next => exact Nat.succ_le_succ (Nat.zero_le 10)
  next hne =>
    split
    next =>
      rw [List.length_cons]
      exact Nat.succ_le_succ (hle (-value) fun h => hne (UInt32.neg_neg.symm.trans (congrArg Neg.neg h)))
    next => exact (hle value hne).trans (Nat.le_succ 10)

theorem itoudec_length_le : (itoudec value).length ≤ 11 := by
  rw [itoudec_eq, List.length_map, numeral_length_le_iff (by decide) (by decide)]
  exact value.toNat_lt.trans (by norm_num)

theorem itox_length_le : (itox value).length ≤ 11 := by
  rw [itox_eq, List.length_map, numeral_length_le_iff (by decide) (by decide)]
  exact value.toNat_lt.trans (by norm_num)

theorem itooct_length_le : (itooct value).length ≤ 11 := by
  rw [itooct_eq, List.length_map, numeral_length_le_iff (by decide) (by decide)]
  exact value.toNat_lt.trans (by norm_num)

theorem itodec_length_le_nine_iff {f : Flags} (h : f.larga) : (itodec f.width).length ≤ 9 ↔ f.width.toNat < 10 ^ 9 := by
  have hne : f.width ≠ 0 := fun h0 => UInt32.lt_irrefl 0 (h0 ▸ h.1)
  rw [itodec, if_neg hne, if_neg (UInt32.not_le.mpr h.2), decimal_length f.width hne,
    numeral_length_le_iff (by decide) (by decide)]

end Lengths

section Stores

variable {f : Flags} {c : UInt8} {str : List UInt8} {len width : ℕ}

theorem padZerosEscritas_lt_iff (hlen : len < 32) : (∀ i ∈ padZerosEscritas len width, i < 32) ↔ width < 32 := by
  rw [padZerosEscritas]
  split
  next h => exact iff_of_true nofun (Nat.lt_of_le_of_lt h hlen)
  next h =>
    simp only [List.mem_append, List.mem_map, List.mem_reverse, List.mem_range]
    constructor
    · intro hall
      -- the `'\0'` goes farthest
      have hend := hall (len + (width - len)) (Or.inl ⟨len, Nat.lt_succ_self len, rfl⟩)
      omega
    · rintro hlt i (⟨j, hj, rfl⟩ | hi)
      · omega
      · omega

theorem numeroEscritas_dentro_iff (hstr : str.length ≤ 11) :
    (∀ a ∈ numeroEscritas f str, a.Dentro len) ↔ (f.zeroPad → f.larga → f.width.toNat ≤ 31) := by
  have hconv : ∀ i ∈ escritas str, i < 32 := by
    intro i hi
    have hlt := List.mem_range.mp hi
    omega
  rw [numeroEscritas, List.forall_mem_map, List.forall_mem_append]
  simp only [Acesso.Dentro]
  rw [and_iff_right hconv]
  split
  next h =>
    rw [padZerosEscritas_lt_iff (by omega)]
    exact ⟨fun hlt _ _ => Nat.le_of_lt_succ hlt, fun hle => Nat.lt_succ_of_le (hle h.1 h.2)⟩
  next h => exact iff_of_true nofun fun hz hl => absurd ⟨hz, hl⟩ h

theorem switch_dentro_iff (F : Funcao) (c : UInt8) (f : Flags) (arg : UInt32) :
    (∀ a ∈ F.switch c f arg, a.Dentro len) ↔
      CabeNumero c f ∧ (¬Conhecida c → ∀ a ∈ F.outra f, a.Dentro len) := by
  have hnum (hc : Numerica c) {str : List UInt8} (hstr : str.length ≤ 11) :
      (∀ a ∈ numeroEscritas f str, a.Dentro len) ↔
        CabeNumero c f ∧ (¬Conhecida c → ∀ a ∈ F.outra f, a.Dentro len) := by
    rw [numeroEscritas_dentro_iff hstr]
    exact ⟨fun h => ⟨fun _ => h, fun hk => absurd (Or.inr hc) hk⟩, fun h => h.1 hc⟩
  rw [Funcao.switch]
  split_ifs with hd hu hx ho hk
  · apply hnum _ (itodec_length_le arg)
    rcases hd with rfl | rfl <;> decide
  · apply hnum _ (itoudec_length_le arg)
    rw [hu]
    decide
  · apply hnum _ (itox_length_le arg)
    rcases hx with rfl | rfl <;> decide
  · apply hnum _ (itooct_length_le arg)
    rw [ho]
    decide
  · refine iff_of_true nofun ⟨fun hn => ?_, fun h => absurd hk h⟩
    simp only [Numerica, List.mem_cons, List.not_mem_nil, or_false] at hn
    tauto
  · exact ⟨fun h => ⟨fun hn => absurd (Or.inr hn) hk, fun _ => h⟩, fun h => h.2 hk⟩

theorem outra_dentro_iff : (∀ a ∈ Funcao.printf.outra f, a.Dentro len) ↔ (f.larga → f.width.toNat < 10 ^ 9) := by
  have hinit : ∀ i ∈ List.range 10, i < 10 := fun i hi => List.mem_range.mp hi
  rw [Funcao.printf]
  dsimp only
  rw [List.forall_mem_map, List.forall_mem_append]
  simp only [Acesso.Dentro]
  rw [and_iff_right hinit]
  split
  next h =>
    rw [imp_iff_right h, ← itodec_length_le_nine_iff h]
    simp only [escritas, List.mem_range]
    constructor
    · intro hall
      have hend := hall (itodec f.width).length (Nat.lt_succ_self _)
      omega
    · intro hle i hi
      omega
  next h => exact iff_of_true nofun fun hl => absurd hl h

end Stores

section Runs

variable {F : Funcao} {P : UInt8 → Flags → Prop} {Q : Acesso → Prop} {comL : Bool} {le le' : LePrintf}
variable {m : ℕ → UInt8} {c : UInt8} {f : Flags} {s : List UInt8} {i len : ℕ} {args : ℕ → UInt32}

theorem contido_nil : Contido comL P le [] ↔ le = .texto := by
  cases le with
  | texto => exact iff_of_true ⟨[], rfl, nofun⟩ rfl
  | digitos f => exact iff_of_false (fun ⟨_, h, _⟩ => nomatch h) nofun
  | letra f => exact iff_of_false (fun ⟨_, h, _⟩ => nomatch h) nofun

theorem contido_cons (h : le.avanca comL c = some (le', none)) :
    Contido comL P le (c :: s) ↔ Contido comL P le' s := by
  rw [Contido, diretivas, h]
  rfl

theorem contido_cons_letra (h : le.avanca comL c = some (le', some f)) :
    Contido comL P le (c :: s) ↔ P c f ∧ Contido comL P le' s := by
  rw [Contido, diretivas, h]
  simp only [Option.map_eq_some_iff]
  constructor
  · rintro ⟨_, ⟨ds, hds, rfl⟩, hall⟩
    obtain ⟨hc, hrest⟩ := List.forall_mem_cons.mp hall
    exact ⟨hc, ds, hds, hrest⟩
  · rintro ⟨hc, ds, hds, hrest⟩
    exact ⟨_, ⟨ds, hds, rfl⟩, List.forall_mem_cons.mpr ⟨hc, hrest⟩⟩

theorem avanca_isSome (hc : c ≠ 0) (le : LePrintf) : ∃ r, le.avanca comL c = some r := by
  cases le with
  | texto =>
      rw [LePrintf.avanca, if_neg hc]
      split
      next => exact ⟨_, rfl⟩
      next => exact ⟨_, rfl⟩
  | digitos f =>
      rw [LePrintf.avanca]
      split_ifs
      · exact ⟨_, rfl⟩
      · exact ⟨_, rfl⟩
      · exact ⟨_, rfl⟩
  | letra f => exact ⟨_, rfl⟩

theorem avanca_zero (hle : le ≠ .texto) : ∃ f, le.avanca comL 0 = some (.texto, some f) := by
  cases le with
  | texto => exact absurd rfl hle
  | digitos f =>
      refine ⟨f, ?_⟩
      rw [LePrintf.avanca, if_neg (by decide), if_neg fun h => absurd h.2 (by decide)]
  | letra f => exact ⟨f, rfl⟩

theorem acessos_fim (h : le.avanca F.comL (m i) = none) :
    (∀ n, ∀ a ∈ F.acessos m n le i args, Q a) ↔ Q (.format i) := by
  rw [← Nat.and_forall_add_one]
  simp only [Funcao.acessos, h, List.mem_singleton, forall_eq, List.not_mem_nil, forall_const]
  tauto

theorem acessos_passo (h : le.avanca F.comL (m i) = some (le', none)) :
    (∀ n, ∀ a ∈ F.acessos m n le i args, Q a) ↔
      Q (.format i) ∧ ∀ n, ∀ a ∈ F.acessos m n le' (i + 1) args, Q a := by
  rw [← Nat.and_forall_add_one]
  simp only [Funcao.acessos, h, List.forall_mem_cons, forall_and, forall_const]
  exact and_iff_right nofun

theorem acessos_letra (h : le.avanca F.comL (m i) = some (le', some f)) :
    (∀ n, ∀ a ∈ F.acessos m n le i args, Q a) ↔
      Q (.format i) ∧ (∀ a ∈ F.switch (m i) f (args 0), Q a) ∧
        ∀ n, ∀ a ∈ F.acessos m n le' (i + 1) (pula (palavras (m i)) args), Q a := by
  rw [← Nat.and_forall_add_one]
  simp only [Funcao.acessos, h, List.forall_mem_cons, List.forall_mem_append, forall_and, forall_const]
  exact and_iff_right nofun

theorem not_dentro_of_lt (hi : len < i) : ¬∀ n, ∀ a ∈ F.acessos m n le i args, a.Dentro len := by
  intro hall
  have hread : i ≤ len := hall 1 (.format i) List.mem_cons_self
  omega

theorem acessos_dentro_iff (hswitch : ∀ c f arg, (∀ a ∈ F.switch c f arg, a.Dentro len) ↔ P c f) (hs : 0 ∉ s)
    (hm : ∀ k (h : k < s.length), m (i + k) = s[k]) (hend : m (i + s.length) = 0) (hlen : i + s.length = len) :
    (∀ n, ∀ a ∈ F.acessos m n le i args, a.Dentro len) ↔ Contido F.comL P le s := by
  induction s generalizing le i args with
  | nil =>
      rw [List.length_nil, Nat.add_zero] at hend hlen
      rw [contido_nil]
      by_cases hle : le = .texto
      · subst hle
        rw [acessos_fim (by rw [hend]; rfl)]
        exact iff_of_true (Nat.le_of_eq hlen) rfl
      · obtain ⟨f, hf⟩ := @avanca_zero F.comL le hle
        rw [← hend] at hf
        rw [acessos_letra hf]
        exact iff_of_false (fun h => not_dentro_of_lt (by omega) h.2.2) hle
  | cons c s ih =>
      have hc : m i = c := hm 0 (Nat.succ_pos s.length)
      have hin : (Acesso.format i).Dentro len := by
        rw [List.length_cons] at hlen
        exact Nat.le_of_lt (by omega)
      have hrest {le' : LePrintf} {args' : ℕ → UInt32} :
          (∀ n, ∀ a ∈ F.acessos m n le' (i + 1) args', a.Dentro len) ↔ Contido F.comL P le' s := by
        apply ih (List.not_mem_of_not_mem_cons hs)
        · intro k hk
          rw [Nat.add_right_comm, Nat.add_assoc]
          exact hm (k + 1) (Nat.succ_lt_succ hk)
        · rw [List.length_cons, Nat.add_comm s.length, ← Nat.add_assoc] at hend
          exact hend
        · rw [List.length_cons] at hlen
          omega
      obtain ⟨⟨le', x⟩, h⟩ := @avanca_isSome F.comL c (Ne.symm (List.ne_of_not_mem_cons hs)) le
      rw [← hc] at h
      cases x with
      | none =>
          rw [acessos_passo h, and_iff_right hin, hrest]
          rw [hc] at h
          exact (contido_cons h).symm
      | some f =>
          rw [acessos_letra h, and_iff_right hin, hrest, hswitch, hc]
          rw [hc] at h
          exact (contido_cons_letra h).symm

theorem acessos_dentro_iff_of_terminated (h : Terminated 0 m s)
    (hswitch : ∀ c f arg, (∀ a ∈ F.switch c f arg, a.Dentro s.length) ↔ P c f) (args : ℕ → UInt32) :
    (∀ n, ∀ a ∈ F.acessos m n .texto 0 args, a.Dentro s.length) ↔ Contido F.comL P .texto s := by
  apply acessos_dentro_iff hswitch h.notMem
  · intro k hk
    rw [Nat.zero_add]
    exact h.byte k hk
  · rw [Nat.zero_add]
    exact h.ends
  · exact Nat.zero_add _

end Runs

section Returns

variable {cstr : UInt32 → List UInt8} {c : UInt8} {f : Flags} {s : List UInt8}

theorem numero_isSome_iff {str : List UInt8} (hlen : str.length ≤ 11) :
    (numero f str).isSome ↔ (f.zeroPad → f.larga → f.width.toNat ≤ 31) := by
  constructor
  · intro h hz hl
    exact Nat.le_of_lt_succ (lt_of_numero (Nat.lt_of_le_of_lt hlen (by decide)) h hz hl)
  · intro h
    exact numero_isSome (fun hz hl => Nat.lt_succ_of_le (h hz hl)) str

theorem sprintfSwitch_isSome_iff (arg : UInt32) : (sprintfSwitch cstr c f arg).isSome ↔ CabeNumero c f := by
  have hnum (hc : Numerica c) {str : List UInt8} (hlen : str.length ≤ 11) :
      ((numero f str).map fun str => (str, 1)).isSome ↔ CabeNumero c f := by
    rw [Option.isSome_map, numero_isSome_iff hlen]
    exact ⟨fun h _ => h, fun h => h hc⟩
  by_cases hn : Numerica c
  · simp only [Numerica, List.mem_cons, List.not_mem_nil, or_false] at hn
    rcases hn with rfl | rfl | rfl | rfl | rfl | rfl
    · exact hnum (by decide) (itodec_length_le arg)
    · exact hnum (by decide) (itodec_length_le arg)
    · exact hnum (by decide) (itoudec_length_le arg)
    · exact hnum (by decide) (itox_length_le arg)
    · exact hnum (by decide) (itox_length_le arg)
    · exact hnum (by decide) (itooct_length_le arg)
  · apply iff_of_true _ fun h => absurd h hn
    by_cases hk : Conhecida c
    · have hserve : Serve c f := by
        rw [Serve, if_pos hk]
        exact fun h => absurd h hn
      exact sprintfSwitch_isSome cstr arg hserve
    · rw [sprintfSwitch_of_not_conhecida hk]
      rfl

theorem printfSwitch_isSome_iff (arg : UInt32) :
    (printfSwitch cstr c f arg).isSome ↔ CabeNumero c f ∧ CabeOutra c f := by
  by_cases hk : Conhecida c
  · rw [printfSwitch_of_conhecida hk, Option.isSome_map, sprintfSwitch_isSome_iff]
    exact (and_iff_left fun h => absurd hk h).symm
  · have hnumero : CabeNumero c f := fun h => absurd (Or.inr h) hk
    rw [printfSwitch_of_not_conhecida hk, printfDefault, and_iff_right hnumero, CabeOutra, imp_iff_right hk]
    dsimp only
    split
    next hl =>
      rw [imp_iff_right hl, ← itodec_length_le_nine_iff hl, ← Nat.lt_succ_iff]
      split
      next h => exact iff_of_true rfl h
      next h => exact iff_of_false Bool.false_ne_true h
    next hl => exact iff_of_true rfl fun h => absurd h hl

theorem printfLoop_passo {le le' : LePrintf} (h : le.avanca true c = some (le', none)) (args : ℕ → UInt32) :
    (printfLoop cstr le (c :: s) args).isSome ↔ (printfLoop cstr le' s args).isSome := by
  cases le with
  | texto =>
      rw [LePrintf.avanca] at h
      rw [printfLoop]
      split_ifs at h ⊢
      · cases h
        rfl
      · cases h
        rw [Option.isSome_map]
  | digitos f =>
      simp only [LePrintf.avanca, true_and] at h
      rw [printfLoop]
      split_ifs at h ⊢
      · cases h
        rfl
      · cases h
        rfl
      · cases h
  | letra f => cases h

theorem printfLoop_letra {le le' : LePrintf} (h : le.avanca true c = some (le', some f)) (args : ℕ → UInt32) :
    printfLoop cstr le (c :: s) args = (printfSwitch cstr c f (args 0)).bind fun e =>
      (printfLoop cstr le' s (pula e.words args)).map fun r => (e.out ++ r.1, e.chars + r.2) := by
  cases le with
  | texto =>
      rw [LePrintf.avanca] at h
      split_ifs at h
      · cases h
      · cases h
  | digitos g =>
      simp only [LePrintf.avanca, true_and] at h
      rw [printfLoop]
      split_ifs at h ⊢
      · cases h
      · cases h
      · cases h
        rfl
  | letra g =>
      cases h
      rfl

theorem printfLoop_isSome_iff (hs : 0 ∉ s) (le : LePrintf) (args : ℕ → UInt32) :
    (printfLoop cstr le s args).isSome ↔ Contido true (fun c f => CabeNumero c f ∧ CabeOutra c f) le s := by
  induction s generalizing le args with
  | nil =>
      rw [contido_nil]
      cases le <;> simp [printfLoop]
  | cons c s ih =>
      have hrest := ih (List.not_mem_of_not_mem_cons hs)
      obtain ⟨⟨le', x⟩, h⟩ := @avanca_isSome true c (Ne.symm (List.ne_of_not_mem_cons hs)) le
      cases x with
      | none => rw [printfLoop_passo h, contido_cons h, hrest]
      | some f =>
          rw [printfLoop_letra h, contido_cons_letra h, ← printfSwitch_isSome_iff (args 0)]
          cases printfSwitch cstr c f (args 0) with
          | none => simp
          | some e => simp [hrest]

theorem sprintfLoop_isSome_iff (hs : 0 ∉ s) (le : LeSprintf) (args : ℕ → UInt32) :
    (sprintfLoop cstr le s args).isSome ↔ Contido false CabeNumero le.printf s := by
  induction s generalizing le args with
  | nil =>
      rw [contido_nil]
      cases le <;> simp [sprintfLoop, LeSprintf.printf]
  | cons c s ih =>
      have hc := Ne.symm (List.ne_of_not_mem_cons hs)
      have hrest := ih (List.not_mem_of_not_mem_cons hs)
      cases le with
      | texto =>
          rw [sprintfLoop, LeSprintf.printf]
          by_cases hp : c = ch '%'
          · have h : LePrintf.texto.avanca false c = some (.digitos .nenhuma, none) := by
              rw [LePrintf.avanca, if_neg hc, if_pos hp]
            rw [if_pos hp, contido_cons h]
            exact hrest (.digitos .nenhuma) args
          · have h : LePrintf.texto.avanca false c = some (.texto, none) := by
              rw [LePrintf.avanca, if_neg hc, if_neg hp]
            rw [if_neg hp, contido_cons h, Option.isSome_map]
            exact hrest .texto args
      | digitos f =>
          rw [sprintfLoop, LeSprintf.printf]
          by_cases hd : Digito c
          · have h : (LePrintf.digitos f).avanca false c = some (.digitos (f.le c), none) := by
              rw [LePrintf.avanca, if_pos hd]
            rw [if_pos hd, contido_cons h]
            exact hrest (.digitos (f.le c)) args
          · have h : (LePrintf.digitos f).avanca false c = some (.texto, some f) := by
              rw [LePrintf.avanca, if_neg hd, if_neg fun h => Bool.false_ne_true h.1]
            rw [if_neg hd, contido_cons_letra h, ← sprintfSwitch_isSome_iff (args 0)]
            cases sprintfSwitch cstr c f (args 0) with
            | none => simp
            | some e =>
                rw [Option.bind_some, Option.isSome_map, hrest]
                exact (and_iff_right rfl).symm

end Returns

section Theorem

variable {m : ℕ → UInt8} {format : List UInt8}

theorem printfAcessos_dentro_iff (h : Terminated 0 m format) (args : ℕ → UInt32) :
    (∀ n, ∀ a ∈ printfAcessos m n args, a.Dentro format.length) ↔
      Contido true (fun c f => CabeNumero c f ∧ CabeOutra c f) .texto format := by
  apply acessos_dentro_iff_of_terminated h
  intro c f arg
  rw [switch_dentro_iff, outra_dentro_iff]
  rfl

theorem sprintfAcessos_dentro_iff (h : Terminated 0 m format) (args : ℕ → UInt32) :
    (∀ n, ∀ a ∈ sprintfAcessos m n args, a.Dentro format.length) ↔ Contido false CabeNumero .texto format := by
  apply acessos_dentro_iff_of_terminated h
  intro c f arg
  rw [switch_dentro_iff]
  exact and_iff_left fun _ => nofun

theorem returns_iff_inside (h : Terminated 0 m format) (cstr : UInt32 → List UInt8) (args : ℕ → UInt32) :
    ((printf cstr format args).isSome ↔ ∀ n, ∀ a ∈ printfAcessos m n args, a.Dentro format.length) ∧
      ((sprintf cstr format args).isSome ↔ ∀ n, ∀ a ∈ sprintfAcessos m n args, a.Dentro format.length) := by
  constructor
  · rw [printfAcessos_dentro_iff h, printf]
    exact printfLoop_isSome_iff h.notMem .texto args
  · rw [sprintfAcessos_dentro_iff h, sprintf, Option.isSome_map]
    exact sprintfLoop_isSome_iff h.notMem .texto args

theorem accesses_inside_iff (h : Terminated 0 m format) (args : ℕ → UInt32) :
    ((∀ n, ∀ a ∈ printfAcessos m n args, a.Dentro format.length) ↔
      Contido true (fun c f => CabeNumero c f ∧ CabeOutra c f) .texto format) ∧
    ((∀ n, ∀ a ∈ sprintfAcessos m n args, a.Dentro format.length) ↔ Contido false CabeNumero .texto format) :=
  ⟨printfAcessos_dentro_iff h args, sprintfAcessos_dentro_iff h args⟩

/-- `"%031d"` -/
theorem accesses_inside_iff_width :
    (∀ n, ∀ a ∈ printfAcessos (place 0 [37, 48, 51, 49, 100, 0] fun _ => 0) n (fun _ => 7), a.Dentro 5) ∧
      ∀ n, ∀ a ∈ sprintfAcessos (place 0 [37, 48, 51, 49, 100, 0] fun _ => 0) n (fun _ => 7), a.Dentro 5 :=
  have h := accesses_inside_iff (terminated_place (s := [37, 48, 51, 49, 100]) (by decide) fun _ => 0) fun _ => 7
  ⟨h.1.mpr ⟨[(100, ⟨true, 31⟩)], rfl, by decide⟩, h.2.mpr ⟨[(100, ⟨true, 31⟩)], rfl, by decide⟩⟩

/-- `"%"` is read behind its end, `"%040d"` stores behind `buffer`, `"%1000000000q"` behind `num_str`. -/
theorem accesses_outside :
    ¬(∀ (m : ℕ → UInt8) (format : List UInt8) (args : ℕ → UInt32) (n : ℕ), Terminated 0 m format →
      (∀ a ∈ printfAcessos m n args, a.Dentro format.length) ∧
        ∀ a ∈ sprintfAcessos m n args, a.Dentro format.length) ∧
      Acesso.format 2 ∈ printfAcessos (place 0 [37, 0] fun _ => 0) 3 (fun _ => 0) ∧
      Acesso.format 2 ∈ sprintfAcessos (place 0 [37, 0] fun _ => 0) 3 (fun _ => 0) ∧
      Acesso.buffer 40 ∈ printfAcessos (place 0 [37, 48, 52, 48, 100, 0] fun _ => 0) 5 (fun _ => 0) ∧
      Acesso.buffer 40 ∈ sprintfAcessos (place 0 [37, 48, 52, 48, 100, 0] fun _ => 0) 5 (fun _ => 0) ∧
      Acesso.numStr 10 ∈
        printfAcessos (place 0 [37, 49, 48, 48, 48, 48, 48, 48, 48, 48, 48, 113, 0] fun _ => 0) 12 (fun _ => 0) := by
  have hread : Acesso.format 2 ∈ printfAcessos (place 0 [37, 0] fun _ => 0) 3 (fun _ => 0) := by decide
  refine ⟨fun hall => ?_, hread, by decide, by decide, by decide, by decide⟩
  have hinside : 2 ≤ 1 := (hall _ [37] _ 3 (terminated_place (by decide) fun _ => 0)).1 _ hread
  exact absurd hinside (by decide)

end Theorem

end Orion68.Stdio
