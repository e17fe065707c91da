import Orion68.Lib.Numerals
import Orion68.Libc.Printf

namespace Orion68.Kernel

open Numerals Stdio

section Conversions

def digito (c : UInt8) : Option ℕ :=
  if ch '0' ≤ c ∧ c ≤ ch '9' then some (c - ch '0').toNat
  else if ch 'A' ≤ c ∧ c ≤ ch 'Z' then some (10 + (c - ch 'A').toNat)
  else if ch 'a' ≤ c ∧ c ≤ ch 'z' then some (10 + (c - ch 'a').toNat)
  else none

def espaco (c : UInt8) : Bool := c == 0x20 || c == 0x09 || c == 0x0A || c == 0x0D || c == 0x0B || c == 0x0C

/-- The blanks of `strtoul`. -/
def espacoCurto (c : UInt8) : Bool := c == 0x20 || c == 0x09 || c == 0x0A

def verificaSinal : List UInt8 → Int32 × List UInt8
  | [] => (1, [])
  | c :: s => if c = ch '-' then (-1, s) else if c = ch '+' then (1, s) else (1, c :: s)

/-- In base 0 the prefix decides; the `0` of an octal number is the first of its digits. -/
def determinaBase (base : Int32) (s : List UInt8) : Int32 × List UInt8 :=
  if base = 0 then
    if s.head? = some (ch '0') then
      if s.tail.head? = some (ch 'x') ∨ s.tail.head? = some (ch 'X') then (16, s.tail.tail) else (8, s)
    else (10, s)
  else (base, s)

/-- The result, `overflow` and the rest; a `long` has 32 bits. -/
def strtolLoop (base sign : Int32) : List UInt8 → Int32 → Int32 × Bool × List UInt8
  | [], result => (result, false, [])
  | c :: s, result =>
      match digito c with
      | none => (result, false, c :: s)
      | some d =>
          let digit := Int32.ofNat d
          if digit ≥ base then (result, false, c :: s)
          else if result > Int32.maxValue / base ∨
              result = Int32.maxValue / base ∧ digit > Int32.maxValue % base then
            (Int32.maxValue, true, c :: s)
          else if sign = -1 ∧ (result < Int32.minValue / base ∨
              result = Int32.minValue / base ∧ digit > -(Int32.minValue % base)) then
            (Int32.minValue, true, c :: s)
          else strtolLoop base sign s (result * base + digit)

/-- The value and what goes to `*endptr`. -/
def strtol (nptr : List UInt8) (base : Int32) : Int32 × List UInt8 :=
  let (sign, s) := verificaSinal (nptr.dropWhile espaco)
  let (base, s) := determinaBase base s
  if base < 2 ∨ base > 36 then (0, nptr)
  else
    let (result, overflow, s) := strtolLoop base sign s 0
    (if sign = -1 ∧ ¬overflow then -result else result, s)

def strtoulLoop (base : Int32) : List UInt8 → UInt32 → UInt32 × List UInt8
  | [], result => (result, [])
  | c :: s, result =>
      match digito c with
      | none => (result, c :: s)
      | some d =>
          if Int32.ofNat d ≥ base then (result, c :: s)
          else
            let next_result := result * base.toUInt32 + UInt32.ofNat d
            if next_result < result then (0xFFFFFFFF, c :: s) else strtoulLoop base s next_result

def strtoul (nptr : List UInt8) (base : Int32) : UInt32 × List UInt8 :=
  let (base, s) := determinaBase base (nptr.dropWhile espacoCurto)
  if base < 2 ∨ base > 36 then (0, nptr) else strtoulLoop base s 0

end Conversions

section Runs

def valido (b : ℕ) (c : UInt8) : Bool := (digito c).any (· < b)

def corrida (b : ℕ) (s : List UInt8) : List ℕ := (s.takeWhile (valido b)).filterMap digito

variable {b d : ℕ} {c : UInt8} {s : List UInt8}

theorem digito_lt (h : digito c = some d) : d < 36 := by
  have hall : ∀ n < 256, (digito (UInt8.ofNat n)).getD 0 < 36 := by decide +kernel
  have hlt := hall c.toNat c.toNat_lt
  rwa [UInt8.ofNat_toNat, h] at hlt

theorem corrida_cons (hc : digito c = some d) (hd : d < b) : corrida b (c :: s) = d :: corrida b s := by
  have hvalid : valido b c = true := by simpa [valido, hc] using hd
  rw [corrida, List.takeWhile_cons_of_pos hvalid, List.filterMap_cons_some hc]
  rfl

theorem corrida_cons_of_not (h : ∀ d, digito c = some d → b ≤ d) : corrida b (c :: s) = [] := by
  have hvalid : ¬valido b c = true := by
    rw [valido]
    cases hc : digito c with
    | none => exact Bool.false_ne_true
    | some d => simpa using h d hc
  rw [corrida, List.takeWhile_cons_of_neg hvalid]
  rfl

theorem corrida_cases (b : ℕ) (c : UInt8) (s : List UInt8) :
    (corrida b (c :: s) = [] ∧ ∀ d, digito c = some d → b ≤ d) ∨
      ∃ d, digito c = some d ∧ d < b ∧ corrida b (c :: s) = d :: corrida b s := by
  by_cases h : ∃ d, digito c = some d ∧ d < b
  · obtain ⟨d, hc, hd⟩ := h
    exact Or.inr ⟨d, hc, hd, corrida_cons hc hd⟩
  · have hstop (d : ℕ) (hc : digito c = some d) : b ≤ d := Nat.not_lt.mp fun hd => h ⟨d, hc, hd⟩
    exact Or.inl ⟨corrida_cons_of_not hstop, hstop⟩

end Runs

section Signed

variable {base sign : Int32} {b r d : ℕ} {c : UInt8}

theorem toInt_ofNat {n : ℕ} (h : n < 2 ^ 31) : (Int32.ofNat n).toInt = n := Int32.toInt_ofNat_of_lt h

theorem estouro_iff (hb : base.toInt = b) (hd : d < b) (h36 : b ≤ 36) (hr : r < 2 ^ 31) :
    Int32.ofNat r > Int32.maxValue / base ∨
      Int32.ofNat r = Int32.maxValue / base ∧ Int32.ofNat d > Int32.maxValue % base ↔ 2 ^ 31 ≤ r * b + d := by
  have hmax : Int32.maxValue.toInt = (2 ^ 31 - 1 : ℕ) := rfl
  have hdiv : (Int32.maxValue / base).toInt = ((2 ^ 31 - 1) / b : ℕ) := by
    rw [Int32.toInt_div_of_ne_left _ _ (by decide), hmax, hb]
    exact Int.ofNat_tdiv _ _
  have hmod : (Int32.maxValue % base).toInt = ((2 ^ 31 - 1) % b : ℕ) := by
    rw [Int32.toInt_mod, hmax, hb]
    exact Int.ofNat_tmod _ _
  rw [GT.gt, GT.gt, Int32.lt_iff_toInt_lt, Int32.lt_iff_toInt_lt, ← Int32.toInt_inj, hdiv, hmod, toInt_ofNat hr,
    toInt_ofNat (by omega), Int.ofNat_lt, Int.ofNat_lt, Int.ofNat_inj, cutoff_iff hd]
  omega

/-- The other test never holds: a result that is not negative is compared with the quotient of the least number. -/
theorem not_estouro_negativo (hb : base.toInt = b) (h2 : 2 ≤ b) (h36 : b ≤ 36) (hr : r < 2 ^ 31) :
    ¬(sign = -1 ∧ (Int32.ofNat r < Int32.minValue / base ∨
      Int32.ofNat r = Int32.minValue / base ∧ Int32.ofNat d > -(Int32.minValue % base))) := by
  have hmin : Int32.minValue.toInt = -(2 ^ 31 : ℕ) := rfl
  have hne : base ≠ -1 := by
    rintro rfl
    have hminus : (-1 : Int32).toInt = -1 := rfl
    omega
  have hdiv : (Int32.minValue / base).toInt = -(2 ^ 31 / b : ℕ) := by
    rw [Int32.toInt_div_of_ne_right _ _ hne, hmin, hb, Int.neg_tdiv]
    exact congrArg Neg.neg (Int.ofNat_tdiv _ _)
  have hpos : 0 < 2 ^ 31 / b := Nat.div_pos (by omega) (by omega)
  rw [Int32.lt_iff_toInt_lt, ← @Int32.toInt_inj (Int32.ofNat r), hdiv, toInt_ofNat hr]
  rintro ⟨-, hlt | ⟨heq, -⟩⟩ <;> omega

theorem eq_ofNat (hb : base.toInt = b) : base = Int32.ofNat b := by
  rw [← Int32.ofInt_toInt base, hb]
  rfl

theorem passo_eq (hb : base.toInt = b) (r d : ℕ) :
    Int32.ofNat r * base + Int32.ofNat d = Int32.ofNat (r * b + d) := by
  rw [eq_ofNat hb, ← Int32.ofNat_mul, ← Int32.ofNat_add]

theorem ge_base_iff (hb : base.toInt = b) (hd : d < 36) : Int32.ofNat d ≥ base ↔ b ≤ d := by
  rw [GE.ge, Int32.le_iff_toInt_le, hb, toInt_ofNat (by omega), Int.ofNat_le]

theorem strtolLoop_cons_of_not (hb : base.toInt = b) (h : ∀ d, digito c = some d → b ≤ d) (s : List UInt8)
    (result : Int32) : strtolLoop base sign (c :: s) result = (result, false, c :: s) := by
  rw [strtolLoop]
  cases hc : digito c with
  | none => rfl
  | some d =>
      have hge := (ge_base_iff hb (digito_lt hc)).mpr (h d hc)
      exact if_pos hge

theorem strtolLoop_cons (hb : base.toInt = b) (h2 : 2 ≤ b) (h36 : b ≤ 36) (hc : digito c = some d) (hd : d < b)
    (hr : r < 2 ^ 31) (s : List UInt8) : strtolLoop base sign (c :: s) (Int32.ofNat r) =
      if r * b + d < 2 ^ 31 then strtolLoop base sign s (Int32.ofNat (r * b + d))
      else (Int32.maxValue, true, c :: s) := by
  have hge := mt (ge_base_iff hb (digito_lt hc)).mp (Nat.not_le.mpr hd)
  rw [strtolLoop, hc]
  dsimp only
  rw [if_neg hge, if_neg (not_estouro_negativo hb h2 h36 hr), passo_eq hb]
  by_cases hfit : r * b + d < 2 ^ 31
  · rw [if_pos hfit, if_neg (mt (estouro_iff hb hd h36 hr).mp (Nat.not_le.mpr hfit))]
  · rw [if_neg hfit, if_pos ((estouro_iff hb hd h36 hr).mpr (Nat.not_lt.mp hfit))]

theorem strtolLoop_eq (sign : Int32) (hb : base.toInt = b) (h2 : 2 ≤ b) (h36 : b ≤ 36) (hr : r < 2 ^ 31)
    (s : List UInt8) :
    (readOn b r (corrida b s) < 2 ^ 31 →
        ∃ t, strtolLoop base sign s (Int32.ofNat r) = (Int32.ofNat (readOn b r (corrida b s)), false, t)) ∧
      (2 ^ 31 ≤ readOn b r (corrida b s) →
        ∃ t, strtolLoop base sign s (Int32.ofNat r) = (Int32.maxValue, true, t)) := by
  induction s generalizing r with
  | nil => exact ⟨fun _ => ⟨[], rfl⟩, fun hle => absurd hr (Nat.not_lt.mpr hle)⟩
  | cons c s ih =>
      rcases corrida_cases b c s with ⟨hnil, hstop⟩ | ⟨d, hc, hd, hrun⟩
      · rw [strtolLoop_cons_of_not hb hstop, hnil]
        exact ⟨fun _ => ⟨c :: s, rfl⟩, fun hle => absurd hr (Nat.not_lt.mpr hle)⟩
      · rw [strtolLoop_cons hb h2 h36 hc hd hr, hrun, readOn_cons]
        by_cases hfit : r * b + d < 2 ^ 31
        · rw [if_pos hfit]
          exact ih hfit
        · have hle := le_readOn (Nat.zero_lt_of_lt hd) (r * b + d) (corrida b s)
          rw [if_neg hfit]
          exact ⟨fun hlt => absurd hlt (by omega), fun _ => ⟨c :: s, rfl⟩⟩

end Signed

section Unsigned

/-- One of the digits makes the number smaller, when it is kept in a word. -/
def Salto (b v : ℕ) (ds : List ℕ) : Prop :=
  ∃ p d t, ds = p ++ d :: t ∧ readOn b v (p ++ [d]) % 2 ^ 32 < readOn b v p % 2 ^ 32

variable {base : Int32} {b v d : ℕ} {ds : List ℕ} {c : UInt8}

theorem not_salto_nil (b v : ℕ) : ¬Salto b v [] := by
  rintro ⟨p, d, t, h, -⟩
  exact absurd h.symm (List.append_ne_nil_of_right_ne_nil p (List.cons_ne_nil d t))

theorem salto_cons_iff : Salto b v (d :: ds) ↔ (v * b + d) % 2 ^ 32 < v % 2 ^ 32 ∨ Salto b (v * b + d) ds := by
  constructor
  · rintro ⟨p, e, t, heq, hlt⟩
    cases p with
    | nil =>
        obtain ⟨rfl, rfl⟩ := List.cons.inj heq
        exact Or.inl hlt
    | cons e' p =>
        obtain ⟨rfl, rfl⟩ := List.cons.inj heq
        exact Or.inr ⟨p, e, t, rfl, hlt⟩
  · rintro (hlt | ⟨p, e, t, rfl, hlt⟩)
    · exact ⟨[], d, ds, rfl, hlt⟩
    · exact ⟨d :: p, e, t, rfl, hlt⟩

theorem not_salto (hb : 0 < b) (h : readOn b v ds < 2 ^ 32) : ¬Salto b v ds := by
  rintro ⟨p, d, t, rfl, hlt⟩
  have hle : readOn b v (p ++ [d]) ≤ readOn b v (p ++ d :: t) := by
    rw [List.append_cons p d t, readOn_append b v (p ++ [d])]
    exact le_readOn hb _ t
  have hmono : readOn b v p ≤ readOn b v (p ++ [d]) := by
    rw [readOn_append b v p]
    exact le_readOn hb _ [d]
  rw [Nat.mod_eq_of_lt (by omega), Nat.mod_eq_of_lt (by omega)] at hlt
  omega

theorem strtoulLoop_cons_of_not (hb : base.toInt = b) (h : ∀ d, digito c = some d → b ≤ d) (s : List UInt8)
    (result : UInt32) : strtoulLoop base (c :: s) result = (result, c :: s) := by
  rw [strtoulLoop]
  cases hc : digito c with
  | none => rfl
  | some d =>
      have hge := (ge_base_iff hb (digito_lt hc)).mpr (h d hc)
      exact if_pos hge

theorem strtoulLoop_cons (hb : base.toInt = b) (hc : digito c = some d) (hd : d < b) (s : List UInt8) :
    strtoulLoop base (c :: s) (UInt32.ofNat v) =
      if (v * b + d) % 2 ^ 32 < v % 2 ^ 32 then (0xFFFFFFFF, c :: s)
      else strtoulLoop base s (UInt32.ofNat (v * b + d)) := by
  have hge := mt (ge_base_iff hb (digito_lt hc)).mp (Nat.not_le.mpr hd)
  have hbase : base.toUInt32 = UInt32.ofNat b := congrArg Int32.toUInt32 (eq_ofNat hb)
  rw [strtoulLoop, hc]
  dsimp only
  rw [if_neg hge, hbase, ← UInt32.ofNat_mul, ← UInt32.ofNat_add]
  simp only [UInt32.lt_iff_toNat_lt, UInt32.toNat_ofNat']

theorem strtoulLoop_eq (hb : base.toInt = b) (s : List UInt8) :
    (Salto b v (corrida b s) → (strtoulLoop base s (UInt32.ofNat v)).1 = 0xFFFFFFFF) ∧
      (¬Salto b v (corrida b s) → (strtoulLoop base s (UInt32.ofNat v)).1 = UInt32.ofNat (readOn b v (corrida b s))) := by
  induction s generalizing v with
  | nil => exact ⟨fun h => absurd h (not_salto_nil b v), fun _ => rfl⟩
  | cons c s ih =>
      rcases corrida_cases b c s with ⟨hnil, hstop⟩ | ⟨d, hc, hd, hrun⟩
      · rw [strtoulLoop_cons_of_not hb hstop, hnil]
        exact ⟨fun h => absurd h (not_salto_nil b v), fun _ => rfl⟩
      · rw [strtoulLoop_cons hb hc hd, hrun, salto_cons_iff, readOn_cons]
        by_cases hlt : (v * b + d) % 2 ^ 32 < v % 2 ^ 32
        · rw [if_pos hlt]
          exact ⟨fun _ => rfl, fun h => absurd (Or.inl hlt) h⟩
        · rw [if_neg hlt]
          exact ⟨fun h => ih.1 (h.resolve_left hlt), fun h => ih.2 fun hs => h (Or.inr hs)⟩

end Unsigned

section Exactness

variable {base : Int32} {nptr s : List UInt8}

/-- The effective base at `s` and the run of its digits there, behind the prefix. -/
def digitos (base : Int32) (s : List UInt8) : ℕ × List ℕ :=
  let (base, s) := determinaBase base s
  (base.toInt.toNat, corrida base.toInt.toNat s)

/-- The number that stands at `s`. -/
def numero (base : Int32) (s : List UInt8) : ℕ := value (digitos base s).1 (digitos base s).2

def saturado (v : ℤ) : ℤ := max Int32.minValue.toInt (min Int32.maxValue.toInt v)

def semMais : List UInt8 → List UInt8
  | [] => []
  | c :: s => if c = ch '+' then s else c :: s

def entrada (nptr : List UInt8) : Int32 × List UInt8 := verificaSinal (nptr.dropWhile espaco)

/-- For `strtoul` a minus is no sign. -/
def entradaSemSinal (nptr : List UInt8) : List UInt8 := semMais (nptr.dropWhile espaco)

theorem determinaBase_bounds (h : base = 0 ∨ 2 ≤ base ∧ base ≤ 36) (s : List UInt8) :
    ∃ b : ℕ, (determinaBase base s).1.toInt = b ∧ 2 ≤ b ∧ b ≤ 36 := by
  rcases h with rfl | ⟨h2, h36⟩
  · rw [determinaBase, if_pos rfl]
    split
    next =>
      split
      next => exact ⟨16, rfl, by norm_num, by norm_num⟩
      next => exact ⟨8, rfl, by norm_num, by norm_num⟩
    next => exact ⟨10, rfl, by norm_num, by norm_num⟩
  · have hne : base ≠ 0 := by
      rintro rfl
      exact absurd h2 (by decide)
    rw [determinaBase, if_neg hne]
    have h2 : 2 ≤ base.toInt := Int32.le_iff_toInt_le.mp h2
    have h36 : base.toInt ≤ 36 := Int32.le_iff_toInt_le.mp h36
    exact ⟨base.toInt.toNat, by dsimp only; omega, by omega, by omega⟩

theorem base_range {b : ℕ} (hb : base.toInt = b) (h2 : 2 ≤ b) (h36 : b ≤ 36) : ¬(base < 2 ∨ base > 36) := by
  have htwo : (2 : Int32).toInt = 2 := rfl
  have hlast : (36 : Int32).toInt = 36 := rfl
  rw [GT.gt, Int32.lt_iff_toInt_lt, Int32.lt_iff_toInt_lt, hb, htwo, hlast]
  omega

theorem digitos_eq {b : ℕ} (hb : (determinaBase base s).1.toInt = b) :
    digitos base s = (b, corrida b (determinaBase base s).2) := by
  rw [digitos]
  dsimp only
  rw [hb]
  rfl

theorem strtol_eq (h : base = 0 ∨ 2 ≤ base ∧ base ≤ 36) (nptr : List UInt8) :
    (strtol nptr base).1 =
      if numero base (entrada nptr).2 < 2 ^ 31 then
        if (entrada nptr).1 = -1 then -Int32.ofNat (numero base (entrada nptr).2)
        else Int32.ofNat (numero base (entrada nptr).2)
      else Int32.maxValue := by
  have hs : verificaSinal (nptr.dropWhile espaco) = ((entrada nptr).1, (entrada nptr).2) := rfl
  generalize (entrada nptr).1 = sign at hs ⊢
  generalize (entrada nptr).2 = s at hs ⊢
  obtain ⟨b, hb, h2, h36⟩ := determinaBase_bounds h s
  have hvalid := base_range hb h2 h36
  have hloop := strtolLoop_eq sign hb h2 h36 (Nat.two_pow_pos 31) (determinaBase base s).2
  have hzero : Int32.ofNat 0 = 0 := rfl
  rw [readOn_zero, hzero] at hloop
  rw [strtol, hs, numero, digitos_eq hb]
  dsimp only
  rw [if_neg hvalid]
  by_cases hfit : value b (corrida b (determinaBase base s).2) < 2 ^ 31
  · obtain ⟨t, ht⟩ := hloop.1 hfit
    rw [ht, if_pos hfit]
    simp only [Bool.false_eq_true, not_false_eq_true, and_true]
  · obtain ⟨t, ht⟩ := hloop.2 (Nat.not_lt.mp hfit)
    rw [ht, if_neg hfit]
    exact if_neg fun hand => hand.2 rfl

theorem verificaSinal_cases (s : List UInt8) : (verificaSinal s).1 = 1 ∨ (verificaSinal s).1 = -1 := by
  cases s with
  | nil => exact Or.inl rfl
  | cons c s =>
      rw [verificaSinal]
      split
      next => exact Or.inr rfl
      next =>
        split
        next => exact Or.inl rfl
        next => exact Or.inl rfl

theorem strtol_exact_iff (h : base = 0 ∨ 2 ≤ base ∧ base ≤ 36) (nptr : List UInt8) :
    (strtol nptr base).1.toInt = saturado ((entrada nptr).1.toInt * numero base (entrada nptr).2) ↔
      ¬((entrada nptr).1 = -1 ∧ 2 ^ 31 ≤ numero base (entrada nptr).2) := by
  have hcases : (entrada nptr).1 = 1 ∨ (entrada nptr).1 = -1 := verificaSinal_cases (nptr.dropWhile espaco)
  have hmax : Int32.maxValue.toInt = 2 ^ 31 - 1 := rfl
  have hmin : Int32.minValue.toInt = -2 ^ 31 := rfl
  rw [strtol_eq h, saturado, hmax, hmin]
  generalize (entrada nptr).1 = sign at hcases ⊢
  generalize numero base (entrada nptr).2 = n
  rcases hcases with rfl | rfl
  · have hone : (1 : Int32).toInt = 1 := rfl
    have hne : (1 : Int32) ≠ -1 := by decide
    rw [hone, if_neg hne]
    refine iff_of_true ?_ fun hand => hne hand.1
    split
    next hfit =>
      rw [toInt_ofNat hfit]
      omega
    next hfit =>
      rw [hmax]
      omega
  · have hone : (-1 : Int32).toInt = -1 := rfl
    rw [hone, if_pos rfl, eq_self, true_and]
    split
    next hfit =>
      have hneg : (-Int32.ofNat n).toInt = -n := by
        rw [Int32.toInt_neg, toInt_ofNat hfit]
        apply Int.bmod_eq_of_le <;> omega
      rw [hneg]
      omega
    next hfit =>
      rw [hmax]
      omega

/-- What `strtoul` takes for the start of the number, where it is not. -/
def Alheio (s : List UInt8) : Prop := ∃ c ∈ s.head?, c = 0x0D ∨ c = 0x0B ∨ c = 0x0C ∨ c = ch '+'

theorem espaco_eq (c : UInt8) : espaco c = (espacoCurto c || c == 0x0D || c == 0x0B || c == 0x0C) := rfl

theorem dropWhile_espacoCurto (nptr : List UInt8) :
    (nptr.dropWhile espacoCurto).dropWhile espaco = nptr.dropWhile espaco := by
  induction nptr with
  | nil => rfl
  | cons c s ih =>
      by_cases hc : espacoCurto c = true
      · have hblank : espaco c = true := by rw [espaco_eq, hc, Bool.true_or, Bool.true_or, Bool.true_or]
        rw [List.dropWhile_cons_of_pos hc, ih, List.dropWhile_cons_of_pos hblank]
      · rw [List.dropWhile_cons_of_neg hc]

theorem semMais_of_not_alheio (h : ¬Alheio (nptr.dropWhile espacoCurto)) :
    semMais (nptr.dropWhile espaco) = nptr.dropWhile espacoCurto := by
  have hhead := List.head?_dropWhile_not espacoCurto nptr
  rw [← dropWhile_espacoCurto]
  cases hs : nptr.dropWhile espacoCurto with
  | nil => rfl
  | cons c s =>
      rw [hs] at h hhead
      have hnot : ¬(c = 0x0D ∨ c = 0x0B ∨ c = 0x0C ∨ c = ch '+') := fun hc => h ⟨c, rfl, hc⟩
      have hblank : ¬espaco c = true := by
        have hshort : espacoCurto c = false := hhead
        rw [not_or, not_or, not_or] at hnot
        simp [espaco_eq, hnot, hshort]
      have hplus : c ≠ ch '+' := fun hc => hnot (Or.inr (Or.inr (Or.inr hc)))
      rw [List.dropWhile_cons_of_neg hblank, semMais, if_neg hplus]

theorem strtoul_eq (h : base = 0 ∨ 2 ≤ base ∧ base ≤ 36) (hs : nptr.dropWhile espacoCurto = s) :
    (Salto (digitos base s).1 0 (digitos base s).2 → (strtoul nptr base).1 = 0xFFFFFFFF) ∧
      (¬Salto (digitos base s).1 0 (digitos base s).2 → (strtoul nptr base).1 = UInt32.ofNat (numero base s)) := by
  obtain ⟨b, hb, h2, h36⟩ := determinaBase_bounds h s
  have hvalid := base_range hb h2 h36
  rw [strtoul, hs, numero, digitos_eq hb]
  dsimp only
  rw [if_neg hvalid]
  exact strtoulLoop_eq hb (determinaBase base s).2

theorem digitos_of_alheio (h : Alheio s) : (digitos base s).2 = [] := by
  obtain ⟨c, hc, hmark⟩ := h
  obtain ⟨t, rfl⟩ := List.head?_eq_some_iff.mp hc
  have hnone : digito c = none := by rcases hmark with rfl | rfl | rfl | rfl <;> rfl
  have hne : ¬(c :: t).head? = some (ch '0') := by
    rintro hzero
    obtain rfl := Option.some.inj hzero
    exact absurd hnone (by decide)
  have hsame : (determinaBase base (c :: t)).2 = c :: t := by
    rw [determinaBase, if_neg hne]
    split <;> rfl
  rw [digitos]
  dsimp only
  rw [hsame]
  exact corrida_cons_of_not fun d hd => absurd (hnone.symm.trans hd) (Option.some_ne_none d).symm

theorem strtoul_exact_iff (h : base = 0 ∨ 2 ≤ base ∧ base ≤ 36)
    (hs : semMais (nptr.dropWhile espaco) = s) :
    (strtoul nptr base).1.toNat = min (2 ^ 32 - 1) (numero base s) ↔
      numero base s = 0 ∨ ¬Alheio (nptr.dropWhile espacoCurto) ∧ (numero base s < 2 ^ 32 ∨
        Salto (digitos base s).1 0 (digitos base s).2 ∨ numero base s % 2 ^ 32 = 2 ^ 32 - 1) := by
  obtain ⟨hjump, hrest⟩ := @strtoul_eq base nptr _ h rfl
  by_cases hmark : Alheio (nptr.dropWhile espacoCurto)
  · have hnil := @digitos_of_alheio base _ hmark
    rw [hnil] at hjump hrest
    have hzero : (strtoul nptr base).1 = 0 := by
      rw [hrest (not_salto_nil _ _), numero, hnil]
      rfl
    rw [hzero, UInt32.toNat_zero]
    constructor
    · intro hmin
      exact Or.inl (by omega)
    · rintro (h0 | ⟨hnot, -⟩)
      · rw [h0]
        rfl
      · exact absurd hmark hnot
  · rw [semMais_of_not_alheio hmark] at hs
    rw [hs] at hjump hrest
    by_cases hsalto : Salto (digitos base s).1 0 (digitos base s).2
    · have hlarge : ¬numero base s < 2 ^ 32 := by
        obtain ⟨b, hb, h2, -⟩ := determinaBase_bounds h s
        intro hlt
        apply not_salto _ hlt hsalto
        rw [digitos_eq hb]
        exact Nat.lt_of_lt_of_le Nat.two_pos h2
      have hmax : (0xFFFFFFFF : UInt32).toNat = 2 ^ 32 - 1 := rfl
      rw [hjump hsalto, hmax]
      simp only [hmark, hsalto, not_false_eq_true, true_or, or_true, and_self, iff_true]
      omega
    · rw [hrest hsalto, UInt32.toNat_ofNat']
      simp only [hmark, hsalto, not_false_eq_true, true_and, false_or]
      omega

/-- The value is kept to its range, except that `strtol` gives the other end of it for a number that is too small
and `strtoul` overlooks an overflow after which the word has grown. -/
theorem strtol_strtoul_exact_iff (nptr : List UInt8) (h : base = 0 ∨ 2 ≤ base ∧ base ≤ 36) :
    ((strtol nptr base).1.toInt = saturado ((entrada nptr).1.toInt * numero base (entrada nptr).2) ↔
      ¬((entrada nptr).1 = -1 ∧ 2 ^ 31 ≤ numero base (entrada nptr).2)) ∧
    ((strtoul nptr base).1.toNat = min (2 ^ 32 - 1) (numero base (entradaSemSinal nptr)) ↔
      numero base (entradaSemSinal nptr) = 0 ∨ ¬Alheio (nptr.dropWhile espacoCurto) ∧
        (numero base (entradaSemSinal nptr) < 2 ^ 32 ∨
          Salto (digitos base (entradaSemSinal nptr)).1 0 (digitos base (entradaSemSinal nptr)).2 ∨
          numero base (entradaSemSinal nptr) % 2 ^ 32 = 2 ^ 32 - 1)) :=
  ⟨strtol_exact_iff h nptr, strtoul_exact_iff h rfl⟩

theorem strtol_strtoul_exact_iff_hex :
    ((0 : Int32) = 0 ∨ 2 ≤ (0 : Int32) ∧ (0 : Int32) ≤ 36) ∧ (strtol (" -0x1f;".toList.map ch) 0).1.toInt = -31 ∧
      (strtoul (" 0x1f;".toList.map ch) 0).1.toNat = 31 := by
  have h : (0 : Int32) = 0 ∨ 2 ≤ (0 : Int32) ∧ (0 : Int32) ≤ 36 := Or.inl rfl
  refine ⟨h, ?_, ?_⟩
  · apply (strtol_strtoul_exact_iff (" -0x1f;".toList.map ch) h).1.mpr
    decide +kernel
  · apply (strtol_strtoul_exact_iff (" 0x1f;".toList.map ch) h).2.mpr
    refine Or.inr ⟨?_, Or.inl (by decide +kernel)⟩
    rintro ⟨c, hc, hmark⟩
    have hzero : ((" 0x1f;".toList.map ch).dropWhile espacoCurto).head? = some (ch '0') := by decide +kernel
    obtain rfl := Option.some.inj (hc.symm.trans hzero)
    exact absurd hmark (by decide)

theorem strtol_of_least :
    (strtol ("-2147483648".toList.map ch) 10).1 = 2147483647 ∧
      saturado ((entrada ("-2147483648".toList.map ch)).1.toInt *
        numero 10 (entrada ("-2147483648".toList.map ch)).2) = -2147483648 ∧
      (strtoul ("9999999999".toList.map ch) 10).1 = 1410065407 ∧
      min (2 ^ 32 - 1) (numero 10 (entradaSemSinal ("9999999999".toList.map ch))) = 4294967295 := by
  decide +kernel

end Exactness

end Orion68.Kernel
