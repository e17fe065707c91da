import Orion68.Kernel.Strtol
import Orion68.Lib.Loops
import Orion68.Libc.Itoa

namespace Orion68.Kernel

open Numerals Stdio Buffers Loops

section Code

/-- `num`, `ptr` as the number of bytes before it, and the buffer. -/
structure Conversao where
  num : Int32
  ptr : ℕ
  str : Buffer

def letra (digit : Int32) : UInt8 :=
  if digit < 10 then ch '0' + digit.toUInt32.toUInt8 else ch 'a' + (digit - 10).toUInt32.toUInt8

def Conversao.passo (base : Int32) (s : Conversao) : Conversao :=
  ⟨s.num / base, s.ptr + 1, Function.update s.str s.ptr (letra (s.num % base))⟩

def Conversao.poe (c : UInt8) (s : Conversao) : Conversao :=
  { s with ptr := s.ptr + 1, str := Function.update s.str s.ptr c }

/-- The loop over the digits, given up after 32 rounds; there are no more bits. -/
def converteDigitos (base num : Int32) (str : Buffer) : Option Conversao :=
  whileLoop (fun s => decide (s.num > 0)) (fun s => some (s.passo base)) 32 ⟨num, 0, str⟩

/-- What `long_to_string` and `itoa_kernel` have in common, an `int` being as long as a `long`. -/
def converte (value : Int32) (str : Buffer) (base : Int32) : Option Buffer :=
  if base < 2 ∨ base > 36 then some (Function.update (Function.update str 0 (ch '0')) 1 0)
  else
    let is_negative := decide (value < 0) && base == 10
    let num := if is_negative then -value else value
    if num = 0 then some (Function.update (Function.update str 0 (ch '0')) 1 0)
    else
      (converteDigitos base num str).map fun s =>
        let s := if is_negative then s.poe (ch '-') else s
        reverse (Function.update s.str s.ptr 0) 0 (s.ptr - 1)

def longToString : Int32 → Buffer → Int32 → Option Buffer := converte

def itoaKernel : Int32 → Buffer → Int32 → Option Buffer := converte

def maiuscula (c : UInt8) : UInt8 := if ch 'a' ≤ c ∧ c ≤ ch 'f' then c - ch 'a' + ch 'A' else c

/-- A loop over the string that stands in the buffer, given up after `n` rounds. -/
def intToHex (n : ℕ) (value : Int32) (str : Buffer) (uppercase : Bool) : Option Buffer :=
  (longToString (value.toUInt32 &&& 0xFFFFFFFF).toInt32 str 16).bind fun str =>
    if uppercase then
      (whileLoop (fun s : ℕ × Buffer => s.2 s.1 != 0)
        (fun s => some (s.1 + 1, Function.update s.2 s.1 (maiuscula (s.2 s.1)))) n (0, str)).map Prod.snd
    else some str

end Code

section Digits

variable {base : Int32} {b v n : ℕ}

theorem letra_eq : ∀ d < 36, letra (Int32.ofNat d) = digitChar d := by
  decide +kernel

theorem ofNat_pos_iff (hv : v < 2 ^ 31) : Int32.ofNat v > 0 ↔ 0 < v := by
  rw [GT.gt, Int32.lt_iff_toInt_lt, toInt_ofNat hv, Int32.toInt_zero]
  omega

theorem ofNat_div (hb : base.toInt = b) (hv : v < 2 ^ 31) : Int32.ofNat v / base = Int32.ofNat (v / b) := by
  apply Int32.toInt.inj
  have hne : Int32.ofNat v ≠ Int32.minValue := by
    intro h
    have hint := congrArg Int32.toInt h
    rw [toInt_ofNat hv, Int32.toInt_minValue] at hint
    omega
  rw [Int32.toInt_div_of_ne_left _ _ hne, toInt_ofNat hv, hb, toInt_ofNat ((Nat.div_le_self v b).trans_lt hv)]
  exact Int.ofNat_tdiv v b

theorem ofNat_mod (hb : base.toInt = b) (hv : v < 2 ^ 31) : Int32.ofNat v % base = Int32.ofNat (v % b) := by
  apply Int32.toInt.inj
  rw [Int32.toInt_mod, toInt_ofNat hv, hb, toInt_ofNat ((Nat.mod_le v b).trans_lt hv)]
  exact Int.ofNat_tmod v b

theorem digitos_loop (hb : base.toInt = b) (h2 : 2 ≤ b) (h36 : b ≤ 36) (hv : v < 2 ^ 31) (hn : v < b ^ n) (i : ℕ)
    (str : Buffer) :
    whileLoop (fun s => decide (s.num > 0)) (fun s => some (Conversao.passo base s)) (n + 1) ⟨Int32.ofNat v, i, str⟩ =
      some ⟨0, i + (Nat.digits b v).length, place i ((Nat.digits b v).map digitChar) str⟩ := by
  have hnot : ¬decide ((0 : Int32) > 0) = true := by decide
  induction n generalizing v i str with
  | zero =>
      rw [Nat.pow_zero] at hn
      obtain rfl : v = 0 := by omega
      rw [Nat.digits_zero, List.map_nil, place_nil]
      exact if_neg hnot
  | succ n ih =>
      rcases Nat.eq_zero_or_pos v with rfl | hpos
      · rw [Nat.digits_zero, List.map_nil, place_nil]
        exact if_neg hnot
      · have hdigit : letra (Int32.ofNat v % base) = digitChar (v % b) := by
          rw [ofNat_mod hb hv, letra_eq _ ((Nat.mod_lt v (by omega)).trans_le h36)]
        have hrest : v / b < b ^ n := Nat.div_lt_of_lt_mul (by rwa [Nat.pow_succ, Nat.mul_comm] at hn)
        have hlen : i + 1 + (Nat.digits b (v / b)).length = i + ((Nat.digits b (v / b)).length + 1) := by omega
        rw [whileLoop, if_pos (decide_eq_true ((ofNat_pos_iff hv).mpr hpos)), Option.bind_some, Conversao.passo, hdigit,
          ofNat_div hb hv, ih ((Nat.div_le_self v b).trans_lt hv) hrest, Nat.digits_def' h2 hpos, List.map_cons,
          place_cons, List.length_cons, hlen]

end Digits

section Writing

variable {base value : Int32} {b v : ℕ} {str : Buffer}

/-- The string that is written: the least number keeps its sign, so that there are no digits of it. -/
def escrita (value base : Int32) : List UInt8 :=
  if base = 10 ∧ value < 0 then
    if value = Int32.minValue then [ch '-'] else ch '-' :: characters 10 value.toInt.natAbs
  else if value < 0 then []
  else characters base.toUInt32.toNat value.toUInt32.toNat

theorem converteDigitos_eq (hb : base.toInt = b) (h2 : 2 ≤ b) (h36 : b ≤ 36) (hv : v < 2 ^ 31) (hpos : 0 < v)
    (str : Buffer) : converteDigitos base (Int32.ofNat v) str =
      some ⟨0, (characters b v).length, place 0 (characters b v).reverse str⟩ := by
  have hn : v < b ^ 31 := hv.trans_le (Nat.pow_le_pow_left h2 31)
  rw [converteDigitos, digitos_loop hb h2 h36 hv hn, Nat.zero_add, characters, numeral_of_ne_zero hpos.ne',
    List.length_map, List.length_reverse, ← List.map_reverse, List.reverse_reverse]

theorem converteDigitos_of_neg {num : Int32} (h : num < 0) (str : Buffer) :
    converteDigitos base num str = some ⟨num, 0, str⟩ := by
  have hnot : ¬decide (num > 0) = true := by
    intro hpos
    exact Int32.lt_irrefl (Int32.lt_trans h (of_decide_eq_true hpos))
  exact if_neg hnot

theorem reverse_poe (l : List UInt8) (c : UInt8) (num : Int32) (str : Buffer) :
    reverse (Function.update (Conversao.poe c ⟨num, l.length, place 0 l.reverse str⟩).str
      (Conversao.poe c ⟨num, l.length, place 0 l.reverse str⟩).ptr 0) 0
      ((Conversao.poe c ⟨num, l.length, place 0 l.reverse str⟩).ptr - 1) = place 0 (c :: l ++ [0]) str := by
  have hplace := place_concat 0 l.reverse c str
  rw [List.length_reverse, Nat.zero_add] at hplace
  rw [← reverse_place, List.reverse_cons, List.length_cons, hplace]
  rfl

theorem toInt_of_not_neg (h : ¬value < 0) : value.toInt = value.toUInt32.toNat := by
  rw [toInt_eq, if_pos (Nat.not_le.mp (mt (neg_iff value).mpr h))]

theorem lt_toInt_of_ne_minValue (h : value ≠ Int32.minValue) : -2 ^ 31 < value.toInt := by
  apply lt_of_le_of_ne value.minValue_le_toInt
  exact fun heq => h (Int32.toInt_inj.mp heq.symm)

theorem converte_of_neg {value : Int32} (h : value < 0) (str : Buffer) :
    converte value str 10 = some (place 0 (escrita value 10 ++ [0]) str) := by
  have hflag : (decide (value < 0) && (10 : Int32) == 10) = true := by simp [h]
  have hneg : (10 : Int32) = 10 ∧ value < 0 := ⟨rfl, h⟩
  rw [converte, escrita, if_neg (by decide), if_pos hneg]
  dsimp only
  rw [hflag, if_pos rfl]
  by_cases hmin : value = Int32.minValue
  · have hreverse := reverse_poe [] (ch '-') Int32.minValue str
    rw [List.reverse_nil, place_nil] at hreverse
    have hneg : -Int32.minValue = Int32.minValue := by decide
    rw [hmin, hneg, if_neg (by decide), converteDigitos_of_neg (by decide), if_pos rfl, Option.map_some]
    exact congrArg some hreverse
  · have hleast := lt_toInt_of_ne_minValue hmin
    have hlt : value.toInt < 0 := Int32.lt_iff_toInt_lt.mp h
    have habs : (-value).toInt = value.toInt.natAbs := by
      rw [Int32.toInt_neg, Int.bmod_eq_of_le] <;> omega
    have hnum := eq_ofNat habs
    have hzero : ¬Int32.ofNat value.toInt.natAbs = 0 := by
      rw [← hnum, ← Int32.toInt_inj, habs, Int32.toInt_zero]
      omega
    rw [hnum, if_neg hzero, converteDigitos_eq rfl (by decide) (by decide) (by omega) (by omega), if_neg hmin,
      Option.map_some]
    exact congrArg some (reverse_poe _ _ _ str)

theorem converte_of_not_neg (h : ¬(base < 2 ∨ 36 < base)) (hneg : ¬(base = 10 ∧ value < 0)) (str : Buffer) :
    converte value str base = some (place 0 (escrita value base ++ [0]) str) := by
  have hb := base_toInt h
  obtain ⟨h2, h36⟩ := base_bounds h
  have hflag : (decide (value < 0) && base == 10) = false := by
    rw [Bool.and_eq_false_iff, decide_eq_false_iff_not, beq_eq_false_iff_ne]
    tauto
  rw [converte, escrita, if_neg h, if_neg hneg]
  dsimp only
  rw [hflag, if_neg Bool.false_ne_true]
  by_cases hlt : value < 0
  · have hzero : ¬value = 0 := by
      rintro rfl
      exact absurd hlt (by decide)
    rw [if_neg hzero, converteDigitos_of_neg hlt, if_pos hlt, Option.map_some, List.nil_append, place_cons, place_nil]
    rfl
  · have hv := toInt_of_not_neg hlt
    have hfit := Nat.not_le.mp (mt (neg_iff value).mpr hlt)
    rw [if_neg hlt]
    by_cases hzero : value = 0
    · have hchars : characters base.toUInt32.toNat (0 : Int32).toUInt32.toNat = [ch '0'] := rfl
      rw [if_pos hzero, hzero, hchars, List.singleton_append, place_cons, place_cons, place_nil]
    · have hpos : 0 < value.toUInt32.toNat := by
        apply Nat.pos_of_ne_zero
        intro h0
        apply hzero
        rw [← Int32.toInt_inj, hv, h0]
        rfl
      have hloop := converteDigitos_eq hb h2 h36 hfit hpos str
      rw [← eq_ofNat hv] at hloop
      rw [if_neg hzero, hloop, Option.map_some]
      exact congrArg some (reverse_place 0 _ str)

theorem converte_eq (h : ¬(base < 2 ∨ 36 < base)) (value : Int32) (str : Buffer) :
    converte value str base = some (place 0 (escrita value base ++ [0]) str) := by
  by_cases hneg : base = 10 ∧ value < 0
  · rw [hneg.1]
    exact converte_of_neg hneg.2 str
  · exact converte_of_not_neg h hneg str

theorem notMem_escrita (h : ¬(base < 2 ∨ 36 < base)) (value : Int32) : 0 ∉ escrita value base := by
  obtain ⟨h2, h36⟩ := base_bounds h
  have hminus : (0 : UInt8) ≠ ch '-' := by decide
  have hten : 0 ∉ characters (10 : UInt32).toNat value.toInt.natAbs := notMem_characters (by decide) (by decide)
  rw [escrita]
  split
  next =>
    split
    next => exact List.not_mem_cons_of_ne_of_not_mem hminus List.not_mem_nil
    next => exact List.not_mem_cons_of_ne_of_not_mem hminus hten
  next =>
    split
    next => exact List.not_mem_nil
    next => exact notMem_characters h2 h36

end Writing

section Reading

variable {base value : Int32} {b : ℕ} {ds : List ℕ}

theorem digitChar_lido : ∀ d < 36, digito (digitChar d) = some d ∧ espaco (digitChar d) = false ∧
    digitChar d ≠ ch '-' ∧ digitChar d ≠ ch '+' := by
  decide +kernel

theorem corrida_map (h36 : b ≤ 36) (hds : ∀ d ∈ ds, d < b) : corrida b (ds.map digitChar) = ds := by
  induction ds with
  | nil => rfl
  | cons d ds ih =>
      obtain ⟨hd, hds⟩ := List.forall_mem_cons.mp hds
      have hdigit := (digitChar_lido d (hd.trans_le h36)).1
      rw [List.map_cons, corrida_cons hdigit hd, ih hds]

theorem numero_characters (h : ¬(base < 2 ∨ 36 < base)) (v : ℕ) :
    numero base (characters base.toUInt32.toNat v) = v := by
  obtain ⟨h2, h36⟩ := base_bounds h
  have hne : base ≠ 0 := by
    rintro rfl
    exact absurd h2 (by decide)
  have hgiven (s : List UInt8) : determinaBase base s = (base, s) := if_neg hne
  have hb (s : List UInt8) : (determinaBase base s).1.toInt = base.toUInt32.toNat := by
    rw [hgiven, base_toInt h]
  rw [numero, digitos_eq (hb _), hgiven]
  dsimp only
  rw [characters, corrida_map h36 (numeral_lt h2), value_numeral]

theorem entrada_characters (h2 : 1 < b) (h36 : b ≤ 36) (v : ℕ) : entrada (characters b v) = (1, characters b v) := by
  cases hds : numeral b v with
  | nil => exact absurd hds (numeral_ne_nil b v)
  | cons d ds =>
      have hd : d < b := numeral_lt h2 d (hds ▸ List.mem_cons_self)
      obtain ⟨-, hblank, hminus, hplus⟩ := digitChar_lido d (hd.trans_le h36)
      have hblank : ¬espaco (digitChar d) = true := by rw [hblank]; exact Bool.false_ne_true
      rw [characters, hds, List.map_cons, entrada, List.dropWhile_cons_of_neg hblank, verificaSinal, if_neg hminus,
        if_neg hplus]

theorem entrada_minus (s : List UInt8) : entrada (ch '-' :: s) = (-1, s) := rfl

/-- The value, or the word of it in a base that has no sign, is what a string stands for. -/
def Lido (s : List UInt8) (value base : Int32) : Prop :=
  (entrada s).1.toInt * numero base (entrada s).2 = if base = 10 then value.toInt else value.toUInt32.toNat

theorem lido_numeralString (h : ¬(base < 2 ∨ 36 < base)) (value : Int32) :
    Lido (numeralString value base) value base := by
  obtain ⟨h2, h36⟩ := base_bounds h
  rw [Lido, numeralString]
  by_cases hneg : base = 10 ∧ value < 0
  · obtain ⟨rfl, hlt⟩ := hneg
    have hnum := numero_characters h value.toInt.natAbs
    have hten : (10 : Int32).toUInt32.toNat = 10 := rfl
    have hone : (-1 : Int32).toInt = -1 := rfl
    have hint := Int32.lt_iff_toInt_lt.mp hlt
    rw [hten] at hnum
    rw [if_pos ⟨rfl, hlt⟩, if_pos rfl, entrada_minus, hnum, hone]
    rw [Int32.toInt_zero] at hint
    omega
  · rw [if_neg hneg, entrada_characters h2 h36, numero_characters h, Int32.toInt_one, one_mul]
    split
    next h10 => exact (toInt_of_not_neg fun hlt => hneg ⟨h10, hlt⟩).symm
    next => rfl

/-- Where there is no sign, or one of a number that is not the least, `strtol` gives the value back. -/
theorem strtol_numeralString (h : ¬(base < 2 ∨ 36 < base))
    (hvalue : 0 ≤ value ∨ base = 10 ∧ value ≠ Int32.minValue) :
    (strtol (numeralString value base) base).1 = value := by
  have hbase : base = 0 ∨ 2 ≤ base ∧ base ≤ 36 :=
    Or.inr ⟨Int32.not_lt.mp fun hlt => h (Or.inl hlt), Int32.not_lt.mp fun hlt => h (Or.inr hlt)⟩
  have hread : (entrada (numeralString value base)).1.toInt * numero base (entrada (numeralString value base)).2 =
      value.toInt := by
    have hlido := lido_numeralString h value
    rw [Lido] at hlido
    rw [hlido]
    split
    next => rfl
    next hne =>
      have hle := hvalue.resolve_right fun hten => hne hten.1
      exact (toInt_of_not_neg (Int32.not_lt.mpr hle)).symm
  have hfit : ¬((entrada (numeralString value base)).1 = -1 ∧
      2 ^ 31 ≤ numero base (entrada (numeralString value base)).2) := by
    rintro ⟨hsign, hlarge⟩
    have hone : (-1 : Int32).toInt = -1 := rfl
    have hzero : (0 : Int32).toInt = 0 := rfl
    rw [hsign, hone] at hread
    rcases hvalue with hle | ⟨-, hne⟩
    · rw [Int32.le_iff_toInt_le, hzero] at hle
      omega
    · have hleast := lt_toInt_of_ne_minValue hne
      omega
  have hexact := (strtol_exact_iff hbase (numeralString value base)).mpr hfit
  have hmax : Int32.maxValue.toInt = 2 ^ 31 - 1 := rfl
  have hle := value.minValue_le_toInt
  have hlt := value.toInt_lt
  apply Int32.toInt.inj
  rw [hexact, hread, saturado, hmax]
  omega

end Reading

section Hexadecimal

def Trocado (s : List UInt8) (t : ℕ × Buffer) : Prop :=
  ∃ p q, s = p ++ q ∧ t.1 = p.length ∧ Terminated 0 t.2 (p.map maiuscula ++ q)

theorem maiuscula_ne_zero {c : UInt8} (hc : c ≠ 0) : maiuscula c ≠ 0 := by
  have hall : ∀ n < 256, n ≠ 0 → maiuscula (UInt8.ofNat n) ≠ 0 := by decide +kernel
  have hne := hall c.toNat c.toNat_lt fun h => hc (UInt8.toNat.inj h)
  rwa [UInt8.ofNat_toNat] at hne

theorem Trocado.step {s : List UInt8} {t : ℕ × Buffer} (h : Trocado s t) (hc : t.2 t.1 ≠ 0) :
    Trocado s (t.1 + 1, Function.update t.2 t.1 (maiuscula (t.2 t.1))) ∧ s.length - (t.1 + 1) < s.length - t.1 := by
  obtain ⟨p, q, rfl, hlen, hterm⟩ := h
  have hp : (p.map maiuscula).length = t.1 := by rw [List.length_map, hlen]
  cases q with
  | nil =>
      have hends := hterm.ends
      rw [List.append_nil, hp] at hends
      exact absurd hends hc
  | cons c q =>
      have hbyte : t.2 t.1 = c := by
        have h := hterm.byte t.1 (by rw [List.length_append, List.length_cons, hp]; omega)
        rw [h, List.getElem_append_right (by omega)]
        simp [hp]
      have hnext := hterm.update (maiuscula_ne_zero (hbyte ▸ hc))
      rw [hp] at hnext
      refine ⟨⟨p ++ [c], q, (List.append_assoc p [c] q).symm, ?_, ?_⟩, ?_⟩
      · rw [List.length_append, hlen]
        rfl
      · rw [hbyte, List.map_append, List.append_assoc]
        exact hnext
      · rw [List.length_append, List.length_cons]
        omega

theorem Trocado.end {s : List UInt8} {t : ℕ × Buffer} (h : Trocado s t) (hc : t.2 t.1 = 0) :
    Terminated 0 t.2 (s.map maiuscula) := by
  obtain ⟨p, q, rfl, hlen, hterm⟩ := h
  cases q with
  | nil => rwa [List.append_nil] at hterm ⊢
  | cons c q =>
      have hlt : t.1 < (p.map maiuscula ++ c :: q).length := by
        rw [List.length_append, List.length_map, List.length_cons, hlen]
        omega
      exact absurd hc (hterm.ne hlt)

/-- The value is a signed one again when its digits are written, so that a negative one has none. -/
theorem intToHex_eq {n : ℕ} {value : Int32} (hn : (escrita value 16).length < n) (str : Buffer) (uppercase : Bool) :
    ∃ str', intToHex n value str uppercase = some str' ∧
      Terminated 0 str' (if uppercase then (escrita value 16).map maiuscula else escrita value 16) := by
  have h16 : ¬((16 : Int32) < 2 ∨ 36 < (16 : Int32)) := by decide
  have hword : (value.toUInt32 &&& 0xFFFFFFFF).toInt32 = value :=
    congrArg UInt32.toInt32 (UInt32.and_neg_one (a := value.toUInt32))
  have hterm := terminated_place (notMem_escrita h16 value) str
  rw [intToHex, hword, longToString, converte_eq h16, Option.bind_some]
  cases uppercase with
  | false => exact ⟨_, rfl, hterm⟩
  | true =>
      have hstart : Trocado (escrita value 16) (0, place 0 (escrita value 16 ++ [0]) str) := ⟨[], _, rfl, rfl, hterm⟩
      have hround (t : ℕ × Buffer) (hI : Trocado (escrita value 16) t) (hc : (t.2 t.1 != 0) = true) :
          ∃ u, some (t.1 + 1, Function.update t.2 t.1 (maiuscula (t.2 t.1))) = some u ∧ Trocado (escrita value 16) u ∧
            (escrita value 16).length - u.1 < (escrita value 16).length - t.1 :=
        ⟨_, rfl, hI.step (bne_iff_ne.mp hc)⟩
      obtain ⟨t, ht, hI, hend⟩ := whileLoop_total (fun t => (escrita value 16).length - t.1) hround hstart hn
      refine ⟨t.2, ?_, hI.end (by simpa using hend)⟩
      rw [if_pos rfl, ht]
      rfl

end Hexadecimal

section Exactness

variable {base value : Int32} {f : Int32 → Buffer → Int32 → Option Buffer} {str : Buffer}

/-- The buffer ends up with a string that stands for the value. -/
def Formata (f : Int32 → Buffer → Int32 → Option Buffer) (str : Buffer) (value base : Int32) : Prop :=
  ∃ str' s, f value str base = some str' ∧ Terminated 0 str' s ∧ s ≠ [] ∧ s = numeralString value base ∧
    Lido s value base

theorem characters_ne_nil (b v : ℕ) : characters b v ≠ [] := by
  rw [characters, Ne, List.map_eq_nil_iff]
  exact numeral_ne_nil b v

theorem numeralString_ne_nil (value base : Int32) : numeralString value base ≠ [] := by
  rw [numeralString]
  split
  next => exact List.cons_ne_nil _ _
  next => exact characters_ne_nil _ _

theorem escrita_eq_iff : escrita value base = numeralString value base ↔
    0 ≤ value ∨ base = 10 ∧ value ≠ Int32.minValue := by
  rw [escrita, numeralString]
  by_cases hneg : base = 10 ∧ value < 0
  · have hnot : ¬0 ≤ value := Int32.not_le.mpr hneg.2
    rw [if_pos hneg, if_pos hneg]
    by_cases hmin : value = Int32.minValue
    · rw [if_pos hmin]
      refine iff_of_false ?_ ?_
      · intro h
        have hnil := (List.cons.inj h).2
        exact characters_ne_nil _ _ hnil.symm
      · rintro (hle | ⟨-, hne⟩)
        · exact hnot hle
        · exact hne hmin
    · rw [if_neg hmin]
      exact iff_of_true rfl (Or.inr ⟨hneg.1, hmin⟩)
  · rw [if_neg hneg, if_neg hneg]
    by_cases hlt : value < 0
    · rw [if_pos hlt]
      refine iff_of_false (fun h => characters_ne_nil _ _ h.symm) ?_
      rintro (hle | ⟨hten, -⟩)
      · exact Int32.not_le.mpr hlt hle
      · exact hneg ⟨hten, hlt⟩
    · rw [if_neg hlt]
      exact iff_of_true rfl (Or.inl (Int32.not_lt.mp hlt))

theorem formata_converte_iff (h : ¬(base < 2 ∨ 36 < base)) (value : Int32) (str : Buffer) :
    Formata converte str value base ↔ 0 ≤ value ∨ base = 10 ∧ value ≠ Int32.minValue := by
  have hconverte := converte_eq h value str
  have hterm := terminated_place (notMem_escrita h value) str
  rw [← escrita_eq_iff]
  constructor
  · rintro ⟨str', s, hs, hterm', -, rfl, -⟩
    rw [hconverte] at hs
    obtain rfl := Option.some.inj hs
    exact hterm.unique hterm'
  · intro heq
    rw [heq] at hconverte hterm
    exact ⟨_, _, hconverte, hterm, numeralString_ne_nil value base, rfl, lido_numeralString h value⟩

/-- Both write the value where it is not negative, and in base 10 all but the least one; `strtol` reads it there. -/
theorem long_to_string_itoa_kernel_exact_iff (str : Buffer) (h2 : 2 ≤ base) (h36 : base ≤ 36) :
    (Formata longToString str value base ↔ 0 ≤ value ∨ base = 10 ∧ value ≠ Int32.minValue) ∧
      (Formata itoaKernel str value base ↔ 0 ≤ value ∨ base = 10 ∧ value ≠ Int32.minValue) ∧
        (0 ≤ value ∨ base = 10 ∧ value ≠ Int32.minValue → (strtol (numeralString value base) base).1 = value) := by
  have h : ¬(base < 2 ∨ 36 < base) := not_or.mpr ⟨Int32.not_lt.mpr h2, Int32.not_lt.mpr h36⟩
  exact ⟨formata_converte_iff h value str, formata_converte_iff h value str, strtol_numeralString h⟩

theorem long_to_string_itoa_kernel_exact_iff_minus :
    2 ≤ (10 : Int32) ∧ (10 : Int32) ≤ 36 ∧ Formata longToString (fun _ => 0) (-42) 10 := by
  have h2 : 2 ≤ (10 : Int32) := by decide
  have h36 : (10 : Int32) ≤ 36 := by decide
  exact ⟨h2, h36, (long_to_string_itoa_kernel_exact_iff _ h2 h36).1.mpr (Or.inr ⟨rfl, by decide⟩)⟩

theorem long_to_string_minus_one :
    ¬Formata longToString (fun _ => 0) (-1) 16 ∧ ¬Formata itoaKernel (fun _ => 0) Int32.minValue 10 := by
  have h16 : ¬((16 : Int32) < 2 ∨ 36 < (16 : Int32)) := by decide
  have h10 : ¬((10 : Int32) < 2 ∨ 36 < (10 : Int32)) := by decide
  constructor
  · exact mt (formata_converte_iff h16 (-1) _).mp (by decide)
  · exact mt (formata_converte_iff h10 Int32.minValue _).mp (by decide)

end Exactness

end Orion68.Kernel
