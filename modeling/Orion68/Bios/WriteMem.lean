import Orion68.Lib.Memory

namespace Orion68.WriteMem

open Memory

abbrev Str := List UInt8

section Code

/-- The string at an address; a memory without a null byte is read once around. -/
def string (m : Ram) (a : UInt32) : Str := stringFrom 4294967296 m a

def fromhex (c : UInt8) : Int32 :=
  if 0x30 ≤ c ∧ c ≤ 0x39 then (c - 0x30).toUInt32.toInt32
  else if 0x61 ≤ c ∧ c ≤ 0x66 then (10 + c - 0x61).toUInt32.toInt32
  else if 0x41 ≤ c ∧ c ≤ 0x46 then (10 + c - 0x41).toUInt32.toInt32
  else -1

/-- The digit that `strtoul` takes a character for. -/
def digitOf (c : UInt8) : Option UInt32 :=
  if 0x30 ≤ c ∧ c ≤ 0x39 then some (c - 0x30).toUInt32
  else if 0x61 ≤ c ∧ c ≤ 0x7A then some (c - 0x61 + 10).toUInt32
  else if 0x41 ≤ c ∧ c ≤ 0x5A then some (c - 0x41 + 10).toUInt32
  else none

/-- The conversion, with `acc` and `any` so far. -/
def strtoulLoop (base : UInt32) : Str → UInt32 → ℤ → UInt32 × ℤ
  | [], acc, any => (acc, any)
  | c :: s, acc, any =>
      match digitOf c with
      | none => (acc, any)
      | some d =>
          if base ≤ d then (acc, any)
          else if any < 0 then strtoulLoop base s acc any
          else if 0xFFFFFFFF / base < acc ∨ acc = 0xFFFFFFFF / base ∧ 0xFFFFFFFF % base < d then
            strtoulLoop base s 0xFFFFFFFF (-1)
          else strtoulLoop base s (acc * base + d) 1

def strtoul (s : Str) (base : UInt32) : UInt32 :=
  let s := s.dropWhile fun c => c = 0x20 ∨ 0x09 ≤ c ∧ c ≤ 0x0D
  let neg := s.head? = some 0x2D
  let s := if s.head? = some 0x2D ∨ s.head? = some 0x2B then s.tail else s
  let hex := (base = 0 ∨ base = 16) ∧ s.head? = some 0x30 ∧ (s.tail.head? = some 0x78 ∨ s.tail.head? = some 0x58)
  let base := if hex then 16 else if base = 0 then if s.head? = some 0x30 then 8 else 10 else base
  let r := strtoulLoop base (if hex then s.drop 2 else s) 0 0
  if neg ∧ 0 < r.2 then -r.1 else r.1

inductive Message
  | ambiguousValue (value : Str)
  | badHexCharacter (c : UInt8) (value : Str)
  deriving DecidableEq

def checkValue (value : Str) : Option Message :=
  if value.length ≠ 1 ∧ value.length % 2 ≠ 0 then some (.ambiguousValue value)
  else (value.find? fun c => fromhex c < 0).map (.badHexCharacter · value)

/-- The string that the pointer at `p` leads to. -/
def arg (m : Ram) (p : UInt32) : Str := string m (load32 m p)

/-- `*ptr = b`; `frame` is the memory in which the command keeps its own variables, and nothing is said of
what it does when one of them is overwritten. -/
def poke (frame : Span) (ptr : UInt32) (b : UInt8) (m : Ram) : Option Ram :=
  if ptr ∈ frame then none else some (write ptr [b] m)

/-- The loop over the characters of the argument whose pointer is at `p`, from `j` on, with `n` more
rounds. -/
def writeLong (frame : Span) (p : UInt32) : ℕ → UInt32 → Ram → UInt32 → Option (Ram × UInt32)
  | 0, _, m, ptr => some (m, ptr)
  | n + 1, j, m, ptr => do
      let argvI := load32 m p
      let value := fromhex (m (argvI + j)) <<< 4 ||| fromhex (m (argvI + (j + 1)))
      let m ← poke frame ptr value.toUInt32.toUInt8 m
      writeLong frame p n (j + 2) m (ptr + 1)

/-- The second pass. The pointers and the arguments are read again, from the memory as it is by now. -/
def writeValues (frame : Span) : List UInt32 → Ram → UInt32 → Option Ram
  | [], m, _ => some m
  | p :: rest, m, ptr => do
      let l := (arg m p).length
      if l ≤ 2 then
        let m ← poke frame ptr (strtoul (arg m p) 16).toUInt8 m
        writeValues frame rest m (ptr + 1)
      else
        let (m, ptr) ← writeLong frame p ((l + 1) / 2) 0 m ptr
        writeValues frame rest m ptr

/-- Where `argv[i]` is. -/
def argvAt (argv : UInt32) (i : ℕ) : UInt32 := argv + 4 * UInt32.ofNat i

def values (argv : UInt32) (argc : ℕ) : List UInt32 := (List.range' 1 (argc - 1)).map (argvAt argv)

def doWritemem (frame : Span) (argc : ℕ) (argv : UInt32) (m : Ram) : Option (Option Message × Ram) :=
  match ((values argv argc).map (arg m)).findSome? checkValue with
  | some message => some (some message, m)
  | none => (writeValues frame (values argv argc) m (strtoul (arg m (argvAt argv 0)) 16)).map fun m => (none, m)

end Code

section Values

variable {s value : Str} {c d : UInt8}

/-- Why a value is not written. -/
def Rejected (value : Str) : Prop := value.length ≠ 1 ∧ value.length % 2 = 1 ∨ ∃ c ∈ value, fromhex c < 0

def hexDigit (c : UInt8) : UInt8 := (fromhex c).toUInt32.toUInt8

/-- The bytes that a value stands for, the first digits in the first byte. -/
def valueBytes : Str → List UInt8
  | [] => []
  | [c] => [hexDigit c]
  | c :: d :: rest => (16 * hexDigit c + hexDigit d) :: valueBytes rest

def storedBytes (value : Str) : List UInt8 := if value = [] then [0] else valueBytes value

theorem checkValue_eq_none_iff : checkValue value = none ↔ ¬Rejected value := by
  rw [checkValue, Rejected]
  by_cases hlen : value.length ≠ 1 ∧ value.length % 2 ≠ 0
  · rw [if_pos hlen]
    have hodd : value.length ≠ 1 ∧ value.length % 2 = 1 := ⟨hlen.1, by omega⟩
    simp [hodd]
  · rw [if_neg hlen, Option.map_eq_none_iff, List.find?_eq_none]
    have hodd : ¬(value.length ≠ 1 ∧ value.length % 2 = 1) := by omega
    simp [hodd]

theorem forall_byte {P : UInt8 → Prop} (h : ∀ n < 256, P (UInt8.ofNat n)) (c : UInt8) : P c := by
  rw [← UInt8.ofNat_toNat (x := c)]
  exact h c.toNat c.toNat_lt

theorem hex_digit_spec : ∀ c : UInt8, 0 ≤ fromhex c →
    digitOf c = some (fromhex c).toUInt32 ∧ (fromhex c).toUInt32 < 16 ∧
      c ≠ 0x2D ∧ c ≠ 0x2B ∧ c ≠ 0x78 ∧ c ≠ 0x58 ∧ ¬(c = 0x20 ∨ 0x09 ≤ c ∧ c ≤ 0x0D) := by
  apply forall_byte
  decide +kernel

theorem hex_pair (hc : 0 ≤ fromhex c) (hd : 0 ≤ fromhex d) :
    (fromhex c <<< 4 ||| fromhex d).toUInt32.toUInt8 = 16 * hexDigit c + hexDigit d := by
  have hbyte : ∀ x < 16, ∀ y < 16, ((UInt32.ofNat x).toInt32 <<< 4 ||| (UInt32.ofNat y).toInt32).toUInt32.toUInt8 =
      16 * (UInt32.ofNat x).toUInt8 + (UInt32.ofNat y).toUInt8 := by decide +kernel
  have hlt : ∀ {c}, 0 ≤ fromhex c → (fromhex c).toUInt32.toNat < 16 :=
    fun h => UInt32.lt_iff_toNat_lt.mp (hex_digit_spec _ h).2.1
  have hpair := hbyte _ (hlt hc) _ (hlt hd)
  rw [UInt32.ofNat_toNat, UInt32.ofNat_toNat] at hpair
  exact hpair

theorem strtoulLoop_digit {acc : UInt32} {any : ℤ} (hc : 0 ≤ fromhex c) (hacc : acc < 16) (hany : 0 ≤ any) :
    strtoulLoop 16 (c :: s) acc any = strtoulLoop 16 s (acc * 16 + (fromhex c).toUInt32) 1 := by
  obtain ⟨hdigit, hlt, -⟩ := hex_digit_spec c hc
  have hcut : ¬(0xFFFFFFFF / 16 < acc ∨ acc = 0xFFFFFFFF / 16 ∧ 0xFFFFFFFF % 16 < (fromhex c).toUInt32) := by
    have hdiv : (0xFFFFFFFF / 16 : UInt32) = 0x0FFFFFFF := rfl
    rw [hdiv]
    rintro (h | ⟨rfl, -⟩)
    · exact absurd (UInt32.lt_trans h hacc) (by decide)
    · exact absurd hacc (by decide)
  rw [strtoulLoop, hdigit]
  dsimp only
  rw [if_neg (UInt32.not_le.mpr hlt), if_neg (Int.not_lt.mpr hany), if_neg hcut]

/-- A string that begins with a hex digit has neither blanks nor a sign; a digit behind it makes it
one without a prefix. -/
theorem strtoul_digits (hc : 0 ≤ fromhex c) (hs : ∀ d ∈ s.head?, 0 ≤ fromhex d) :
    strtoul (c :: s) 16 = (strtoulLoop 16 (c :: s) 0 0).1 := by
  obtain ⟨-, -, hminus, hplus, -, -, hblank⟩ := hex_digit_spec c hc
  have hprefix : ¬(s.head? = some 0x78 ∨ s.head? = some 0x58) := by
    rintro (h | h)
    · exact (hex_digit_spec _ (hs _ h)).2.2.2.2.1 rfl
    · exact (hex_digit_spec _ (hs _ h)).2.2.2.2.2.1 rfl
  rw [strtoul, List.dropWhile_cons_of_neg (by simpa using hblank)]
  simp [hminus, hplus, hprefix]

theorem strtoul_short (hlen : value.length ≤ 2) (h : ∀ c ∈ value, 0 ≤ fromhex c) :
    [(strtoul value 16).toUInt8] = storedBytes value := by
  match value with
  | [] => rfl
  | [c] =>
      have hc := h c List.mem_cons_self
      rw [strtoul_digits hc (fun e he => by cases he), strtoulLoop_digit hc (by decide) (Int.le_refl 0), strtoulLoop]
      simp [storedBytes, valueBytes, hexDigit]
  | [c, d] =>
      have hc := h c List.mem_cons_self
      have hd := h d (List.mem_cons_of_mem _ List.mem_cons_self)
      have hlt : 0 * 16 + (fromhex c).toUInt32 < 16 := by
        rw [UInt32.zero_mul, UInt32.zero_add]
        exact (hex_digit_spec c hc).2.1
      rw [strtoul_digits hc (fun e he => by cases he; exact hd), strtoulLoop_digit hc (by decide) (Int.le_refl 0),
        strtoulLoop_digit hd hlt (by decide), strtoulLoop]
      simp [storedBytes, valueBytes, hexDigit, UInt8.mul_comm]
  | _ :: _ :: _ :: _ => exact absurd hlen (by simp)

end Values

section Writing

variable {frame : Span} {m : Ram} {a p : UInt32} {n i : ℕ} {done : List UInt8} {ps : List UInt32}

/-- Every character of the argument whose pointer is at `p`, the byte that ends it and the pointer are
read before they are overwritten: `n` bytes are written from `a` on before the argument is looked at, and
with more than two characters one more behind each pair of them. -/
structure InTime (a : UInt32) (n : ℕ) (m : Ram) (p : UInt32) : Prop where
  chars : ∀ c ≤ (arg m p).length, load32 m p + UInt32.ofNat c ∉
    Span.mk a (n + if 2 < (arg m p).length ∧ c < (arg m p).length then c / 2 else 0)
  pointer : ∀ x ∈ Span.mk p 4, x ∉ Span.mk a (n + if 2 < (arg m p).length then ((arg m p).length - 1) / 2 else 0)

def allBytes (m : Ram) (ps : List UInt32) : List UInt8 := ps.flatMap fun p => storedBytes (arg m p)

/-- The same for all values; each is looked at when the ones in front of it have been written. -/
def AllInTime (a : UInt32) (n : ℕ) (m : Ram) (ps : List UInt32) : Prop :=
  ∀ pre p post, ps = pre ++ p :: post → InTime a (n + (allBytes m pre).length) m p

theorem valueBytes_length (value : Str) : (valueBytes value).length = (value.length + 1) / 2 := by
  induction value using valueBytes.induct with
  | case1 => rfl
  | case2 c => rw [valueBytes, List.length_singleton, List.length_singleton]
  | case3 c d rest ih =>
      rw [valueBytes, List.length_cons, ih, List.length_cons, List.length_cons]
      omega

theorem pointer_write (h : InTime a n m p)
    (hdone : done.length ≤ n + if 2 < (arg m p).length then ((arg m p).length - 1) / 2 else 0) :
    load32 (write a done m) p = load32 m p := by
  rw [load32_eq_iff]
  intro x hx
  apply write_of_notMem
  exact fun hmem => h.pointer x hx (Nat.lt_of_lt_of_le hmem hdone)

theorem arg_write (h : InTime a done.length m p) : arg (write a done m) p = arg m p := by
  rw [arg, pointer_write h (Nat.le_add_right _ _)]
  apply stringFrom_congr
  intro x hx
  apply write_of_notMem
  have hc := h.chars (x - load32 m p).toNat (Nat.le_of_lt_succ hx)
  rw [UInt32.ofNat_toNat, UInt32.add_comm, UInt32.sub_add_cancel] at hc
  exact fun hmem => hc (Nat.lt_of_lt_of_le hmem (Nat.le_add_right _ _))

theorem char_write (h : InTime a n m p) (hlong : 2 < (arg m p).length) (hi : i < (arg m p).length)
    (hdone : done.length ≤ n + i / 2) : write a done m (load32 m p + UInt32.ofNat i) = (arg m p)[i] := by
  have hc := h.chars i (Nat.le_of_lt hi)
  rw [if_pos ⟨hlong, hi⟩] at hc
  rw [write_of_notMem m fun hmem => hc (Nat.lt_of_lt_of_le hmem hdone)]
  exact (getElem_stringFrom hi).symm

theorem poke_write {k : ℕ} (b : UInt8) (hlt : done.length < 2 ^ 32)
    (hframe : (Span.mk a (done.length + (k + 1))).Disjoint frame) :
    poke frame (a + UInt32.ofNat done.length) b (write a done m) = some (write a (done ++ [b]) m) := by
  have hmem : a + UInt32.ofNat done.length ∈ Span.mk a (done.length + (k + 1)) := by
    rw [Span.mem_iff, UInt32.add_comm, UInt32.add_sub_cancel, UInt32.toNat_ofNat_of_lt' hlt]
    exact Nat.lt_add_of_pos_right (Nat.succ_pos k)
  rw [poke, if_neg (hframe _ hmem), write_append a done [b] m hlt hlt]

theorem next_ptr (b : UInt8) : a + UInt32.ofNat done.length + 1 = a + UInt32.ofNat (done ++ [b]).length := by
  rw [List.length_append, List.length_singleton, UInt32.ofNat_add, ← UInt32.add_assoc]
  rfl

theorem length_lt (h : InTime a n m p) (hi : i ≤ (arg m p).length) :
    n + (if 2 < (arg m p).length ∧ i < (arg m p).length then i / 2 else 0) < 2 ^ 32 := by
  have hc := h.chars i hi
  rw [Span.mem_iff, Nat.not_lt] at hc
  exact Nat.lt_of_le_of_lt hc (UInt32.toNat_lt _)

theorem writeLong_spec {k : ℕ} (h : InTime a n m p) (hlong : 2 < (arg m p).length)
    (hhex : ∀ c ∈ arg m p, 0 ≤ fromhex c) (hk : (arg m p).length = i + 2 * k) (hi : i % 2 = 0)
    (hdone : done.length = n + i / 2) (hframe : (Span.mk a (done.length + k)).Disjoint frame) :
    writeLong frame p k (UInt32.ofNat i) (write a done m) (a + UInt32.ofNat done.length) =
      some (write a (done ++ valueBytes ((arg m p).drop i)) m, a + UInt32.ofNat (done.length + k)) := by
  induction k generalizing i done with
  | zero =>
      rw [writeLong, List.drop_eq_nil_of_le (by omega), valueBytes, List.append_nil]
      rfl
  | succ k ih =>
      have h₀ : i < (arg m p).length := by omega
      have h₁ : i + 1 < (arg m p).length := by omega
      have hlt : done.length < 2 ^ 32 := by
        have := length_lt h (Nat.le_of_lt h₀)
        rwa [if_pos ⟨hlong, h₀⟩, ← hdone] at this
      have hj : UInt32.ofNat i + 1 = UInt32.ofNat (i + 1) := (UInt32.ofNat_add i 1).symm
      have hj₂ : UInt32.ofNat i + 2 = UInt32.ofNat (i + 2) := (UInt32.ofNat_add i 2).symm
      have hp : load32 (write a done m) p = load32 m p := pointer_write h (by rw [if_pos hlong]; omega)
      have hnext (b : UInt8) : (done ++ [b]).length = done.length + 1 := by
        rw [List.length_append, List.length_singleton]
      rw [writeLong, hp, hj, hj₂, char_write h hlong h₀ (by omega), char_write h hlong h₁ (by omega),
        hex_pair (hhex _ (List.getElem_mem _)) (hhex _ (List.getElem_mem _)), poke_write _ hlt hframe, Option.bind_eq_bind,
        Option.bind_some, next_ptr,
        ih (by omega) (by omega) (by rw [hnext]; omega) (by rw [hnext, Nat.add_assoc, Nat.add_comm 1 k]; exact hframe)]
      rw [List.drop_eq_getElem_cons h₀, List.drop_eq_getElem_cons h₁, valueBytes, List.append_assoc, hnext]
      simp only [List.singleton_append, Nat.add_assoc, Nat.add_comm 1 k]

theorem writeValues_spec (h : AllInTime a done.length m ps) (hvalid : ∀ p ∈ ps, ¬Rejected (arg m p))
    (hframe : (Span.mk a (done.length + (allBytes m ps).length)).Disjoint frame) :
    writeValues frame ps (write a done m) (a + UInt32.ofNat done.length) = some (write a (done ++ allBytes m ps) m) := by
  induction ps generalizing done with
  | nil => rw [writeValues, allBytes, List.flatMap_nil, List.append_nil]
  | cons p ps ih =>
      obtain ⟨hp, hrest⟩ := List.forall_mem_cons.mp hvalid
      rw [Rejected, not_or] at hp
      have hhex : ∀ c ∈ arg m p, 0 ≤ fromhex c := fun c hc => Int32.not_lt.mp fun hneg => hp.2 ⟨c, hc, hneg⟩
      have htime : InTime a done.length m p := h [] p ps rfl
      have hbytes (qs : List UInt32) : allBytes m (p :: qs) = storedBytes (arg m p) ++ allBytes m qs := List.flatMap_cons
      have htimes : AllInTime a (done ++ storedBytes (arg m p)).length m ps := by
        intro pre q post hsplit
        have hq := h (p :: pre) q post (congrArg (p :: ·) hsplit)
        rw [hbytes, List.length_append, ← Nat.add_assoc, ← List.length_append] at hq
        exact hq
      rw [hbytes, List.length_append, ← Nat.add_assoc, ← List.length_append] at hframe
      have hnext := ih htimes hrest hframe
      rw [hbytes, ← List.append_assoc, writeValues, arg_write htime]
      dsimp only
      rw [List.length_append] at hframe
      split
      next hshort =>
        have hlt : done.length < 2 ^ 32 :=
          Nat.lt_of_le_of_lt (Nat.le_add_right _ _) (length_lt htime (Nat.zero_le _))
        rw [← strtoul_short hshort hhex] at hnext hframe ⊢
        rw [List.length_singleton, Nat.add_assoc, Nat.add_comm 1] at hframe
        rw [poke_write _ hlt hframe, Option.bind_eq_bind, Option.bind_some, next_ptr]
        exact hnext
      next hlong =>
        have hlong : 2 < (arg m p).length := Nat.not_le.mp hlong
        have hne : arg m p ≠ [] := by
          intro hnil
          rw [hnil] at hlong
          cases hlong
        rw [storedBytes, if_neg hne] at hnext hframe ⊢
        rw [valueBytes_length] at hframe
        have hdone : done.length = done.length + 0 / 2 := rfl
        have hloop := writeLong_spec (i := 0) (k := ((arg m p).length + 1) / 2) htime hlong hhex
          (by have := hp.1; omega) rfl hdone fun x hx => hframe x (Nat.lt_of_lt_of_le hx (Nat.le_add_right _ _))
        rw [List.drop_zero] at hloop
        rw [show (0 : UInt32) = UInt32.ofNat 0 from rfl, hloop]
        rw [List.length_append, valueBytes_length] at hnext
        exact hnext

end Writing

section Commands

variable {frame : Span} {m : Ram} {argv : UInt32} {argc : ℕ}

theorem doWritemem_rejected (frame : Span) (h : ∃ p ∈ values argv argc, Rejected (arg m p)) :
    ∃ message, doWritemem frame argc argv m = some (some message, m) := by
  obtain ⟨p, hp, hbad⟩ := h
  rw [doWritemem]
  split
  next message _ => exact ⟨message, rfl⟩
  next hnone =>
    have hall := List.findSome?_eq_none_iff.mp hnone (arg m p) (List.mem_map_of_mem hp)
    exact absurd hbad (checkValue_eq_none_iff.mp hall)

theorem doWritemem_written (hvalid : ∀ p ∈ values argv argc, ¬Rejected (arg m p))
    (htime : AllInTime (strtoul (arg m (argvAt argv 0)) 16) 0 m (values argv argc))
    (hframe : (Span.mk (strtoul (arg m (argvAt argv 0)) 16) (allBytes m (values argv argc)).length).Disjoint frame) :
    doWritemem frame argc argv m =
      some (none, write (strtoul (arg m (argvAt argv 0)) 16) (allBytes m (values argv argc)) m) := by
  have hnone : ((values argv argc).map (arg m)).findSome? checkValue = none := by
    rw [List.findSome?_eq_none_iff]
    intro value hmem
    obtain ⟨p, hp, rfl⟩ := List.mem_map.mp hmem
    exact checkValue_eq_none_iff.mpr (hvalid p hp)
  have hall : writeValues frame (values argv argc) (write (strtoul (arg m (argvAt argv 0)) 16) [] m)
      (strtoul (arg m (argvAt argv 0)) 16 + 0) = _ :=
    writeValues_spec htime hvalid (by rw [List.length_nil, Nat.zero_add]; exact hframe)
  rw [List.nil_append, UInt32.add_zero] at hall
  have hempty : write (strtoul (arg m (argvAt argv 0)) 16) [] m = m := rfl
  rw [hempty] at hall
  rw [doWritemem, hnone]
  dsimp only
  rw [hall]
  rfl

/-- A value that is refused keeps all of them from being written; otherwise the bytes of the values
are written upwards from the address, and no other, if each value and its pointer are read in time and
the variables of the command are not written over. -/
theorem writemem_atomic (frame : Span) (argc : ℕ) (argv : UInt32) (m : Ram) :
    ((∃ p ∈ values argv argc, Rejected (arg m p)) → ∃ message, doWritemem frame argc argv m = some (some message, m)) ∧
      ((∀ p ∈ values argv argc, ¬Rejected (arg m p)) →
        AllInTime (strtoul (arg m (argvAt argv 0)) 16) 0 m (values argv argc) →
        (Span.mk (strtoul (arg m (argvAt argv 0)) 16) (allBytes m (values argv argc)).length).Disjoint frame →
        doWritemem frame argc argv m =
          some (none, write (strtoul (arg m (argvAt argv 0)) 16) (allBytes m (values argv argc)) m)) :=
  ⟨doWritemem_rejected frame, doWritemem_written⟩

/-- All values are written or, when one of them is refused, none. -/
def Atomic (frame : Span) (argc : ℕ) (argv : UInt32) (m : Ram) : Prop :=
  (∃ p ∈ values argv argc, Rejected (arg m p)) ∧ (∃ message, doWritemem frame argc argv m = some (some message, m)) ∨
    (∀ p ∈ values argv argc, ¬Rejected (arg m p)) ∧ doWritemem frame argc argv m =
      some (none, write (strtoul (arg m (argvAt argv 0)) 16)
        ((values argv argc).flatMap fun p => valueBytes (arg m p)) m)

/-- The strings from address 0 on, and the pointers to them at 0x40. -/
def ramOf (strings : List UInt8) (pointers : List UInt32) : Ram :=
  write 0x40 (pointers.flatMap bytes32) fun a => strings.getD a.toNat 0

def pilha : Span := ⟨0x80000, 0x40⟩

theorem not_atomic (x : UInt32) (hrefused : (doWritemem frame argc argv m).bind Prod.fst = none)
    (hx : (doWritemem frame argc argv m).map (fun r => r.2 x) ≠
      some (write (strtoul (arg m (argvAt argv 0)) 16) ((values argv argc).flatMap fun p => valueBytes (arg m p)) m x)) :
    ¬Atomic frame argc argv m := by
  rintro (⟨-, message, h⟩ | ⟨-, h⟩)
  · rw [h] at hrefused
    cases hrefused
  · rw [h] at hx
    exact hx rfl

/-- `4 1 22` with the 22 at address 4, which the 1 is written to before it is read; `4b 09 11` with the
pointer to the 11 at 0x48, which the 09 makes lead to a 22; and `8` with an empty value, which writes a
byte. -/
theorem values_not_atomic :
    ¬Atomic pilha 3 0x40 (ramOf [0x34, 0, 0x31, 0, 0x32, 0x32, 0] [0, 2, 4]) ∧
    ¬Atomic pilha 3 0x40 (ramOf [0x34, 0x62, 0, 0x30, 0x39, 0, 0x31, 0x31, 0, 0x32, 0x32, 0] [0, 3, 6]) ∧
    ¬Atomic pilha 2 0x40 (ramOf [0x38, 0, 0, 0, 0, 0, 0, 0, 0xFF] [0, 2]) := by
  refine ⟨?_, ?_, ?_⟩
  · exact not_atomic 5 (by decide +kernel) (by decide +kernel)
  · exact not_atomic 0x4C (by decide +kernel) (by decide +kernel)
  · exact not_atomic 8 (by decide +kernel) (by decide +kernel)

theorem allInTime_of_disjoint {a : UInt32} {ps : List UInt32}
    (h : ∀ p ∈ ps, (Span.mk a (allBytes m ps).length).Disjoint (Span.mk (load32 m p) ((arg m p).length + 1)) ∧
      (Span.mk a (allBytes m ps).length).Disjoint (Span.mk p 4)) :
    AllInTime a 0 m ps := by
  rintro pre p post rfl
  have hsum : (allBytes m (pre ++ p :: post)).length =
      (allBytes m pre).length + ((storedBytes (arg m p)).length + (allBytes m post).length) := by
    simp only [allBytes, List.flatMap_append, List.flatMap_cons, List.length_append]
  have hlong (h : 2 < (arg m p).length) : (storedBytes (arg m p)).length = ((arg m p).length + 1) / 2 := by
    have hne : arg m p ≠ [] := List.ne_nil_of_length_pos (Nat.lt_trans Nat.two_pos h)
    rw [storedBytes, if_neg hne, valueBytes_length]
  obtain ⟨hstring, hpointer⟩ := h p (by simp)
  rw [hsum] at hstring hpointer
  constructor
  · intro c hc hmem
    apply hstring (load32 m p + UInt32.ofNat c)
    · apply Nat.lt_of_lt_of_le hmem
      dsimp only
      split
      next h =>
        rw [hlong h.1]
        omega
      next => omega
    · rw [Span.mem_iff, UInt32.add_comm, UInt32.add_sub_cancel]
      exact Nat.lt_of_le_of_lt (Nat.mod_le _ _) (Nat.lt_succ_of_le hc)
  · intro x hx hmem
    refine hpointer x ?_ hx
    apply Nat.lt_of_lt_of_le hmem
    dsimp only
    split
    next h =>
      rw [hlong h]
      omega
    next => omega

/-- `20 12 f Ab90` -/
def threeValues : Ram := ramOf [0x32, 0x30, 0, 0x31, 0x32, 0, 0x66, 0, 0x41, 0x62, 0x39, 0x30, 0] [0, 3, 6, 8]

theorem writemem_three :
    doWritemem pilha 4 0x40 threeValues = some (none, write 0x20 [0x12, 0x0F, 0xAB, 0x90] threeValues) := by
  have hvalues : values 0x40 4 = [0x44, 0x48, 0x4C] := by decide
  have haddr : strtoul (arg threeValues (argvAt 0x40 0)) 16 = 0x20 := by decide +kernel
  have hbytes : allBytes threeValues [0x44, 0x48, 0x4C] = [0x12, 0x0F, 0xAB, 0x90] := by decide +kernel
  have hvalid : ∀ p ∈ ([0x44, 0x48, 0x4C] : List UInt32), checkValue (arg threeValues p) = none := by
    rw [List.forall_mem_cons, List.forall_mem_cons, List.forall_mem_singleton]
    decide +kernel
  have hlen : ∀ p ∈ ([0x44, 0x48, 0x4C] : List UInt32),
      (load32 threeValues p).toNat + (arg threeValues p).length + 1 ≤ 0x20 ∧ 0x24 ≤ p.toNat ∧ p.toNat < 0x50 := by
    rw [List.forall_mem_cons, List.forall_mem_cons, List.forall_mem_singleton]
    decide +kernel
  have hspan {x : UInt32} (hx : x ∈ Span.mk 0x20 4) : 0x20 ≤ x.toNat ∧ x.toNat < 0x24 := by
    have h₁ : (0x20 : UInt32).toNat = 0x20 := rfl
    rw [Span.mem_iff, UInt32.toNat_sub, h₁] at hx
    dsimp only at hx
    have := x.toNat_lt
    omega
  have hwritten := (writemem_atomic pilha 4 0x40 threeValues).2
  rw [hvalues, haddr, hbytes] at hwritten
  refine hwritten (fun p hp => checkValue_eq_none_iff.mp (hvalid p hp)) (allInTime_of_disjoint fun p hp => ?_) ?_
  · obtain ⟨hstring, hlow, hhigh⟩ := hlen p hp
    rw [hbytes]
    constructor
    · intro x hx hmem
      have hx := hspan hx
      rw [Span.mem_iff, UInt32.toNat_sub] at hmem
      dsimp only at hmem
      have := (load32 threeValues p).toNat_lt
      omega
    · intro x hx hmem
      have hx := hspan hx
      rw [Span.mem_iff, UInt32.toNat_sub] at hmem
      dsimp only at hmem
      omega
  · intro x hx hmem
    have hx := hspan hx
    have h₁ : pilha.start.toNat = 0x80000 := rfl
    rw [Span.mem_iff, UInt32.toNat_sub, h₁] at hmem
    change _ < 0x40 at hmem
    omega

end Commands

end Orion68.WriteMem
