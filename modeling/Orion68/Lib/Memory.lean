import Mathlib.Data.List.GetD
import Mathlib.Tactic.IntervalCases

namespace Orion68.Memory

/-- Bytes at 32-bit addresses. -/
abbrev Ram := UInt32 → UInt8

/-- The `length` bytes from `start` on, around the end of the address space. -/
structure Span where
  start : UInt32
  length : Nat
  deriving DecidableEq

instance : Membership UInt32 Span := ⟨fun s x => (x - s.start).toNat < s.length⟩

theorem Span.mem_iff {s : Span} {x : UInt32} : x ∈ s ↔ (x - s.start).toNat < s.length := Iff.rfl

instance (x : UInt32) (s : Span) : Decidable (x ∈ s) := decidable_of_iff _ Span.mem_iff.symm

def Span.Within (s t : Span) : Prop := ∀ x, x ∈ s → x ∈ t

def Span.Disjoint (s t : Span) : Prop := ∀ x, x ∈ s → x ∉ t

theorem Span.within_iff {s t : Span} (ht : t.length < 2 ^ 32) :
    s.Within t ↔ s.length = 0 ∨ (s.start - t.start).toNat + s.length ≤ t.length := by
  obtain ⟨a, n⟩ := s
  obtain ⟨b, k⟩ := t
  constructor
  · intro h
    rcases Nat.eq_zero_or_pos n with h0 | hpos
    · exact .inl h0
    · right
      have ha := h a (by rw [Span.mem_iff, UInt32.sub_self]; exact hpos)
      have hend := h (b + UInt32.ofNat k)
      have hk : (UInt32.ofNat k).toNat = k := UInt32.toNat_ofNat_of_lt' ht
      have hk32 : k < 2 ^ 32 := ht
      simp only [Span.mem_iff, UInt32.toNat_sub, UInt32.toNat_add, hk] at ha hend ⊢
      have := a.toNat_lt
      have := b.toNat_lt
      omega
  · rintro (h0 | hle) x hx
    · rw [Span.mem_iff, h0] at hx
      exact absurd hx (Nat.not_lt_zero _)
    · simp only [Span.mem_iff, UInt32.toNat_sub] at *
      have := x.toNat_lt
      have := a.toNat_lt
      have := b.toNat_lt
      omega

theorem Span.disjoint_comm {s t : Span} : s.Disjoint t ↔ t.Disjoint s :=
  ⟨fun h x hx hs => h x hs hx, fun h x hx ht => h x ht hx⟩

theorem Span.Within.disjoint {r s t : Span} (h : r.Within s) (hd : s.Disjoint t) : r.Disjoint t :=
  fun x hx => hd x (h x hx)

def write (a : UInt32) (d : List UInt8) (m : Ram) : Ram := fun x => d.getD (x - a).toNat (m x)

theorem write_of_notMem {a x : UInt32} {d : List UInt8} (m : Ram) (h : x ∉ Span.mk a d.length) :
    write a d m x = m x := by
  rw [Span.mem_iff, Nat.not_lt] at h
  rw [write, List.getD_eq_default _ _ h]

theorem write_offset {a : UInt32} {d : List UInt8} (m : Ram) {k : Nat} (hk : k < d.length)
    (hlen : d.length ≤ 2 ^ 32) : write a d m (a + UInt32.ofNat k) = d[k] := by
  have hoff : (a + UInt32.ofNat k - a).toNat = k := by
    rw [UInt32.add_comm, UInt32.add_sub_cancel, UInt32.toNat_ofNat_of_lt' (Nat.lt_of_lt_of_le hk hlen)]
  rw [write, hoff, List.getD_eq_getElem _ _ hk]

theorem write_append (a : UInt32) (d d' : List UInt8) (m : Ram) (h : d.length + d'.length ≤ 2 ^ 32)
    (hd : d.length < 2 ^ 32) :
    write (a + UInt32.ofNat d.length) d' (write a d m) = write a (d ++ d') m := by
  funext x
  have hlen : (UInt32.ofNat d.length).toNat = d.length := UInt32.toNat_ofNat_of_lt' hd
  have := x.toNat_lt
  have := a.toNat_lt
  have hoff : (x - (a + UInt32.ofNat d.length)).toNat =
      if d.length ≤ (x - a).toNat then (x - a).toNat - d.length else (x - a).toNat + 2 ^ 32 - d.length := by
    rw [UInt32.toNat_sub, UInt32.toNat_sub, UInt32.toNat_add, hlen]
    split <;> omega
  rw [write, write, write, hoff]
  split
  next hle => rw [List.getD_append_right _ _ _ _ hle, List.getD_eq_default _ _ hle]
  next hlt =>
    rw [List.getD_append _ _ _ _ (by omega)]
    exact List.getD_eq_default _ _ (by omega)

section Strings

variable {m m' : Ram} {a x : UInt32} {n : ℕ}

/-- The bytes from an address up to the first null byte, `n` at most. -/
def stringFrom : ℕ → Ram → UInt32 → List UInt8
  | 0, _, _ => []
  | n + 1, m, a => if m a = 0 then [] else m a :: stringFrom n m (a + 1)

theorem Span.mem_cons {k : ℕ} (h : x ∈ Span.mk (a + 1) k) : x ∈ Span.mk a (k + 1) := by
  change (x - (a + 1)).toNat < k at h
  change (x - a).toNat < k + 1
  rw [UInt32.toNat_sub, UInt32.toNat_add, UInt32.toNat_one] at h
  rw [UInt32.toNat_sub]
  have := x.toNat_lt
  have := a.toNat_lt
  omega

theorem stringFrom_congr (h : ∀ x ∈ Span.mk a ((stringFrom n m a).length + 1), m' x = m x) :
    stringFrom n m' a = stringFrom n m a := by
  induction n generalizing a with
  | zero => rfl
  | succ n ih =>
      have ha : m' a = m a := h a (by rw [Span.mem_iff, UInt32.sub_self]; exact Nat.succ_pos _)
      rw [stringFrom, stringFrom, ha]
      rw [stringFrom] at h
      split
      next => rfl
      next hne =>
        rw [if_neg hne, List.length_cons] at h
        rw [ih fun x hx => h x (Span.mem_cons hx)]

theorem getElem_stringFrom {k : ℕ} (hk : k < (stringFrom n m a).length) : (stringFrom n m a)[k] = m (a + UInt32.ofNat k) := by
  induction n generalizing a k with
  | zero => exact absurd hk (Nat.not_lt_zero _)
  | succ n ih =>
      simp only [stringFrom] at hk ⊢
      split at hk
      next => exact absurd hk (Nat.not_lt_zero _)
      next hne =>
        rw [List.getElem_of_eq (if_neg hne)]
        cases k with
        | zero => exact congrArg m (UInt32.add_zero a).symm
        | succ k =>
            rw [List.getElem_cons_succ, ih, UInt32.add_assoc, UInt32.ofNat_add, UInt32.add_comm 1]
            rfl

end Strings

section Words

def bytes32 (w : UInt32) : List UInt8 := [(w >>> 24).toUInt8, (w >>> 16).toUInt8, (w >>> 8).toUInt8, w.toUInt8]

def word32 (b0 b1 b2 b3 : UInt8) : UInt32 :=
  b0.toUInt32 <<< 24 ||| b1.toUInt32 <<< 16 ||| b2.toUInt32 <<< 8 ||| b3.toUInt32

theorem bytes32_word32 (b0 b1 b2 b3 : UInt8) : bytes32 (word32 b0 b1 b2 b3) = [b0, b1, b2, b3] := by
  simp only [bytes32, List.cons.injEq, and_true]
  refine ⟨?_, ?_, ?_, ?_⟩
  all_goals
    apply UInt8.toBitVec_inj.mp
    apply BitVec.eq_of_getLsbD_eq
    intro i hi
    simp only [word32, UInt32.toBitVec_or, UInt32.toBitVec_shiftLeft, UInt8.toBitVec_toUInt32,
      UInt32.toBitVec_toUInt8, UInt32.toBitVec_shiftRight]
    interval_cases i <;> simp

theorem word32_bytes32 (w : UInt32) :
    word32 (w >>> 24).toUInt8 (w >>> 16).toUInt8 (w >>> 8).toUInt8 w.toUInt8 = w := by
  apply UInt32.toBitVec_inj.mp
  apply BitVec.eq_of_getLsbD_eq
  intro i hi
  simp only [word32, UInt32.toBitVec_or, UInt32.toBitVec_shiftLeft, UInt8.toBitVec_toUInt32,
    UInt32.toBitVec_toUInt8, UInt32.toBitVec_shiftRight]
  interval_cases i <;> simp

theorem word32_toNat (b0 b1 b2 b3 : UInt8) :
    (word32 b0 b1 b2 b3).toNat = 2 ^ 16 * (256 * b0.toNat + b1.toNat) + (256 * b2.toNat + b3.toNat) := by
  have hb := bytes32_word32 b0 b1 b2 b3
  generalize word32 b0 b1 b2 b3 = w at hb ⊢
  simp only [bytes32, List.cons.injEq, and_true, ← UInt8.toNat_inj, UInt32.toNat_toUInt8,
    UInt32.toNat_shiftRight] at hb
  obtain ⟨h0, h1, h2, h3⟩ := hb
  have hlt := w.toNat_lt
  change w.toNat >>> 24 % 2 ^ 8 = _ at h0
  change w.toNat >>> 16 % 2 ^ 8 = _ at h1
  change w.toNat >>> 8 % 2 ^ 8 = _ at h2
  rw [Nat.shiftRight_eq_div_pow] at h0 h1 h2
  omega

def load32 (m : Ram) (a : UInt32) : UInt32 := word32 (m a) (m (a + 1)) (m (a + 2)) (m (a + 3))

theorem bytes32_load32 (m : Ram) (a : UInt32) :
    bytes32 (load32 m a) = [m a, m (a + 1), m (a + 2), m (a + 3)] := bytes32_word32 _ _ _ _

theorem load32_eq_iff {m m' : Ram} {a : UInt32} :
    load32 m' a = load32 m a ↔ ∀ x, x ∈ Span.mk a 4 → m' x = m x := by
  constructor
  · intro h x hx
    have hb := congrArg bytes32 h
    rw [bytes32_load32, bytes32_load32] at hb
    simp only [List.cons.injEq, and_true] at hb
    obtain ⟨h0, h1, h2, h3⟩ := hb
    rw [Span.mem_iff] at hx
    have hx' : x = a + UInt32.ofNat (x - a).toNat := by
      rw [UInt32.ofNat_toNat, UInt32.add_comm, UInt32.sub_add_cancel]
    rw [hx']
    generalize (x - a).toNat = k at hx ⊢
    change k < 4 at hx
    interval_cases k
    · simpa using h0
    · exact h1
    · exact h2
    · exact h3
  · intro h
    have hmem {k : Nat} (hk : k < 4) : a + UInt32.ofNat k ∈ Span.mk a 4 := by
      rw [Span.mem_iff, UInt32.add_comm, UInt32.add_sub_cancel,
        UInt32.toNat_ofNat_of_lt' (Nat.lt_trans hk (by decide))]
      exact hk
    have h0 : m' a = m a := h a (by simpa using hmem (k := 0) (by omega))
    have h1 : m' (a + 1) = m (a + 1) := h _ (hmem (k := 1) (by omega))
    have h2 : m' (a + 2) = m (a + 2) := h _ (hmem (k := 2) (by omega))
    have h3 : m' (a + 3) = m (a + 3) := h _ (hmem (k := 3) (by omega))
    rw [load32, load32, h0, h1, h2, h3]

def add32 (base a : UInt32) (m : Ram) : Ram := write a (bytes32 (load32 m a + base)) m

theorem load32_write_bytes32 (m : Ram) (a w : UInt32) : load32 (write a (bytes32 w) m) a = w := by
  have hoff {k : Nat} (hk : k < 4) : write a (bytes32 w) m (a + UInt32.ofNat k) = (bytes32 w)[k] :=
    write_offset m hk (show 4 ≤ 2 ^ 32 by decide)
  have h0 := hoff (k := 0) (by omega)
  have hzero : a + UInt32.ofNat 0 = a := UInt32.add_zero a
  rw [hzero] at h0
  have h1 : write a (bytes32 w) m (a + 1) = _ := hoff (k := 1) (by omega)
  have h2 : write a (bytes32 w) m (a + 2) = _ := hoff (k := 2) (by omega)
  have h3 : write a (bytes32 w) m (a + 3) = _ := hoff (k := 3) (by omega)
  rw [load32, h0, h1, h2, h3]
  exact word32_bytes32 w

theorem load32_add32 (base a : UInt32) (m : Ram) : load32 (add32 base a m) a = load32 m a + base :=
  load32_write_bytes32 m a _

theorem add32_of_notMem (base : UInt32) {a x : UInt32} (m : Ram) (h : x ∉ Span.mk a 4) : add32 base a m x = m x :=
  write_of_notMem m h

end Words

section Additions

def adds (base : UInt32) (l : List UInt32) (m : Ram) : Ram := l.foldl (fun m a => add32 base a m) m

def Apart (a b : UInt32) : Prop := (Span.mk a 4).Disjoint (Span.mk b 4)

variable {base : UInt32} {l : List UInt32} {m : Ram} {a : UInt32}

theorem adds_append (l l' : List UInt32) : adds base (l ++ l') m = adds base l' (adds base l m) :=
  List.foldl_append

theorem adds_of_notMem {x : UInt32} (h : ∀ b ∈ l, x ∉ Span.mk b 4) : adds base l m x = m x := by
  induction l generalizing m with
  | nil => rfl
  | cons b l ih =>
      rw [List.forall_mem_cons] at h
      exact (ih h.2).trans (add32_of_notMem base m h.1)

theorem load32_adds (h : ∀ b ∈ l, b = a ∨ Apart a b) :
    load32 (adds base l m) a = load32 m a + UInt32.ofNat (l.count a) * base := by
  induction l generalizing m with
  | nil => simp [adds]
  | cons b l ih =>
      rw [List.forall_mem_cons] at h
      have hstep : load32 (adds base (b :: l) m) a = load32 (add32 base b m) a + UInt32.ofNat (l.count a) * base :=
        ih h.2
      by_cases hba : b = a
      · subst hba
        rw [hstep, load32_add32, List.count_cons_self, UInt32.ofNat_add, UInt32.add_mul, UInt32.ofNat_one,
          UInt32.one_mul, UInt32.add_assoc, UInt32.add_comm base]
      · have hfar := h.1.resolve_left hba
        have hsame : load32 (add32 base b m) a = load32 m a :=
          load32_eq_iff.mpr fun x hx => add32_of_notMem base m (hfar x hx)
        rw [hstep, hsame, List.count_cons_of_ne hba]

end Additions

end Orion68.Memory
