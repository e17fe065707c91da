import Orion68.Lib.Memory

namespace Orion68.Stacks

open Memory

variable {m : Ram} {a b : UInt32} {d e : List UInt8}

section Stored

/-- The bytes `d` lie from `a` on. -/
def Stored (m : Ram) (a : UInt32) (d : List UInt8) : Prop := ∀ k (h : k < d.length), m (a + UInt32.ofNat k) = d[k]

theorem add_ofNat_add (a : UInt32) (n k : ℕ) : a + UInt32.ofNat n + UInt32.ofNat k = a + UInt32.ofNat (n + k) := by
  rw [UInt32.ofNat_add, UInt32.add_assoc]

theorem sub_ofNat_sub (a : UInt32) (n k : ℕ) : a - UInt32.ofNat n - UInt32.ofNat k = a - UInt32.ofNat (n + k) := by
  rw [UInt32.ofNat_add, UInt32.sub_eq_add_neg a (_ + _), UInt32.neg_add, UInt32.sub_eq_add_neg (-_),
    ← UInt32.add_assoc, ← UInt32.sub_eq_add_neg a, ← UInt32.sub_eq_add_neg]

theorem stored_append : Stored m a (d ++ e) ↔ Stored m a d ∧ Stored m (a + UInt32.ofNat d.length) e := by
  constructor
  · intro h
    constructor
    · intro k hk
      rw [h k (by rw [List.length_append]; omega), List.getElem_append_left hk]
    · intro k hk
      rw [add_ofNat_add, h (d.length + k) (by rw [List.length_append]; omega)]
      simp
  · rintro ⟨hd, he⟩ k hk
    by_cases hleft : k < d.length
    · rw [List.getElem_append_left hleft]
      exact hd k hleft
    · obtain ⟨j, rfl⟩ := Nat.exists_eq_add_of_le (Nat.le_of_not_lt hleft)
      rw [List.length_append] at hk
      rw [← add_ofNat_add, he j (by omega)]
      simp

theorem stored_write (m : Ram) (a : UInt32) (hd : d.length ≤ 2 ^ 32) : Stored (write a d m) a d :=
  fun _ hk => write_offset m hk hd

theorem Stored.write (h : Stored m a d) (hd : d.length ≤ 2 ^ 32)
    (hfar : (Span.mk a d.length).Disjoint (Span.mk b e.length)) : Stored (write b e m) a d := by
  intro k hk
  rw [write_of_notMem, h k hk]
  apply hfar
  rw [Span.mem_iff, UInt32.add_comm, UInt32.add_sub_cancel, UInt32.toNat_ofNat_of_lt' (Nat.lt_of_lt_of_le hk hd)]
  exact hk

@[simp] theorem length_bytes32 (w : UInt32) : (bytes32 w).length = 4 := rfl

theorem load32_of_stored {w : UInt32} (h : Stored m a (bytes32 w)) : load32 m a = w := by
  have h0 : m (a + UInt32.ofNat 0) = _ := h 0 (show 0 < 4 by decide)
  have h1 : m (a + 1) = _ := h 1 (show 1 < 4 by decide)
  have h2 : m (a + 2) = _ := h 2 (show 2 < 4 by decide)
  have h3 : m (a + 3) = _ := h 3 (show 3 < 4 by decide)
  have hzero : a + UInt32.ofNat 0 = a := UInt32.add_zero a
  rw [hzero] at h0
  rw [load32, h0, h1, h2, h3]
  exact word32_bytes32 w

theorem length_words (ws : List UInt32) : (ws.flatMap bytes32).length = 4 * ws.length := by
  induction ws with
  | nil => rfl
  | cons w ws ih =>
      rw [List.flatMap_cons, List.length_append, length_bytes32, ih, List.length_cons]
      omega

theorem load32_of_stored_words {ws : List UInt32} (h : Stored m a (ws.flatMap bytes32)) (i : ℕ) (hi : i < ws.length) :
    load32 m (a + UInt32.ofNat (4 * i)) = ws[i] := by
  induction ws generalizing a i with
  | nil => exact absurd hi (Nat.not_lt_zero i)
  | cons w ws ih =>
      rw [List.flatMap_cons, stored_append] at h
      cases i with
      | zero =>
          have hzero : a + UInt32.ofNat (4 * 0) = a := UInt32.add_zero a
          rw [hzero, load32_of_stored h.1, List.getElem_cons_zero]
      | succ i =>
          have hrest := ih h.2 i (Nat.lt_of_succ_lt_succ hi)
          rw [length_bytes32, add_ofNat_add, Nat.add_comm 4, ← Nat.mul_succ] at hrest
          rw [hrest, List.getElem_cons_succ]

end Stored

section Halfwords

def bytes16 (w : UInt16) : List UInt8 := [(w >>> 8).toUInt8, w.toUInt8]

def word16 (b0 b1 : UInt8) : UInt16 := b0.toUInt16 <<< 8 ||| b1.toUInt16

@[simp] theorem length_bytes16 (w : UInt16) : (bytes16 w).length = 2 := rfl

theorem word16_bytes16 (w : UInt16) : word16 (w >>> 8).toUInt8 w.toUInt8 = w := by
  apply UInt16.toBitVec_inj.mp
  apply BitVec.eq_of_getLsbD_eq
  intro i hi
  simp only [word16, UInt16.toBitVec_or, UInt16.toBitVec_shiftLeft, UInt8.toBitVec_toUInt16,
    UInt16.toBitVec_toUInt8, UInt16.toBitVec_shiftRight]
  interval_cases i <;> simp

def load16 (m : Ram) (a : UInt32) : UInt16 := word16 (m a) (m (a + 1))

theorem load16_of_stored {w : UInt16} (h : Stored m a (bytes16 w)) : load16 m a = w := by
  have h0 : m (a + UInt32.ofNat 0) = _ := h 0 (show 0 < 2 by decide)
  have h1 : m (a + 1) = _ := h 1 (show 1 < 2 by decide)
  have hzero : a + UInt32.ofNat 0 = a := UInt32.add_zero a
  rw [hzero] at h0
  rw [load16, h0, h1]
  exact word16_bytes16 w

end Halfwords

section Pushing

def push (d : List UInt8) (s : Ram × UInt32) : Ram × UInt32 :=
  (write (s.2 - UInt32.ofNat d.length) d s.1, s.2 - UInt32.ofNat d.length)

theorem write_empty (a : UInt32) (m : Ram) : write a [] m = m := rfl

theorem write_apply (a : UInt32) (d : List UInt8) (m : Ram) (x : UInt32) :
    write a d m x = d.getD (x - a).toNat (m x) := rfl

theorem exists_write_ne {x : UInt32} (h : x ∈ Span.mk a d.length) : ∃ m : Ram, write a d m x ≠ m x := by
  rw [Span.mem_iff] at h
  refine ⟨fun _ => d[(x - a).toNat] + 1, ?_⟩
  rw [write_apply, List.getD_eq_getElem _ _ h]
  intro heq
  have hone := congrArg (· - d[(x - a).toNat]) (heq.trans (UInt8.add_comm ..))
  rw [UInt8.sub_self, UInt8.add_sub_cancel] at hone
  exact absurd hone (by decide)

theorem push_write (hlen : d.length + e.length ≤ 2 ^ 32) (hd : d.length < 2 ^ 32) (m : Ram) (a : UInt32) :
    push d (write a e m, a) =
      (write (a - UInt32.ofNat d.length) (d ++ e) m, a - UInt32.ofNat d.length) := by
  have hn : (UInt32.ofNat d.length).toNat = d.length := UInt32.toNat_ofNat_of_lt' hd
  rw [push]
  congr 1
  funext x
  have := x.toNat_lt
  have := a.toNat_lt
  have hoff : (x - (a - UInt32.ofNat d.length)).toNat =
      if (x - a).toNat + d.length < 2 ^ 32 then (x - a).toNat + d.length
      else (x - a).toNat + d.length - 2 ^ 32 := by
    rw [UInt32.toNat_sub, UInt32.toNat_sub, UInt32.toNat_sub, hn]
    split <;> omega
  have hx := (x - a).toNat_lt
  dsimp only
  rw [write_apply, write_apply, write_apply, hoff]
  split
  next hlt =>
    have hle : d.length ≤ (x - a).toNat + d.length := Nat.le_add_left _ _
    rw [List.getD_append_right _ _ _ _ hle, List.getD_eq_default _ _ hle, Nat.add_sub_cancel]
  next hwrap =>
    rw [List.getD_append _ _ _ _ (by omega), List.getD_eq_default e _ (by omega)]

theorem write_cons {v : UInt8} (hlen : d.length < 2 ^ 32) (m : Ram) (a : UInt32) :
    write a (v :: d) m = write (a + 1) d (Function.update m a v) := by
  funext x
  rw [write_apply, write_apply]
  by_cases hx : x = a
  · subst x
    have hfar : d.length ≤ (a - (a + 1)).toNat := by
      have hone : (1 : UInt32).toNat = 1 := rfl
      rw [UInt32.toNat_sub, UInt32.toNat_add, hone]
      have := a.toNat_lt
      omega
    rw [UInt32.sub_self, List.getD_eq_default _ _ hfar, Function.update_self]
    rfl
  · have hnext : (x - a).toNat = (x - (a + 1)).toNat + 1 := by
      have hone : (1 : UInt32).toNat = 1 := rfl
      have hne : x.toNat ≠ a.toNat := fun h => hx (UInt32.toNat_inj.mp h)
      rw [UInt32.toNat_sub, UInt32.toNat_sub, UInt32.toNat_add, hone]
      have := x.toNat_lt
      have := a.toNat_lt
      omega
    rw [hnext, List.getD_cons_succ, Function.update_of_ne hx]

theorem push_bytes32 (w : UInt32) (hlen : 4 + e.length ≤ 2 ^ 32) (m : Ram) (a : UInt32) :
    push (bytes32 w) (write a e m, a) = (write (a - UInt32.ofNat 4) (bytes32 w ++ e) m, a - UInt32.ofNat 4) :=
  push_write (d := bytes32 w) hlen (show 4 < 2 ^ 32 by decide) m a

theorem push_bytes16 (w : UInt16) (hlen : 2 + e.length ≤ 2 ^ 32) (m : Ram) (a : UInt32) :
    push (bytes16 w) (write a e m, a) = (write (a - UInt32.ofNat 2) (bytes16 w ++ e) m, a - UInt32.ofNat 2) :=
  push_write (d := bytes16 w) hlen (show 2 < 2 ^ 32 by decide) m a

theorem foldr_push (ws : List UInt32) (hlen : 4 * ws.length + e.length ≤ 2 ^ 32) (m : Ram) (a : UInt32) :
    ws.foldr (fun w => push (bytes32 w)) (write a e m, a) =
      (write (a - UInt32.ofNat (4 * ws.length)) (ws.flatMap bytes32 ++ e) m, a - UInt32.ofNat (4 * ws.length)) := by
  induction ws with
  | nil =>
      have hzero : a - UInt32.ofNat (4 * ([] : List UInt32).length) = a := UInt32.sub_zero a
      rw [hzero]
      rfl
  | cons w ws ih =>
      rw [List.length_cons] at hlen
      have hfits : 4 + (ws.flatMap bytes32 ++ e).length ≤ 2 ^ 32 := by
        rw [List.length_append, length_words]
        omega
      rw [List.foldr_cons, ih (by omega), push_bytes32 w hfits, sub_ofNat_sub, List.flatMap_cons, List.append_assoc,
        List.length_cons, Nat.mul_succ]

theorem push_push (hlen : d.length + e.length ≤ 2 ^ 32) (hd : d.length < 2 ^ 32) (s : Ram × UInt32) :
    push d (push e s) = push (d ++ e) s := by
  have hpush : push e s = (write (s.2 - UInt32.ofNat e.length) e s.1, s.2 - UInt32.ofNat e.length) := rfl
  rw [hpush, push_write hlen hd, sub_ofNat_sub, push, List.length_append, Nat.add_comm]

theorem write_write_within {f : List UInt8} (e' : List UInt8) (he : e'.length = e.length)
    (hlen : d.length + e.length + f.length ≤ 2 ^ 32) (m : Ram) (a : UInt32) :
    write (a + UInt32.ofNat d.length) e' (write a (d ++ e ++ f) m) = write a (d ++ e' ++ f) m := by
  funext x
  have := x.toNat_lt
  have := a.toNat_lt
  have hoff : (x - (a + UInt32.ofNat d.length)).toNat = ((x - a).toNat + 2 ^ 32 - d.length) % 2 ^ 32 := by
    rw [UInt32.toNat_sub, UInt32.toNat_sub, UInt32.toNat_add, UInt32.toNat_ofNat']
    omega
  have hk := (x - a).toNat_lt
  have hde : (d ++ e).length = d.length + e.length := List.length_append
  have hde' : (d ++ e').length = d.length + e.length := List.length_append.trans (congrArg _ he)
  rw [write_apply, write_apply, write_apply, hoff]
  by_cases hleft : (x - a).toNat < d.length
  · rw [List.getD_eq_default e', List.getD_append (d ++ e), List.getD_append d, List.getD_append (d ++ e'),
      List.getD_append d]
    all_goals omega
  · have hsub : ((x - a).toNat + 2 ^ 32 - d.length) % 2 ^ 32 = (x - a).toNat - d.length := by omega
    rw [hsub]
    by_cases hin : (x - a).toNat < d.length + e.length
    · rw [List.getD_append (d ++ e'), List.getD_append_right d, List.getD_eq_getElem e', List.getD_eq_getElem e']
      all_goals omega
    · rw [List.getD_eq_default e', List.getD_append_right (d ++ e), List.getD_append_right (d ++ e'), hde, hde']
      all_goals omega

end Pushing

section Distances

theorem disjoint_above_above (a : UInt32) {k n l p : ℕ} (h : k + n ≤ l) (hend : l + p ≤ 2 ^ 32) :
    (Span.mk (a + UInt32.ofNat k) n).Disjoint ⟨a + UInt32.ofNat l, p⟩ := by
  intro x hx hx'
  simp only [Span.mem_iff, UInt32.toNat_sub, UInt32.toNat_add, UInt32.toNat_ofNat'] at hx hx'
  have := x.toNat_lt
  have := a.toNat_lt
  omega

theorem disjoint_below_above (a : UInt32) {k n l p : ℕ} (h : n ≤ k) (hend : k + l + p ≤ 2 ^ 32) :
    (Span.mk (a - UInt32.ofNat k) n).Disjoint ⟨a + UInt32.ofNat l, p⟩ := by
  intro x hx hx'
  simp only [Span.mem_iff, UInt32.toNat_sub, UInt32.toNat_add, UInt32.toNat_ofNat'] at hx hx'
  have := x.toNat_lt
  have := a.toNat_lt
  omega

theorem disjoint_below_below (a : UInt32) {k n l p : ℕ} (h : n + l ≤ k) (hp : p ≤ l) (hend : k ≤ 2 ^ 32) :
    (Span.mk (a - UInt32.ofNat k) n).Disjoint ⟨a - UInt32.ofNat l, p⟩ := by
  intro x hx hx'
  simp only [Span.mem_iff, UInt32.toNat_sub, UInt32.toNat_ofNat'] at hx hx'
  have := x.toNat_lt
  have := a.toNat_lt
  omega

theorem mem_span_below (a : UInt32) {k n l : ℕ} (h : l ≤ k) (hn : k < l + n) :
    a - UInt32.ofNat l ∈ Span.mk (a - UInt32.ofNat k) n := by
  simp only [Span.mem_iff, UInt32.toNat_sub, UInt32.toNat_ofNat']
  have := a.toNat_lt
  omega

end Distances

section Alignment

theorem and_not_add_and (x mask : UInt32) : (x &&& ~~~mask) + (x &&& mask) = x := by
  apply UInt32.toBitVec_inj.mp
  rw [UInt32.toBitVec_add, UInt32.toBitVec_and, UInt32.toBitVec_and, UInt32.toBitVec_not,
    BitVec.add_eq_or_of_and_eq_zero]
  · ext i hi
    simp only [BitVec.getElem_or, BitVec.getElem_and, BitVec.getElem_not]
    cases x.toBitVec[i] <;> cases mask.toBitVec[i] <;> rfl
  · ext i hi
    simp only [BitVec.getElem_and, BitVec.getElem_not, BitVec.getElem_zero]
    cases x.toBitVec[i] <;> cases mask.toBitVec[i] <;> rfl

theorem and_not_eq (x mask : UInt32) : x &&& ~~~mask = x - (x &&& mask) := by
  have h := congrArg (· - (x &&& mask)) (and_not_add_and x mask)
  rwa [UInt32.add_sub_cancel] at h

theorem and_one_toNat (x : UInt32) : (x &&& 1).toNat = x.toNat % 2 := by
  rw [UInt32.toNat_and]
  exact Nat.and_two_pow_sub_one_eq_mod x.toNat 1

theorem and_three_toNat (x : UInt32) : (x &&& 3).toNat = x.toNat % 4 := by
  rw [UInt32.toNat_and]
  exact Nat.and_two_pow_sub_one_eq_mod x.toNat 2

theorem sub_four_mul_and_not (x : UInt32) (n : ℕ) :
    (x - UInt32.ofNat (4 * n)) &&& ~~~3 = (x &&& ~~~3) - UInt32.ofNat (4 * n) := by
  have hx := x.toNat_lt
  have hrest : (x - UInt32.ofNat (4 * n)) &&& 3 = x &&& 3 := by
    rw [← UInt32.toNat_inj, and_three_toNat, and_three_toNat, UInt32.toNat_sub, UInt32.toNat_ofNat']
    omega
  rw [and_not_eq, and_not_eq, hrest, UInt32.sub_eq_add_neg, UInt32.sub_eq_add_neg, UInt32.sub_eq_add_neg,
    UInt32.sub_eq_add_neg, UInt32.add_assoc, UInt32.add_assoc, UInt32.add_comm (-_)]

end Alignment

end Orion68.Stacks
