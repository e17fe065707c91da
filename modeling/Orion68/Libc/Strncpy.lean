import Mathlib.Data.List.GetD
import Mathlib.Data.Nat.Basic
import Orion68.Lib.Buffers
import Orion68.Lib.Loops

namespace Orion68.Libc

open Buffers Loops

section Code

/-- What stands at `dest`, and the places of `src` that were read and of `dest` that were written. -/
structure Copy where
  dest : ℕ → UInt8
  reads : List ℕ
  writes : List ℕ

def Copy.read (i : ℕ) (c : Copy) : Copy := { c with reads := c.reads ++ [i] }

def Copy.store (d : ℕ) (x : UInt8) (c : Copy) : Copy :=
  { c with dest := Function.update c.dest d x, writes := c.writes ++ [d] }

variable (dest src : ℕ → UInt8)

def strncpyLoop : ℕ → ℕ → Copy → Copy
  | 0, _, c => c
  | n + 1, i, c => strncpyLoop n (i + 1) ((c.read i).store i (src i))

/-- `while (n--)` counts a negative `n` down through all values. -/
def strncpy (n : UInt32) : Copy := strncpyLoop src n.toNat 0 ⟨dest, [], []⟩

/-- The second loop: what is left of `max`, and where the copy ends. -/
def strncatLoop : ℕ → ℕ → ℕ → Copy → ℕ × ℕ × Copy
  | 0, i, d, c => (0, d, c.read i)
  | max + 1, i, d, c =>
      if src i ≠ 0 then strncatLoop max (i + 1) (d + 1) ((c.read i).store d (src i))
      else (max + 1, d, c.read i)

/-- The first loop is given up after `k` rounds. -/
def strncat (k : ℕ) (max : UInt32) : Option Copy :=
  (whileLoop (fun d => decide (dest d ≠ 0)) (fun d => some (d + 1)) k 0).map fun d =>
    let r := strncatLoop src max.toNat 0 d ⟨dest, [], []⟩
    if 0 < r.1 then r.2.2.store r.2.1 0 else r.2.2

end Code

section Contracts

/-- What the string `s`, copied to `dest`, is to leave there. -/
structure Copied (dest : ℕ → UInt8) (s : List UInt8) (n : ℕ) (c : Copy) : Prop where
  dest : c.dest = place 0 (s.take n ++ List.replicate (n - s.length) 0) dest
  writes : c.writes = List.range n
  reads : ∀ i ∈ c.reads, i ≤ s.length

/-- What the string `s`, appended to the string `t` at `dest`, is to leave there. -/
structure Appended (dest : ℕ → UInt8) (t s : List UInt8) (n : ℕ) (c : Copy) : Prop where
  dest : c.dest = place t.length (s.take n ++ [0]) dest
  writes : ∀ i ∈ c.writes, t.length ≤ i ∧ i ≤ t.length + n ∧ i ≤ t.length + s.length
  reads : ∀ i ∈ c.reads, i ≤ s.length

end Contracts

section Copying

variable {dest src : ℕ → UInt8} {s t : List UInt8} {n : ℕ}

theorem strncpyLoop_eq (src : ℕ → UInt8) (n i : ℕ) (c : Copy) :
    strncpyLoop src n i c =
      ⟨place i ((List.range' i n).map src) c.dest, c.reads ++ List.range' i n, c.writes ++ List.range' i n⟩ := by
  induction n generalizing i c with
  | zero => simp [strncpyLoop, place_nil]
  | succ n ih =>
      rw [strncpyLoop, ih, List.range'_succ, List.map_cons, place_cons]
      simp [Copy.read, Copy.store]

theorem map_range_take (hs : Terminated 0 src s) (hn : n ≤ s.length + 1) :
    (List.range n).map src = s.take n ++ List.replicate (n - s.length) 0 := by
  apply List.ext_getElem
  · simp
    omega
  · intro k hk hk'
    rw [List.length_map, List.length_range] at hk
    rw [List.getElem_map, List.getElem_range]
    rcases Nat.lt_or_ge k s.length with hlt | hge
    · rw [List.getElem_append_left (by rw [List.length_take]; omega), List.getElem_take, hs.byte k hlt]
    · obtain rfl : k = s.length := by omega
      rw [List.getElem_append_right (by rw [List.length_take]; omega), List.getElem_replicate, hs.ends]

theorem strncpy_copied_iff (hs : Terminated 0 src s) (n : UInt32) :
    Copied dest s n.toNat (strncpy dest src n) ↔ n.toNat ≤ s.length + 1 := by
  have heq : strncpy dest src n =
      ⟨place 0 ((List.range n.toNat).map src) dest, List.range n.toNat, List.range n.toNat⟩ := by
    rw [strncpy, strncpyLoop_eq, List.range_eq_range', List.nil_append]
  rw [heq]
  constructor
  · intro h
    by_contra! hn
    have hread := h.reads (s.length + 1) (List.mem_range.mpr hn)
    omega
  · intro hn
    refine ⟨congrArg (place 0 · dest) (map_range_take hs hn), rfl, ?_⟩
    intro i hi
    have hlt := List.mem_range.mp hi
    omega

theorem strncatLoop_eq (hs : Terminated 0 src s) (max i d : ℕ) (hi : i ≤ s.length) (c : Copy) :
    strncatLoop src max i d c =
      (max - (s.length - i), d + min max (s.length - i),
        ⟨place d ((s.drop i).take max) c.dest, c.reads ++ List.range' i (min max (s.length - i) + 1),
          c.writes ++ List.range' d (min max (s.length - i))⟩) := by
  induction max generalizing i d c with
  | zero => simp [strncatLoop, Copy.read, place_nil]
  | succ max ih =>
      rw [strncatLoop]
      rcases Nat.eq_or_lt_of_le hi with rfl | hlt
      · rw [if_neg (not_not.mpr hs.ends)]
        simp [Copy.read, place_nil]
      · have hmin : min (max + 1) (s.length - i) = min max (s.length - (i + 1)) + 1 := by omega
        rw [if_pos (hs.ne hlt), ih (i + 1) (d + 1) hlt, hmin, List.drop_eq_getElem_cons hlt, List.take_succ_cons,
          place_cons, ← hs.byte i hlt, List.range'_succ (s := i), List.range'_succ (s := d)]
        simp [Copy.read, Copy.store]
        omega

theorem iterate_succ (k : ℕ) : (fun d => d + 1)^[k] 0 = k := by
  induction k with
  | zero => rfl
  | succ k ih => rw [Function.iterate_succ_apply', ih]

theorem end_of_string (ht : Terminated 0 dest t) (k d : ℕ) :
    whileLoop (fun d => decide (dest d ≠ 0)) (fun d => some (d + 1)) k 0 = some d ↔ d = t.length ∧ t.length < k := by
  rw [whileLoop_eq_some_iff]
  simp only [iterate_succ, decide_eq_false_iff_not, not_not, decide_eq_true_eq]
  constructor
  · rintro ⟨j, hj, rfl, h0, hall⟩
    obtain hle | hlt := Nat.lt_or_ge t.length d
    · exact absurd ht.ends (hall _ hle)
    · rcases Nat.eq_or_lt_of_le hlt with rfl | hlt
      · exact ⟨rfl, hj⟩
      · exact absurd h0 (ht.ne hlt)
  · rintro ⟨rfl, hk⟩
    exact ⟨t.length, hk, rfl, ht.ends, fun j hj => ht.ne hj⟩

theorem strncat_eq (hs : Terminated 0 src s) (ht : Terminated 0 dest t) {k : ℕ} (hk : t.length < k) (n : UInt32) :
    strncat dest src k n = some
      (if s.length < n.toNat then
        ⟨place t.length (s ++ [0]) dest, List.range' 0 (s.length + 1), List.range' t.length (s.length + 1)⟩
      else
        ⟨place t.length (s.take n.toNat) dest, List.range' 0 (n.toNat + 1), List.range' t.length n.toNat⟩) := by
  rw [strncat, (end_of_string ht k _).mpr ⟨rfl, hk⟩, Option.map_some, Option.some_inj,
    strncatLoop_eq hs _ 0 _ (Nat.zero_le _), List.drop_zero, Nat.sub_zero]
  by_cases hlt : s.length < n.toNat
  · have hwrites : List.range' t.length (s.length + 1) = List.range' t.length s.length ++ [t.length + s.length] :=
      List.range'_1_concat
    rw [if_pos hlt, if_pos (Nat.sub_pos_of_lt hlt), Nat.min_eq_right (Nat.le_of_lt hlt),
      List.take_of_length_le (Nat.le_of_lt hlt), place_concat, hwrites]
    rfl
  · rw [if_neg hlt, if_neg (by omega), Nat.min_eq_left (Nat.not_lt.mp hlt)]
    rfl

theorem strncat_appended_iff (hs : Terminated 0 src s) (ht : Terminated 0 dest t) (n : UInt32) :
    (∃ k c, strncat dest src k n = some c ∧ Appended dest t s n.toNat c) ↔
      s.length < n.toNat ∨ dest (t.length + n.toNat) = 0 := by
  by_cases hlt : s.length < n.toNat
  · refine iff_of_true ⟨t.length + 1, _, strncat_eq hs ht (Nat.lt_succ_self _) n, ?_⟩ (Or.inl hlt)
    rw [if_pos hlt]
    refine ⟨?_, ?_, ?_⟩
    · rw [List.take_of_length_le (Nat.le_of_lt hlt)]
    · intro i hi
      rw [List.mem_range'_1] at hi
      omega
    · intro i hi
      rw [List.mem_range'_1] at hi
      omega
  · have hlen : (s.take n.toNat).length = n.toNat := List.length_take_of_le (Nat.not_lt.mp hlt)
    have hnul : place t.length (s.take n.toNat) dest = place t.length (s.take n.toNat ++ [0]) dest ↔
        dest (t.length + n.toNat) = 0 := by
      rw [place_concat, hlen, eq_comm, Function.update_eq_self_iff, place_of_le (by rw [hlen]), eq_comm]
    rw [or_iff_right hlt, ← hnul]
    constructor
    · rintro ⟨k, c, hc, h⟩
      obtain ⟨d, hd, -⟩ := Option.map_eq_some_iff.mp hc
      obtain ⟨-, hk⟩ := (end_of_string ht k d).mp hd
      rw [strncat_eq hs ht hk, if_neg hlt] at hc
      obtain rfl := Option.some.inj hc
      exact h.dest
    · intro h
      refine ⟨t.length + 1, _, strncat_eq hs ht (Nat.lt_succ_self _) n, ?_⟩
      rw [if_neg hlt]
      refine ⟨h, ?_, ?_⟩
      · intro i hi
        rw [List.mem_range'_1] at hi
        omega
      · intro i hi
        rw [List.mem_range'_1] at hi
        omega

theorem strncpy_strncat_exact_iff (hs : Terminated 0 src s) (ht : Terminated 0 dest t) (n : UInt32) :
    (Copied dest s n.toNat (strncpy dest src n) ↔ n.toNat ≤ s.length + 1) ∧
      ((∃ k c, strncat dest src k n = some c ∧ Appended dest t s n.toNat c) ↔
        s.length < n.toNat ∨ dest (t.length + n.toNat) = 0) :=
  ⟨strncpy_copied_iff hs n, strncat_appended_iff hs ht n⟩

/-- A buffer with a string and no other null. -/
def holding (s : List UInt8) : ℕ → UInt8 := place 0 (s ++ [0]) fun _ => 0xFF

theorem terminated_holding (h : (0 : UInt8) ∉ s) : Terminated 0 (holding s) s := terminated_place h _

theorem strncpy_strncat_exact_iff_ab :
    Copied (holding [0x78]) [0x61, 0x62] 3 (strncpy (holding [0x78]) (holding [0x61, 0x62]) 3) ∧
      ∃ k c, strncat (holding [0x78]) (holding [0x61, 0x62]) k 3 = some c ∧
        Appended (holding [0x78]) [0x78] [0x61, 0x62] 3 c :=
  have h := strncpy_strncat_exact_iff (terminated_holding (by decide : (0 : UInt8) ∉ [0x61, 0x62]))
    (terminated_holding (by decide : (0 : UInt8) ∉ [0x78])) 3
  ⟨h.1.mpr (by decide), h.2.mpr (Or.inl (by decide))⟩

/-- Four bytes of `ab` are one too many, and its first character alone, put over what is not null, is not
terminated. -/
theorem strncpy_of_longer :
    ¬Copied (holding [0x78]) [0x61, 0x62] 4 (strncpy (holding [0x78]) (holding [0x61, 0x62]) 4) ∧
      ¬∃ k c, strncat (holding [0x78]) (holding [0x61, 0x62]) k 1 = some c ∧
        Appended (holding [0x78]) [0x78] [0x61, 0x62] 1 c := by
  have hs := terminated_holding (by decide : (0 : UInt8) ∉ [0x61, 0x62])
  have ht := terminated_holding (by decide : (0 : UInt8) ∉ [0x78])
  constructor
  · intro h
    exact absurd ((strncpy_copied_iff hs 4).mp h) (by decide)
  · intro h
    exact absurd ((strncat_appended_iff hs ht 1).mp h) (by decide)

end Copying

end Orion68.Libc
