import Orion68.Basic.TinyBasicPlus
import Orion68.Lib.SortedMaps

namespace Orion68.BasicLines

open Copies Slices SortedMaps TinyBasicPlus

abbrev Line := Nat × List UInt8

abbrev Listing := List Line

/-- Lines start at even positions: what is left before the next one holds another NL. -/
def padding (t : List UInt8) : List UInt8 := if t.length % 2 = 0 then [] else [NL]

def lineSize (t : List UInt8) : Nat := t.length + 4 + (padding t).length

def record (e : Line) : List UInt8 :=
  UInt8.ofNat (e.1 / 256) :: UInt8.ofNat e.1 :: UInt8.ofNat (lineSize e.2) :: (e.2 ++ NL :: padding e.2)

def encode (L : Listing) : List UInt8 := L.flatMap record

def Plain (c : UInt8) : Prop := c ≠ NL ∧ c ≠ CR ∧ c ≠ ESC ∧ c ≠ CTRLH

instance (c : UInt8) : Decidable (Plain c) := inferInstanceAs (Decidable (_ ∧ _))

structure Proper (e : Line) : Prop where
  number : 0 < e.1 ∧ e.1 < 65530
  text : e.2 ≠ []
  plain : ∀ c ∈ e.2, Plain c
  starts : ∀ c ∈ e.2.head?, isBlank c = false
  upper : toUppercase 0 e.2 = e.2
  length : e.2.length ≤ 250

variable {s : Store} {m : Program} {e : Line} {L M : Listing} {n p : Nat} {t : List UInt8}

section Records

theorem length_record (e : Line) : (record e).length = lineSize e.2 := by
  simp only [record, lineSize, List.length_cons, List.length_append]
  omega

theorem lineSize_even (t : List UInt8) : lineSize t % 2 = 0 := by
  rw [lineSize, padding]
  split
  · simp only [List.length_nil]
    omega
  · simp only [List.length_singleton]
    omega

theorem le_lineSize (t : List UInt8) : t.length + 4 ≤ lineSize t := Nat.le_add_right _ _

theorem Proper.size_lt (h : Proper e) : lineSize e.2 < 256 := by
  have hlen := h.length
  have heven := lineSize_even e.2
  have hpad : (padding e.2).length ≤ 1 := by
    rw [padding]
    split <;> simp
  simp only [lineSize] at *
  omega

@[simp] theorem encode_nil : encode [] = [] := rfl

@[simp] theorem encode_cons (e : Line) (L : Listing) : encode (e :: L) = record e ++ encode L := List.flatMap_cons

@[simp] theorem encode_append (L M : Listing) : encode (L ++ M) = encode L ++ encode M := List.flatMap_append

theorem length_encode_even (L : Listing) : (encode L).length % 2 = 0 := by
  induction L with
  | nil => rfl
  | cons e L ih =>
      rw [encode_cons, List.length_append, length_record]
      have := lineSize_even e.2
      omega

theorem length_le_encode (L : Listing) : L.length ≤ (encode L).length := by
  induction L with
  | nil => exact Nat.zero_le _
  | cons e L ih =>
      rw [encode_cons, List.length_append, length_record, List.length_cons]
      have := le_lineSize e.2
      omega

theorem Proper.lineNumber (h : Proper e) (hm : Holds m p (record e)) : lineNumber m p = e.1 := by
  obtain ⟨h0, h1, -⟩ := hm
  have := h.number
  rw [TinyBasicPlus.lineNumber, h0, h1, UInt8.toNat_ofNat', UInt8.toNat_ofNat']
  omega

theorem Proper.lineLength (h : Proper e) (hm : Holds m p (record e)) : (m (p + 2)).toNat = (record e).length := by
  obtain ⟨-, -, h2, -⟩ := hm
  have hlt := h.size_lt
  rw [h2, UInt8.toNat_ofNat', length_record]
  exact Nat.mod_eq_of_lt hlt

theorem holds_text (hm : Holds m p (record e)) : Holds m (p + 3) (e.2 ++ [NL]) := by
  obtain ⟨-, -, -, htext⟩ := hm
  rw [← List.singleton_append, ← List.append_assoc, holds_append] at htext
  exact htext.1

end Records

section Finding

theorem findlineFrom_spec {fuel : Nat} (hL : ∀ e ∈ L, Proper e) (hsorted : Sorted L) (hm : Holds s.program p (encode L))
    (hend : p + (encode L).length = s.programEnd) (hfuel : L.length < fuel) :
    findlineFrom n s fuel p = some (p + (encode (below n L)).length) := by
  induction L generalizing p fuel with
  | nil =>
      obtain ⟨fuel, rfl⟩ := Nat.exists_eq_succ_of_ne_zero (Nat.ne_zero_of_lt hfuel)
      have hend' : p = s.programEnd := hend
      rw [findlineFrom, if_pos hend']
      rfl
  | cons e L ih =>
      obtain ⟨fuel, rfl⟩ := Nat.exists_eq_succ_of_ne_zero (Nat.ne_zero_of_lt hfuel)
      obtain ⟨he, hL⟩ := List.forall_mem_cons.mp hL
      rw [encode_cons, holds_append] at hm
      rw [encode_cons, List.length_append] at hend
      have hsize := le_lineSize e.2
      have hne : p ≠ s.programEnd := by
        rw [length_record] at hend
        omega
      rw [findlineFrom, he.lineNumber hm.1, he.lineLength hm.1, if_neg hne]
      by_cases hn : n ≤ e.1
      · rw [if_pos hn, (hsorted.filter_of_le hn).1]
        rfl
      · have hbelow : below n (e :: L) = e :: below n L := List.filter_cons_of_pos (by simpa using hn)
        rw [if_neg hn, ih hL hsorted.tail hm.2 (by omega) (Nat.lt_of_succ_lt_succ hfuel), hbelow, encode_cons,
          List.length_append, Nat.add_assoc]

end Finding

section Deleting

/-- The program between its start and `programEnd`. -/
structure Represents (s : Store) (L : Listing) : Prop where
  holds : Holds s.program 0 (encode L)
  ends : s.programEnd = (encode L).length
  sorted : Sorted L
  proper : ∀ e ∈ L, Proper e

theorem Represents.congr {s' : Store} (h : Represents s L) (hend : s'.programEnd = s.programEnd)
    (hm : ∀ x, x < s.programEnd → s'.program x = s.program x) : Represents s' L :=
  ⟨h.holds.congr fun x _ hx => hm x (by rw [h.ends]; omega), hend.trans h.ends, h.sorted, h.proper⟩

theorem findline_spec (h : Represents s L) (hsize : s.programEnd ≤ basicRamSize) (n : Nat) :
    findline n s = some (encode (below n L)).length := by
  have hlen := length_le_encode L
  rw [findline, findlineFrom_spec h.proper h.sorted h.holds (by rw [Nat.zero_add, h.ends]), Nat.zero_add]
  have := h.ends
  omega

/-- What comes before a line and what comes after it stay in their order, and nothing behind the program is
touched. -/
theorem deleteLine_spec (h : Represents s L) (n : Nat) :
    ∃ s', deleteLine n (encode (below n L)).length s = some s' ∧ Represents s' (remove n L) ∧
      s'.programEnd ≤ s.programEnd ∧ ∀ x, s.programEnd ≤ x → s'.program x = s.program x := by
  have hL := h.sorted.below_append_atLeast n
  have hproper : ∀ e ∈ remove n L, Proper e := fun e he => h.proper e (mem_of_mem_remove he)
  have hm := h.holds
  have hend := h.ends
  rw [← hL, encode_append, holds_append, Nat.zero_add] at hm
  rw [← hL, encode_append, List.length_append] at hend
  rcases h.sorted.atLeast_cases (k := n) with ⟨hat, hne⟩ | ⟨t, hat⟩
  · refine ⟨s, if_neg ?_, ⟨?_, ?_, h.sorted.remove n, hproper⟩, Nat.le_refl _, fun _ _ => rfl⟩
    · rintro ⟨hstart, hnum⟩
      rw [hat] at hm hend
      cases habove : above n L with
      | nil =>
          rw [habove] at hend
          exact hstart hend.symm
      | cons e M =>
          rw [habove, encode_cons, holds_append] at hm
          have hmem : e ∈ above n L := habove ▸ List.mem_cons_self
          rw [(h.proper e (mem_above.mp hmem).1).lineNumber hm.2.1] at hnum
          exact hne e (mem_above.mp hmem).1 hnum
    · rw [remove, ← hat, hL]
      exact h.holds
    · rw [remove, ← hat, hL]
      exact h.ends
  · have hmem : (n, t) ∈ L := hL ▸ List.mem_append_right _ (hat ▸ List.mem_cons_self)
    have he := h.proper _ hmem
    rw [hat, encode_cons, holds_append] at hm
    rw [hat, encode_cons, List.length_append] at hend
    have hsize := le_lineSize t
    have hrec : (record (n, t)).length = lineSize t := length_record (n, t)
    have hcond : (encode (below n L)).length ≠ s.programEnd ∧
        lineNumber s.program (encode (below n L)).length = n :=
      ⟨by omega, he.lineNumber hm.2.1⟩
    have hmove : s.programEnd - ((encode (below n L)).length + (record (n, t)).length) = (encode (above n L)).length := by
      omega
    refine ⟨⟨moved (encode (below n L)).length ((encode (below n L)).length + (record (n, t)).length)
        (encode (above n L)).length s.program, (encode (below n L)).length + (encode (above n L)).length⟩, ?_,
      ⟨?_, ?_, h.sorted.remove n, hproper⟩, ?_, fun x hx => moved_outside ?_⟩
    · have hup : Upward (encode (below n L)).length ((encode (below n L)).length + (record (n, t)).length)
          ((encode (above n L)).length * 1) := .inl (Nat.le_add_right _ _)
      rw [deleteLine, if_pos hcond, he.lineLength hm.2.1]
      simp only [hmove, ascending_eq hup, Nat.mul_one]
      exact if_pos (by omega)
    · rw [remove, encode_append, holds_append, Nat.zero_add]
      exact ⟨hm.1.moved_apart (.inl (Nat.le_of_eq (Nat.zero_add _))), hm.2.2.moved⟩
    · rw [remove, encode_append, List.length_append]
    · change (encode (below n L)).length + (encode (above n L)).length ≤ s.programEnd
      omega
    · omega

end Deleting

section Inserting

/-- The gap between the program and the line stays as wide as it is, however often the line has to be
taken across it. -/
theorem makeRoom_spec {A B R : List UInt8} {fuel txtpos : Nat} (hA : Holds s.program 0 A)
    (hB : Holds s.program A.length B) (hR : Holds s.program txtpos R) (hend : s.programEnd = A.length + B.length)
    (hgap : s.programEnd < txtpos) (hfuel : R.length ≤ fuel) :
    ∃ s', makeRoom fuel A.length txtpos R.length s = some s' ∧ Holds s'.program 0 (A ++ R ++ B) ∧
      s'.programEnd = (A ++ R ++ B).length := by
  induction fuel generalizing A R txtpos s with
  | zero =>
      obtain rfl : R = [] := List.length_eq_zero_iff.mp (Nat.le_zero.mp hfuel)
      refine ⟨s, rfl, ?_, ?_⟩
      · rw [List.append_nil, holds_append, Nat.zero_add]
        exact ⟨hA, hB⟩
      · rw [List.append_nil, List.length_append, hend]
  | succ fuel ih =>
      cases hRlen : R.length with
      | zero =>
          obtain rfl : R = [] := List.length_eq_zero_iff.mp hRlen
          refine ⟨s, by rw [makeRoom], ?_, ?_⟩
          · rw [List.append_nil, holds_append, Nat.zero_add]
            exact ⟨hA, hB⟩
          · rw [List.append_nil, List.length_append, hend]
      | succ k =>
          rw [makeRoom, if_pos (Nat.le_of_lt hgap)]
          generalize hspace : min (txtpos - s.programEnd) (k + 1) = w
          have hw : 0 < w ∧ w ≤ txtpos - s.programEnd ∧ w ≤ R.length := by omega
          have hB' : B.length = s.programEnd - A.length := by omega
          have hdown : Downward (A.length + w) A.length ((s.programEnd - A.length) * 1) := .inl (Nat.le_add_right _ _)
          have hup : Upward A.length txtpos (w * 1) := .inl (by omega)
          have hlen : (A ++ R.take w).length = A.length + w := by
            rw [List.length_append, List.length_take, Nat.min_eq_left hw.2.2]
          have htake := List.take_append_drop w R
          rw [← htake, holds_append, List.length_take, Nat.min_eq_left hw.2.2] at hR
          have hdrop : (R.drop w).length = k + 1 - w := by rw [List.length_drop, hRlen]
          simp only [descending_eq hdown, ascending_eq hup, Nat.mul_one]
          have hmoved := ih (A := A ++ R.take w) (R := R.drop w)
            (s := ⟨moved A.length txtpos w (moved (A.length + w) A.length (s.programEnd - A.length) s.program),
              s.programEnd + w⟩) ?_ ?_ ?_ ?_ (Nat.add_lt_add_right hgap w) ?_
          · rw [hlen, hdrop, List.append_assoc A, htake] at hmoved
            exact hmoved
          · rw [holds_append, Nat.zero_add]
            refine ⟨(hA.moved_apart (.inl ?_)).moved_apart (.inl ?_), ?_⟩
            · omega
            · omega
            · have htw : (R.take w).length = w := by rw [List.length_take, Nat.min_eq_left hw.2.2]
              have hR' := (hR.1.moved_apart (d := A.length + w) (s := A.length) (n := s.programEnd - A.length)
                (.inr (by omega))).moved (p := A.length)
              rw [htw] at hR'
              exact hR'
          · rw [hlen]
            refine Holds.moved_apart ?_ (.inr (Nat.le_refl _))
            rw [← hB']
            exact hB.moved
          · refine (hR.2.moved_apart (.inr ?_)).moved_apart (.inr ?_)
            · omega
            · omega
          · change s.programEnd + w = _
            rw [hlen, hend]
            omega
          · rw [hdrop]
            omega

end Inserting

end Orion68.BasicLines
