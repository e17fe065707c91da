import Orion68.Lib.Occurrences
import Orion68.Libc.Strings

namespace Orion68.Search

open Occurrences

section Code

/-- A pointer is what it points at and all behind it, up to the end of the object; reading there is `none`. -/
abbrev Pointer := List UInt8

def compare : Pointer → Pointer → Option Bool
  | [], _ => none
  | a :: str1, str2 =>
      if a = 0 then some true
      else
        match str2 with
        | [] => none
        | b :: str2 => if b = 0 then some true else if a ≠ b then some false else compare str1 str2

/-- The place of what is found in `str1`, or `NULL`. -/
def strstr : Pointer → Pointer → Option (Option ℕ)
  | [], _ => none
  | a :: str1, str2 =>
      if a = 0 then some none
      else
        (compare (a :: str1) str2).bind fun found =>
          if found then some (some 0) else (strstr str1 str2).map (Option.map (· + 1))

def memcmp : ℕ → Pointer → Pointer → Option ℤ
  | 0, _, _ => some 0
  | n + 1, a :: p1, b :: p2 => if a ≠ b then some (a.toNat - b.toNat) else memcmp n p1 p2
  | _ + 1, _, _ => none

def memmemLoop (needle : Pointer) (needlelen : ℕ) : ℕ → Pointer → Option (Option ℕ)
  | 0, _ => some none
  | k + 1, h =>
      (memcmp needlelen h needle).bind fun r =>
        if r = 0 then some (some 0) else (memmemLoop needle needlelen k h.tail).map (Option.map (· + 1))

def memmem (haystack : Pointer) (haystacklen : ℕ) (needle : Pointer) (needlelen : ℕ) : Option (Option ℕ) :=
  if needlelen = 0 then some (some 0)
  else if needlelen > haystacklen then some none
  else memmemLoop needle needlelen (haystacklen - needlelen + 1) haystack

def strlen : Pointer → Option ℕ
  | [] => none
  | c :: str => if c = 0 then some 0 else (strlen str).map (· + 1)

/-- `memmem(h, strlen(h), n, strlen(n))` -/
def memmemOfStrings (h n : Pointer) : Option (Option ℕ) :=
  (strlen h).bind fun hlen => (strlen n).bind fun nlen => memmem h hlen n nlen

end Code

section Strings

variable {h n s : List UInt8}

theorem strlen_eq (hs : 0 ∉ s) : strlen (s ++ [0]) = some s.length := by
  induction s with
  | nil => rfl
  | cons c s ih =>
      rw [List.cons_append, strlen, if_neg (Ne.symm (List.ne_of_not_mem_cons hs)), ih (List.not_mem_of_not_mem_cons hs)]
      rfl

theorem compare_eq (hh : 0 ∉ h) (hn : 0 ∉ n) : compare (h ++ [0]) (n ++ [0]) = some (Libc.compare h n) := by
  induction h generalizing n with
  | nil => rfl
  | cons a h ih =>
      have ha := Ne.symm (List.ne_of_not_mem_cons hh)
      cases n with
      | nil =>
          rw [List.cons_append, List.nil_append, compare, if_neg ha]
          rfl
      | cons b n =>
          have hb := Ne.symm (List.ne_of_not_mem_cons hn)
          rw [List.cons_append, List.cons_append, compare, if_neg ha, Libc.compare]
          simp only [if_neg hb]
          by_cases hab : a = b
          · rw [if_neg (not_not.mpr hab), ih (List.not_mem_of_not_mem_cons hh) (List.not_mem_of_not_mem_cons hn),
              decide_eq_true hab, Bool.true_and]
          · rw [if_pos hab, decide_eq_false hab, Bool.false_and]

theorem compare_iff : Libc.compare h n = true ↔ n <+: h ∨ h <+: n := by
  induction h generalizing n with
  | nil => simp [Libc.compare]
  | cons a h ih =>
      cases n with
      | nil => simp [Libc.compare]
      | cons b n =>
          rw [Libc.compare, Bool.and_eq_true, decide_eq_true_eq, ih, List.cons_prefix_cons, List.cons_prefix_cons]
          tauto

theorem strstr_eq (hh : 0 ∉ h) (hn : 0 ∉ n) :
    strstr (h ++ [0]) (n ++ [0]) = some ((Libc.strstr h n).map fun r => r.1.length) := by
  induction h with
  | nil => rfl
  | cons a h ih =>
      have ha := Ne.symm (List.ne_of_not_mem_cons hh)
      have hcompare := compare_eq hh hn
      rw [List.cons_append] at hcompare
      rw [List.cons_append, strstr, if_neg ha, hcompare, Option.bind_some, Libc.strstr]
      split
      next => rfl
      next =>
        rw [ih (List.not_mem_of_not_mem_cons hh), Option.map_some, Option.map_map, Option.map_map]
        rfl

theorem memcmp_spec {p : Pointer} (hlen : n.length ≤ p.length) :
    ∃ r, memcmp n.length p (n ++ [0]) = some r ∧ (r = 0 ↔ n <+: p) := by
  induction n generalizing p with
  | nil => exact ⟨0, rfl, by simp⟩
  | cons b n ih =>
      cases p with
      | nil => exact absurd hlen (Nat.not_succ_le_zero _)
      | cons a p =>
          rw [List.length_cons, List.cons_append, memcmp, List.cons_prefix_cons]
          by_cases hab : a = b
          · obtain ⟨r, hr, hiff⟩ := ih (Nat.le_of_succ_le_succ hlen)
            rw [if_neg (not_not.mpr hab)]
            exact ⟨r, hr, hiff.trans (and_iff_right hab.symm).symm⟩
          · rw [if_pos hab]
            refine ⟨_, rfl, iff_of_false ?_ fun h => hab h.1.symm⟩
            intro h0
            exact hab (UInt8.toNat.inj (by omega))

theorem prefix_concat_iff (hlen : n.length ≤ s.length) : n <+: s ++ [0] ↔ n <+: s := by
  constructor
  · intro h
    exact List.prefix_of_prefix_length_le h (List.prefix_append s [0]) hlen
  · intro h
    exact h.trans (List.prefix_append s [0])

theorem memmemLoop_eq (hlen : n.length ≤ h.length) :
    memmemLoop (n ++ [0]) n.length (h.length - n.length + 1) (h ++ [0]) = some (occurrence n h) := by
  induction h with
  | nil =>
      obtain rfl := List.eq_nil_of_length_eq_zero (Nat.le_zero.mp hlen)
      rfl
  | cons a h ih =>
      obtain ⟨r, hr, hiff⟩ := @memcmp_spec n (a :: h ++ [0]) (by rw [List.length_append]; omega)
      rw [prefix_concat_iff hlen] at hiff
      rw [memmemLoop, hr, Option.bind_some]
      by_cases hpre : n <+: a :: h
      · rw [if_pos (hiff.mpr hpre), occurrence_of_prefix hpre]
      · rw [if_neg (hpre ∘ hiff.mp), occurrence_cons_of_not_prefix hpre, List.cons_append, List.tail_cons]
        rcases Nat.lt_or_ge h.length n.length with hlt | hge
        · have hzero : (a :: h).length - n.length = 0 := by
            rw [List.length_cons]
            omega
          rw [hzero, memmemLoop, occurrence_of_length_lt hlt]
          rfl
        · have hsucc : (a :: h).length - n.length = h.length - n.length + 1 := by
            rw [List.length_cons]
            omega
          rw [hsucc, ih hge]
          rfl

theorem memmemOfStrings_eq (hh : 0 ∉ h) (hn : 0 ∉ n) :
    memmemOfStrings (h ++ [0]) (n ++ [0]) = some (occurrence n h) := by
  rw [memmemOfStrings, strlen_eq hh, strlen_eq hn, Option.bind_some, Option.bind_some, memmem]
  by_cases hnil : n.length = 0
  · rw [if_pos hnil, List.eq_nil_of_length_eq_zero hnil, occurrence_of_prefix List.nil_prefix]
  · rw [if_neg hnil]
    by_cases hlt : h.length < n.length
    · rw [if_pos hlt, occurrence_of_length_lt hlt]
    · rw [if_neg hlt, memmemLoop_eq (Nat.not_lt.mp hlt)]

end Strings

section Exactness

variable {h n : List UInt8}

theorem strstr_eq_firstSuffix (h n : List UInt8) :
    (Libc.strstr h n).map (fun r => r.1.length) = firstSuffix (fun s => s ≠ [] && Libc.compare s n) h := by
  induction h with
  | nil => rfl
  | cons a h ih =>
      rw [Libc.strstr, firstSuffix, ← ih]
      cases hc : Libc.compare (a :: h) n with
      | true => rfl
      | false =>
          simp only [Bool.and_false, Bool.false_eq_true, if_false, Option.map_map]
          rfl

theorem found_iff {s : List UInt8} :
    (decide (s ≠ []) && Libc.compare s n) = true ↔ s ≠ [] ∧ (n <+: s ∨ s <+: n) := by
  rw [Bool.and_eq_true, decide_eq_true_eq, compare_iff]

/-- An end of the haystack that is shorter than the needle stands behind all occurrences of the needle. -/
theorem firstSuffix_of_occurrence {i : ℕ} (hi : occurrence n h = some i) (hne : h ≠ []) :
    firstSuffix (fun s => s ≠ [] && Libc.compare s n) h = some i := by
  obtain ⟨hle, hpre, hfirst⟩ := occurrence_eq_some_iff.mp hi
  have hlen : n.length ≤ h.length - i := List.length_drop (i := i) (l := h) ▸ hpre.length_le
  refine firstSuffix_eq_some_iff.mpr ⟨hle, found_iff.mpr ⟨?_, Or.inl hpre⟩, ?_⟩
  · intro hnil
    have hlength : h.length ≤ i := List.drop_eq_nil_iff.mp hnil
    have hpos : 0 < h.length := List.length_pos_iff.mpr hne
    -- the needle is empty, and it stands at the beginning already
    have hn : n = [] := List.eq_nil_of_length_eq_zero (by omega)
    exact hfirst 0 (by omega) (hn ▸ List.nil_prefix)
  · intro j hj
    apply Bool.eq_false_iff.mpr
    intro hfound
    rcases found_iff.mp hfound with ⟨-, hbegins | hbegun⟩
    · exact hfirst j hj hbegins
    · have hshort := hbegun.length_le
      rw [List.length_drop] at hshort
      omega

theorem strstr_first_iff (h n : List UInt8) :
    (Libc.strstr h n).map (fun r => r.1.length) = occurrence n h ↔
      n <:+: h ∧ h ≠ [] ∨ ¬n <:+: h ∧ ∀ t, t <:+ h → t ≠ [] → ¬t <+: n := by
  rw [strstr_eq_firstSuffix]
  by_cases hin : n <:+: h
  · obtain ⟨i, hi⟩ := Option.ne_none_iff_exists'.mp fun hnone => occurrence_eq_none_iff.mp hnone hin
    simp only [hin, true_and, not_true_eq_false, false_and, or_false]
    constructor
    · rintro heq rfl
      rw [hi] at heq
      exact absurd heq (by simp [firstSuffix])
    · intro hne
      rw [hi, firstSuffix_of_occurrence hi hne]
  · rw [occurrence_eq_none_iff.mpr hin, firstSuffix_eq_none_iff]
    simp only [hin, false_and, not_false_eq_true, true_and, false_or]
    apply forall_congr'
    intro t
    apply imp_congr_right
    intro hsuf
    have hnot : ¬n <+: t := fun hpre => hin (List.infix_iff_prefix_suffix.mpr ⟨t, hpre, hsuf⟩)
    rw [Bool.eq_false_iff, ne_eq, found_iff, not_and, or_iff_right hnot]

/--
`strstr` stays within the terminators as `memmem` does. It finds what `memmem` finds unless the haystack is empty
and the needle too, or the needle does not occur and the haystack ends with a beginning of it.
-/
theorem strstr_exact_iff (hh : 0 ∉ h) (hn : 0 ∉ n) :
    memmemOfStrings (h ++ [0]) (n ++ [0]) = some (occurrence n h) ∧
      (∃ r, strstr (h ++ [0]) (n ++ [0]) = some r) ∧
      (strstr (h ++ [0]) (n ++ [0]) = some (occurrence n h) ↔
        n <:+: h ∧ h ≠ [] ∨ ¬n <:+: h ∧ ∀ t, t <:+ h → t ≠ [] → ¬t <+: n) := by
  rw [strstr_eq hh hn, Option.some_inj]
  exact ⟨memmemOfStrings_eq hh hn, ⟨_, rfl⟩, strstr_first_iff h n⟩

/-- `strstr("abcd", "bc")` -/
theorem strstr_exact_iff_bc :
    memmemOfStrings [97, 98, 99, 100, 0] [98, 99, 0] = some (some 1) ∧
      strstr [97, 98, 99, 100, 0] [98, 99, 0] = some (some 1) :=
  have h := @strstr_exact_iff [97, 98, 99, 100] [98, 99] (by decide) (by decide)
  ⟨h.1, h.2.2.mpr (Or.inl ⟨by decide, by decide⟩)⟩

/-- `strstr("", "")` is `NULL`, and `strstr("ab", "bc")` is the place of the `b`. -/
theorem strstr_of_partial_match :
    ¬(∀ h n : List UInt8, 0 ∉ h → 0 ∉ n →
      strstr (h ++ [0]) (n ++ [0]) = some (occurrence n h)) ∧
      strstr [0] [0] = some none ∧ memmemOfStrings [0] [0] = some (some 0) ∧
      strstr [97, 98, 0] [98, 99, 0] = some (some 1) ∧ memmemOfStrings [97, 98, 0] [98, 99, 0] = some none := by
  refine ⟨fun hall => ?_, by decide, by decide, by decide, by decide⟩
  have hempty := hall [] [] (by decide) (by decide)
  exact absurd hempty (by decide)

end Exactness

end Orion68.Search
