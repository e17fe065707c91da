import Orion68.Lib.CStrings
import Orion68.Lib.MaximalRuns
import Orion68.Libc.Strings

namespace Orion68.Tokens

open CStrings MaximalRuns

section Code

/-- The memory, and the pointer that is kept between the calls. -/
structure State where
  mem : List UInt8
  p : Option ℕ

/-- The loop over the delimiters; reading behind what ends them is `none`. -/
def isDelim (c : UInt8) : List UInt8 → Option Bool
  | [] => none
  | x :: delim => if x = 0 then some false else if c = x then some true else isDelim c delim

/-- The loop over what `p` points at: where it ends, and whether at a delimiter. -/
def scan (delim : List UInt8) (p : ℕ) : List UInt8 → Option (ℕ × Bool)
  | [] => none
  | c :: s =>
      if c = 0 then some (p, false)
      else (isDelim c delim).bind fun found => if found then some (p, true) else scan delim (p + 1) s

def strtok (str : Option ℕ) (delim : List UInt8) (σ : State) : Option (Option ℕ × State) :=
  match str.or σ.p with
  | none => some (none, σ)
  | some start =>
      (scan delim start (σ.mem.drop start)).map fun r =>
        if r.2 then (some start, ⟨σ.mem.set r.1 0, some (r.1 + 1)⟩)
        else (if start = r.1 then none else some start, ⟨σ.mem, some r.1⟩)

/-- `strtok(NULL, delim)` after a call that did not return `NULL`, and so on; it is given up after `n` calls. -/
def untilNull (delim : List UInt8) : ℕ → Option ℕ × State → Option (List ℕ × State)
  | 0, _ => none
  | _ + 1, (none, σ) => some ([], σ)
  | n + 1, (some token, σ) =>
      ((strtok none delim σ).bind (untilNull delim n)).map fun r => (token :: r.1, r.2)

def tokens (s : ℕ) (delim : List UInt8) (n : ℕ) (σ : State) : Option (List ℕ × State) :=
  (strtok (some s) delim σ).bind (untilNull delim n)

end Code

section Calls

variable {d s a b e pre post : List UInt8} {c : UInt8} {n : ℕ}

theorem isDelim_eq (hd : 0 ∉ d) (c : UInt8) : isDelim c (d ++ [0]) = some (decide (c ∈ d)) := by
  induction d with
  | nil => rfl
  | cons x d ih =>
      rw [List.cons_append, isDelim, if_neg (Ne.symm (List.ne_of_not_mem_cons hd))]
      split
      next h => rw [decide_eq_true (h ▸ List.mem_cons_self)]
      next h =>
        rw [ih (List.not_mem_of_not_mem_cons hd)]
        congr 2
        exact propext (List.mem_cons.trans (or_iff_right h)).symm

theorem scan_eq (hd : 0 ∉ d) (hs : 0 ∉ s) (p : ℕ) :
    scan (d ++ [0]) p (s ++ 0 :: post) =
      some (p + (s.takeWhile (· ∉ d)).length, decide (s.dropWhile (· ∉ d) ≠ [])) := by
  induction s generalizing p with
  | nil => rfl
  | cons c s ih =>
      rw [List.cons_append, scan, if_neg (Ne.symm (List.ne_of_not_mem_cons hs)), isDelim_eq hd, Option.bind_some]
      by_cases hc : c ∈ d
      · simp [hc]
      · simp only [hc, decide_false, Bool.false_eq_true, if_false, ih (List.not_mem_of_not_mem_cons hs)]
        simp only [hc, not_false_eq_true, decide_true, List.takeWhile_cons_of_pos, List.dropWhile_cons_of_pos,
          List.length_cons]
        congr 2
        omega

theorem strtok_nil (d pre post : List UInt8) :
    strtok none d ⟨pre ++ 0 :: post, some pre.length⟩ = some (none, ⟨pre ++ 0 :: post, some pre.length⟩) := by
  rw [strtok]
  simp only [Option.none_or, List.drop_left, scan, if_true, Option.map_some, Bool.false_eq_true, if_false]

theorem libc_strtok_eq (hs : s ≠ []) (d : List UInt8) :
    Libc.strtok d s = some (s.takeWhile (· ∉ d), (s.dropWhile (· ∉ d)).tail) := by
  cases s with
  | nil => exact absurd rfl hs
  | cons c s => rfl

theorem strtok_some (hd : 0 ∉ d) (hs : 0 ∉ s) (h : Libc.strtok d s = some (a, b)) (pre post : List UInt8) :
    ∃ e, (e = [0] ∨ e = [] ∧ b = []) ∧ s.length = (a ++ e).length + b.length ∧ a ++ e ≠ [] ∧
      strtok none (d ++ [0]) ⟨pre ++ (s ++ 0 :: post), some pre.length⟩ =
        some (some pre.length, ⟨pre ++ (a ++ e) ++ (b ++ 0 :: post), some (pre ++ (a ++ e)).length⟩) := by
  have hne : s ≠ [] := by
    rintro rfl
    cases h
  rw [libc_strtok_eq hne] at h
  have hsplit : s.takeWhile (· ∉ d) ++ s.dropWhile (· ∉ d) = s := List.takeWhile_append_dropWhile
  rw [strtok]
  simp only [Option.none_or, List.drop_left, scan_eq hd hs, Option.map_some]
  cases h
  generalize s.takeWhile (· ∉ d) = a at hsplit ⊢
  generalize s.dropWhile (· ∉ d) = rest at hsplit ⊢
  subst hsplit
  cases rest with
  | nil =>
      rw [List.append_nil] at hne
      refine ⟨[], Or.inr ⟨rfl, rfl⟩, rfl, by rwa [List.append_nil], ?_⟩
      simp [hne]
  | cons x b =>
      refine ⟨[0], Or.inl rfl, ?_, by simp, ?_⟩
      · rw [List.length_append, List.length_append, List.length_cons, List.length_singleton, List.tail_cons]
        omega
      · simp [Nat.add_assoc]

/-- The token that has been ended is a string of its own, whatever becomes of what is behind it. -/
theorem stringAt_token (ha : 0 ∉ a) (he : e = [0] ∨ e = [] ∧ b = []) (pre post : List UInt8) :
    stringAt 0 (pre ++ (a ++ e) ++ (b ++ 0 :: post)) pre.length = a := by
  rw [stringAt, List.append_assoc, List.drop_left, List.append_assoc]
  rcases he with rfl | ⟨rfl, rfl⟩
  · exact upTo_append ha _
  · exact upTo_append ha _

/-- Calls until `NULL` comes back, when as many may be made as the string has characters and one more. -/
theorem untilNull_spec (hd : 0 ∉ d) (hs : 0 ∉ s) (hn : s.length < n) (pre post : List UInt8) :
    ∃ ts s', s'.length = s.length ∧
      (strtok none (d ++ [0]) ⟨pre ++ (s ++ 0 :: post), some pre.length⟩).bind (untilNull (d ++ [0]) n) =
        some (ts, ⟨pre ++ (s' ++ 0 :: post), some (pre.length + s.length)⟩) ∧
      ts.map (stringAt 0 (pre ++ (s' ++ 0 :: post))) = pieces (· ∉ d) s := by
  induction n generalizing pre s with
  | zero => exact absurd hn (Nat.not_lt_zero _)
  | succ n ih =>
      cases s with
      | nil =>
          refine ⟨[], [], rfl, ?_, rfl⟩
          rw [List.nil_append, strtok_nil]
          rfl
      | cons c s =>
          have htoken := libc_strtok_eq (List.cons_ne_nil c s) d
          rw [pieces_cons]
          have ha : 0 ∉ (c :: s).takeWhile (· ∉ d) := fun h => hs (List.takeWhile_subset _ h)
          have hb : 0 ∉ ((c :: s).dropWhile (· ∉ d)).tail := fun h =>
            hs (List.dropWhile_subset _ (List.mem_of_mem_tail h))
          generalize (c :: s).takeWhile (· ∉ d) = a at htoken ha ⊢
          generalize ((c :: s).dropWhile (· ∉ d)).tail = b at htoken hb ⊢
          obtain ⟨e, he, hlen, hne, hcall⟩ := strtok_some hd hs htoken pre post
          have hpos := List.length_pos_iff.mpr hne
          obtain ⟨ts, s', hs', hrun, hts⟩ := ih hb (by omega) (pre ++ (a ++ e))
          refine ⟨pre.length :: ts, a ++ e ++ s', ?_, ?_, ?_⟩
          · rw [List.length_append, hs', hlen]
          · rw [hcall, Option.bind_some, untilNull, hrun, hlen]
            simp [Nat.add_assoc]
          · have he' : e = [0] ∨ e = [] ∧ s' = [] := by
              refine he.imp_right fun h => ⟨h.1, List.eq_nil_of_length_eq_zero ?_⟩
              rw [hs', h.2, List.length_nil]
            have hmem : pre ++ (a ++ e ++ s' ++ 0 :: post) = pre ++ (a ++ e) ++ (s' ++ 0 :: post) := by
              simp only [List.append_assoc]
            rw [hmem, List.map_cons, stringAt_token ha he', hts]

end Calls

section Exactness

variable {d s : List UInt8} {n : ℕ}

/--
Neither a fault nor a store outside the string. The tokens are the maximal runs when the string does not begin with a
delimiter and no two delimiters stand side by side in it; one at its end does no harm.
-/
theorem strtok_exact_iff (hs : 0 ∉ s) (hd : 0 ∉ d) (hn : s.length < n) (pre post : List UInt8) (p : Option ℕ) :
    ∃ ts s', s'.length = s.length ∧
      tokens pre.length (d ++ [0]) n ⟨pre ++ (s ++ 0 :: post), p⟩ =
        some (ts, ⟨pre ++ (s' ++ 0 :: post), some (pre.length + s.length)⟩) ∧
      (ts.map (stringAt 0 (pre ++ (s' ++ 0 :: post))) = runs (· ∉ d) s ↔
        (∀ c ∈ s.head?, c ∉ d) ∧ s.IsChain fun x y => x ∉ d ∨ y ∉ d) := by
  obtain ⟨ts, s', hs', hrun, hts⟩ := untilNull_spec hd hs hn pre post
  refine ⟨ts, s', hs', hrun, ?_⟩
  rw [hts, pieces_eq_runs_iff, forall_pieces_ne_nil_iff]
  simp only [decide_eq_true_eq]

/-- `strtok("ab c ", " ")` -/
theorem strtok_exact_iff_blank : ∃ ts s', s'.length = 5 ∧
    tokens 0 [32, 0] 6 ⟨[97, 98, 32, 99, 32, 0], none⟩ = some (ts, ⟨s' ++ [0], some 5⟩) ∧
    ts.map (stringAt 0 (s' ++ [0])) = runs (· ∉ [32]) [97, 98, 32, 99, 32] := by
  obtain ⟨ts, s', hs', hrun, hiff⟩ :=
    @strtok_exact_iff [32] [97, 98, 32, 99, 32] 6 (by decide) (by decide) (by decide) [] [] none
  exact ⟨ts, s', hs', hrun, hiff.mpr (by simp)⟩

/-- `strtok(" a", " ")` returns the empty string first. -/
theorem strtok_of_leading_blank :
    ¬(∀ (s d : List UInt8) (n : ℕ), 0 ∉ s → 0 ∉ d → s.length < n → ∃ ts mem p,
      tokens 0 (d ++ [0]) n ⟨s ++ [0], none⟩ = some (ts, ⟨mem, p⟩) ∧
      ts.map (stringAt 0 mem) = runs (· ∉ d) s) := by
  intro hall
  obtain ⟨ts, mem, p, hrun, hts⟩ := hall [32, 97] [32] 3 (by decide) (by decide) (by decide)
  have hcalls : tokens 0 [32, 0] 3 ⟨[32, 97, 0], none⟩ = some ([0, 1], ⟨[0, 97, 0], some 2⟩) := rfl
  cases hcalls.symm.trans hrun
  exact absurd hts (by decide)

end Exactness

end Orion68.Tokens
