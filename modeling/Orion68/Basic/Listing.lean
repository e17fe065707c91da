import Orion68.Basic.LineStore

namespace Orion68.BasicListing

open Slices SortedMaps Numerals Runs TinyBasicPlus BasicLines BasicEntering BasicLineStore

variable {s : Store} {m : Program} {L M : Listing} {l t : List UInt8} {e : Line} {n p sp : Nat}

section Digits

def digits (n : Nat) : List UInt8 := (numeral 10 n).map fun d => UInt8.ofNat (d + 48)

/-- A line as it is printed, without the NL. -/
def shown (e : Line) : List UInt8 := digits e.1 ++ SPACE :: e.2

theorem toNat_digit {d : Nat} (h : d < 10) : (UInt8.ofNat (d + 48)).toNat = d + 48 :=
  UInt8.toNat_ofNat_of_lt' (by change d + 48 < 256; omega)

theorem isDigit_digit {d : Nat} (h : d < 10) : isDigit (UInt8.ofNat (d + 48)) = true := by
  have hd := toNat_digit h
  simp only [isDigit, decide_eq_true_eq, UInt8.le_iff_toNat_le, hd]
  change 48 ≤ d + 48 ∧ d + 48 ≤ 57
  omega

theorem isDigit_digits {c : UInt8} (h : c ∈ digits n) : isDigit c = true := by
  obtain ⟨d, hd, rfl⟩ := List.mem_map.mp h
  exact isDigit_digit (numeral_lt (by decide) d hd)

theorem ignoreBlanks_of_head (h : ∀ c ∈ t.head?, isBlank c = false) : ignoreBlanks t = t := by
  cases t with
  | nil => rfl
  | cons c t => exact List.dropWhile_cons_of_neg (by rw [h c rfl]; exact Bool.false_ne_true)

theorem isBlank_of_isDigit {c : UInt8} (h : isDigit c = true) : isBlank c = false := by
  simp only [isDigit, decide_eq_true_eq, UInt8.le_iff_toNat_le] at h
  simp only [isBlank, decide_eq_false_iff_not]
  rintro (rfl | rfl) <;> exact absurd h.1 (by decide)

theorem testnumFrom_digits {num : Nat} {ds : List Nat} (hds : ∀ d ∈ ds, d < 10) (hlt : readOn 10 num ds < 65530)
    (r : List UInt8) :
    testnumFrom num ((ds.map fun d => UInt8.ofNat (d + 48)) ++ r) = testnumFrom (readOn 10 num ds) r := by
  induction ds generalizing num with
  | nil => rfl
  | cons d ds ih =>
      obtain ⟨hd, hds⟩ := List.forall_mem_cons.mp hds
      have hle := le_readOn (b := 10) (by decide) (num * 10 + d) ds
      rw [readOn_cons] at hlt ⊢
      rw [List.map_cons, List.cons_append, testnumFrom, if_pos (isDigit_digit hd), if_neg (by omega), toNat_digit hd,
        Nat.add_sub_cancel]
      exact ih hds hlt

theorem shown_eq_cons (e : Line) : ∃ d l, shown e = d :: l ∧ isDigit d = true := by
  cases hds : digits e.1 with
  | nil => exact absurd (List.map_eq_nil_iff.mp hds) (numeral_ne_nil 10 e.1)
  | cons d ds => exact ⟨d, _, by rw [shown, hds]; rfl, isDigit_digits (n := e.1) (by rw [hds]; exact List.mem_cons_self)⟩

theorem ignoreBlanks_shown (e : Line) : ignoreBlanks (shown e) = shown e := by
  obtain ⟨d, l, hd, hdig⟩ := shown_eq_cons e
  refine ignoreBlanks_of_head fun c hc => ?_
  rw [hd, List.head?_cons, Option.mem_some_iff] at hc
  exact hc ▸ isBlank_of_isDigit hdig

theorem numbered_shown (h : Proper e) : numbered (shown e) = e := by
  have hval : readOn 10 0 (numeral 10 e.1) = e.1 := by rw [readOn_zero, value_numeral]
  have htest : testnum (shown e) = (e.1, SPACE :: e.2) := by
    rw [testnum, ignoreBlanks_shown, shown, digits, testnumFrom_digits (numeral_lt (by decide)) (by rw [hval]; exact h.number.2), hval]
    rfl
  rw [numbered, htest]
  refine Prod.ext rfl ?_
  exact ignoreBlanks_of_head h.starts

end Digits

section Printing

theorem pushDigits_spec {fuel num : Nat} (hnum : num < 10 ^ (fuel + 1)) (hsp : fuel + 1 ≤ sp) :
    ∃ q m', pushDigits (fuel + 1) num sp m = some (q, m') ∧ q + (digits num).length = sp ∧ Holds m' q (digits num) ∧
      ∀ x, x < sp - (fuel + 1) ∨ sp ≤ x → m' x = m x := by
  induction fuel generalizing num sp m with
  | zero =>
      have hdigits : digits num = [UInt8.ofNat (num + 48)] := by rw [digits, numeral_of_lt (by omega)]; rfl
      refine ⟨sp - 1, Function.update m (sp - 1) (UInt8.ofNat (num % 10 + 48)), ?_, ?_, ?_, fun x hx =>
        Function.update_of_ne (by omega) _ _⟩
      · rw [pushDigits]
        exact if_neg (by omega)
      · rw [hdigits, List.length_singleton]
        omega
      · rw [hdigits, Nat.mod_eq_of_lt (by omega)]
        exact ⟨Function.update_self _ _ _, trivial⟩
  | succ fuel ih =>
      rw [pushDigits]
      by_cases hlt : num < 10
      · have hdigits : digits num = [UInt8.ofNat (num + 48)] := by rw [digits, numeral_of_lt hlt]; rfl
        refine ⟨sp - 1, Function.update m (sp - 1) (UInt8.ofNat (num % 10 + 48)), if_neg (by omega), ?_, ?_, fun x hx =>
          Function.update_of_ne (by omega) _ _⟩
        · rw [hdigits, List.length_singleton]
          omega
        · rw [hdigits, Nat.mod_eq_of_lt hlt]
          exact ⟨Function.update_self _ _ _, trivial⟩
      · have hdigits : digits num = digits (num / 10) ++ [UInt8.ofNat (num % 10 + 48)] := by
          rw [digits, numeral_of_le (by decide) (by omega), List.map_append]
          rfl
        have hnum' : num / 10 < 10 ^ (fuel + 1) := by
          rw [Nat.pow_succ] at hnum
          omega
        have hsp' : fuel + 1 ≤ sp - 1 := by omega
        obtain ⟨q, m', hpush, hq, hm', hkeep⟩ := ih
          (m := Function.update m (sp - 1) (UInt8.ofNat (num % 10 + 48))) hnum' hsp'
        refine ⟨q, m', (if_pos (by omega)).trans hpush, ?_, ?_, fun x hx => ?_⟩
        · rw [hdigits, List.length_append, List.length_singleton]
          omega
        · rw [hdigits, holds_append, hq]
          refine ⟨hm', ?_, trivial⟩
          rw [hkeep (sp - 1) (.inr (Nat.le_refl _)), Function.update_self]
        · rw [hkeep x (by omega), Function.update_of_ne (by omega)]

theorem printnum_spec (hn : n < 10 ^ 10) (hsp : 10 ≤ sp) :
    ∃ m', printnum n sp m = some (digits n, m') ∧ ∀ x, x < sp - 10 → m' x = m x := by
  obtain ⟨q, m', hpush, hq, hm', hkeep⟩ := pushDigits_spec (m := m) hn hsp
  refine ⟨m', ?_, fun x hx => hkeep x (.inl hx)⟩
  rw [printnum, hpush, Option.map_some]
  change some (slice m' q (sp - q), m') = _
  rw [show sp - q = (digits n).length by omega, hm'.slice_eq]

theorem printline_spec (he : Proper e) (hm : Holds m p (record e)) (heven : p % 2 = 0)
    (hsp : p + lineSize e.2 + 10 ≤ sp) (hram : p + lineSize e.2 ≤ basicRamSize) :
    ∃ m', printline sp p m = some (shown e ++ [NL], p + lineSize e.2, m') ∧ ∀ x, x < sp - 10 → m' x = m x := by
  obtain ⟨m', hprint, hkeep⟩ := printnum_spec (n := e.1) (m := m)
    (by have := he.number.2; omega) (by omega : 10 ≤ sp)
  have hrec : Holds m' p (record e) := hm.congr fun x _ hx => hkeep x (by rw [length_record] at hx; omega)
  have htext := holds_text hrec
  have hsize := le_lineSize e.2
  have hNL : NL ∉ e.2 := fun hmem => (he.plain NL hmem).1 rfl
  have hread := text_of_holds htext (by rw [List.length_append, List.length_singleton]; omega)
  rw [List.append_assoc, List.singleton_append] at hread
  refine ⟨m', ?_, hkeep⟩
  have hnext : alignUp (p + 3 + e.2.length + 1) = p + lineSize e.2 := by
    rw [alignUp, lineSize, padding]
    split
    · rw [List.length_nil]
      omega
    · rw [List.length_singleton]
      omega
  rw [printline, he.lineNumber hm, hprint, Option.bind_some]
  simp only [hread, idxOf_append hNL, Option.map_some, hnext, (holds_append.mp htext).1.slice_eq]
  simp only [shown, List.append_assoc]

theorem printlines_spec {fuel : Nat} (hL : ∀ e ∈ L, Proper e) (hm : Holds s.program p (encode L)) (heven : p % 2 = 0)
    (hend : p + (encode L).length = s.programEnd) (hroom : s.programEnd + 10 ≤ sp) (hsp : sp ≤ basicRamSize)
    (hfuel : L.length < fuel) :
    ∃ s', printlines sp fuel p s = some (L.flatMap fun e => shown e ++ [NL], s') ∧ s'.programEnd = s.programEnd ∧
      ∀ x, x < s.programEnd → s'.program x = s.program x := by
  induction L generalizing p fuel s with
  | nil =>
      obtain ⟨fuel, rfl⟩ := Nat.exists_eq_succ_of_ne_zero (Nat.ne_zero_of_lt hfuel)
      have hend' : p = s.programEnd := hend
      exact ⟨s, by rw [printlines, if_pos hend']; rfl, rfl, fun _ _ => rfl⟩
  | cons e L ih =>
      obtain ⟨fuel, rfl⟩ := Nat.exists_eq_succ_of_ne_zero (Nat.ne_zero_of_lt hfuel)
      obtain ⟨he, hL⟩ := List.forall_mem_cons.mp hL
      rw [encode_cons, holds_append, length_record] at hm
      rw [encode_cons, List.length_append, length_record] at hend
      have hsize := le_lineSize e.2
      have heven' := lineSize_even e.2
      obtain ⟨m', hline, hkeep⟩ := printline_spec he hm.1 heven
        (by omega : p + lineSize e.2 + 10 ≤ sp) (by omega)
      obtain ⟨s', hrest, hend', hkeep'⟩ := ih (s := { s with program := m' }) (p := p + lineSize e.2) hL
        (hm.2.congr fun x _ hx => hkeep x (by omega)) (by omega) (by change _ = s.programEnd; omega) hroom
        (Nat.lt_of_succ_lt_succ hfuel)
      refine ⟨s', ?_, hend', fun x hx => (hkeep' x hx).trans (hkeep x (by omega))⟩
      rw [printlines, if_neg (by omega), hline, Option.bind_some]
      simp only [hrest, Option.map_some, List.flatMap_cons]

/-- `LIST` prints the lines from the number on that it is given, and leaves the program as it is. -/
theorem list_spec (h : Represents s L) (hroom : s.programEnd + 10 ≤ sp) (hsp : sp ≤ basicRamSize) (n : Nat) :
    ∃ s', list n sp s = some ((atLeast n L).flatMap fun e => shown e ++ [NL], s') ∧ Represents s' L := by
  have hcut := h.sorted.below_append_atLeast n
  have hm := h.holds
  have hend := h.ends
  rw [← hcut, encode_append, holds_append, Nat.zero_add] at hm
  rw [← hcut, encode_append, List.length_append] at hend
  have hlen := length_le_encode (atLeast n L)
  have heven := length_encode_even (below n L)
  have hproper : ∀ e ∈ atLeast n L, Proper e := fun e he => h.proper e (List.mem_of_mem_filter he)
  obtain ⟨s', hprint, hend', hkeep⟩ := printlines_spec hproper hm.2 heven hend.symm hroom hsp
    (by omega : (atLeast n L).length < basicRamSize + 1)
  refine ⟨s', ?_, h.congr hend' hkeep⟩
  rw [list, findline_spec h (by omega), Option.bind_some, hprint]

theorem variablesBegin_le : variablesBegin + 10 ≤ basicRamSize := by decide

theorem list_all (h : Represents s L) (hroom : (encode L).length + 4 ≤ variablesBegin) :
    ∃ s', list 0 basicRamSize s = some (L.flatMap fun e => shown e ++ [NL], s') := by
  have hvb := variablesBegin_le
  have hends := h.ends
  have hall : atLeast 0 L = L := List.filter_eq_self.mpr fun e _ => by simp
  obtain ⟨s', hlist, -⟩ := list_spec h (by omega) (Nat.le_refl _) 0
  exact ⟨s', by rw [hlist, hall]⟩

end Printing

section RoundTrip

theorem edit_plain {l k : List UInt8} (hk : ∀ c ∈ k, Plain c) : k.foldl editKey l = l ++ k := by
  induction k generalizing l with
  | nil => exact (List.append_nil l).symm
  | cons c k ih =>
      obtain ⟨hc, hk⟩ := List.forall_mem_cons.mp hk
      rw [List.foldl_cons, editKey, if_neg hc.2.2.2, ih hk, List.append_assoc]
      rfl

theorem typeable_plain {room : Nat} {l k : List UInt8} (hk : ∀ c ∈ k, Plain c) (hlen : l.length + k.length ≤ room) :
    Typeable room l k := by
  induction k generalizing l with
  | nil => trivial
  | cons c k ih =>
      obtain ⟨hc, hk⟩ := List.forall_mem_cons.mp hk
      rw [List.length_cons] at hlen
      refine ⟨⟨hc.1, hc.2.1, hc.2.2.1⟩, ?_, ?_⟩
      · rw [if_neg hc.2.2.2]
        omega
      · rw [editKey, if_neg hc.2.2.2]
        refine ih hk ?_
        rw [List.length_append, List.length_singleton]
        omega

theorem plain_shown (h : Proper e) : ∀ c ∈ shown e, Plain c := by
  refine List.forall_mem_append.mpr ⟨fun c hc => ?_, List.forall_mem_cons.mpr ⟨by decide, h.plain⟩⟩
  have hdig := isDigit_digits hc
  simp only [isDigit, decide_eq_true_eq, UInt8.le_iff_toNat_le] at hdig
  refine ⟨?_, ?_, ?_, ?_⟩ <;>
  · rintro rfl
    exact absurd hdig.1 (by decide)

theorem lineOf_shown (h : Proper e) : lineOf (shown e) = e := by
  have hedit : edit (shown e) = shown e := edit_plain (plain_shown h)
  have hupper : toUppercase 0 (shown e) = shown e := by
    have happ : shown e = (digits e.1 ++ [SPACE]) ++ e.2 := by rw [List.append_assoc]; rfl
    rw [happ, toUppercase_append, h.upper]
    refine List.forall_mem_append.mpr ⟨fun c hc => .inl (isDigit_digits hc), List.forall_mem_singleton.mpr (.inr rfl)⟩
  rw [lineOf, hedit, hupper, numbered_shown h]

theorem length_digits_le (h : n < 65530) : (digits n).length ≤ 5 := by
  rw [digits, List.length_map]
  exact (numeral_length_le_iff (by decide) (by decide)).mpr (by omega)

theorem enterListing_last (h : Sorted (M ++ [e])) (he : Proper e) : enterListing e M = M ++ [e] := by
  obtain ⟨-, -, hlt⟩ := List.pairwise_append.mp h
  have hbelow : below e.1 M = M := List.filter_eq_self.mpr fun f hf => by simpa using hlt f hf e (by simp)
  have habove : above e.1 M = [] := List.filter_eq_nil_iff.mpr fun f hf => by
    simpa using Nat.le_of_lt (hlt f hf e (by simp))
  have hn := he.number
  rw [enterListing, if_neg (by omega), if_neg he.text, enter, hbelow, habove]

theorem along_shown (hsorted : Sorted (M ++ L)) (hproper : ∀ e ∈ M ++ L, Proper e)
    (hroom : (encode (M ++ L)).length + 6 ≤ variablesBegin) :
    Along (fun keys L => some (enterListing (lineOf keys) L)) Accepts (L.map shown) M ∧
      (L.map shown).foldl (fun L keys => enterListing (lineOf keys) L) M = M ++ L := by
  induction L generalizing M with
  | nil => exact ⟨trivial, (List.append_nil M).symm⟩
  | cons e L ih =>
      have he := hproper e (by simp)
      have happ : M ++ e :: L = (M ++ [e]) ++ L := by rw [List.append_assoc]; rfl
      have hsorted' : Sorted (M ++ [e]) := hsorted.sublist (by rw [happ]; exact List.sublist_append_left _ _)
      have hlast := enterListing_last hsorted' he
      rw [happ] at hsorted hproper hroom ⊢
      obtain ⟨ha, hfold⟩ := ih hsorted hproper hroom
      rw [List.map_cons, List.foldl_cons, Along, lineOf_shown he, hlast]
      refine ⟨⟨⟨?_, ?_, ?_⟩, fun t ht => by cases ht; exact ha⟩, hfold⟩
      · refine typeable_plain (plain_shown he) ?_
        have hdig := length_digits_le he.number.2
        have hsize := le_lineSize e.2
        rw [encode_append, encode_append, encode_cons, List.length_append, List.length_append, List.length_append,
          length_record] at hroom
        rw [shown, List.length_append, List.length_cons, List.length_nil]
        omega
      · rw [lineOf_shown he]
        exact Nat.pos_iff_ne_zero.mp he.number.1
      · rw [lineOf_shown he]
        refine .inr (.inr ⟨he.length, ?_⟩)
        rw [encode_append, List.length_append] at hroom
        rw [hlast]
        omega

variable {lines : List (List UInt8)}

/-- `LIST` shows the lines from a number on, of all that were typed, in the order of their numbers. -/
theorem list_lines (m : Program)
    (ha : Along (fun keys L => some (enterListing (lineOf keys) L)) Accepts lines []) :
    ∃ s L, run typeKeys lines ⟨m, 0⟩ = some s ∧ Sorted L ∧ lookup L = lines.foldl assign (fun _ => none) ∧
      ∀ n, ∃ s', list n basicRamSize s = some ((atLeast n L).flatMap fun e => shown e ++ [NL], s') ∧ Represents s' L := by
  have hvb := variablesBegin_le
  obtain ⟨s, hrun, hrep, hroom⟩ := run_lines (represents_empty m) (by decide) ha
  refine ⟨s, _, hrun, hrep.sorted, lookup_lines ha, fun n => list_spec hrep ?_ (Nat.le_refl _) n⟩
  rw [hrep.ends]
  omega

theorem list_lines_three : ∃ s L, run typeKeys threeLines ⟨fun _ => 0, 0⟩ = some s ∧ Sorted L ∧
    lookup L = threeLines.foldl assign (fun _ => none) ∧
    ∀ n, ∃ s', list n basicRamSize s = some ((atLeast n L).flatMap fun e => shown e ++ [NL], s') ∧ Represents s' L :=
  list_lines _ (by decide)

/-- Typing what `LIST` has printed into an empty memory makes the same program again, byte for byte. -/
theorem list_type (m m' : Program)
    (ha : Along (fun keys L => some (enterListing (lineOf keys) L)) Accepts lines []) (hr : run typeKeys lines ⟨m, 0⟩ = some s)
    (hroom : s.programEnd + 6 ≤ variablesBegin) :
    ∃ lines' s₁ s₂, list 0 basicRamSize s = some (lines'.flatMap fun l => l ++ [NL], s₁) ∧
      run typeKeys lines' ⟨m', 0⟩ = some s₂ ∧ s₂.programEnd = s.programEnd ∧
      slice s₂.program 0 s₂.programEnd = slice s.program 0 s.programEnd := by
  obtain ⟨t, hrun, h, hfits⟩ := run_lines (represents_empty m) (by decide) ha
  cases hr.symm.trans hrun
  generalize lines.foldl (fun L keys => enterListing (lineOf keys) L) [] = L at h hfits
  obtain ⟨s₁, hlist⟩ := list_all h hfits
  obtain ⟨ha, hfold⟩ := along_shown (M := []) h.sorted h.proper (by rw [List.nil_append, ← h.ends]; exact hroom)
  obtain ⟨s₂, hrun₂, hrep, -⟩ := run_lines (represents_empty m') (by decide) ha
  rw [hfold, List.nil_append] at hrep
  refine ⟨L.map shown, s₁, s₂, ?_, hrun₂, by rw [hrep.ends, h.ends], ?_⟩
  · rw [hlist, List.flatMap_map]
  · rw [hrep.ends, h.ends, hrep.holds.slice_eq, h.holds.slice_eq]

theorem list_type_three : ∃ s lines' s₁ s₂, run typeKeys threeLines ⟨fun _ => 0, 0⟩ = some s ∧
    list 0 basicRamSize s = some (lines'.flatMap fun l => l ++ [NL], s₁) ∧
    run typeKeys lines' ⟨fun _ => 0xff, 0⟩ = some s₂ ∧ s₂.programEnd = s.programEnd ∧
    slice s₂.program 0 s₂.programEnd = slice s.program 0 s.programEnd := by
  have ha : Along (fun keys L => some (enterListing (lineOf keys) L)) Accepts threeLines [] := by decide
  obtain ⟨s, hrun, hrep, -⟩ := run_lines (represents_empty fun _ => 0) (by decide) ha
  obtain ⟨lines', s₁, s₂, h⟩ := list_type _ (fun _ => 0xff) ha hrun (by rw [hrep.ends]; decide)
  exact ⟨s, lines', s₁, s₂, hrun, h⟩

end RoundTrip

end Orion68.BasicListing
