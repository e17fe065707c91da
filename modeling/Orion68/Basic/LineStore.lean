import Orion68.Basic.Entering
import Orion68.Lib.Numerals
import Orion68.Lib.Runs

namespace Orion68.BasicLineStore

open Slices SortedMaps Numerals Runs TinyBasicPlus BasicLines BasicEntering

variable {s : Store} {m : Program} {L : Listing} {l keys r : List UInt8} {e p sp n : Nat}

section Typing

def editKey (l : List UInt8) (c : UInt8) : List UInt8 := if c = CTRLH then l.dropLast else l ++ [c]

/-- The line that stands there when the keys have been typed. -/
def edit (keys : List UInt8) : List UInt8 := keys.foldl editKey []

/-- Keys that can be typed after the line `l`: none of them ends it, nothing is taken back from an empty
line (`getln` would go on in front of it, and the character typed there is lost), and it does not get longer
than `room`. -/
def Typeable (room : Nat) : List UInt8 → List UInt8 → Prop
  | _, [] => True
  | l, c :: keys =>
      (c ≠ NL ∧ c ≠ CR ∧ c ≠ ESC) ∧ (if c = CTRLH then l ≠ [] else l.length < room) ∧
        Typeable room (editKey l c) keys

instance Typeable.decidable (room : Nat) : (l keys : List UInt8) → Decidable (Typeable room l keys)
  | _, [] => .isTrue trivial
  | l, c :: keys =>
      have := Typeable.decidable room (editKey l c) keys
      inferInstanceAs (Decidable (_ ∧ _ ∧ _))

theorem Typeable.edit {room : Nat} (h : Typeable room l keys) (hlen : l.length ≤ room) (hl : ∀ c ∈ l, Plain c) :
    (keys.foldl editKey l).length ≤ room ∧ ∀ c ∈ keys.foldl editKey l, Plain c := by
  induction keys generalizing l with
  | nil => exact ⟨hlen, hl⟩
  | cons c keys ih =>
      obtain ⟨⟨hNL, hCR, hESC⟩, hc, h⟩ := h
      rw [List.foldl_cons]
      rw [editKey] at h ⊢
      by_cases hback : c = CTRLH
      · rw [if_pos hback] at h ⊢
        refine ih h ?_ fun a ha => hl a (List.mem_of_mem_dropLast ha)
        rw [List.length_dropLast]
        omega
      · rw [if_neg hback] at h hc ⊢
        refine ih h (by rw [List.length_append]; exact hc) fun a ha => ?_
        rcases List.mem_append.mp ha with ha | ha
        · exact hl a ha
        · rw [List.mem_singleton.mp ha]
          exact ⟨hNL, hCR, hESC, hback⟩

theorem getlnFrom_spec {room : Nat} (hroom : e + 4 + room = variablesBegin) (h : Typeable room l keys)
    (hlen : l.length ≤ room) (hl : Holds m (e + 2) l) :
    ∃ out m', getlnFrom e (e + 2 + l.length) (keys ++ CR :: r) m = some (false, r, out, m') ∧
      Holds m' (e + 2) (keys.foldl editKey l ++ [NL]) ∧ ∀ x, x < e + 2 → m' x = m x := by
  induction keys generalizing l m with
  | nil =>
      refine ⟨[NL], Function.update m (e + 2 + l.length) NL, ?_, ?_, fun x hx => Function.update_of_ne (by omega) _ _⟩
      · rw [List.nil_append, getlnFrom, if_neg (by decide), if_pos (.inr rfl)]
      · rw [List.foldl_nil, holds_append]
        exact ⟨hl.update (.inr (Nat.le_refl _)), Function.update_self _ _ _, trivial⟩
  | cons c keys ih =>
      obtain ⟨⟨hNL, hCR, hESC⟩, hc, h⟩ := h
      rw [List.cons_append, getlnFrom, if_neg hESC, if_neg (not_or.mpr ⟨hNL, hCR⟩), List.foldl_cons]
      rw [editKey] at h ⊢
      by_cases hback : c = CTRLH
      · rw [if_pos hback] at h hc ⊢
        obtain ⟨a, l, rfl⟩ : ∃ a l', l = l' ++ [a] := ⟨_, _, (List.dropLast_append_getLast hc).symm⟩
        rw [List.dropLast_concat] at h ⊢
        rw [List.length_append, List.length_singleton] at hlen ⊢
        obtain ⟨out, m', hget, hm, hkeep⟩ := ih h (by omega) (holds_append.mp hl).1
        rw [if_pos hback, if_neg (by omega), show e + 2 + (l.length + 1) - 1 = e + 2 + l.length by omega, hget]
        exact ⟨_, m', rfl, hm, hkeep⟩
      · rw [if_neg hback] at h hc ⊢
        have hl' : Holds (Function.update m (e + 2 + l.length) c) (e + 2) (l ++ [c]) := by
          rw [holds_append]
          exact ⟨hl.update (.inr (Nat.le_refl _)), Function.update_self _ _ _, trivial⟩
        obtain ⟨out, m', hget, hm, hkeep⟩ := ih h (by rw [List.length_append]; exact hc) hl'
        rw [List.length_append, List.length_singleton, ← Nat.add_assoc] at hget
        rw [if_neg hback, if_neg (by omega), hget]
        refine ⟨_, m', rfl, hm, fun x hx => ?_⟩
        rw [hkeep x hx, Function.update_of_ne (by omega)]

end Typing

section Runs

def lineOf (keys : List UInt8) : Line := numbered (toUppercase 0 (edit keys))

/-- A line of the program is typed, there is room for it while it is typed and when it is stored, and it
is not too long. -/
def Accepts (keys : List UInt8) (L : Listing) : Prop :=
  Typeable (variablesBegin - 4 - (encode L).length) [] keys ∧ (lineOf keys).1 ≠ 0 ∧ Fits (lineOf keys) L

instance (keys : List UInt8) (L : Listing) : Decidable (Accepts keys L) := inferInstanceAs (Decidable (_ ∧ _ ∧ _))

def typeKeys (keys : List UInt8) (s : Store) : Option Store := (typeLine (keys ++ [CR]) s).map Prod.snd

theorem Represents.roomy_enter {e : Line} (hroom : (encode L).length + 4 ≤ variablesBegin) (h : Fits e L) :
    (encode (enterListing e L)).length + 4 ≤ variablesBegin := by
  rcases h with h0 | hffff | ⟨-, hsize⟩
  · rw [enterListing, if_pos (.inl h0)]
    exact hroom
  · rw [enterListing, if_pos (.inr hffff)]
    exact hroom
  · exact hsize

theorem typeLine_spec (h : Represents s L) (hroom : (encode L).length + 4 ≤ variablesBegin)
    (hkeys : Typeable (variablesBegin - 4 - (encode L).length) [] keys) (hfits : Fits (lineOf keys) L) :
    ∃ s', typeLine (keys ++ [CR]) s = some (some (entryOf (lineOf keys)), s') ∧
      Represents s' (enterListing (lineOf keys) L) := by
  obtain ⟨hlen, hplain⟩ := hkeys.edit (Nat.zero_le _) (List.forall_mem_nil _)
  have hends := h.ends
  obtain ⟨out, m', hget, hm, hkeep⟩ := getlnFrom_spec (r := []) (m := s.program) (e := s.programEnd)
    (by omega) hkeys (Nat.zero_le _) trivial
  have hrep : Represents { s with program := m' } L := h.congr rfl fun x hx => hkeep x (by omega)
  obtain ⟨s', hline, hrep'⟩ := enterLine_spec (s := { s with program := m' }) hrep hm hplain
    (by change s.programEnd + _ + 4 ≤ _; omega) hfits
  refine ⟨s', ?_, hrep'⟩
  have hget' : getln 62 (keys ++ [CR]) s = some (false, [], 62 :: out, m') := by
    rw [getln]
    exact congrArg (Option.map _) hget
  rw [typeLine, hget', Option.bind_some]
  simp only [Bool.false_eq_true, if_false, hline]
  rfl

theorem run_lines {lines : List (List UInt8)} (h : Represents s L) (hroom : (encode L).length + 4 ≤ variablesBegin)
    (ha : Along (fun keys L => some (enterListing (lineOf keys) L)) Accepts lines L) :
    ∃ s', run typeKeys lines s = some s' ∧
      Represents s' (lines.foldl (fun L keys => enterListing (lineOf keys) L) L) ∧
      (encode (lines.foldl (fun L keys => enterListing (lineOf keys) L) L)).length + 4 ≤ variablesBegin := by
  induction lines generalizing s L with
  | nil => exact ⟨s, rfl, h, hroom⟩
  | cons keys lines ih =>
      obtain ⟨⟨hkeys, -, hfits⟩, ha⟩ := ha
      obtain ⟨s₁, hline, h₁⟩ := typeLine_spec h hroom hkeys hfits
      obtain ⟨s', hrun, h'⟩ := ih h₁ (Represents.roomy_enter hroom hfits) (ha _ rfl)
      refine ⟨s', ?_, h'⟩
      rw [run_cons_of_step (t := s₁) (by rw [typeKeys, hline]; rfl), hrun]

/-- What is known of a line is the text that was last typed for its number. -/
def assign (texts : Nat → Option (List UInt8)) (keys : List UInt8) : Nat → Option (List UInt8) :=
  let e := lineOf keys
  if e.1 = 0xffff then texts else Function.update texts e.1 (if e.2 = [] then none else some e.2)

theorem lookup_enterListing {e : Line} (h0 : e.1 ≠ 0) :
    lookup (enterListing e L) =
      if e.1 = 0xffff then lookup L else Function.update (lookup L) e.1 (if e.2 = [] then none else some e.2) := by
  rw [enterListing]
  by_cases hffff : e.1 = 0xffff
  · rw [if_pos (.inr hffff), if_pos hffff]
  · rw [if_neg (not_or.mpr ⟨h0, hffff⟩), if_neg hffff]
    by_cases ht : e.2 = []
    · rw [if_pos ht, if_pos ht, lookup_remove]
    · rw [if_neg ht, if_neg ht, lookup_enter]

theorem lookup_lines {lines : List (List UInt8)}
    (ha : Along (fun keys L => some (enterListing (lineOf keys) L)) Accepts lines L) :
    lookup (lines.foldl (fun L keys => enterListing (lineOf keys) L) L) = lines.foldl assign (lookup L) := by
  induction lines generalizing L with
  | nil => rfl
  | cons keys lines ih =>
      obtain ⟨⟨-, h0, -⟩, ha⟩ := ha
      rw [List.foldl_cons, List.foldl_cons, ih (ha _ rfl), lookup_enterListing h0]
      rfl

theorem represents_empty (m : Program) : Represents ⟨m, 0⟩ [] :=
  ⟨trivial, rfl, List.Pairwise.nil, List.forall_mem_nil _⟩

/-- The program memory refines a map from numbers to texts: after any lines have been typed it holds the
lines of the map in the order of their numbers, and nothing else. -/
theorem store_lines (m : Program) {lines : List (List UInt8)}
    (ha : Along (fun keys L => some (enterListing (lineOf keys) L)) Accepts lines []) :
    ∃ s, run typeKeys lines ⟨m, 0⟩ = some s ∧
      ∃ L, Represents s L ∧ lookup L = lines.foldl assign fun _ => none := by
  obtain ⟨s, hrun, hrep, -⟩ := run_lines (represents_empty m) (by decide) ha
  exact ⟨s, hrun, _, hrep, lookup_lines ha⟩

/-- `10 LET`, with the `T` typed twice and taken back once, `5 ?"a`, and line 10 again, empty. -/
def threeLines : List (List UInt8) := [[49, 48, 32, 108, 101, 116, 116, 8], [53, 63, 34, 97], [49, 48]]

theorem store_lines_three : ∃ s, run typeKeys threeLines ⟨fun _ => 0, 0⟩ = some s ∧
    ∃ L, Represents s L ∧ lookup L = threeLines.foldl assign fun _ => none :=
  store_lines _ (by decide)

end Runs

end Orion68.BasicLineStore
