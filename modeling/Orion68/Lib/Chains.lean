import Orion68.Lib.LinkedLists
import Mathlib.Data.List.TakeWhile

namespace Orion68.Chains

open LinkedLists

variable {α : Type} {next : α → Option α} {head : Option α} {l m k : List α}

/-- A null-terminated list with a pointer to its first node. -/
structure Chain (next : α → Option α) (head : Option α) (l : List α) : Prop where
  head_eq : head = l.head?
  seg : Seg next l none

theorem Chain.nodup (h : Chain next head l) : l.Nodup := h.seg.nodup

theorem Chain.congr {next' : α → Option α} (h : Chain next head l) (heq : ∀ a ∈ l, next' a = next a) :
    Chain next' head l := ⟨h.head_eq, h.seg.congr heq⟩

theorem Chain.tail {a : α} (h : Chain next head (a :: l)) : Chain next (next a) l := by
  have hn := h.seg.1
  rw [Option.or_none] at hn
  exact ⟨hn, h.seg.2⟩

theorem next_of_append {a : α} (h : Seg next (m ++ a :: k) none) : next a = k.head? := by
  have := (Seg.append.mp h).2.1
  rwa [Option.or_none] at this

theorem Chain.seg_drop (h : Chain next head (m ++ l)) : Seg next l none := (Seg.append.mp h.seg).2

theorem getLast?_ne_some {a : α} (ha : a ∉ m) : m.getLast? ≠ some a := fun h =>
  ha (List.mem_of_getLast? h)

variable [DecidableEq α]

theorem Chain.cons {a : α} (h : Chain next head l) (ha : a ∉ l) :
    Chain (Function.update next a head) (some a) (a :: l) := by
  refine ⟨rfl, ?_, h.seg.update_of_not_mem ha head⟩
  rw [Function.update_self, h.head_eq, Option.or_none]

/-- Makes what follows `prev`, or the list itself when there is no such node, start at `v`. -/
def relink (prev v : Option α) (next : α → Option α) : α → Option α :=
  prev.elim next fun z => Function.update next z v

theorem relink_of_not_mem {prev v : Option α} {a : α} (h : prev ≠ some a) : relink prev v next a = next a := by
  cases prev with
  | none => rfl
  | some z => exact Function.update_of_ne (fun hz => h (by rw [hz])) _ _

theorem relink_update {prev v w : Option α} {b : α} (h : prev ≠ some b) :
    relink prev v (Function.update next b w) = Function.update (relink prev v next) b w := by
  cases prev with
  | none => rfl
  | some z => exact Function.update_comm (fun hz => h (by rw [hz])) _ _ _

theorem Chain.splice (h : Chain next head (m ++ l)) (hk : Seg next k none) (hd : ∀ z ∈ m, z ∉ k) :
    Chain (relink m.getLast? k.head? next) (if m = [] then k.head? else head) (m ++ k) := by
  cases m using List.reverseRecOn with
  | nil => exact ⟨rfl, hk⟩
  | append_singleton m z =>
      have hz : z ∉ m := by
        have hn := (List.nodup_append.mp h.nodup).1
        exact fun hm => (List.nodup_append.mp hn).2.2 z hm z (by simp) rfl
      rw [List.getLast?_append, List.getLast?_singleton, Option.some_or]
      refine ⟨?_, Seg.append.mpr ⟨?_, hk.update_of_not_mem (hd z (by simp)) _⟩⟩
      · rw [if_neg (by simp), h.head_eq]
        cases m <;> rfl
      · rw [Option.or_none]
        exact (Seg.append.mp h.seg).1.redirect hz _

theorem Chain.skip {p : α} (h : Chain next head (m ++ p :: (k ++ l))) :
    Chain (Function.update next p l.head?) head (m ++ p :: l) := by
  have h' : Chain next head ((m ++ [p]) ++ (k ++ l)) := by simpa using h
  have hd := (List.nodup_append.mp h'.nodup).2.2
  have hl : Seg next l none := (Seg.append.mp h'.seg_drop).2
  have := h'.splice hl fun z hz hzl => hd z hz z (List.mem_append_right k hzl) rfl
  simpa [relink] using this

theorem Chain.insert {b : α} (h : Chain next head (m ++ l)) (hb : b ∉ m ++ l) :
    Chain (Function.update (relink m.getLast? (some b) next) b l.head?) (if m = [] then some b else head)
      (m ++ b :: l) := by
  have hm := fun hm => hb (List.mem_append_left l hm)
  have hl := fun hl => hb (List.mem_append_right m hl)
  have hd := (List.nodup_append.mp h.nodup).2.2
  have h' : Chain (Function.update next b l.head?) head (m ++ l) :=
    h.congr fun a ha => Function.update_of_ne (ne_of_mem_of_not_mem ha hb) _ _
  have hk : Seg (Function.update next b l.head?) (b :: l) none :=
    ⟨by rw [Function.update_self, Option.or_none], h'.seg_drop⟩
  rw [← relink_update (getLast?_ne_some hm)]
  refine h'.splice hk fun z hz hzk => ?_
  rcases List.mem_cons.mp hzk with rfl | hzl
  · exact hm hz
  · exact hd z hz z hzl rfl

section Traversals

omit [DecidableEq α]

/-- `while (p) { if (stop(p)) break; prev = p; p = p->next; }`: `prev` and `p` at the end. `none` when
the end has not come after `fuel` rounds. -/
def search (next : α → Option α) (stop : α → Bool) : Nat → Option α → Option α → Option (Option α × Option α)
  | 0, _, _ => none
  | _ + 1, prev, none => some (prev, none)
  | fuel + 1, prev, some p => if stop p then some (prev, some p) else search next stop fuel (some p) (next p)

/-- `while (p) { num++; p = p->next; }`. -/
def count (next : α → Option α) : Nat → Option α → Option Nat
  | 0, _ => none
  | _ + 1, none => some 0
  | fuel + 1, some p => (count next fuel (next p)).map (· + 1)

theorem search_eq (stop : α → Bool) {fuel : Nat} {prev : Option α} (h : Chain next head l) (hf : l.length < fuel) :
    search next stop fuel prev head = some ((l.takeWhile fun a => !stop a).getLast?.or prev,
      (l.dropWhile fun a => !stop a).head?) := by
  induction l generalizing head prev fuel with
  | nil =>
      obtain ⟨fuel, rfl⟩ := Nat.exists_eq_succ_of_ne_zero (by omega : fuel ≠ 0)
      rw [h.head_eq]
      rfl
  | cons a l ih =>
      obtain ⟨fuel, rfl⟩ := Nat.exists_eq_succ_of_ne_zero (by omega : fuel ≠ 0)
      rw [h.head_eq, List.head?_cons, search]
      cases ha : stop a with
      | true => simp [ha]
      | false =>
          rw [if_neg Bool.false_ne_true, ih h.tail (by simpa using hf)]
          simp only [List.takeWhile_cons, List.dropWhile_cons, ha, Bool.not_false, if_true, List.getLast?_cons]
          cases (l.takeWhile fun a => !stop a).getLast? <;> rfl

theorem Chain.search_cases (stop : α → Bool) {fuel : Nat} (h : Chain next head l) (hf : l.length < fuel) :
    (∃ m b n, l = m ++ b :: n ∧ (∀ a ∈ m, stop a = false) ∧ stop b = true ∧
      search next stop fuel none head = some (m.getLast?, some b)) ∨
    ((∀ a ∈ l, stop a = false) ∧ search next stop fuel none head = some (l.getLast?, none)) := by
  have hs : search next stop fuel none head = some ((l.takeWhile fun a => !stop a).getLast?.or none,
    (l.dropWhile fun a => !stop a).head?) := search_eq stop h hf
  have hl : (l.takeWhile fun a => !stop a) ++ (l.dropWhile fun a => !stop a) = l :=
    List.takeWhile_append_dropWhile
  have hm : ∀ a ∈ l.takeWhile fun a => !stop a, stop a = false := fun a ha => by
    simpa using List.mem_takeWhile_imp ha
  rw [Option.or_none] at hs
  cases hd : l.dropWhile fun a => !stop a with
  | nil =>
      right
      rw [hd, List.append_nil] at hl
      rw [hd, hl] at hs
      exact ⟨fun a ha => hm a (hl.symm ▸ ha), hs⟩
  | cons b n =>
      left
      have hb : stop b = true := by
        have := List.head_dropWhile_not (fun a => !stop a) (l := l) (by simp [hd])
        simpa [hd] using this
      rw [hd] at hl hs
      exact ⟨_, b, n, hl.symm, hm, hb, hs⟩

theorem count_eq {fuel : Nat} (h : Chain next head l) (hf : l.length < fuel) :
    count next fuel head = some l.length := by
  induction l generalizing head fuel with
  | nil =>
      obtain ⟨fuel, rfl⟩ := Nat.exists_eq_succ_of_ne_zero (by omega : fuel ≠ 0)
      rw [h.head_eq]
      rfl
  | cons a l ih =>
      obtain ⟨fuel, rfl⟩ := Nat.exists_eq_succ_of_ne_zero (by omega : fuel ≠ 0)
      rw [h.head_eq, List.head?_cons, count, ih h.tail (by simpa using hf)]
      rfl

end Traversals

end Orion68.Chains
