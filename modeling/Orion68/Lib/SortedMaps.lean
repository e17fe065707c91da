import Mathlib.Data.List.Basic
import Mathlib.Logic.Function.Basic
import Mathlib.Data.Nat.Basic
import Mathlib.Order.Lattice

namespace Orion68.SortedMaps

variable {κ α : Type} [LinearOrder κ] {l m : List (κ × α)} {k : κ} {v : α}

/-- Entries in the order of their keys, no key twice. -/
def Sorted (l : List (κ × α)) : Prop := l.Pairwise fun a b => a.1 < b.1

def below (k : κ) (l : List (κ × α)) : List (κ × α) := l.filter fun e => e.1 < k

def atLeast (k : κ) (l : List (κ × α)) : List (κ × α) := l.filter fun e => k ≤ e.1

def above (k : κ) (l : List (κ × α)) : List (κ × α) := l.filter fun e => k < e.1

def remove (k : κ) (l : List (κ × α)) : List (κ × α) := below k l ++ above k l

def enter (k : κ) (v : α) (l : List (κ × α)) : List (κ × α) := below k l ++ (k, v) :: above k l

def lookup (l : List (κ × α)) (k : κ) : Option α := (l.find? fun e => e.1 = k).map Prod.snd

section Cuts

@[simp] theorem mem_below {e : κ × α} : e ∈ below k l ↔ e ∈ l ∧ e.1 < k := by simp [below]

@[simp] theorem mem_above {e : κ × α} : e ∈ above k l ↔ e ∈ l ∧ k < e.1 := by simp [above]

theorem Sorted.tail {e : κ × α} (h : Sorted (e :: l)) : Sorted l := (List.pairwise_cons.mp h).2

theorem Sorted.head_lt {e f : κ × α} (h : Sorted (e :: l)) (hf : f ∈ l) : e.1 < f.1 :=
  (List.pairwise_cons.mp h).1 f hf

theorem Sorted.filter_of_le {e : κ × α} (h : Sorted (e :: l)) (hk : k ≤ e.1) :
    below k (e :: l) = [] ∧ atLeast k (e :: l) = e :: l ∧ above k l = l := by
  have hlt : ∀ f ∈ l, k < f.1 := fun f hf => lt_of_le_of_lt hk (h.head_lt hf)
  refine ⟨List.filter_eq_nil_iff.mpr fun f hf => ?_, List.filter_eq_self.mpr fun f hf => ?_,
    List.filter_eq_self.mpr fun f hf => by simpa using hlt f hf⟩ <;>
  · rcases List.mem_cons.mp hf with rfl | hf
    · simpa using hk
    · simpa using (hlt f hf).le

theorem Sorted.below_append_atLeast (h : Sorted l) (k : κ) : below k l ++ atLeast k l = l := by
  induction l with
  | nil => rfl
  | cons e l ih =>
      rcases lt_or_ge e.1 k with hlt | hge
      · rw [below, atLeast, List.filter_cons_of_pos (by simpa using hlt), List.filter_cons_of_neg (by simpa using hlt),
          List.cons_append]
        exact congrArg _ (ih h.tail)
      · obtain ⟨hbelow, hat, -⟩ := h.filter_of_le hge
        rw [hbelow, hat, List.nil_append]

theorem Sorted.atLeast_cases (h : Sorted l) :
    (atLeast k l = above k l ∧ ∀ e ∈ l, e.1 ≠ k) ∨ ∃ v, atLeast k l = (k, v) :: above k l := by
  induction l with
  | nil => exact .inl ⟨rfl, List.forall_mem_nil _⟩
  | cons e l ih =>
      rcases lt_trichotomy e.1 k with hlt | heq | hgt
      · rw [atLeast, above, List.filter_cons_of_neg (by simpa using hlt), List.filter_cons_of_neg (by simpa using hlt.le)]
        refine (ih h.tail).imp_left fun ⟨heq, hne⟩ => ⟨heq, List.forall_mem_cons.mpr ⟨hlt.ne, hne⟩⟩
      · right
        obtain ⟨-, hat, habove⟩ := h.filter_of_le heq.ge
        refine ⟨e.2, ?_⟩
        rw [hat, above, List.filter_cons_of_neg (by simpa using heq.le), ← above, habove, ← heq]
      · left
        obtain ⟨-, hat, habove⟩ := h.filter_of_le hgt.le
        refine ⟨?_, List.forall_mem_cons.mpr ⟨hgt.ne', fun f hf => (hgt.trans (h.head_lt hf)).ne'⟩⟩
        rw [hat, above, List.filter_cons_of_pos (by simpa using hgt), ← above, habove]

end Cuts

section Entries

theorem Sorted.remove (h : Sorted l) (k : κ) : Sorted (remove k l) := by
  refine List.pairwise_append.mpr ⟨h.sublist List.filter_sublist, h.sublist List.filter_sublist, ?_⟩
  exact fun e he f hf => lt_trans (mem_below.mp he).2 (mem_above.mp hf).2

theorem Sorted.enter (h : Sorted l) (k : κ) (v : α) : Sorted (enter k v l) := by
  refine List.pairwise_append.mpr ⟨h.sublist List.filter_sublist, List.pairwise_cons.mpr
    ⟨fun f hf => (mem_above.mp hf).2, h.sublist List.filter_sublist⟩, fun e he f hf => ?_⟩
  have hek := (mem_below.mp he).2
  rcases List.mem_cons.mp hf with rfl | hf
  · exact hek
  · exact lt_trans hek (mem_above.mp hf).2

theorem mem_of_mem_remove {e : κ × α} (he : e ∈ SortedMaps.remove k l) : e ∈ l :=
  (List.mem_append.mp he).elim (fun h => (mem_below.mp h).1) fun h => (mem_above.mp h).1

theorem mem_enter {e : κ × α} (he : e ∈ SortedMaps.enter k v l) : e = (k, v) ∨ e ∈ l := by
  rcases List.mem_append.mp he with h | h
  · exact .inr (mem_below.mp h).1
  · exact (List.mem_cons.mp h).imp_right fun h => (mem_above.mp h).1

theorem lookup_cons (e : κ × α) (l : List (κ × α)) (j : κ) :
    lookup (e :: l) j = if e.1 = j then some e.2 else lookup l j := by
  rw [lookup, List.find?_cons]
  by_cases hj : e.1 = j <;> simp [hj, lookup]

theorem Sorted.lookup_eq {e : κ × α} (h : Sorted l) (he : e ∈ l) : lookup l e.1 = some e.2 := by
  induction l with
  | nil => cases he
  | cons f l ih =>
      rw [lookup_cons]
      rcases List.mem_cons.mp he with rfl | he
      · rw [if_pos rfl]
      · rw [if_neg (h.head_lt he).ne, ih h.tail he]

theorem mem_of_lookup (h : lookup l k = some v) : (k, v) ∈ l := by
  obtain ⟨e, he, hv⟩ := Option.map_eq_some_iff.mp h
  have hk : e.1 = k := by simpa using List.find?_some he
  rw [← hk, ← hv]
  exact List.mem_of_find?_eq_some he

theorem lookup_append (l m : List (κ × α)) (j : κ) : lookup (l ++ m) j = (lookup l j).or (lookup m j) := by
  rw [lookup, List.find?_append, Option.map_or]
  rfl

theorem lookup_filter (p : κ → Bool) (l : List (κ × α)) (j : κ) :
    lookup (l.filter fun e => p e.1) j = if p j then lookup l j else none := by
  induction l with
  | nil => simp [lookup]
  | cons e l ih =>
      rw [lookup_cons, List.filter_cons]
      by_cases hp : p e.1 = true
      · rw [if_pos hp, lookup_cons, ih]
        by_cases hj : e.1 = j
        · rw [if_pos hj, if_pos hj, if_pos (hj ▸ hp)]
        · rw [if_neg hj, if_neg hj]
      · rw [if_neg hp, ih]
        by_cases hj : e.1 = j
        · rw [if_neg (hj ▸ hp), if_neg (hj ▸ hp)]
        · rw [if_neg hj]

theorem lookup_below (k j : κ) (l : List (κ × α)) : lookup (below k l) j = if j < k then lookup l j else none := by
  simpa only [below, decide_eq_true_eq] using lookup_filter (fun i => i < k) l j

theorem lookup_above (k j : κ) (l : List (κ × α)) : lookup (above k l) j = if k < j then lookup l j else none := by
  simpa only [above, decide_eq_true_eq] using lookup_filter (fun i => k < i) l j

theorem lookup_remove (k : κ) (l : List (κ × α)) :
    lookup (SortedMaps.remove k l) = Function.update (lookup l) k none := by
  funext j
  rw [SortedMaps.remove, lookup_append, lookup_below, lookup_above]
  rcases lt_trichotomy j k with hlt | rfl | hgt
  · rw [if_pos hlt, if_neg hlt.asymm, Option.or_none, Function.update_of_ne hlt.ne]
  · rw [if_neg (lt_irrefl j), Function.update_self]
    rfl
  · rw [if_neg hgt.asymm, if_pos hgt, Function.update_of_ne hgt.ne']
    rfl

theorem lookup_enter (k : κ) (v : α) (l : List (κ × α)) :
    lookup (SortedMaps.enter k v l) = Function.update (lookup l) k (some v) := by
  funext j
  rw [SortedMaps.enter, lookup_append, lookup_cons, lookup_below, lookup_above]
  rcases lt_trichotomy j k with hlt | rfl | hgt
  · rw [if_pos hlt, if_neg hlt.ne', if_neg hlt.asymm, Option.or_none, Function.update_of_ne hlt.ne]
  · rw [if_neg (lt_irrefl j), if_pos rfl, Function.update_self]
    rfl
  · rw [if_neg hgt.asymm, if_neg hgt.ne, if_pos hgt, Function.update_of_ne hgt.ne']
    rfl

end Entries

end Orion68.SortedMaps
