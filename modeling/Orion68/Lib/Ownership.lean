import Mathlib.Logic.Function.Basic
import Mathlib.Tactic.Common

namespace Orion68.Ownership

variable {α ι : Type}

/-- Allocated cells. Every pointer from `next` on is fresh, so no pointer is given out twice. -/
structure Heap (α : Type) where
  cell : Nat → Option α
  next : Nat
  fresh : ∀ p, next ≤ p → cell p = none

namespace Heap

def empty : Heap α := ⟨fun _ => none, 0, fun _ _ => rfl⟩

def alloc (h : Heap α) (a : α) : Heap α where
  cell := Function.update h.cell h.next (some a)
  next := h.next + 1
  fresh p hp := by rw [Function.update_of_ne (by omega), h.fresh p (by omega)]

def free (h : Heap α) (p : Nat) : Heap α where
  cell := Function.update h.cell p none
  next := h.next
  fresh q hq := by
    by_cases hqp : q = p
    · simp [hqp]
    · rw [Function.update_of_ne hqp, h.fresh q hq]

def modify (h : Heap α) (p : Nat) (f : α → α) : Heap α where
  cell := Function.update h.cell p ((h.cell p).map f)
  next := h.next
  fresh q hq := by
    by_cases hqp : q = p
    · subst hqp
      simp [h.fresh q hq]
    · rw [Function.update_of_ne hqp, h.fresh q hq]

def Live (h : Heap α) (p : Nat) : Prop := (h.cell p).isSome

@[simp] theorem cell_alloc (h : Heap α) (a : α) :
    (h.alloc a).cell = Function.update h.cell h.next (some a) := rfl

@[simp] theorem cell_free (h : Heap α) (p : Nat) : (h.free p).cell = Function.update h.cell p none := rfl

@[simp] theorem cell_modify (h : Heap α) (p : Nat) (f : α → α) :
    (h.modify p f).cell = Function.update h.cell p ((h.cell p).map f) := rfl

@[simp] theorem next_free (h : Heap α) (p : Nat) : (h.free p).next = h.next := rfl

@[simp] theorem next_modify (h : Heap α) (p : Nat) (f : α → α) : (h.modify p f).next = h.next := rfl

theorem eq_of_cell {h h' : Heap α} (hc : h.cell = h'.cell) (hn : h.next = h'.next) : h = h' := by
  cases h
  cases h'
  simp_all

theorem modify_of_none {h : Heap α} {p : Nat} (hp : h.cell p = none) (f : α → α) : h.modify p f = h := by
  refine eq_of_cell ?_ rfl
  rw [cell_modify, hp, Option.map_none, ← hp, Function.update_eq_self]

theorem modify_id (h : Heap α) (p : Nat) : h.modify p (fun a => a) = h := by
  refine eq_of_cell ?_ rfl
  rw [cell_modify, Option.map_id', Function.update_eq_self]

theorem free_of_none {h : Heap α} {p : Nat} (hp : h.cell p = none) : h.free p = h := by
  refine eq_of_cell ?_ rfl
  rw [cell_free, ← hp, Function.update_eq_self]

theorem Live.of_cell {h : Heap α} {p : Nat} {a : α} (hp : h.cell p = some a) : h.Live p := by
  rw [Live, hp]
  rfl

theorem not_live_iff {h : Heap α} {p : Nat} : ¬ h.Live p ↔ h.cell p = none := by
  rw [Live, Option.not_isSome_iff_eq_none]

theorem Live.isNone_eq {h : Heap α} {p : Nat} (hp : h.Live p) : (h.cell p).isNone = false := by
  simpa [Live, Option.isSome_iff_ne_none] using hp

theorem Live.lt_next {h : Heap α} {p : Nat} (hp : h.Live p) : p < h.next := by
  by_contra hn
  simp [Live, h.fresh p (by omega)] at hp

theorem live_alloc {h : Heap α} {a : α} {p : Nat} : (h.alloc a).Live p ↔ p = h.next ∨ h.Live p := by
  by_cases hp : p = h.next <;> simp [Live, hp]

theorem live_free {h : Heap α} {p q : Nat} : (h.free p).Live q ↔ q ≠ p ∧ h.Live q := by
  by_cases hq : q = p <;> simp [Live, hq]

theorem live_modify {h : Heap α} {p q : Nat} {f : α → α} : (h.modify p f).Live q ↔ h.Live q := by
  by_cases hq : q = p <;> simp [Live, hq]

end Heap

/-- Every allocated cell has exactly one owner. -/
structure Exclusive (own : ι → Option Nat) (h : Heap α) : Prop where
  live : ∀ {i p}, own i = some p → h.Live p
  inj : ∀ {i j p}, own i = some p → own j = some p → i = j
  owned : ∀ {p}, h.Live p → ∃ i, own i = some p

namespace Exclusive

theorem empty {own : ι → Option Nat} (ho : ∀ i, own i = none) : Exclusive own (Heap.empty : Heap α) :=
  ⟨fun hi => by simp [ho] at hi, fun hi => by simp [ho] at hi, fun hp => by simp [Heap.Live, Heap.empty] at hp⟩

variable {own : ι → Option Nat} {h : Heap α} (he : Exclusive own h)
include he

theorem modify (p : Nat) (f : α → α) : Exclusive own (h.modify p f) :=
  ⟨fun hi => Heap.live_modify.mpr (he.live hi), he.inj, fun hp => he.owned (Heap.live_modify.mp hp)⟩

variable [DecidableEq ι] {i j : ι} {p : Nat}

theorem alloc (hi : own i = none) (a : α) :
    Exclusive (Function.update own i (some h.next)) (h.alloc a) := by
  refine ⟨fun {j q} hj => ?_, fun {j k q} hj hk => ?_, fun {q} hq => ?_⟩
  · rw [Heap.live_alloc]
    by_cases hji : j = i
    · subst hji
      exact .inl (by simpa [eq_comm] using hj)
    · exact .inr (he.live (by simpa [hji] using hj))
  · by_cases hji : j = i <;> by_cases hki : k = i
    · rw [hji, hki]
    · have := (he.live (show own k = some q by simpa [hki] using hk)).lt_next
      simp [hji] at hj
      omega
    · have := (he.live (show own j = some q by simpa [hji] using hj)).lt_next
      simp [hki] at hk
      omega
    · exact he.inj (by simpa [hji] using hj) (by simpa [hki] using hk)
  · rcases Heap.live_alloc.mp hq with rfl | hq
    · exact ⟨i, by simp⟩
    · obtain ⟨j, hj⟩ := he.owned hq
      have hji : j ≠ i := by
        rintro rfl
        simp [hi] at hj
      exact ⟨j, by simpa [hji] using hj⟩

theorem free (hi : own i = some p) : Exclusive (Function.update own i none) (h.free p) := by
  refine ⟨fun {j q} hj => ?_, fun {j k q} hj hk => ?_, fun {q} hq => ?_⟩
  · by_cases hji : j = i
    · simp [hji] at hj
    · rw [Function.update_of_ne hji] at hj
      refine Heap.live_free.mpr ⟨?_, he.live hj⟩
      rintro rfl
      exact hji (he.inj hj hi)
  · by_cases hji : j = i <;> by_cases hki : k = i <;> simp_all
    exact he.inj hj hk
  · obtain ⟨hqp, hq⟩ := Heap.live_free.mp hq
    obtain ⟨j, hj⟩ := he.owned hq
    have hji : j ≠ i := by
      rintro rfl
      exact hqp (by simpa [hi, eq_comm] using hj)
    exact ⟨j, by simpa [hji] using hj⟩

theorem give (hi : own i = some p) (hj : own j = none) :
    Exclusive (Function.update (Function.update own i none) j (some p)) h := by
  have hij : i ≠ j := by
    rintro rfl
    simp [hi] at hj
  refine ⟨fun {k q} hk => ?_, fun {k m q} hk hm => ?_, fun {q} hq => ?_⟩
  · by_cases hkj : k = j
    · obtain rfl : p = q := by simpa [hkj] using hk
      exact he.live hi
    · by_cases hki : k = i
      · simp [hki, hij] at hk
      · exact he.live (by simpa [hkj, hki] using hk)
  · have hown {n : ι} (hn : Function.update (Function.update own i none) j (some p) n = some q) :
        (n = j ∧ p = q) ∨ (n ≠ i ∧ own n = some q) := by
      by_cases hnj : n = j
      · exact .inl ⟨hnj, by simpa [hnj] using hn⟩
      · by_cases hni : n = i
        · simp [hni, hij] at hn
        · exact .inr ⟨hni, by simpa [hnj, hni] using hn⟩
    rcases hown hk with ⟨rfl, hp⟩ | ⟨hki, hk⟩ <;> rcases hown hm with ⟨hm', hp'⟩ | ⟨hmi, hm⟩
    · exact hm'.symm
    · exact absurd (he.inj hm (hp ▸ hi)) hmi
    · exact absurd (he.inj hk (hp' ▸ hi)) hki
    · exact he.inj hk hm
  · obtain ⟨k, hk⟩ := he.owned hq
    by_cases hki : k = i
    · obtain rfl : p = q := by simpa [hki, hi] using hk
      exact ⟨j, by simp⟩
    · have hkj : k ≠ j := by
        rintro rfl
        simp [hj] at hk
      exact ⟨k, by simpa [hkj, hki] using hk⟩

end Exclusive

end Orion68.Ownership
