import Mathlib.Data.List.Sort
import Mathlib.Tactic.Common

namespace Orion68.Regions

/-- The `size` places from `start` on. -/
structure Region where
  start : Nat
  size : Nat
  deriving DecidableEq, Repr

namespace Region

def stop (r : Region) : Nat := r.start + r.size

instance : Membership Nat Region := ⟨fun r x => r.start ≤ x ∧ x < r.stop⟩

theorem mem_iff {r : Region} {x : Nat} : x ∈ r ↔ r.start ≤ x ∧ x < r.stop := Iff.rfl

def Apart (r s : Region) : Prop := r.stop ≤ s.start ∨ s.stop ≤ r.start

theorem Apart.symm {r s : Region} (h : r.Apart s) : s.Apart r := Or.symm h

theorem start_mem {r : Region} (h : 0 < r.size) : r.start ∈ r := by
  rw [mem_iff, stop]
  omega

theorem apart_iff {r s : Region} (hr : 0 < r.size) (hs : 0 < s.size) :
    r.Apart s ↔ ∀ x, x ∈ r → x ∉ s := by
  constructor
  · rintro h x hx hx'
    rw [mem_iff] at hx hx'
    rcases h with h | h <;> omega
  · intro h
    have hr' := h _ (start_mem hr)
    have hs' : s.start ∉ r := fun hx => h _ hx (start_mem hs)
    simp only [mem_iff, Apart, stop] at *
    omega

end Region

/-- One after the other, and no two overlap. -/
def Ascending (l : List Region) : Prop := l.Pairwise fun r s => r.stop ≤ s.start

/-- One after the other, and no two touch. -/
def Gapped (l : List Region) : Prop := l.Pairwise fun r s => r.stop < s.start

def Positive (l : List Region) : Prop := ∀ r ∈ l, 0 < r.size

def Within (lo hi : Nat) (l : List Region) : Prop := ∀ r ∈ l, lo ≤ r.start ∧ r.stop ≤ hi

/-- The place `x` is in one of the regions. -/
def Covers (l : List Region) (x : Nat) : Prop := ∃ r ∈ l, x ∈ r

def total (l : List Region) : Nat := l.foldr (fun r n => r.size + n) 0

theorem Gapped.ascending {l : List Region} (h : Gapped l) : Ascending l := h.imp Nat.le_of_lt

@[simp] theorem total_nil : total [] = 0 := rfl

@[simp] theorem total_cons (r : Region) (l : List Region) : total (r :: l) = r.size + total l := rfl

@[simp] theorem total_append (l m : List Region) : total (l ++ m) = total l + total m := by
  induction l with
  | nil => exact (Nat.zero_add _).symm
  | cons r l ih => rw [List.cons_append, total_cons, total_cons, ih, Nat.add_assoc]

theorem total_perm {l m : List Region} (h : l.Perm m) : total l = total m := by
  induction h with
  | nil => rfl
  | cons r _ ih => rw [total_cons, total_cons, ih]
  | swap r t l =>
      simp only [total_cons]
      omega
  | trans _ _ ih ih' => exact ih.trans ih'

@[simp] theorem positive_cons {r : Region} {l : List Region} :
    Positive (r :: l) ↔ 0 < r.size ∧ Positive l := List.forall_mem_cons

@[simp] theorem covers_cons {r : Region} {l : List Region} {x : Nat} :
    Covers (r :: l) x ↔ x ∈ r ∨ Covers l x := by simp [Covers]

theorem Covers.mono {l m : List Region} {x : Nat} (hlm : l ⊆ m) (h : Covers l x) : Covers m x := by
  obtain ⟨r, hr, hx⟩ := h
  exact ⟨r, hlm hr, hx⟩

theorem forall_apart_iff {r : Region} {l : List Region} (hr : 0 < r.size) (hl : Positive l) :
    (∀ s ∈ l, r.Apart s) ↔ ∀ x, x ∈ r → ¬ Covers l x := by
  constructor
  · rintro h x hx ⟨s, hs, hxs⟩
    exact (Region.apart_iff hr (hl s hs)).mp (h s hs) x hx hxs
  · intro h s hs
    rw [Region.apart_iff hr (hl s hs)]
    exact fun x hx hxs => h x hx ⟨s, hs, hxs⟩

section Insertion

/-- Puts a region before the first one that does not start before it. -/
def insertByStart (r : Region) (l : List Region) : List Region :=
  l.orderedInsert (fun r s => r.start ≤ s.start) r

theorem insertByStart_perm (r : Region) (l : List Region) : (insertByStart r l).Perm (r :: l) :=
  List.perm_orderedInsert _ r l

theorem mem_insertByStart {r s : Region} {l : List Region} : s ∈ insertByStart r l ↔ s = r ∨ s ∈ l := by
  rw [(insertByStart_perm r l).mem_iff, List.mem_cons]

theorem Ascending.insert {r : Region} {l : List Region} (hl : Ascending l) (hpos : Positive l)
    (hr : 0 < r.size) (hap : ∀ s ∈ l, r.Apart s) : Ascending (insertByStart r l) := by
  induction l with
  | nil => exact List.pairwise_singleton _ _
  | cons b l ih =>
      obtain ⟨hb, hl⟩ := List.pairwise_cons.mp hl
      obtain ⟨hbpos, hpos⟩ := positive_cons.mp hpos
      obtain ⟨hrb, hap⟩ := List.forall_mem_cons.mp hap
      rw [insertByStart, List.orderedInsert_cons]
      rw [Region.Apart] at hrb
      simp only [Region.stop] at *
      split
      next hle =>
        have hrb' : r.start + r.size ≤ b.start := by omega
        refine List.pairwise_cons.mpr ⟨?_, List.pairwise_cons.mpr ⟨hb, hl⟩⟩
        intro s hs
        rcases List.mem_cons.mp hs with rfl | hs
        · exact hrb'
        · exact Nat.le_trans hrb' (Nat.le_trans (Nat.le_add_right _ _) (hb s hs))
      next hlt =>
        have hbr : b.start + b.size ≤ r.start := by omega
        refine List.pairwise_cons.mpr ⟨?_, ih hl hpos hap⟩
        intro s hs
        rcases mem_insertByStart.mp hs with rfl | hs
        · exact hbr
        · exact hb s hs

end Insertion

section Coalescing

/-- Joins to `a` the regions that follow it without a gap, and so on from the first one that does
not. -/
def coalesceOnto (a : Region) : List Region → List Region
  | [] => [a]
  | b :: l => if a.stop = b.start then coalesceOnto ⟨a.start, a.size + b.size⟩ l else a :: coalesceOnto b l

def coalesce : List Region → List Region
  | [] => []
  | a :: l => coalesceOnto a l

/-- Regions each of which starts where the one before it stops. -/
def Touching (l : List Region) : Prop := l.IsChain fun r s => r.stop = s.start

theorem touching_cons_cons {a b : Region} {l : List Region} :
    Touching (a :: b :: l) ↔ a.stop = b.start ∧ Touching (b :: l) := List.isChain_cons_cons

theorem Touching.start_le {a : Region} {l : List Region} (h : Touching (a :: l)) :
    a.start ≤ (l.getLast?.getD a).start ∧ a.stop ≤ (l.getLast?.getD a).stop := by
  induction l generalizing a with
  | nil => exact ⟨Nat.le_refl _, Nat.le_refl _⟩
  | cons b l ih =>
      obtain ⟨hab, hl⟩ := touching_cons_cons.mp h
      have := ih hl
      rw [List.getLast?_cons, Option.getD_some]
      simp only [Region.stop] at *
      omega

theorem coalesceOnto_touching {a : Region} {l m : List Region} (h : Touching (a :: l))
    (hm : ∀ b, m.head? = some b → (l.getLast?.getD a).stop ≠ b.start) :
    coalesceOnto a (l ++ m) = ⟨a.start, (l.getLast?.getD a).stop - a.start⟩ :: coalesce m := by
  induction l generalizing a with
  | nil =>
      have ha : (⟨a.start, a.stop - a.start⟩ : Region) = a := by
        rw [Region.stop, Nat.add_sub_cancel_left]
      cases m with
      | nil => exact congrArg (· :: []) ha.symm
      | cons b m =>
          have hab : a.stop ≠ b.start := hm b rfl
          rw [List.nil_append, coalesceOnto, if_neg hab]
          exact congrArg (· :: coalesceOnto b m) ha.symm
  | cons b l ih =>
      obtain ⟨hab, hl⟩ := touching_cons_cons.mp h
      have hstop : (⟨a.start, a.size + b.size⟩ : Region).stop = b.stop := by
        simp only [Region.stop] at *
        omega
      have hlast : (l.getLast?.getD ⟨a.start, a.size + b.size⟩).stop = (l.getLast?.getD b).stop := by
        cases l.getLast? with
        | none => exact hstop
        | some c => rfl
      have hchain : Touching (⟨a.start, a.size + b.size⟩ :: l) := by
        cases l with
        | nil => exact List.IsChain.singleton _
        | cons c l =>
            obtain ⟨hbc, hl⟩ := touching_cons_cons.mp hl
            exact touching_cons_cons.mpr ⟨hstop.trans hbc, hl⟩
      rw [List.getLast?_cons, Option.getD_some] at hm ⊢
      rw [List.cons_append, coalesceOnto, if_pos hab, ih hchain fun c hc => hlast ▸ hm c hc, hlast]

theorem coalesceOnto_total (a : Region) (l : List Region) : total (coalesceOnto a l) = a.size + total l := by
  induction l generalizing a with
  | nil => rfl
  | cons b l ih =>
      rw [coalesceOnto]
      split
      · rw [ih, total_cons, Nat.add_assoc]
      · rw [total_cons, ih, total_cons]

theorem coalesce_total (l : List Region) : total (coalesce l) = total l := by
  cases l with
  | nil => rfl
  | cons a l => exact coalesceOnto_total a l

theorem coalesceOnto_covers (a : Region) (l : List Region) (x : Nat) :
    Covers (coalesceOnto a l) x ↔ x ∈ a ∨ Covers l x := by
  induction l generalizing a with
  | nil => rw [coalesceOnto, covers_cons]
  | cons b l ih =>
      rw [coalesceOnto]
      split
      next h =>
        rw [ih, covers_cons, ← or_assoc]
        apply or_congr_left
        simp only [Region.mem_iff, Region.stop] at *
        omega
      next => rw [covers_cons, ih, covers_cons]

theorem coalesce_covers (l : List Region) (x : Nat) : Covers (coalesce l) x ↔ Covers l x := by
  cases l with
  | nil => exact Iff.rfl
  | cons a l => rw [coalesce, coalesceOnto_covers, covers_cons]

theorem coalesceOnto_forall {P : Region → Prop}
    (hP : ∀ a b : Region, P a → P b → a.stop = b.start → P ⟨a.start, a.size + b.size⟩) {a : Region}
    {l : List Region} (ha : P a) (hl : ∀ r ∈ l, P r) : ∀ r ∈ coalesceOnto a l, P r := by
  induction l generalizing a with
  | nil =>
      intro r hr
      rw [List.mem_singleton.mp hr]
      exact ha
  | cons b l ih =>
      obtain ⟨hb, hl⟩ := List.forall_mem_cons.mp hl
      rw [coalesceOnto]
      split
      next heq => exact ih (hP a b ha hb heq) hl
      next => exact List.forall_mem_cons.mpr ⟨ha, ih hb hl⟩

theorem coalesce_forall {P : Region → Prop}
    (hP : ∀ a b : Region, P a → P b → a.stop = b.start → P ⟨a.start, a.size + b.size⟩)
    {l : List Region} (hl : ∀ r ∈ l, P r) : ∀ r ∈ coalesce l, P r := by
  cases l with
  | nil => exact hl
  | cons a l =>
      obtain ⟨ha, hl⟩ := List.forall_mem_cons.mp hl
      exact coalesceOnto_forall hP ha hl

theorem coalesce_positive {l : List Region} (hl : Positive l) : Positive (coalesce l) :=
  coalesce_forall (fun _ _ ha _ _ => Nat.add_pos_left ha _) hl

theorem coalesce_within {lo hi : Nat} {l : List Region} (h : Within lo hi l) : Within lo hi (coalesce l) := by
  refine coalesce_forall (fun a b ha hb heq => ⟨ha.1, ?_⟩) h
  have := hb.2
  simp only [Region.stop] at *
  omega

theorem coalesceOnto_start_le {a : Region} {l : List Region} (h : Ascending (a :: l)) :
    ∀ r ∈ coalesceOnto a l, a.start ≤ r.start := by
  induction l generalizing a with
  | nil =>
      intro r hr
      obtain rfl := List.mem_singleton.mp hr
      exact Nat.le_refl _
  | cons b l ih =>
      obtain ⟨ha, hl⟩ := List.pairwise_cons.mp h
      obtain ⟨hb, hl'⟩ := List.pairwise_cons.mp hl
      have hab := ha b (by simp)
      simp only [Region.stop] at *
      rw [coalesceOnto]
      split
      next heq =>
        refine ih (List.pairwise_cons.mpr ⟨?_, hl'⟩)
        intro s hs
        have := hb s hs
        simp only [Region.stop] at *
        omega
      next =>
        intro r hr
        rcases List.mem_cons.mp hr with rfl | hr
        · exact Nat.le_refl _
        · have := ih hl r hr
          omega

theorem coalesceOnto_gapped {a : Region} {l : List Region} (h : Ascending (a :: l)) :
    Gapped (coalesceOnto a l) := by
  induction l generalizing a with
  | nil => exact List.pairwise_singleton _ _
  | cons b l ih =>
      obtain ⟨ha, hl⟩ := List.pairwise_cons.mp h
      obtain ⟨hb, hl'⟩ := List.pairwise_cons.mp hl
      have hab := ha b (by simp)
      rw [coalesceOnto]
      split
      next heq =>
        refine ih (List.pairwise_cons.mpr ⟨?_, hl'⟩)
        intro s hs
        have := hb s hs
        simp only [Region.stop] at *
        omega
      next hne =>
        refine List.pairwise_cons.mpr ⟨?_, ih hl⟩
        intro r hr
        have := coalesceOnto_start_le hl r hr
        omega

theorem coalesce_gapped {l : List Region} (h : Ascending l) : Gapped (coalesce l) := by
  cases l with
  | nil => exact List.Pairwise.nil
  | cons a l => exact coalesceOnto_gapped h

theorem coalesceOnto_length_le (a : Region) (l : List Region) : (coalesceOnto a l).length ≤ l.length + 1 := by
  induction l generalizing a with
  | nil => exact Nat.le_refl _
  | cons b l ih =>
      rw [coalesceOnto]
      split
      · exact Nat.le_succ_of_le (ih _)
      · exact Nat.succ_le_succ (ih b)

theorem coalesce_length_le (l : List Region) : (coalesce l).length ≤ l.length := by
  cases l with
  | nil => exact Nat.le_refl _
  | cons a l => exact coalesceOnto_length_le a l

theorem coalesce_apart {r : Region} {l : List Region} (hr : 0 < r.size) (hl : Positive l)
    (h : ∀ s ∈ l, r.Apart s) : ∀ s ∈ coalesce l, r.Apart s := by
  rw [forall_apart_iff hr (coalesce_positive hl)]
  intro x hx
  rw [coalesce_covers]
  exact (forall_apart_iff hr hl).mp h x hx

end Coalescing

section Filling

theorem Gapped.total_le {hi : Nat} {a : Region} {l : List Region} (h : Gapped (a :: l))
    (hhi : ∀ r ∈ a :: l, r.stop ≤ hi) : a.start + total (a :: l) + l.length ≤ hi := by
  induction l generalizing a with
  | nil =>
      have := hhi a (by simp)
      simpa [Region.stop] using this
  | cons b l ih =>
      obtain ⟨ha, hl⟩ := List.pairwise_cons.mp h
      have hab := ha b (by simp)
      have := ih hl fun r hr => hhi r (List.mem_cons_of_mem a hr)
      simp only [Region.stop, total_cons, List.length_cons] at *
      omega

theorem Gapped.eq_of_total {lo hi : Nat} {l : List Region} (h : Gapped l) (hw : Within lo hi l)
    (htot : lo + total l = hi) : l = [] ∧ lo = hi ∨ l = [⟨lo, hi - lo⟩] := by
  cases l with
  | nil => exact .inl ⟨rfl, by simpa using htot⟩
  | cons a l =>
      right
      have hle := h.total_le fun r hr => (hw r hr).2
      have hlo := (hw a (by simp)).1
      cases l with
      | nil =>
          obtain ⟨start, size⟩ := a
          simp only [total_cons, total_nil, List.length_nil] at *
          obtain rfl : start = lo := by omega
          obtain rfl : size = hi - start := by omega
          rfl
      | cons b l =>
          rw [List.length_cons] at hle
          omega

end Filling

end Orion68.Regions
