import Mathlib.Data.List.Induction
import Mathlib.Data.List.Nodup
import Mathlib.Logic.Function.Basic
import Mathlib.Tactic.Common

namespace Orion68.LinkedLists

variable {α : Type}

/-- The nodes of `l` follow each other through `next`, and the last one leads to `e`. -/
def Seg (next : α → Option α) : List α → Option α → Prop
  | [], _ => True
  | a :: l, e => next a = l.head?.or e ∧ Seg next l e

/-- A circular list entered at `head`; empty exactly when `head` is null. -/
structure Ring (next : α → Option α) (head : Option α) (l : List α) : Prop where
  nodup : l.Nodup
  head_eq : head = l.head?
  seg : Seg next l l.head?

/-- A null-terminated list with a pointer to its first and to its last node. -/
structure Queue (next : α → Option α) (head tail : Option α) (l : List α) : Prop where
  head_eq : head = l.head?
  tail_eq : tail = l.getLast?
  seg : Seg next l none

section Segments

variable {next next' : α → Option α}

instance Seg.decidable [DecidableEq α] : (l : List α) → (e : Option α) → Decidable (Seg next l e)
  | [], _ => .isTrue trivial
  | a :: l, e =>
      have := Seg.decidable l e
      inferInstanceAs (Decidable (next a = l.head?.or e ∧ Seg next l e))

theorem Seg.append {l m : List α} {e : Option α} :
    Seg next (l ++ m) e ↔ Seg next l (m.head?.or e) ∧ Seg next m e := by
  induction l with
  | nil => simp [Seg]
  | cons a l ih =>
      cases l with
      | nil => simp [Seg]
      | cons b l =>
          simp only [List.cons_append, Seg, List.head?_cons, Option.some_or, and_assoc] at ih ⊢
          exact and_congr_right fun _ => ih

theorem Seg.congr {l : List α} {e : Option α} (h : Seg next l e)
    (heq : ∀ a ∈ l, next' a = next a) : Seg next' l e := by
  induction l with
  | nil => trivial
  | cons a l ih =>
      exact ⟨(heq a (by simp)).trans h.1, ih h.2 fun b hb => heq b (by simp [hb])⟩

variable [DecidableEq α]

theorem Seg.update_of_not_mem {l : List α} {e : Option α} (h : Seg next l e) {a : α}
    (ha : a ∉ l) (v : Option α) : Seg (Function.update next a v) l e :=
  h.congr fun _ hb => Function.update_of_ne (ne_of_mem_of_not_mem hb ha) _ _

theorem Seg.redirect {l : List α} {z : α} {e : Option α} (h : Seg next (l ++ [z]) e)
    (hz : z ∉ l) (v : Option α) : Seg (Function.update next z v) (l ++ [z]) v := by
  rw [Seg.append] at h ⊢
  exact ⟨h.1.update_of_not_mem hz v, by simp [Seg]⟩

omit [DecidableEq α] in
theorem Seg.next_mem {l : List α} {e b : Option α} {a : α} (h : Seg next l e) (ha : a ∈ l)
    (hb : next a = b) : b = e ∨ ∃ c ∈ l, b = some c := by
  induction l with
  | nil => simp at ha
  | cons x l ih =>
      rcases List.mem_cons.mp ha with rfl | ha
      · cases l with
        | nil => left; rw [← hb, h.1]; rfl
        | cons y l => right; exact ⟨y, by simp, by rw [← hb, h.1]; rfl⟩
      · rcases ih h.2 ha with he | ⟨c, hc, he⟩
        · exact .inl he
        · exact .inr ⟨c, List.mem_cons_of_mem _ hc, he⟩

end Segments

section Rings

variable {next : α → Option α} {head : Option α}

theorem ring_nil (next : α → Option α) : Ring next none [] := ⟨List.nodup_nil, rfl, trivial⟩

theorem Ring.congr {next' : α → Option α} {l : List α} (hr : Ring next head l)
    (heq : ∀ a ∈ l, next' a = next a) : Ring next' head l :=
  ⟨hr.nodup, hr.head_eq, hr.seg.congr heq⟩

theorem Ring.head_not_mem_tail {h : α} {l : List α} (hr : Ring next (some h) l) : h ∉ l.tail := by
  cases l with
  | nil => simp
  | cons a l =>
      obtain rfl : h = a := by simpa using hr.head_eq
      exact (List.nodup_cons.mp hr.nodup).1

theorem Ring.head_isSome {l : List α} (hr : Ring next head l) {a : α} (ha : a ∈ l) :
    ∃ h, head = some h := by
  cases l with
  | nil => simp at ha
  | cons b l => exact ⟨b, hr.head_eq⟩

theorem Ring.next_mem {l : List α} (hr : Ring next head l) {a : α} (ha : a ∈ l) :
    ∃ b ∈ l, next a = some b := by
  rcases hr.seg.next_mem ha rfl with he | ⟨b, hb, he⟩
  · cases l with
    | nil => simp at ha
    | cons c l => exact ⟨c, by simp, he⟩
  · exact ⟨b, hb, he⟩

theorem Ring.exists_pred {l : List α} (hr : Ring next head l) {a : α} (ha : a ∈ l) :
    ∃ p ∈ l, next p = some a := by
  obtain ⟨m, n, rfl⟩ := List.append_of_mem ha
  have hs := hr.seg
  cases m using List.reverseRecOn with
  | append_singleton m p =>
      refine ⟨p, by simp, ?_⟩
      rw [List.append_assoc, Seg.append] at hs
      exact hs.2.1
  | nil =>
      obtain ⟨k, z, hz⟩ := List.eq_nil_or_concat (a :: n) |>.resolve_left (by simp)
      refine ⟨z, by simp [hz], ?_⟩
      simp only [List.nil_append] at hs
      rw [hz, List.concat_eq_append, Seg.append, ← List.concat_eq_append, ← hz] at hs
      exact hs.2.1

theorem Ring.eq_singleton {l : List α} (hr : Ring next head l) {a : α} (ha : a ∈ l)
    (hself : next a = some a) : l = [a] := by
  obtain ⟨m, n, rfl⟩ := List.append_of_mem ha
  have hd := List.nodup_middle.mp hr.nodup
  have hs := (Seg.append.mp hr.seg).2.1
  rw [hself] at hs
  cases n with
  | cons b n =>
      obtain rfl : a = b := by simpa using hs
      simp at hd
  | nil =>
      cases m with
      | nil => rfl
      | cons b m =>
          obtain rfl : a = b := by simpa using hs
          simp at hd

theorem Ring.eq_append_of_next {l : List α} (hr : Ring next head l) {a : α} (ha : a ∈ l)
    (hn : next a = head) : ∃ m, l = m ++ [a] := by
  obtain ⟨h, hh⟩ := hr.head_isSome ha
  rw [hh] at hr hn
  obtain ⟨m, n, rfl⟩ := List.append_of_mem ha
  cases n with
  | nil => exact ⟨m, rfl⟩
  | cons b n =>
      have hb : next a = some b := (Seg.append.mp hr.seg).2.1
      obtain rfl : h = b := by simpa [hn] using hb
      exact absurd (by cases m <;> simp) hr.head_not_mem_tail

/-- Every node of a ring is reached from its entry point, so a ring has no node
outside another one entered at the same point. -/
theorem Ring.subset {l m : List α} (hl : Ring next head l) (hm : Ring next head m) : m ⊆ l := by
  have hreach : ∀ n e, Seg next n e → (∀ a, n.head? = some a → a ∈ l) → n ⊆ l := by
    intro n e hs hh
    induction n with
    | nil => simp
    | cons a n ih =>
        have ha : a ∈ l := hh a rfl
        refine List.cons_subset.mpr ⟨ha, ih hs.2 ?_⟩
        intro b hb
        obtain ⟨c, hc, he⟩ := hl.next_mem ha
        have hab : next a = some b := by rw [hs.1, hb]; rfl
        obtain rfl : b = c := by simpa [he, eq_comm] using hab
        exact hc
  apply hreach m _ hm.seg
  intro a ha
  have hh := hl.head_eq
  rw [hm.head_eq, ha] at hh
  exact List.mem_of_mem_head? hh.symm

theorem Ring.rotate {h : α} {l : List α} (hr : Ring next head (h :: l)) :
    Ring next (next h) (l ++ [h]) := by
  obtain ⟨hn, -, hh, hs⟩ := hr
  have hlast : Seg next [h] (l ++ [h]).head? := ⟨by rw [hh]; cases l <;> rfl, trivial⟩
  refine ⟨?_, by rw [hh]; cases l <;> rfl, Seg.append.mpr ⟨?_, hlast⟩⟩
  · exact (List.perm_append_singleton h l).nodup_iff.mpr hn
  · simpa using hs

variable [DecidableEq α]

theorem ring_singleton (next : α → Option α) (t : α) :
    Ring (Function.update next t (some t)) (some t) [t] :=
  ⟨List.nodup_singleton t, rfl, by simp [Seg]⟩

theorem Ring.insert {h z t : α} {m : List α} (hr : Ring next (some h) (m ++ [z]))
    (ht : t ∉ m ++ [z]) :
    Ring (Function.update (Function.update next z (some t)) t (some h)) (some h) (m ++ [z] ++ [t]) := by
  have hz : z ∉ m := by
    have := (List.nodup_append.mp hr.nodup).2.2
    exact fun hm => this z hm z (by simp) rfl
  have hhead : (m ++ [z] ++ [t]).head? = some h := by rw [List.head?_append, ← hr.head_eq]; rfl
  refine ⟨?_, hhead.symm, Seg.append.mpr ⟨?_, by rw [hhead]; simp [Seg]⟩⟩
  · exact (List.perm_append_singleton t _).nodup_iff.mpr (List.nodup_cons.mpr ⟨ht, hr.nodup⟩)
  · exact (hr.seg.redirect hz (some t)).update_of_not_mem ht _

theorem Ring.unlink {z t : α} {m n : List α} (hr : Ring next head (m ++ [z] ++ t :: n)) :
    Ring (Function.update (Function.update next z (next t)) t none) head (m ++ [z] ++ n) := by
  obtain ⟨hn, hhead, hs⟩ := hr
  obtain ⟨ht, hn⟩ := List.nodup_cons.mp (List.nodup_middle.mp hn)
  have hz : z ∉ m := fun hm => (List.nodup_append.mp (List.nodup_append.mp hn).1).2.2 z hm z (by simp) rfl
  have hzn : z ∉ n := fun hm => (List.nodup_append.mp hn).2.2 z (by simp) z hm rfl
  have hd : (m ++ [z] ++ n).head? = (m ++ [z] ++ t :: n).head? := by cases m <;> rfl
  obtain ⟨hm, htn⟩ := Seg.append.mp hs
  refine ⟨hn, by rw [hhead, hd], Seg.update_of_not_mem (Seg.append.mpr ⟨?_, ?_⟩) ht _⟩
  · rw [hd, ← htn.1]
    exact hm.redirect hz _
  · rw [hd]
    exact htn.2.update_of_not_mem hzn _

theorem Ring.unlink_head {z t : α} {m : List α} (hr : Ring next (some t) (t :: (m ++ [z]))) :
    Ring (Function.update (Function.update next z (next t)) t none) (next t) (m ++ [z]) := by
  simpa using hr.rotate.unlink (n := [])

end Rings

section Queues

variable {next : α → Option α} {head tail : Option α}

theorem queue_nil (next : α → Option α) : Queue next none none [] := ⟨rfl, rfl, trivial⟩

theorem Queue.congr {next' : α → Option α} {l : List α} (hq : Queue next head tail l)
    (heq : ∀ a ∈ l, next' a = next a) : Queue next' head tail l :=
  ⟨hq.head_eq, hq.tail_eq, hq.seg.congr heq⟩

theorem Queue.dequeue {a : α} {l : List α} (hq : Queue next head tail (a :: l)) :
    Queue next (next a) (if next a = none then none else tail) l := by
  obtain ⟨-, ht, ha, hs⟩ := hq
  rw [ha]
  cases l with
  | nil => exact queue_nil next
  | cons b l => exact ⟨rfl, by simp [ht], hs⟩

variable [DecidableEq α]

theorem queue_singleton (next : α → Option α) (t : α) :
    Queue (Function.update next t none) (some t) (some t) [t] :=
  ⟨rfl, rfl, by simp [Seg]⟩

theorem Queue.enqueue {z t : α} {m : List α} (hq : Queue next head tail (m ++ [z]))
    (hz : z ∉ m) (ht : t ∉ m ++ [z]) :
    Queue (Function.update (Function.update next t none) z (some t)) head (some t)
      (m ++ [z] ++ [t]) := by
  refine ⟨?_, by simp, Seg.append.mpr ⟨?_, ?_⟩⟩
  · rw [hq.head_eq]; cases m <;> rfl
  · exact (hq.seg.update_of_not_mem ht none).redirect hz _
  · have htz : t ≠ z := fun he => ht (by simp [he])
    simp [Seg, htz]

end Queues

section NullTerminated

variable {next : α → Option α}

theorem Seg.eq_of_head {l m : List α} (hl : Seg next l none) (hm : Seg next m none)
    (hh : l.head? = m.head?) : l = m := by
  induction l generalizing m with
  | nil => cases m with
    | nil => rfl
    | cons b m => simp at hh
  | cons a l ih =>
      cases m with
      | nil => simp at hh
      | cons b m =>
          obtain rfl : a = b := by simpa using hh
          have hnext := hl.1.symm.trans hm.1
          rw [ih hl.2 hm.2 (by simpa using hnext)]

theorem Seg.nodup {l : List α} (hl : Seg next l none) : l.Nodup := by
  induction l with
  | nil => exact List.nodup_nil
  | cons a l ih =>
      refine List.nodup_cons.mpr ⟨?_, ih hl.2⟩
      intro ha
      obtain ⟨m, n, rfl⟩ := List.append_of_mem ha
      have he := hl.eq_of_head (Seg.append.mp hl.2).2 rfl
      have := congrArg List.length he
      simp at this
      omega

theorem Seg.next_ne_self {l : List α} (hl : Seg next l none) {a : α} (ha : a ∈ l) :
    next a ≠ some a := by
  obtain ⟨m, n, rfl⟩ := List.append_of_mem ha
  have hs := (Seg.append.mp hl).2
  intro he
  have hn : n.head? = some a := by simpa [he] using hs.1.symm
  exact (List.nodup_cons.mp hs.nodup).1 (List.mem_of_mem_head? hn)

end NullTerminated

section Traversals

variable [DecidableEq α]

/-- `while (p->next != stop) p = p->next;` started at `p`: the node where it stops.
`none` when it meets a null link, or has not stopped after `fuel` nodes. -/
def seek (next : α → Option α) (stop : α) : Nat → α → Option α
  | 0, _ => none
  | fuel + 1, p => if next p = some stop then some p else (next p).bind (seek next stop fuel)

/-- `while (p->next != t) { p = p->next; if (p == head) return; }` started at `p`:
the node before `t`, or `some none` when the loop came back to `head`. -/
def seekRound (next : α → Option α) (head t : α) : Nat → α → Option (Option α)
  | 0, _ => none
  | fuel + 1, p =>
      if next p = some t then some (some p)
      else (next p).bind fun q => if q = head then some none else seekRound next head t fuel q

variable {next : α → Option α}

theorem seek_eq {stop : α} {l : List α} {z p : α} {fuel : Nat} (hs : Seg next (l ++ [z]) (some stop))
    (hp : (l ++ [z]).head? = some p) (hstop : stop ∉ (l ++ [z]).tail) (hf : l.length < fuel) :
    seek next stop fuel p = some z := by
  induction l generalizing p fuel with
  | nil =>
      obtain rfl : z = p := by simpa using hp
      obtain ⟨fuel, rfl⟩ := Nat.exists_eq_succ_of_ne_zero (by omega : fuel ≠ 0)
      have hz : next z = some stop := hs.1
      simp [seek, hz]
  | cons a l ih =>
      obtain rfl : a = p := by simpa using hp
      obtain ⟨fuel, rfl⟩ := Nat.exists_eq_succ_of_ne_zero (by omega : fuel ≠ 0)
      obtain ⟨q, hq⟩ : ∃ q, (l ++ [z]).head? = some q := by cases l <;> simp
      have ha : next a = (l ++ [z]).head?.or (some stop) := hs.1
      rw [hq] at ha
      have hqs : q ≠ stop := by
        rintro rfl
        exact hstop (List.mem_of_mem_head? hq)
      have ht : stop ∉ (l ++ [z]).tail := fun hm => hstop (List.mem_of_mem_tail hm)
      rw [List.length_cons] at hf
      have hrec := ih hs.2 hq ht (by omega : l.length < fuel)
      simp [seek, ha, hqs, hrec]

theorem seekRound_found {head t : α} {l : List α} {z p : α} {fuel : Nat}
    (hs : Seg next (l ++ [z]) (some t)) (hp : (l ++ [z]).head? = some p)
    (ht : t ∉ (l ++ [z]).tail) (hh : head ∉ (l ++ [z]).tail) (hf : l.length < fuel) :
    seekRound next head t fuel p = some (some z) := by
  induction l generalizing p fuel with
  | nil =>
      obtain rfl : z = p := by simpa using hp
      obtain ⟨fuel, rfl⟩ := Nat.exists_eq_succ_of_ne_zero (by omega : fuel ≠ 0)
      have hz : next z = some t := hs.1
      simp [seekRound, hz]
  | cons a l ih =>
      obtain rfl : a = p := by simpa using hp
      obtain ⟨fuel, rfl⟩ := Nat.exists_eq_succ_of_ne_zero (by omega : fuel ≠ 0)
      obtain ⟨q, hq⟩ : ∃ q, (l ++ [z]).head? = some q := by cases l <;> simp
      have ha : next a = (l ++ [z]).head?.or (some t) := hs.1
      rw [hq] at ha
      have hqm : q ∈ l ++ [z] := List.mem_of_mem_head? hq
      have hqt : q ≠ t := ne_of_mem_of_not_mem hqm ht
      have hqh : q ≠ head := ne_of_mem_of_not_mem hqm hh
      have ht' : t ∉ (l ++ [z]).tail := fun hm => ht (List.mem_of_mem_tail hm)
      have hh' : head ∉ (l ++ [z]).tail := fun hm => hh (List.mem_of_mem_tail hm)
      rw [List.length_cons] at hf
      have hrec := ih hs.2 hq ht' hh' (by omega : l.length < fuel)
      simp [seekRound, ha, hqt, hqh, hrec]

theorem seekRound_absent {head t : α} {l : List α} {p : α} {fuel : Nat}
    (hs : Seg next l (some head)) (hp : l.head? = some p) (ht : t ∉ l.tail) (hth : t ≠ head)
    (hh : head ∉ l.tail) (hf : l.length ≤ fuel) : seekRound next head t fuel p = some none := by
  induction l generalizing p fuel with
  | nil => simp at hp
  | cons a l ih =>
      obtain rfl : a = p := by simpa using hp
      obtain ⟨fuel, rfl⟩ := Nat.exists_eq_succ_of_ne_zero (by simp at hf; omega : fuel ≠ 0)
      cases l with
      | nil =>
          have ha : next a = some head := hs.1
          simp [seekRound, ha, hth.symm]
      | cons q l =>
          have ha : next a = some q := hs.1
          have hqt : q ≠ t := fun he => ht (by simp [he])
          have hqh : q ≠ head := fun he => hh (by simp [he])
          have ht' : t ∉ (q :: l).tail := fun hm => ht (List.mem_of_mem_tail hm)
          have hh' : head ∉ (q :: l).tail := fun hm => hh (List.mem_of_mem_tail hm)
          simp [seekRound, ha, hqt, hqh, ih hs.2 rfl ht' hh' (by simpa using hf)]

end Traversals

end Orion68.LinkedLists
