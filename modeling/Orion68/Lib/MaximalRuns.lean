import Mathlib.Data.List.Basic
import Mathlib.Data.List.Chain
import Mathlib.Data.List.Induction
import Mathlib.Data.List.TakeWhile
import Mathlib.Tactic.Common

namespace Orion68.MaximalRuns

variable {α : Type} (p : α → Prop) {l a b : List α} {x : α}

/-- `run` stands between `pre` and `post`, and is as long as it can be. -/
structure MaximalRun (l pre run post : List α) : Prop where
  eq : l = pre ++ run ++ post
  ne_nil : run ≠ []
  all : ∀ x ∈ run, p x
  before : ∀ x ∈ pre.getLast?, ¬ p x
  after : ∀ x ∈ post.head?, ¬ p x

theorem exists_run_left (l : List α) :
    ∃ pre run, l = pre ++ run ∧ (∀ x ∈ run, p x) ∧ ∀ x ∈ pre.getLast?, ¬ p x := by
  induction l using List.reverseRecOn with
  | nil => exact ⟨[], [], rfl, by simp, by simp⟩
  | append_singleton l x ih =>
      by_cases hx : p x
      · obtain ⟨pre, run, rfl, hall, hbefore⟩ := ih
        refine ⟨pre, run ++ [x], List.append_assoc .., ?_, hbefore⟩
        intro y hy
        rcases List.mem_append.mp hy with hy | hy
        · exact hall y hy
        · rwa [List.mem_singleton.mp hy]
      · exact ⟨l ++ [x], [], by simp, by simp, by simpa using hx⟩

theorem exists_run_right (l : List α) :
    ∃ run post, l = run ++ post ∧ (∀ x ∈ run, p x) ∧ ∀ x ∈ post.head?, ¬ p x := by
  induction l with
  | nil => exact ⟨[], [], rfl, by simp, by simp⟩
  | cons x l ih =>
      by_cases hx : p x
      · obtain ⟨run, post, rfl, hall, hafter⟩ := ih
        exact ⟨x :: run, post, rfl, List.forall_mem_cons.mpr ⟨hx, hall⟩, hafter⟩
      · exact ⟨[], x :: l, rfl, by simp, by simpa using hx⟩

theorem exists_last (h : ∃ x ∈ l, p x) : ∃ a x b, l = a ++ x :: b ∧ p x ∧ ∀ y ∈ b, ¬ p y := by
  obtain ⟨pre, run, rfl, hall, hbefore⟩ := exists_run_left (fun x => ¬ p x) l
  rcases List.eq_nil_or_concat pre with rfl | ⟨a, x, rfl⟩
  · obtain ⟨x, hmem, hx⟩ := h
    exact absurd hx (hall x hmem)
  · refine ⟨a, x, run, by simp, ?_, hall⟩
    exact not_not.mp (hbefore x (by simp))

variable {p}

theorem exists_maximalRun_last (hx : p x) (hb : ∀ y ∈ b.head?, ¬ p y) :
    ∃ pre run, a ++ [x] = pre ++ run ∧ MaximalRun p (a ++ x :: b) pre run b := by
  obtain ⟨pre, run, rfl, hall, hbefore⟩ := exists_run_left p a
  refine ⟨pre, run ++ [x], List.append_assoc .., by simp, by simp, ?_, hbefore, hb⟩
  intro y hy
  rcases List.mem_append.mp hy with hy | hy
  · exact hall y hy
  · rwa [List.mem_singleton.mp hy]

theorem exists_maximalRun_first (hx : p x) (ha : ∀ y ∈ a.getLast?, ¬ p y) :
    ∃ run post, x :: b = run ++ post ∧ MaximalRun p (a ++ x :: b) a run post := by
  obtain ⟨run, post, rfl, hall, hafter⟩ := exists_run_right p b
  exact ⟨x :: run, post, rfl, by simp, List.cons_ne_nil x run, List.forall_mem_cons.mpr ⟨hx, hall⟩, ha, hafter⟩

section Splitting

variable {p : α → Bool} {run : List α}

def runs (p : α → Bool) (l : List α) : List (List α) := (l.splitOnP fun x => !p x).filter fun run => !run.isEmpty

theorem runs_of_all (ha : ∀ y ∈ a, p y = true) : runs p a = if a = [] then [] else [a] := by
  have hsplit : a.splitOnP (fun x => !p x) = [a] :=
    List.splitOnP_eq_singleton fun y hy => by rw [ha y hy]; rfl
  rw [runs, hsplit]
  cases a <;> rfl

theorem runs_append_cons (ha : ∀ y ∈ a, p y = true) (hx : p x = false) (b : List α) :
    runs p (a ++ x :: b) = (if a = [] then [] else [a]) ++ runs p b := by
  have hsplit : (a ++ x :: b).splitOnP (fun x => !p x) = a :: b.splitOnP fun x => !p x :=
    List.splitOnP_append_cons_of_forall_mem (fun y hy => by rw [ha y hy]; rfl) x (by rw [hx]; rfl) b
  rw [runs, hsplit]
  cases a <;> rfl

theorem runs_cons_of_neg (hx : p x = false) (b : List α) : runs p (x :: b) = runs p b :=
  runs_append_cons (List.forall_mem_nil _) hx b

theorem runs_dropWhile {q : α → Bool} (hq : ∀ x, q x = true → p x = false) (l : List α) :
    runs p (l.dropWhile q) = runs p l := by
  induction l with
  | nil => rfl
  | cons x l ih =>
      cases hx : q x with
      | false => rw [List.dropWhile_cons_of_neg (by rw [hx]; exact Bool.false_ne_true)]
      | true => rw [List.dropWhile_cons_of_pos hx, ih, runs_cons_of_neg (hq x hx)]

theorem runs_of_head (hx : p x = true) (b : List α) :
    runs p (x :: b) = (x :: b).takeWhile p :: runs p ((x :: b).dropWhile p) := by
  have hall : ∀ y ∈ (x :: b).takeWhile p, p y = true := fun y hy => List.mem_takeWhile_imp hy
  have hne : (x :: b).takeWhile p ≠ [] := by
    rw [List.takeWhile_cons_of_pos hx]
    exact List.cons_ne_nil _ _
  have hsplit : (x :: b).takeWhile p ++ (x :: b).dropWhile p = x :: b := List.takeWhile_append_dropWhile
  have hhead := List.head?_dropWhile_not p (x :: b)
  generalize (x :: b).takeWhile p = a at hall hne hsplit ⊢
  generalize (x :: b).dropWhile p = post at hsplit hhead ⊢
  cases post with
  | nil =>
      rw [← hsplit, List.append_nil, runs_of_all hall, if_neg hne]
      rfl
  | cons y c =>
      rw [← hsplit, runs_append_cons hall hhead, if_neg hne, runs_cons_of_neg hhead]
      rfl

theorem maximalRun_append_cons {pre post : List α} (ha : ∀ y ∈ a, p y = true) (hx : p x = false) :
    MaximalRun (fun y => p y = true) (a ++ x :: b) pre run post ↔
      (pre = [] ∧ run = a ∧ a ≠ [] ∧ post = x :: b) ∨
        ∃ pre', pre = a ++ x :: pre' ∧ MaximalRun (fun y => p y = true) b pre' run post := by
  have hnot : ¬ p x = true := by rw [hx]; exact Bool.false_ne_true
  constructor
  · rintro ⟨heq, hne, hall, hbefore, hafter⟩
    rw [List.append_assoc] at heq
    rcases List.append_eq_append_iff.mp heq with ⟨c, rfl, hc⟩ | ⟨c, rfl, hc⟩
    · right
      cases c with
      | nil =>
          cases run with
          | nil => exact absurd rfl hne
          | cons y run =>
              cases hc
              exact absurd (hall x List.mem_cons_self) hnot
      | cons y pre' =>
          obtain ⟨rfl, rfl⟩ := List.cons.inj hc
          refine ⟨pre', rfl, (List.append_assoc _ _ _).symm, hne, hall, ?_, hafter⟩
          intro y hy
          apply hbefore y
          rw [List.getLast?_append_cons]
          cases pre' with
          | nil => cases hy
          | cons z pre' => exact hy
    · left
      have hpre : pre = [] := by
        rcases List.eq_nil_or_concat pre with rfl | ⟨q, y, rfl⟩
        · rfl
        · exact absurd (ha y (by simp)) (hbefore y (by simp))
      subst hpre
      rw [List.nil_append] at ha ⊢
      rcases List.append_eq_append_iff.mp hc with ⟨d, rfl, hd⟩ | ⟨d, rfl, hd⟩
      · cases d with
        | nil => exact ⟨rfl, (List.append_nil _).symm, by simpa using hne, hd⟩
        | cons y d =>
            rw [hd] at hafter
            exact absurd (ha y (by simp)) (hafter y rfl)
      · cases d with
        | nil => exact ⟨rfl, List.append_nil _, by simpa using hne, hd.symm⟩
        | cons y d =>
            cases hd
            exact absurd (hall x (by simp)) hnot
  · rintro (⟨rfl, rfl, hne, rfl⟩ | ⟨pre', rfl, heq, hne, hall, hbefore, hafter⟩)
    · exact ⟨rfl, hne, ha, fun y hy => absurd hy (by simp), fun y hy => by cases hy; exact hnot⟩
    · refine ⟨by rw [heq]; simp, hne, hall, ?_, hafter⟩
      intro y hy
      rw [List.getLast?_append_cons] at hy
      cases pre' with
      | nil =>
          cases hy
          exact hnot
      | cons z pre' => exact hbefore y hy

theorem maximalRun_of_all {pre post : List α} (ha : ∀ y ∈ a, p y = true) :
    MaximalRun (fun y => p y = true) a pre run post ↔ pre = [] ∧ run = a ∧ a ≠ [] ∧ post = [] := by
  constructor
  · rintro ⟨rfl, hne, -, hbefore, hafter⟩
    have hpre : pre = [] := by
      rcases List.eq_nil_or_concat pre with rfl | ⟨q, y, rfl⟩
      · rfl
      · exact absurd (ha y (by simp)) (hbefore y (by simp))
    have hpost : post = [] := by
      cases post with
      | nil => rfl
      | cons y q => exact absurd (ha y (by simp)) (hafter y rfl)
    subst hpre hpost
    exact ⟨rfl, by simp, by simpa using hne, rfl⟩
  · rintro ⟨rfl, rfl, hne, rfl⟩
    exact ⟨by simp, hne, ha, by simp, by simp⟩

theorem split_induction {P : List α → Prop} (all : ∀ a, (∀ y ∈ a, p y = true) → P a)
    (append_cons : ∀ a x b, (∀ y ∈ a, p y = true) → p x = false → P b → P (a ++ x :: b)) (l : List α) : P l := by
  induction hn : l.length using Nat.strongRecOn generalizing l with
  | _ n ih =>
      obtain ⟨a, post, rfl, hall, hafter⟩ := exists_run_right (fun y => p y = true) l
      cases post with
      | nil =>
          rw [List.append_nil]
          exact all a hall
      | cons x b =>
          have hlt : b.length < n := by
            rw [← hn, List.length_append, List.length_cons]
            omega
          exact append_cons a x b hall (Bool.eq_false_iff.mpr (hafter x rfl)) (ih b.length hlt b rfl)

theorem mem_runs_iff {l : List α} :
    run ∈ runs p l ↔ ∃ pre post, MaximalRun (fun y => p y = true) l pre run post := by
  have hmem (a : List α) : run ∈ (if a = [] then [] else [a]) ↔ run = a ∧ a ≠ [] := by
    split
    next hnil => simp [hnil]
    next hne => simp [hne]
  induction l using split_induction (p := p) with
  | all a ha =>
      simp only [runs_of_all ha, hmem, maximalRun_of_all ha]
      grind
  | append_cons a x b ha hx ih =>
      rw [runs_append_cons ha hx, List.mem_append, hmem]
      simp only [ih, maximalRun_append_cons ha hx]
      grind

end Splitting

section Pieces

variable {p : α → Bool}

/-- What stands before each element of the other kind, and what is left behind the last one if that is anything. -/
def pieces (p : α → Bool) : List α → List (List α)
  | [] => []
  | x :: l =>
      if p x then
        match pieces p l with
        | [] => [[x]]
        | a :: as => (x :: a) :: as
      else [] :: pieces p l

theorem pieces_of_all (ha : ∀ y ∈ a, p y = true) : pieces p a = if a = [] then [] else [a] := by
  induction a with
  | nil => rfl
  | cons x a ih =>
      rw [pieces, if_pos (ha x List.mem_cons_self), ih fun y hy => ha y (List.mem_cons_of_mem x hy)]
      cases a <;> rfl

theorem pieces_append_cons (ha : ∀ y ∈ a, p y = true) (hx : p x = false) (b : List α) :
    pieces p (a ++ x :: b) = a :: pieces p b := by
  induction a with
  | nil => rw [List.nil_append, pieces, if_neg (by rw [hx]; exact Bool.false_ne_true)]
  | cons y a ih =>
      rw [List.cons_append, pieces, if_pos (ha y List.mem_cons_self),
        ih fun z hz => ha z (List.mem_cons_of_mem y hz)]

theorem pieces_cons (c : α) (l : List α) :
    pieces p (c :: l) = (c :: l).takeWhile p :: pieces p ((c :: l).dropWhile p).tail := by
  have hall : ∀ y ∈ (c :: l).takeWhile p, p y = true := fun y hy => List.mem_takeWhile_imp hy
  have hsplit : (c :: l).takeWhile p ++ (c :: l).dropWhile p = c :: l := List.takeWhile_append_dropWhile
  have hhead := List.head?_dropWhile_not p (c :: l)
  generalize (c :: l).takeWhile p = a at hall hsplit ⊢
  generalize (c :: l).dropWhile p = post at hsplit hhead ⊢
  cases post with
  | nil =>
      rw [List.append_nil] at hsplit
      subst hsplit
      rw [pieces_of_all hall, if_neg (List.cons_ne_nil c l)]
      rfl
  | cons x b => rw [← hsplit, pieces_append_cons hall hhead, List.tail_cons]

theorem pieces_filter (l : List α) : (pieces p l).filter (fun a => !a.isEmpty) = runs p l := by
  induction l using split_induction (p := p) with
  | all a ha =>
      rw [pieces_of_all ha, runs_of_all ha]
      cases a <;> rfl
  | append_cons a x b ha hx ih =>
      rw [pieces_append_cons ha hx, runs_append_cons ha hx, ← ih]
      cases a <;> rfl

theorem pieces_eq_runs_iff {l : List α} : pieces p l = runs p l ↔ ∀ a ∈ pieces p l, a ≠ [] := by
  rw [← pieces_filter, eq_comm, List.filter_eq_self]
  simp

theorem isChain_of_all (ha : ∀ y ∈ a, p y = true) : a.IsChain fun x y => p x = true ∨ p y = true :=
  (List.pairwise_of_forall_mem_list fun x hx _ _ => Or.inl (ha x hx)).isChain

/-- No piece is empty when the list begins with the one kind and goes back to it after each of the other. -/
theorem forall_pieces_ne_nil_iff {l : List α} :
    (∀ a ∈ pieces p l, a ≠ []) ↔ (∀ x ∈ l.head?, p x = true) ∧ l.IsChain fun x y => p x = true ∨ p y = true := by
  induction l using split_induction (p := p) with
  | all a ha =>
      apply iff_of_true
      · rw [pieces_of_all ha]
        cases a <;> simp
      · exact ⟨fun x hx => ha x (List.mem_of_mem_head? hx), isChain_of_all ha⟩
  | append_cons a x b ha hx ih =>
      have hfront : ∀ y ∈ a.getLast?, ∀ z ∈ (x :: b).head?, p y = true ∨ p z = true := fun y hy _ _ =>
        Or.inl (ha y (List.mem_of_mem_getLast? hy))
      have hnext : (∀ y ∈ b.head?, p x = true ∨ p y = true) ↔ ∀ y ∈ b.head?, p y = true := by
        simp only [hx, Bool.false_eq_true, false_or]
      rw [pieces_append_cons ha hx, List.forall_mem_cons, ih, List.isChain_append, List.isChain_cons, hnext]
      have hhead : (∀ y ∈ (a ++ x :: b).head?, p y = true) ↔ a ≠ [] := by
        cases a with
        | nil => simp [hx]
        | cons y a => simpa using ha y List.mem_cons_self
      rw [hhead]
      exact and_congr_right fun _ => ⟨fun h => ⟨isChain_of_all ha, h, hfront⟩, fun h => h.2.1⟩

end Pieces

end Orion68.MaximalRuns
