import Orion68.Kernel.Scheduler
import Mathlib.Data.Fintype.Card

namespace Orion68.ReadyRing

open LinkedLists Runs Scheduler

def Linked (k : Kernel) (t : TaskPtr) : Prop := k.state t = .ready ∨ k.state t = .running

/-- From `ready_head`, `next` runs through `l` and back, and `l` has every ready or
running task exactly once. -/
structure Ready (k : Kernel) (l : List TaskPtr) : Prop where
  ring : Ring k.next k.readyHead l
  mem_iff : ∀ t, t ∈ l ↔ Linked k t

/-- `k'` has the ring `l'` in place of `l`; a task that left the ring has a null link
and every other task outside it keeps its own. -/
structure Edits (k k' : Kernel) (l l' : List TaskPtr) : Prop where
  ready : Ready k' l'
  next_eq : ∀ u, u ∉ l' → k'.next u = if u ∈ l then none else k.next u

theorem length_le {next : TaskPtr → Option TaskPtr} {head : Option TaskPtr} {l : List TaskPtr}
    (hr : Ring next head l) : l.length ≤ osMaxTasks := by
  simpa using hr.nodup.length_le_card

/-- What an edit of the links leaves alone. -/
structure Relinked (k k' : Kernel) : Prop where
  state_eq : k'.state = k.state
  currentTask_eq : k'.currentTask = k.currentTask
  taskCount_eq : k'.taskCount = k.taskCount

theorem seek_last {k : Kernel} {m : List TaskPtr} {z h : TaskPtr}
    (hr : Ring k.next (some h) (m ++ [z])) : seek k.next h osMaxTasks h = some z := by
  have hlen := length_le hr
  have hseg := hr.seg
  rw [← hr.head_eq] at hseg
  rw [List.length_append] at hlen
  exact seek_eq hseg hr.head_eq.symm hr.head_not_mem_tail hlen

theorem readyInsert_isSome {k : Kernel} {l : List TaskPtr} (hr : Ring k.next k.readyHead l)
    (t : TaskPtr) : (readyInsert t k).isSome := by
  cases l using List.reverseRecOn with
  | nil =>
      have hh : k.readyHead = none := hr.head_eq
      simp [readyInsert, hh]
  | append_singleton m z =>
      obtain ⟨h, hh⟩ := hr.head_isSome (a := z) (by simp)
      rw [hh] at hr
      simp [readyInsert, hh, seek_last hr]

theorem readyInsert_spec {k : Kernel} {l : List TaskPtr} (hr : Ring k.next k.readyHead l)
    {t : TaskPtr} (ht : t ∉ l) :
    ∃ k', readyInsert t k = some k' ∧ Relinked k k' ∧ Ring k'.next k'.readyHead (l ++ [t]) ∧
      ∀ u, u ∉ l → u ≠ t → k'.next u = k.next u := by
  cases l using List.reverseRecOn with
  | nil =>
      have hh : k.readyHead = none := hr.head_eq
      refine ⟨(k.setHead (some t)).setNext t (some t), by simp [readyInsert, hh],
        ⟨by simp, rfl, rfl⟩, ?_, fun u _ hu => by simp [hu]⟩
      simpa using ring_singleton k.next t
  | append_singleton m z =>
      obtain ⟨h, hh⟩ := hr.head_isSome (a := z) (by simp)
      rw [hh] at hr
      refine ⟨(k.setNext z (some t)).setNext t (some h), by simp [readyInsert, hh, seek_last hr],
        ⟨by simp, rfl, rfl⟩, ?_, ?_⟩
      · simpa [hh] using hr.insert ht
      · intro u hu hut
        have huz : u ≠ z := fun he => hu (by simp [he])
        simp [hut, huz]

theorem readyRemove_of_not_mem {k : Kernel} {l : List TaskPtr} (hr : Ring k.next k.readyHead l)
    {t : TaskPtr} (ht : t ∉ l) (hself : k.next t ≠ some t) : readyRemove t k = some k := by
  have hlen := length_le hr
  cases l with
  | nil =>
      have hh : k.readyHead = none := hr.head_eq
      simp [readyRemove, hh]
  | cons h l =>
      have hh : k.readyHead = some h := hr.head_eq
      rw [hh] at hr
      have hth : t ≠ h := fun he => ht (by simp [he])
      have hwalk := seekRound_absent hr.seg rfl (fun hm => ht (List.mem_of_mem_tail hm)) hth
        hr.head_not_mem_tail hlen
      simp [readyRemove, hh, hself, hwalk]

theorem readyRemove_head {k : Kernel} {m : List TaskPtr} {t z : TaskPtr}
    (hh : k.readyHead = some t) (hr : Ring k.next (some t) (t :: (m ++ [z]))) :
    readyRemove t k = some (((k.setNext z (k.next t)).setHead (k.next t)).setNext t none) := by
  have hlen := length_le hr
  have hm : t ∉ m ++ [z] := hr.head_not_mem_tail
  have htz : t ≠ z := fun he => hm (by simp [he])
  have hself : k.next t ≠ some t := fun he => by simpa using hr.eq_singleton (by simp) he
  have hwalk : seekRound k.next t t osMaxTasks t = some (some z) :=
    seekRound_found (show Seg k.next ((t :: m) ++ [z]) (some t) from hr.seg) rfl hm hm
      (by simp only [List.length_cons, List.length_append, List.length_nil] at hlen ⊢; omega)
  simp [readyRemove, hh, hself, hwalk, htz]

theorem readyRemove_middle {k : Kernel} {m n : List TaskPtr} {h t z : TaskPtr}
    (hh : k.readyHead = some h) (hr : Ring k.next (some h) (m ++ [z] ++ t :: n)) :
    readyRemove t k = some ((k.setNext z (k.next t)).setNext t none) := by
  have hlen := length_le hr
  obtain ⟨ht, hn⟩ := List.nodup_cons.mp (List.nodup_middle.mp hr.nodup)
  have hhm : (m ++ [z]).head? = some h := by rw [hr.head_eq]; cases m <;> rfl
  have hht : h ≠ t := by
    rintro rfl
    exact ht (List.mem_append_left _ (List.mem_of_mem_head? hhm))
  have hself : k.next t ≠ some t := fun he => by
    have := congrArg List.length (hr.eq_singleton (by simp) he)
    simp at this
    omega
  have hd : h ∉ (m ++ [z]).tail := by
    have := hr.head_not_mem_tail
    rw [List.tail_append_of_ne_nil (by simp)] at this
    exact fun he => this (by simp [he])
  have hwalk : seekRound k.next h t osMaxTasks h = some (some z) :=
    seekRound_found (Seg.append.mp hr.seg).1 hhm
      (fun he => ht (List.mem_append_left _ (List.mem_of_mem_tail he))) hd
      (by simp only [List.length_append, List.length_cons, List.length_nil] at hlen; omega)
  simp [readyRemove, hh, hself, hwalk, hht]

theorem readyRemove_spec {k : Kernel} {l : List TaskPtr} (hr : Ring k.next k.readyHead l)
    {t : TaskPtr} (ht : t ∈ l) :
    ∃ k', readyRemove t k = some k' ∧ Relinked k k' ∧
      Ring k'.next k'.readyHead (l.erase t) ∧ k'.next t = none ∧
      ∀ u, u ∉ l → k'.next u = k.next u := by
  obtain ⟨h, hh⟩ := hr.head_isSome ht
  rw [hh] at hr
  obtain ⟨m, n, rfl⟩ := List.append_of_mem ht
  cases m using List.reverseRecOn with
  | nil =>
      obtain rfl : h = t := by simpa using hr.head_eq
      cases n using List.reverseRecOn with
      | nil =>
          have hself : k.next h = some h := hr.seg.1
          refine ⟨(k.setHead none).setNext h none, by simp [readyRemove, hh, hself],
            ⟨by simp, rfl, rfl⟩, by simpa using ring_nil _, by simp, ?_⟩
          intro u hu
          have huh : u ≠ h := fun he => hu (by simp [he])
          simp [huh]
      | append_singleton m z =>
          refine ⟨_, readyRemove_head hh hr, ⟨by simp, rfl, rfl⟩, ?_, by simp, ?_⟩
          · simpa using hr.unlink_head
          · intro u hu
            have huh : u ≠ h := fun he => hu (by simp [he])
            have huz : u ≠ z := fun he => hu (by simp [he])
            simp [huh, huz]
  | append_singleton m z =>
      have htm : t ∉ m ++ [z] := fun hm => (List.nodup_cons.mp (List.nodup_middle.mp hr.nodup)).1
        (List.mem_append_left _ hm)
      refine ⟨_, readyRemove_middle hh hr, ⟨by simp, rfl, rfl⟩, ?_, by simp, ?_⟩
      · rw [List.erase_append_right _ htm, List.erase_cons_head]
        simpa [hh] using hr.unlink
      · intro u hu
        have hut : u ≠ t := fun he => hu (by simp [he])
        have huz : u ≠ z := fun he => hu (by simp [he])
        simp [hut, huz]

theorem readyInsert_ready {k : Kernel} {l : List TaskPtr} (hr : Ring k.next k.readyHead l) {t : TaskPtr}
    (hmem : ∀ u, u ∈ l ↔ Linked k u ∧ u ≠ t) (ht : Linked k t) :
    ∃ k', readyInsert t k = some k' ∧ Relinked k k' ∧ Edits k k' l (l ++ [t]) := by
  have htl : t ∉ l := fun hm => ((hmem t).mp hm).2 rfl
  obtain ⟨k', hk, hrel, hring, hnext⟩ := readyInsert_spec hr htl
  refine ⟨k', hk, hrel, ⟨hring, ?_⟩, ?_⟩
  · intro u
    by_cases hut : u = t
    · subst hut
      simpa [Linked, hrel.state_eq] using ht
    · simpa [Linked, hrel.state_eq, hut] using hmem u
  · intro u hu
    simp only [List.mem_append, List.mem_singleton, not_or] at hu
    rw [if_neg hu.1, hnext u hu.1 hu.2]

theorem readyRemove_ready {k : Kernel} {l : List TaskPtr} (hr : Ready k l) {t : TaskPtr}
    (ht : t ∈ l) {s : TaskState} (hs : s ≠ .ready ∧ s ≠ .running) :
    ∃ k', readyRemove t k = some k' ∧ Relinked k k' ∧
      Edits k (k'.setState t s) l (l.erase t) := by
  obtain ⟨k', hk, hrel, hring, hnull, hnext⟩ := readyRemove_spec hr.ring ht
  refine ⟨k', hk, hrel, ⟨by simpa using hring, ?_⟩, ?_⟩
  · intro u
    rw [hr.ring.nodup.mem_erase_iff, hr.mem_iff u]
    by_cases hut : u = t
    · subst hut
      simp [Linked, hs]
    · simp [Linked, hrel.state_eq, hut]
  · intro u hu
    rw [hr.ring.nodup.mem_erase_iff] at hu
    by_cases hut : u = t
    · subst hut
      simp [ht, hnull]
    · have hul : u ∉ l := fun hm => hu ⟨hut, hm⟩
      simp [hul, hnext u hul]

theorem Edits.refl {k : Kernel} {l : List TaskPtr} (hr : Ready k l) : Edits k k l l :=
  ⟨hr, fun u hu => by simp [hu]⟩

theorem osTaskBlock_spec {k : Kernel} {l : List TaskPtr} (hr : Ready k l) (t : TaskPtr) :
    ∃ k', osTaskBlock (some t) k = some k' ∧ Edits k k' l (l.erase t) ∧
      k'.state = (if t ∈ l then Function.update k.state t .blocked else k.state) ∧
      k'.currentTask = k.currentTask ∧ k'.taskCount = k.taskCount := by
  by_cases ht : t ∈ l
  · obtain ⟨k', hk, hrel, he⟩ := readyRemove_ready hr ht (s := .blocked) (by decide)
    have hg : ¬ (k.state t ≠ .ready ∧ k.state t ≠ .running) := by
      have := (hr.mem_iff t).mp ht
      rw [Linked] at this
      tauto
    refine ⟨k'.setState t .blocked, by simp [osTaskBlock, hg, hk], he, ?_, ?_, ?_⟩
    · simp [ht, hrel.state_eq]
    · simp [hrel.currentTask_eq]
    · simp [hrel.taskCount_eq]
  · have hg : k.state t ≠ .ready ∧ k.state t ≠ .running := by
      have := mt (hr.mem_iff t).mpr ht
      rw [Linked] at this
      tauto
    rw [List.erase_of_not_mem ht]
    exact ⟨k, by simp [osTaskBlock, hg], .refl hr, by simp [ht], rfl, rfl⟩

theorem readyInsert_unlinked {k : Kernel} {l : List TaskPtr} (hr : Ready k l) {t : TaskPtr}
    (ht : ¬ Linked k t) :
    ∃ k', readyInsert t (k.setState t .ready) = some k' ∧ Relinked (k.setState t .ready) k' ∧
      Edits k k' l (l ++ [t]) := by
  have hmem (u : TaskPtr) : u ∈ l ↔ Linked (k.setState t .ready) u ∧ u ≠ t := by
    rw [hr.mem_iff u]
    by_cases hut : u = t
    · subst hut
      simpa using ht
    · simp [Linked, hut]
  obtain ⟨k', hk, hrel, he⟩ := readyInsert_ready (k := k.setState t .ready) (by simpa using hr.ring)
    hmem (by simp [Linked])
  exact ⟨k', hk, hrel, he.ready, fun u hu => by simpa using he.next_eq u hu⟩

theorem readyInsert_last {k : Kernel} {l : List TaskPtr} (hr : Ready k l) {t : TaskPtr} (ht : t ∈ l)
    (hn : k.next t = k.readyHead) :
    ∃ k', readyInsert t (k.setState t .ready) = some k' ∧ Relinked (k.setState t .ready) k' ∧
      Edits k k' l l := by
  obtain ⟨m, rfl⟩ := hr.ring.eq_append_of_next ht hn
  obtain ⟨h, hh⟩ := hr.ring.head_isSome ht
  have hring := hr.ring
  rw [hh] at hring hn
  have hnext : Function.update k.next t (some h) = k.next := by
    rw [← hn, Function.update_eq_self]
  refine ⟨((k.setState t .ready).setNext t (some t)).setNext t (some h),
    by simp [readyInsert, hh, seek_last hring], ⟨by simp, rfl, rfl⟩,
    ⟨by simpa [hh, hnext] using hring, ?_⟩, fun u hu => by simp [hu, hnext]⟩
  intro u
  rw [hr.mem_iff u]
  by_cases hut : u = t
  · subst hut
    simpa [Linked] using (hr.mem_iff u).mp ht
  · simp [Linked, hut]

theorem osTaskWake_spec {k : Kernel} {l : List TaskPtr} (hr : Ready k l) {t : TaskPtr}
    (ht : k.state t = .blocked) :
    ∃ k', osTaskWake (some t) k = some k' ∧ Edits k k' l (l ++ [t]) ∧
      k'.state = Function.update k.state t .ready ∧
      k'.currentTask = k.currentTask ∧ k'.taskCount = k.taskCount := by
  obtain ⟨k', hk, hrel, he⟩ := readyInsert_unlinked hr (t := t) (by simp [Linked, ht])
  refine ⟨k', by simp [osTaskWake, ht, hk], he, ?_, ?_, ?_⟩
  · rw [hrel.state_eq, Kernel.state_setState]
  · rw [hrel.currentTask_eq]; rfl
  · rw [hrel.taskCount_eq]; rfl

/-- `ready_remove` followed by the assignment of a state outside the ring, whether or not
the task was in it. -/
theorem readyRemove_edits {k : Kernel} {l : List TaskPtr} (hr : Ready k l) {t : TaskPtr}
    (hself : t ∉ l → k.next t ≠ some t) {s : TaskState} (hs : s ≠ .ready ∧ s ≠ .running) :
    ∃ k', readyRemove t k = some k' ∧ Relinked k k' ∧ Edits k (k'.setState t s) l (l.erase t) := by
  by_cases ht : t ∈ l
  · exact readyRemove_ready hr ht hs
  · refine ⟨k, readyRemove_of_not_mem hr.ring ht (hself ht), ⟨rfl, rfl, rfl⟩, ?_⟩
    rw [List.erase_of_not_mem ht]
    refine ⟨⟨by simpa using hr.ring, ?_⟩, fun u hu => by simp [hu]⟩
    intro u
    rw [hr.mem_iff u]
    by_cases hut : u = t
    · subst hut
      have := mt (hr.mem_iff u).mpr ht
      simpa [Linked, hs] using this
    · simp [Linked, hut]

theorem osTaskExit_spec {k : Kernel} {l : List TaskPtr} (hr : Ready k l)
    (hself : ∀ t, t ∉ l → k.next t ≠ some t) {c : TaskPtr} (hc : k.currentTask = some c) :
    ∃ k', osTaskExit k = some k' ∧ Edits k k' l (l.erase c) ∧
      k'.state = Function.update k.state c .unused ∧
      k'.currentTask = k.currentTask ∧ k'.taskCount = k.taskCount := by
  obtain ⟨k', hk, hrel, he⟩ := readyRemove_edits hr (hself c) (s := .unused) (by decide)
  refine ⟨k'.setState c .unused, by simp [osTaskExit, hc, hk], he, ?_, ?_, ?_⟩
  · simp [hrel.state_eq]
  · simp [hrel.currentTask_eq]
  · simp [hrel.taskCount_eq]

theorem Ready.head_none_iff {k : Kernel} {l : List TaskPtr} (h : Ready k l) :
    k.readyHead = none ↔ ∀ t, ¬ Linked k t := by
  rw [h.ring.head_eq, List.head?_eq_none_iff, List.eq_nil_iff_forall_not_mem]
  exact forall_congr' fun t => not_congr (h.mem_iff t)

theorem preempt_eq (k : Kernel) : preempt k = k ∨
    ∃ c, k.currentTask = some c ∧ k.state c = .running ∧ preempt k = k.setState c .ready := by
  rw [preempt]
  cases hc : k.currentTask with
  | none => exact .inl rfl
  | some c =>
      by_cases hrun : k.state c = .running
      · exact .inr ⟨c, rfl, hrun, by simp [hrun]⟩
      · exact .inl (by simp [hrun])

theorem preempt_ready {k : Kernel} {l : List TaskPtr} (hr : Ready k l) : Ready (preempt k) l := by
  rcases preempt_eq k with he | ⟨c, -, hrun, he⟩
  · rwa [he]
  · rw [he]
    refine ⟨by simpa using hr.ring, ?_⟩
    intro u
    rw [hr.mem_iff u]
    by_cases huc : u = c
    · subst huc
      simp [Linked, hrun]
    · simp [Linked, huc]

theorem preempt_links (k : Kernel) : (preempt k).next = k.next ∧
    (preempt k).readyHead = k.readyHead ∧ (preempt k).taskCount = k.taskCount ∧
    (preempt k).currentTask = k.currentTask := by
  rcases preempt_eq k with he | ⟨c, -, -, he⟩ <;> simp [he]

theorem preempt_state {k : Kernel} {l : List TaskPtr} (hr : Ready k l) {u : TaskPtr} (hu : u ∉ l) :
    (preempt k).state u = k.state u := by
  rcases preempt_eq k with he | ⟨c, -, hrun, he⟩
  · rw [he]
  · have huc : u ≠ c := by
      rintro rfl
      exact hu ((hr.mem_iff u).mpr (.inr hrun))
    simp [he, huc]

theorem dispatch_ready {k : Kernel} {h : TaskPtr} {l : List TaskPtr} (hr : Ready k (h :: l)) :
    Edits k (dispatch h k) (h :: l) (l ++ [h]) := by
  refine ⟨⟨by simpa using hr.ring.rotate, ?_⟩, ?_⟩
  · intro u
    have hu := hr.mem_iff u
    by_cases huh : u = h
    · subst huh
      simp [Linked]
    · simpa [Linked, huh] using hu
  · intro u hu
    have hul : u ∉ h :: l := by simpa [and_comm] using hu
    rw [if_neg hul, next_dispatch]

theorem osSchedule_nil {k : Kernel} (hr : Ready k []) : osSchedule k = k := by
  have hh : k.readyHead = none := hr.ring.head_eq
  simp [osSchedule, hh]

theorem osSchedule_cons {k : Kernel} {h : TaskPtr} {l : List TaskPtr} (hr : Ready k (h :: l)) :
    osSchedule k = dispatch h (preempt k) := by
  have hh : k.readyHead = some h := hr.ring.head_eq
  simp [osSchedule, hh]

theorem osStart_nil {k : Kernel} (hr : Ready k []) : osStart k = k := by
  have hh : k.readyHead = none := hr.ring.head_eq
  simp [osStart, hh]

theorem osStart_cons {k : Kernel} {h : TaskPtr} {l : List TaskPtr} (hr : Ready k (h :: l)) :
    osStart k = dispatch h k := by
  have hh : k.readyHead = some h := hr.ring.head_eq
  simp [osStart, hh]

/-- `task_count` bounds the pool, the slots it has not reached are unused, and
`current_task` is a task that has been created. -/
structure Counted (k : Kernel) : Prop where
  le : k.taskCount ≤ osMaxTasks
  unused : ∀ t : TaskPtr, k.taskCount ≤ t.val → k.state t = .unused
  current : ∀ c, k.currentTask = some c → c.val < k.taskCount

theorem Counted.not_linked {k : Kernel} (hc : Counted k) {t : TaskPtr} (ht : k.taskCount ≤ t.val) :
    ¬ Linked k t := by
  simp [Linked, hc.unused t ht]

theorem Counted.lt_of_linked {k : Kernel} (hc : Counted k) {t : TaskPtr} (ht : Linked k t) :
    t.val < k.taskCount := by
  by_contra hn
  exact hc.not_linked (not_lt.mp hn) ht

theorem Counted.of_state {k k' : Kernel} (hc : Counted k) (hn : k'.taskCount = k.taskCount)
    (hs : ∀ t : TaskPtr, k.taskCount ≤ t.val → k'.state t = k.state t ∨ k'.state t = .unused)
    (hcur : ∀ c, k'.currentTask = some c → k.currentTask = some c ∨ Linked k c) : Counted k' := by
  refine ⟨hn ▸ hc.le, ?_, fun c h => hn ▸ ?_⟩
  · intro t ht
    rw [hn] at ht
    rcases hs t ht with he | he
    · rw [he, hc.unused t ht]
    · exact he
  · rcases hcur c h with he | he
    · exact hc.current c he
    · exact hc.lt_of_linked he

theorem osTaskCreate_refused {k : Kernel} {entry stack : UInt32}
    (h : osMaxTasks ≤ k.taskCount ∨ entry = 0 ∨ stack = 0) (arg stackSize : UInt32) (id : Int32) :
    osTaskCreate entry arg stack stackSize id k = some (k, none) := by
  simp only [osTaskCreate, h, ↓reduceDIte]

theorem osTaskCreate_spec {k : Kernel} {l : List TaskPtr} (hr : Ready k l) (hc : Counted k)
    (hn : k.taskCount < osMaxTasks) {entry stack : UInt32} (he : entry ≠ 0) (hs : stack ≠ 0)
    (arg stackSize : UInt32) (id : Int32) :
    ∃ k', osTaskCreate entry arg stack stackSize id k = some (k', some ⟨k.taskCount, hn⟩) ∧
      Edits k k' l (l ++ [⟨k.taskCount, hn⟩]) ∧
      k'.state = Function.update k.state ⟨k.taskCount, hn⟩ .ready ∧
      k'.currentTask = k.currentTask ∧ k'.taskCount = k.taskCount + 1 := by
  generalize ht : (⟨k.taskCount, hn⟩ : TaskPtr) = t
  have htl : t ∉ l := fun hm => hc.not_linked (by simp [← ht]) ((hr.mem_iff t).mp hm)
  let frame := initialStack entry stack stackSize k.mem
  let k₁ := k.addTask t ⟨frame.2, .ready, none, arg, stack, stackSize, id⟩ frame.1
  have hnext : k₁.next = Function.update k.next t none := next_addTask _ _ _ _
  have hstate : k₁.state = Function.update k.state t .ready := state_addTask _ _ _ _
  have hring : Ring k₁.next k₁.readyHead l := by
    rw [hnext]
    exact ⟨hr.ring.nodup, hr.ring.head_eq, hr.ring.seg.update_of_not_mem htl none⟩
  have hmem (u : TaskPtr) : u ∈ l ↔ Linked k₁ u ∧ u ≠ t := by
    rw [hr.mem_iff u]
    by_cases hut : u = t
    · subst hut
      simpa using mt (hr.mem_iff u).mpr htl
    · simp [Linked, hstate, hut]
  obtain ⟨k', hk, hrel, hedit⟩ := readyInsert_ready hring hmem (by simp [Linked, hstate])
  refine ⟨k', ?_, ⟨hedit.ready, ?_⟩, hrel.state_eq.trans hstate,
    hrel.currentTask_eq, hrel.taskCount_eq⟩
  · have hg : ¬ (osMaxTasks ≤ k.taskCount ∨ entry = 0 ∨ stack = 0) := by
      simp only [not_or, he, hs, not_false_eq_true, and_self, and_true]
      omega
    have hk' : readyInsert ⟨k.taskCount, hn⟩ (k.addTask ⟨k.taskCount, hn⟩
        ⟨frame.2, .ready, none, arg, stack, stackSize, id⟩ frame.1) = some k' := by rw [ht]; exact hk
    simp only [osTaskCreate, hg, ↓reduceDIte]
    rw [hk', ht]
    rfl
  · intro u hu
    have hut : u ≠ t := fun he => hu (by simp [he])
    simpa [hnext, hut] using hedit.next_eq u hu

end Orion68.ReadyRing
