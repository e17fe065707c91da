import Orion68.Kernel.Scheduler
import Orion68.Lib.Threads

namespace Orion68.Statements

open LinkedLists Scheduler Threads

inductive Caller
  | block
  | exit
  deriving DecidableEq

/-- Points of `ready_remove`, each named after the statement that comes next. -/
inductive RemovePc
  | headNull
  | alone
  | headAlone
  | clearHead
  | prevHead
  | whileNext (prev : Option TaskPtr)
  | prevNext (prev : TaskPtr)
  | wrapped (prev : Option TaskPtr)
  | bridge (prev : TaskPtr)
  | headIs
  | headNext
  | clearNext
  deriving DecidableEq

inductive InsertPc
  | headNull
  | setHead
  | linkSelf
  | tailHead
  | whileNext (tail : Option TaskPtr)
  | tailNext (tail : TaskPtr)
  | append (tail : TaskPtr)
  | link
  deriving DecidableEq

/-- Where a task is in the scheduler; `idle` is anywhere outside it, and `exited` the
endless loop of `OS_TaskExit`. -/
inductive Pc
  | idle
  | blockNull (task : Option TaskPtr)
  | blockGuard (task : TaskPtr)
  | remove (t : TaskPtr) (caller : Caller) (p : RemovePc)
  | blockState (task : TaskPtr)
  | wakeGuard (task : Option TaskPtr)
  | wakeState (task : TaskPtr)
  | insert (t : TaskPtr) (p : InsertPc)
  | exitGuard
  | exitCall
  | exitState
  | exited
  deriving DecidableEq

def Caller.after (t : TaskPtr) : Caller → Pc
  | .block => .blockState t
  | .exit => .exitState

def readyRemoveStmt (t : TaskPtr) (caller : Caller) (p : RemovePc) (k : Kernel) :
    Option (Pc × Kernel) :=
  let goto := Pc.remove t caller
  match p with
  | .headNull => some (if k.readyHead = none then caller.after t else goto .alone, k)
  | .alone => some (if k.next t = some t then goto .headAlone else goto .prevHead, k)
  | .headAlone => some (if k.readyHead = some t then goto .clearHead else goto .clearNext, k)
  | .clearHead => some (goto .clearNext, k.setHead none)
  | .prevHead => some (goto (.whileNext k.readyHead), k)
  | .whileNext prev => prev.map fun prev =>
      (if k.next prev = some t then goto (.bridge prev) else goto (.prevNext prev), k)
  | .prevNext prev => some (goto (.wrapped (k.next prev)), k)
  | .wrapped prev => some (if prev = k.readyHead then caller.after t else goto (.whileNext prev), k)
  | .bridge prev => some (goto .headIs, k.setNext prev (k.next t))
  | .headIs => some (if k.readyHead = some t then goto .headNext else goto .clearNext, k)
  | .headNext => some (goto .clearNext, k.setHead (k.next t))
  | .clearNext => some (caller.after t, k.setNext t none)

def readyInsertStmt (t : TaskPtr) (p : InsertPc) (k : Kernel) : Option (Pc × Kernel) :=
  let goto := Pc.insert t
  match p with
  | .headNull => some (if k.readyHead = none then goto .setHead else goto .tailHead, k)
  | .setHead => some (goto .linkSelf, k.setHead (some t))
  | .linkSelf => some (.idle, k.setNext t (some t))
  | .tailHead => some (goto (.whileNext k.readyHead), k)
  | .whileNext tail => tail.map fun tail =>
      (if k.next tail = k.readyHead then goto (.append tail) else goto (.tailNext tail), k)
  | .tailNext tail => some (goto (.whileNext (k.next tail)), k)
  | .append tail => some (goto .link, k.setNext tail (some t))
  | .link => some (.idle, k.setNext t k.readyHead)

/-- One statement of the running task; `none` where it follows a null pointer. -/
def stmt (p : Pc) (k : Kernel) : Option (Pc × Kernel) :=
  match p with
  | .idle => some (.idle, k)
  | .blockNull none => some (.idle, k)
  | .blockNull (some t) => some (.blockGuard t, k)
  | .blockGuard t =>
      some (if k.state t ≠ .ready ∧ k.state t ≠ .running then .idle
        else .remove t .block .headNull, k)
  | .remove t caller p => readyRemoveStmt t caller p k
  | .blockState t => some (.idle, k.setState t .blocked)
  | .wakeGuard none => some (.idle, k)
  | .wakeGuard (some t) => some (if k.state t ≠ .blocked then .idle else .wakeState t, k)
  | .wakeState t => some (.insert t .headNull, k.setState t .ready)
  | .insert t p => readyInsertStmt t p k
  | .exitGuard => some (if k.currentTask = none then .exited else .exitCall, k)
  | .exitCall => k.currentTask.map fun c => (.remove c .exit .headNull, k)
  | .exitState => k.currentTask.map fun c => (.exited, k.setState c .unused)
  | .exited => some (.exited, k)

def Pc.halted : Pc → Bool
  | .idle | .exited => true
  | _ => false

/-- Points before the first use that an edit makes of the ring, and those after the edit. -/
def Pc.safe : Pc → Bool
  | .remove _ _ .headNull | .remove _ _ .alone => true
  | .remove _ _ _ | .insert _ _ | .blockState _ | .exitState => false
  | _ => true

def Pc.Args (c : TaskPtr) (n : Nat) : Pc → Prop
  | .wakeState t | .remove t .block _ => t.val < n
  | .remove t .exit _ => t = c
  | _ => True

abbrev Finishes : Pc → Kernel → Kernel → Prop := Completes stmt Pc.halted

variable {k k₁ k₂ : Kernel} {t : TaskPtr}

theorem Caller.after_unsafe (caller : Caller) (t : TaskPtr) : (caller.after t).safe = false := by
  cases caller <;> rfl

theorem readyRemoveStmt_next {t : TaskPtr} {caller : Caller} {p : RemovePc} {k k₁ : Kernel} {q : Pc}
    (h : readyRemoveStmt t caller p k = some (q, k₁)) :
    (q = caller.after t ∨ ∃ r, q = .remove t caller r ∧ (q.safe = true → p = .headNull)) ∧
      k₁.taskCount = k.taskCount ∧ k₁.currentTask = k.currentTask := by
  cases p with
  | whileNext prev =>
      obtain ⟨z, -, he⟩ := Option.map_eq_some_iff.mp h
      obtain ⟨rfl, rfl⟩ := Prod.mk.inj he
      split <;> simp [Pc.safe]
  | headNull | alone | headAlone | wrapped | headIs =>
      obtain ⟨rfl, rfl⟩ := Prod.mk.inj (Option.some.inj h)
      split <;> simp [Pc.safe]
  | _ =>
      obtain ⟨rfl, rfl⟩ := Prod.mk.inj (Option.some.inj h)
      simp [Pc.safe]

theorem readyInsertStmt_next {t : TaskPtr} {p : InsertPc} {k k₁ : Kernel} {q : Pc}
    (h : readyInsertStmt t p k = some (q, k₁)) :
    (q = .idle ∨ ∃ r, q = .insert t r) ∧
      k₁.taskCount = k.taskCount ∧ k₁.currentTask = k.currentTask := by
  cases p with
  | whileNext tail =>
      obtain ⟨z, -, he⟩ := Option.map_eq_some_iff.mp h
      obtain ⟨rfl, rfl⟩ := Prod.mk.inj he
      split <;> simp
  | headNull =>
      obtain ⟨rfl, rfl⟩ := Prod.mk.inj (Option.some.inj h)
      split <;> simp
  | _ =>
      obtain ⟨rfl, rfl⟩ := Prod.mk.inj (Option.some.inj h)
      simp

theorem stmt_frame {p q : Pc} {k k₁ : Kernel} (h : stmt p k = some (q, k₁)) :
    k₁.taskCount = k.taskCount ∧ k₁.currentTask = k.currentTask := by
  cases p with
  | remove t caller p => exact (readyRemoveStmt_next h).2
  | insert t p => exact (readyInsertStmt_next h).2
  | blockNull task | wakeGuard task =>
      cases task <;>
      · obtain ⟨-, rfl⟩ := Prod.mk.inj (Option.some.inj h)
        exact ⟨rfl, rfl⟩
  | exitCall | exitState =>
      obtain ⟨c, -, he⟩ := Option.map_eq_some_iff.mp h
      obtain ⟨-, rfl⟩ := Prod.mk.inj he
      exact ⟨rfl, rfl⟩
  | _ =>
      obtain ⟨-, rfl⟩ := Prod.mk.inj (Option.some.inj h)
      exact ⟨rfl, rfl⟩

theorem stmt_safe {p q : Pc} {k k₁ : Kernel} (hp : p.safe = false) (h : stmt p k = some (q, k₁))
    (hq : q.safe = true) : q.halted = true := by
  cases p with
  | remove t caller p =>
      rcases (readyRemoveStmt_next h).1 with rfl | ⟨r, rfl, hr⟩
      · cases caller <;> cases hq
      · obtain rfl := hr hq
        cases hp
  | insert t p =>
      rcases (readyInsertStmt_next h).1 with rfl | ⟨r, rfl⟩
      · rfl
      · cases hq
  | blockState t =>
      obtain ⟨rfl, -⟩ := Prod.mk.inj (Option.some.inj h)
      rfl
  | exitState =>
      obtain ⟨c, -, he⟩ := Option.map_eq_some_iff.mp h
      obtain ⟨rfl, -⟩ := Prod.mk.inj he
      rfl
  | _ => cases hp

theorem stmt_args {p q : Pc} {k k₁ : Kernel} {c : TaskPtr} (hc : k.currentTask = some c)
    (hu : p.safe = true → ∀ t : TaskPtr, k.taskCount ≤ t.val → k.state t = .unused)
    (hp : p.Args c k.taskCount) (h : stmt p k = some (q, k₁)) : q.Args c k.taskCount := by
  have hlt {t : TaskPtr} (hs : p.safe = true) (ht : k.state t ≠ .unused) : t.val < k.taskCount := by
    by_contra hn
    exact ht (hu hs t (Nat.not_lt.mp hn))
  cases p with
  | remove t caller p =>
      rcases (readyRemoveStmt_next h).1 with rfl | ⟨r, rfl, -⟩
      · cases caller <;> trivial
      · cases caller <;> exact hp
  | insert t p =>
      rcases (readyInsertStmt_next h).1 with rfl | ⟨r, rfl⟩ <;> trivial
  | blockGuard t =>
      obtain ⟨rfl, -⟩ := Prod.mk.inj (Option.some.inj h)
      split
      next => trivial
      next hg => exact hlt rfl fun he => hg (by simp [he])
  | wakeGuard task =>
      cases task with
      | none =>
          obtain ⟨rfl, -⟩ := Prod.mk.inj (Option.some.inj h)
          trivial
      | some t =>
          obtain ⟨rfl, -⟩ := Prod.mk.inj (Option.some.inj h)
          split
          next => trivial
          next hg => exact hlt rfl fun he => hg (by simp [he])
  | exitGuard =>
      obtain ⟨rfl, -⟩ := Prod.mk.inj (Option.some.inj h)
      split <;> trivial
  | exitCall =>
      obtain ⟨d, hd, he⟩ := Option.map_eq_some_iff.mp h
      obtain ⟨rfl, -⟩ := Prod.mk.inj he
      exact Option.some.inj (hd.symm.trans hc)
  | exitState =>
      obtain ⟨d, -, he⟩ := Option.map_eq_some_iff.mp h
      obtain ⟨rfl, -⟩ := Prod.mk.inj he
      trivial
  | blockNull task =>
      cases task <;>
      · obtain ⟨rfl, -⟩ := Prod.mk.inj (Option.some.inj h)
        trivial
  | _ =>
      obtain ⟨rfl, -⟩ := Prod.mk.inj (Option.some.inj h)
      trivial

theorem seek_finishes {h z : TaskPtr} (hh : k.readyHead = some h) {fuel : Nat} {p : TaskPtr}
    (hs : seek k.next h fuel p = some z) (hz : Finishes (.insert t (.append z)) k k₁) :
    Finishes (.insert t (.whileNext (some p))) k k₁ := by
  induction fuel generalizing p with
  | zero => simp [seek] at hs
  | succ fuel ih =>
      by_cases hp : k.next p = some h
      · obtain rfl : p = z := by simpa [seek, hp] using hs
        exact .next rfl (by simp [stmt, readyInsertStmt, hp, hh]) hz
      · simp only [seek, hp, if_false, Option.bind_eq_some_iff] at hs
        obtain ⟨q, hq, hs⟩ := hs
        have hqh : q ≠ h := fun he => hp (he ▸ hq)
        apply Completes.next (q := .insert t (.tailNext p)) (t := k) rfl
          (by simp [stmt, readyInsertStmt, hh, hq, hqh])
        exact .next rfl (by simp [stmt, readyInsertStmt, hq]) (ih hs)

theorem readyInsert_finishes (h : readyInsert t k = some k₁) :
    Finishes (.insert t .headNull) k k₁ := by
  rw [readyInsert] at h
  cases hh : k.readyHead with
  | none =>
      simp only [hh, Option.some.injEq] at h
      subst h
      apply Completes.next (q := .insert t .setHead) rfl (by simp [stmt, readyInsertStmt, hh]; rfl)
      exact .next rfl rfl (.next rfl rfl (.done rfl))
  | some head =>
      simp only [hh, Option.map_eq_some_iff] at h
      obtain ⟨z, hz, rfl⟩ := h
      apply Completes.next (q := .insert t .tailHead) rfl (by simp [stmt, readyInsertStmt, hh]; rfl)
      refine .next (q := .insert t (.whileNext (some head))) rfl
        (by simp [stmt, readyInsertStmt, hh]) (seek_finishes hh hz ?_)
      refine .next rfl rfl (.next rfl (by simp [stmt, readyInsertStmt, hh]; rfl) (.done rfl))

theorem seekRound_finishes {caller : Caller} {h : TaskPtr} (hh : k.readyHead = some h)
    {fuel : Nat} {p : TaskPtr} {r : Option TaskPtr} (hs : seekRound k.next h t fuel p = some r)
    (hr : Finishes (r.elim (caller.after t) fun z => .remove t caller (.bridge z)) k k₁) :
    Finishes (.remove t caller (.whileNext (some p))) k k₁ := by
  induction fuel generalizing p with
  | zero => simp [seekRound] at hs
  | succ fuel ih =>
      by_cases hp : k.next p = some t
      · obtain rfl : some p = r := by simpa [seekRound, hp] using hs
        exact .next rfl (by simp [stmt, readyRemoveStmt, hp]) hr
      · simp only [seekRound, hp, if_false, Option.bind_eq_some_iff] at hs
        obtain ⟨q, hq, hs⟩ := hs
        have hqt : q ≠ t := fun he => hp (he ▸ hq)
        apply Completes.next (q := .remove t caller (.prevNext p)) (t := k) rfl
          (by simp [stmt, readyRemoveStmt, hq, hqt])
        apply Completes.next (q := .remove t caller (.wrapped (some q))) (t := k) rfl
          (by simp [stmt, readyRemoveStmt, hq])
        by_cases hqh : q = h
        · obtain rfl : none = r := by simpa [hqh] using hs
          exact .next rfl (by simp [stmt, readyRemoveStmt, hh, hqh]) hr
        · simp only [hqh, if_false] at hs
          exact .next rfl (by simp [stmt, readyRemoveStmt, hh, hqh]) (ih hs)

theorem alone_finishes {caller : Caller} {h : TaskPtr} (hh : k.readyHead = some h)
    (hr : readyRemove t k = some k₁) (ha : Finishes (caller.after t) k₁ k₂) :
    Finishes (.remove t caller .alone) k k₂ := by
  simp only [readyRemove, hh] at hr
  by_cases hself : k.next t = some t
  · apply Completes.next (q := .remove t caller .headAlone) (t := k) rfl
      (by simp [stmt, readyRemoveStmt, hself])
    simp only [hself, if_true, Option.some.injEq] at hr
    subst hr
    by_cases hht : h = t
    · refine .next (q := .remove t caller .clearHead) (t := k) rfl
        (by simp [stmt, readyRemoveStmt, hh, hht]) (.next rfl rfl (.next rfl rfl ?_))
      simpa [hht] using ha
    · refine .next (q := .remove t caller .clearNext) (t := k) rfl
        (by simp [stmt, readyRemoveStmt, hh, hht]) (.next rfl rfl ?_)
      simpa [hht] using ha
  · simp only [hself, if_false, Option.map_eq_some_iff] at hr
    obtain ⟨r, hs, rfl⟩ := hr
    apply Completes.next (q := .remove t caller .prevHead) (t := k) rfl
      (by simp [stmt, readyRemoveStmt, hself])
    refine .next (q := .remove t caller (.whileNext (some h))) (t := k) rfl
      (by simp [stmt, readyRemoveStmt, hh]) (seekRound_finishes hh hs ?_)
    cases r with
    | none => exact ha
    | some z =>
        apply Completes.next rfl rfl
        by_cases hht : h = t
        · refine .next (q := .remove t caller .headNext) rfl
            (by simp [stmt, readyRemoveStmt, hh, hht]; rfl) (.next rfl rfl (.next rfl rfl ?_))
          simpa [hht] using ha
        · refine .next (q := .remove t caller .clearNext) rfl
            (by simp [stmt, readyRemoveStmt, hh, hht]; rfl) (.next rfl rfl ?_)
          simpa [hht] using ha

theorem readyRemove_finishes {caller : Caller} (hr : readyRemove t k = some k₁)
    (ha : Finishes (caller.after t) k₁ k₂) : Finishes (.remove t caller .headNull) k k₂ := by
  cases hh : k.readyHead with
  | none =>
      simp only [readyRemove, hh, Option.some.injEq] at hr
      subst hr
      exact .next rfl (by simp [stmt, readyRemoveStmt, hh]) ha
  | some h =>
      exact .next (q := .remove t caller .alone) (t := k) rfl
        (by simp [stmt, readyRemoveStmt, hh]) (alone_finishes hh hr ha)

theorem osTaskBlock_finishes {task : Option TaskPtr} (h : osTaskBlock task k = some k₁) :
    Finishes (.blockNull task) k k₁ := by
  cases task with
  | none =>
      obtain rfl : k = k₁ := by simpa [osTaskBlock] using h
      exact .next rfl rfl (.done rfl)
  | some t =>
      apply Completes.next rfl rfl
      by_cases hg : k.state t ≠ .ready ∧ k.state t ≠ .running
      · obtain rfl : k = k₁ := by simpa [osTaskBlock, hg] using h
        exact .next (q := .idle) rfl (by simp [stmt, hg]) (.done rfl)
      · simp only [osTaskBlock, hg, if_false, Option.map_eq_some_iff] at h
        obtain ⟨k', hk, rfl⟩ := h
        exact .next (q := .remove t .block .headNull) (t := k) rfl (by simp only [stmt, hg, if_false])
          (readyRemove_finishes hk (.next rfl rfl (.done rfl)))

theorem osTaskWake_finishes {task : Option TaskPtr} (h : osTaskWake task k = some k₁) :
    Finishes (.wakeGuard task) k k₁ := by
  cases task with
  | none =>
      obtain rfl : k = k₁ := by simpa [osTaskWake] using h
      exact .next rfl rfl (.done rfl)
  | some t =>
      by_cases hg : k.state t ≠ .blocked
      · obtain rfl : k = k₁ := by simpa [osTaskWake, hg] using h
        exact .next (q := .idle) rfl (by simp [stmt, hg]) (.done rfl)
      · simp only [osTaskWake, hg, if_false] at h
        exact .next (q := .wakeState t) (t := k) rfl (by simp only [stmt, hg, if_false])
          (.next rfl rfl (readyInsert_finishes h))

theorem readyRemove_currentTask (h : readyRemove t k = some k₁) :
    k₁.currentTask = k.currentTask := by
  rw [readyRemove] at h
  cases hh : k.readyHead with
  | none =>
      obtain rfl : k = k₁ := by simpa [hh] using h
      rfl
  | some head =>
      simp only [hh] at h
      split at h
      next =>
        obtain rfl := Option.some.inj h
        split <;> rfl
      next =>
        obtain ⟨r, -, rfl⟩ := Option.map_eq_some_iff.mp h
        cases r with
        | none => rfl
        | some z =>
            dsimp only
            split <;> rfl

theorem exitState_finishes {c : TaskPtr} (hc : k.currentTask = some c) :
    Finishes .exitState k (k.setState c .unused) :=
  .next (q := .exited) rfl (by simp [stmt, hc]) (.done rfl)

theorem osTaskExit_finishes (h : osTaskExit k = some k₁) : Finishes .exitGuard k k₁ := by
  cases hc : k.currentTask with
  | none =>
      obtain rfl : k = k₁ := by simpa [osTaskExit, hc] using h
      exact .next (q := .exited) rfl (by simp [stmt, hc]) (.done rfl)
  | some c =>
      simp only [osTaskExit, hc, Option.map_eq_some_iff] at h
      obtain ⟨k', hk, rfl⟩ := h
      apply Completes.next (q := .exitCall) (t := k) rfl (by simp [stmt, hc])
      apply Completes.next (q := .remove c .exit .headNull) (t := k) rfl (by simp [stmt, hc])
      exact readyRemove_finishes hk
        (exitState_finishes ((readyRemove_currentTask hk).trans hc))

end Orion68.Statements
