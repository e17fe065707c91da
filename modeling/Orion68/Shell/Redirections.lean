import Orion68.Shell.Commands
import Orion68.Shell.Startup
import Orion68.Lib.Runs

namespace Orion68.Redirections

open Runs Ownership FatFs Shell OpenFailure FatDescriptor Descriptors Commands Startup

def step (i : Input) (s : Vfs) : Option Vfs :=
  (executeLine i s).bind fun r => if r.1.result = 0 ∨ r.1.result = cmdExitShell then some r.2 else none

def occupied (s : Vfs) : Finset Fd := Finset.univ.filter fun fd => (s.fdTable fd).isSome

/-- The descriptors 0, 1 and 2 are terminals and no file has two descriptors; the other
descriptors are as before, and no more of them are in use. -/
structure Restored (s t : Vfs) : Prop where
  wellFormed : WellFormed t
  others : ∀ fd : Fd, 2 < fd.val → t.fdTable fd = s.fdTable fd
  occupied : (occupied t).card ≤ (occupied s).card

def Redirected (i : Input) : Prop :=
  ∃ input args output, parseLine i.stale i.line = .command input args output ∧ args ≠ [] ∧
    (input.isSome ∨ output.isSome)

variable {i : Input} {s t u v : Vfs} {fd r : Fd} {p : Ptr}

theorem wellFormed_of_keeps (hs : WellFormed s) (h : Keeps s t) : WellFormed t := by
  refine ⟨fun fd hfd => ?_, fun hf hf' => ?_⟩
  · obtain ⟨f, hf, hops⟩ := hs.std fd hfd
    exact ⟨f, by rw [h.fdTable, hf], by rw [h.ops, hops]⟩
  · rw [h.fdTable] at hf hf'
    exact hs.separate hf hf'

theorem restored_of_keeps (hs : WellFormed s) (h : Keeps s t) : Restored s t := by
  refine ⟨wellFormed_of_keeps hs h, fun fd _ => by rw [h.fdTable], ?_⟩
  rw [Redirections.occupied, h.fdTable]
  exact Nat.le_refl _

section Spoiling

/-- The file of the entry `r` is also that of `fd`. -/
structure Installed (fd r : Fd) (p : Ptr) (s : Vfs) : Prop where
  le : 3 ≤ r.val
  entry : s.fdTable r = some p
  fdTable : s.fdTable fd = some p
  live : s.files.Live p

theorem Installed.keeps (h : Installed fd r p s) (hk : Keeps s t) : Installed fd r p t :=
  ⟨h.le, by rw [hk.fdTable, h.entry], by rw [hk.fdTable, h.fdTable], (hk.live p).mpr h.live⟩

theorem install_installed (fd : Fd) (hfd : fd.val < 3) (ho : Opened r s t) :
    Installed fd r s.files.next (install fd (some r) t) := by
  rw [install_open ho]
  refine ⟨ho.le, ?_, ?_, ho.live⟩
  · rw [Vfs.fdTable_vfsSetFd, Function.update_of_ne (ne_of_std ho.le hfd), ho.entry]
  · rw [Vfs.fdTable_vfsSetFd, Function.update_self]

/-- The file of a descriptor has been freed, or has a second descriptor. -/
def Spoiled (fd : Fd) (s : Vfs) : Prop :=
  ∃ p, s.fdTable fd = some p ∧ (s.files.cell p = none ∨ ∃ k : Fd, 3 ≤ k.val ∧ s.fdTable k = some p)

theorem Spoiled.not_wellFormed (hfd : fd.val ≤ 2) (h : Spoiled fd s) : ¬ WellFormed s := by
  intro hwell
  obtain ⟨p, hp, hdead | ⟨k, hk, halias⟩⟩ := h
  · obtain ⟨f, hf, hops⟩ := hwell.std fd hfd
    cases hp.symm.trans hf
    rw [hdead] at hops
    cases hops
  · have hsame := hwell.separate hp halias
    subst hsame
    omega

/-- The file of `r` has been closed. Where a terminal could be opened, it stays in the entry that
it was given and `fd` has it too. -/
structure Reopened (fd r : Fd) (p : Ptr) (s t : Vfs) : Prop where
  others : ∀ k q, k ≠ fd → k ≠ r → s.fdTable k = some q → t.fdTable k = some q
  live : ∀ q, q ≠ p → q < s.files.next → (t.files.Live q ↔ s.files.Live q)
  next : s.files.next ≤ t.files.next
  spoiled : (t.fdTable fd = some p ∧ t.files.cell p = none) ∨
    ∃ k : Fd, 3 ≤ k.val ∧ t.fdTable fd = some s.files.next ∧ t.fdTable k = some s.files.next

theorem restore_reopens (hfd : fd.val < 3) (h : Installed fd r p s) : Reopened fd r p s (restore fd (some r) s) := by
  have hclosed := close_live h.entry h.live
  have hnext : (vfsClose r s).2.files.next = s.files.next := by
    rw [hclosed.files, Heap.next_free]
  have hlive {q : Ptr} (hq : q ≠ p) : (vfsClose r s).2.files.Live q ↔ s.files.Live q := by
    rw [hclosed.files, Heap.live_free]
    exact and_iff_right hq
  have hkept {k : Fd} {q : Ptr} (hk : k ≠ r) (hq : s.fdTable k = some q) : (vfsClose r s).2.fdTable k = some q := by
    rw [hclosed.fdTable, Function.update_of_ne hk, hq]
  rw [restore]
  rcases open_cases (text "/dev/tty") oRdwr (vfsClose r s).2 with ⟨-, t, ht, -, hkeep⟩ | ⟨-, k, t, ht, ho⟩
  · simp only [ht]
    refine ⟨fun k q _ hk hq => ?_, fun q hq _ => (hkeep.live q).trans (hlive hq), hnext ▸ hkeep.next, .inl ⟨?_, ?_⟩⟩
    · rw [hkeep.fdTable, hkept hk hq]
    · rw [hkeep.fdTable, hkept (ne_of_std h.le hfd).symm h.fdTable]
    · rw [← Heap.not_live_iff, hkeep.live, hclosed.files, Heap.live_free]
      exact fun h => h.1 rfl
  · simp only [ht]
    refine ⟨fun k' q hfd' hr hq => ?_, fun q hq hlt => ?_, ?_, .inr ⟨k, ho.le, ?_, ?_⟩⟩
    · rw [Vfs.fdTable_vfsSetFd, Function.update_of_ne hfd', ho.fdTable_of_some (hkept hr hq)]
    · rw [Vfs.files_vfsSetFd, Heap.Live, ho.cell (by rw [hnext]; exact Nat.ne_of_lt hlt)]
      exact hlive hq
    · exact hnext ▸ Nat.le_of_lt ho.next
    · rw [Vfs.fdTable_vfsSetFd, Function.update_self, ho.entry, hnext]
    · rw [Vfs.fdTable_vfsSetFd, Function.update_of_ne (ne_of_std ho.le hfd), ho.entry, hnext]

theorem Reopened.isSpoiled (h : Reopened fd r p s t) : Spoiled fd t := by
  rcases h.spoiled with ⟨hentry, hdead⟩ | ⟨k, hk, hentry, halias⟩
  · exact ⟨p, hentry, .inl hdead⟩
  · exact ⟨s.files.next, hentry, .inr ⟨k, hk, halias⟩⟩

section Twice

variable {fd' r' : Fd} {q : Ptr} (hfd : fd.val < 3) (hfd' : fd'.val < 3) (hne : fd' ≠ fd) (hr : r' ≠ r) (hq : q ≠ p)
include hfd hfd' hne hr hq

theorem Reopened.installed (h : Reopened fd r p s t) (hp : Installed fd r p s) (hi : Installed fd' r' q s) :
    Installed fd' r' q t := by
  refine ⟨hi.le, h.others r' q ?_ hr hi.entry, h.others fd' q hne ?_ hi.fdTable,
    (h.live q hq hi.live.lt_next).mpr hi.live⟩
  · exact ne_of_std hi.le hfd
  · exact (ne_of_std hp.le hfd').symm

theorem Reopened.spoils (h : Reopened fd r p s t) (hp : Installed fd r p s) (hi : Installed fd' r' q s)
    (h' : Reopened fd' r' q t u) : Spoiled fd u := by
  have hi' := h.installed hfd hfd' hne hr hq hp hi
  rcases h.spoiled with ⟨hentry, hdead⟩ | ⟨k, hk, hentry, halias⟩
  · refine ⟨p, h'.others fd p hne.symm (ne_of_std hi.le hfd).symm hentry, .inl ?_⟩
    have hlt : p < t.files.next := Nat.lt_of_lt_of_le hp.live.lt_next h.next
    rw [← Heap.not_live_iff, h'.live p hq.symm hlt, Heap.not_live_iff, hdead]
  · have hentry' := h'.others fd _ hne.symm (ne_of_std hi.le hfd).symm hentry
    refine ⟨s.files.next, hentry', .inr ⟨k, hk, h'.others k _ ?_ ?_ halias⟩⟩
    · exact ne_of_std hk hfd'
    · rintro rfl
      have hsame := Option.some.inj (hi'.entry.symm.trans halias)
      exact absurd hsame (Nat.ne_of_lt hi.live.lt_next)

end Twice

end Spoiling

section Lines

variable {args : List Path} {input : Option Fd} {output : Option (Path × UInt32)} {x : Exit}

/-- The output is open and installed, where there is one. -/
def OutputReady (output : Option (Path × UInt32)) (out : Option Fd) (s t : Vfs) : Prop :=
  (output = none ∧ out = none ∧ t = s) ∨
    ∃ fd u, output.isSome ∧ out = some fd ∧ Opened fd s u ∧ t = install stdout (some fd) u

theorem failed (h : x.result = -1) : ¬ (x.result = 0 ∨ x.result = cmdExitShell) := by
  rw [h]
  decide

theorem withInput_ran (hargs : args ≠ []) (h : withInput i args output input s = some (x, t))
    (hx : x.result = 0 ∨ x.result = cmdExitShell) :
    ∃ out u v, OutputReady output out (install stdin input s) u ∧ Keeps u v ∧
      t = restore stdin input (restore stdout out v) := by
  rw [withInput, if_neg hargs, execute.eq_def] at h
  cases output with
  | none =>
      obtain ⟨⟨n, v⟩, hv, hr⟩ := Option.map_eq_some_iff.mp h
      cases hr
      exact ⟨none, _, v, .inl ⟨rfl, rfl, rfl⟩, runCommand_keeps hv hx, rfl⟩
  | some o =>
      rcases open_cases o.1 o.2 (install stdin input s) with ⟨-, u, hu, -⟩ | ⟨-, fd, u, hu, ho⟩
      · simp only [hu] at h
        cases h
        exact absurd hx (failed rfl)
      · simp only [hu] at h
        obtain ⟨⟨n, v⟩, hv, hr⟩ := Option.map_eq_some_iff.mp h
        cases hr
        exact ⟨some fd, _, v, .inr ⟨fd, u, rfl, rfl, ho, rfl⟩, runCommand_keeps hv hx, rfl⟩

theorem Installed.opened (h : Installed stdin r p s) (ho : Opened fd s t) :
    Installed stdin r p (install stdout (some fd) t) ∧ r ≠ fd := by
  rw [install_open ho]
  refine ⟨⟨h.le, ?_, ?_, ?_⟩, ho.ne_of_some h.entry⟩
  · rw [Vfs.fdTable_vfsSetFd, Function.update_of_ne (ne_of_std h.le (by decide)), ho.fdTable_of_some h.entry]
  · rw [Vfs.fdTable_vfsSetFd, Function.update_of_ne (by decide), ho.fdTable_of_some h.fdTable]
  · rw [Vfs.files_vfsSetFd, Heap.Live, ho.cell (Nat.ne_of_lt h.live.lt_next)]
    exact h.live

theorem output_spoils (ho : Opened fd s u) (hk : Keeps (install stdout (some fd) u) v) :
    Spoiled stdout (restore stdout (some fd) v) :=
  (restore_reopens (by decide) ((install_installed _ (by decide) ho).keeps hk)).isSpoiled

theorem input_spoils (ho : Opened fd s u) (hk : Keeps (install stdin (some fd) u) v) :
    Spoiled stdin (restore stdin (some fd) v) :=
  (restore_reopens (by decide) ((install_installed _ (by decide) ho).keeps hk)).isSpoiled

theorem both_spoil {u' : Vfs} {r : Fd} (ho : Opened r s u) (ho' : Opened fd (install stdin (some r) u) u')
    (hk : Keeps (install stdout (some fd) u') v) :
    Spoiled stdout (restore stdin (some r) (restore stdout (some fd) v)) := by
  have hin := install_installed stdin (by decide) ho
  obtain ⟨hin', hne⟩ := hin.opened ho'
  have hout := (install_installed stdout (by decide) ho').keeps hk
  have hout' := restore_reopens (by decide) hout
  have hpne : s.files.next ≠ (install stdin (some r) u).files.next := Nat.ne_of_lt hin.live.lt_next
  have hin'' := hout'.installed (by decide) (by decide) (by decide) hne hpne hout (hin'.keeps hk)
  exact hout'.spoils (by decide) (by decide) (by decide) hne hpne hout (hin'.keeps hk)
    (restore_reopens (by decide) hin'')

theorem step_eq_some (h : step i s = some t) :
    ∃ x : Exit, executeLine i s = some (x, t) ∧ (x.result = 0 ∨ x.result = cmdExitShell) := by
  obtain ⟨⟨x, u⟩, hr, hx⟩ := Option.bind_eq_some_iff.mp h
  split at hx
  next hx' =>
    cases hx
    exact ⟨x, hr, hx'⟩
  next => cases hx

theorem step_keeps (hplain : ¬ Redirected i) (h : step i s = some t) : Keeps s t := by
  obtain ⟨x, hr, hx⟩ := step_eq_some h
  rw [executeLine] at hr
  split at hr
  · cases hr
    exact keeps_of_files rfl rfl
  · cases hr
    exact say_keeps 26 _ s
  next args output hreq =>
    by_cases hargs : args = []
    · rw [withInput, if_pos hargs] at hr
      cases hr
      exact keeps_of_files rfl rfl
    · obtain ⟨out, u, v, ⟨rfl, rfl, rfl⟩ | ⟨fd, w, hout, -⟩, hkeep, rfl⟩ := withInput_ran hargs hr hx
      · exact hkeep
      · exact absurd ⟨none, args, output, hreq, hargs, .inr hout⟩ hplain
  next file args output hreq =>
    have hargs : args = [] := by
      by_contra hargs
      exact hplain ⟨some file, args, output, hreq, hargs, .inl rfl⟩
    rcases open_cases file oRdonly s with ⟨-, u, hu, -⟩ | ⟨-, fd, u, hu, ho⟩
    · simp only [hu] at hr
      cases hr
      exact absurd hx (failed rfl)
    · simp only [hu, withInput, if_pos hargs] at hr
      cases hr
      exact ho.close (keeps_of_files rfl rfl)

theorem step_spoils (hred : Redirected i) (h : step i s = some t) : ¬ WellFormed t := by
  obtain ⟨x, hr, hx⟩ := step_eq_some h
  obtain ⟨input, args, output, hreq, hargs, hsome⟩ := hred
  rw [executeLine, hreq] at hr
  cases input with
  | none =>
      obtain ⟨out, u, v, ⟨rfl, -⟩ | ⟨fd, w, -, rfl, ho, rfl⟩, hkeep, rfl⟩ := withInput_ran hargs hr hx
      · rcases hsome with hsome | hsome <;> cases hsome
      · exact (output_spoils ho hkeep).not_wellFormed (by decide)
  | some file =>
      rcases open_cases file oRdonly s with ⟨-, u, hu, -⟩ | ⟨-, r, u, hu, ho⟩
      · simp only [hu] at hr
        cases hr
        exact absurd hx (failed rfl)
      · simp only [hu] at hr
        obtain ⟨out, w, v, ⟨-, rfl, rfl⟩ | ⟨fd, u', -, rfl, ho', rfl⟩, hkeep, rfl⟩ := withInput_ran hargs hr hx
        · exact (input_spoils ho hkeep).not_wellFormed (by decide)
        · exact (both_spoil ho ho' hkeep).not_wellFormed (by decide)

end Lines

/-- Lines that succeed leave the table as it was exactly when none of them redirects a command. -/
theorem table_restored_iff (lines : List Input) (hs : WellFormed s) (hr : run step lines s = some t) :
    Along step (fun i u => ∀ v, step i u = some v → Restored u v) lines s ↔ ∀ i ∈ lines, ¬ Redirected i := by
  refine along_iff_forall (I := WellFormed) ?_ ?_ hs hr
  · intro i u v hu hplain hv
    exact wellFormed_of_keeps hu (step_keeps hplain hv)
  · intro i u v hu hv
    constructor
    · intro h hred
      exact step_spoils hred hv (h v hv).wellFormed
    · intro hplain w hw
      exact restored_of_keeps hu (step_keeps hplain hw)

theorem table_restored_iff_exit : ∃ t, run step [.typed "exit"] started = some t ∧
    Along step (fun i u => ∀ v, step i u = some v → Restored u v) [.typed "exit"] started := by
  have hline : run step [.typed "exit"] started = some (say 20 "Saindo do shell...\n" started) := rfl
  refine ⟨_, hline, (table_restored_iff [.typed "exit"] started_spec.1 hline).mpr ?_⟩
  intro i hi
  cases List.mem_singleton.mp hi
  rintro ⟨input, args, output, hreq, -, hsome⟩
  have hparse : parseLine [] (text "exit") = .command none [text "exit"] none := rfl
  cases hparse.symm.trans hreq
  rcases hsome with hsome | hsome <;> cases hsome

/-- One redirected line. -/
theorem input_redirection_spoils :
    ¬ ∀ (lines : List Input) (s t : Vfs), WellFormed s → run step lines s = some t →
      Along step (fun i u => ∀ v, step i u = some v → Restored u v) lines s := by
  intro h
  have hparse : parseLine [] (text "exit < /A") = .command (some (text "/A")) [text "exit"] none := rfl
  rcases open_cases (text "/A") oRdonly started with ⟨hno, -⟩ | ⟨-, fd, u, hu, -⟩
  · exact hno started_opens
  · have hline : step (.typed "exit < /A") started =
        some (restore stdin (some fd) (say 20 "Saindo do shell...\n" (install stdin (some fd) u))) := by
      have hreq : parseLine (Input.typed "exit < /A").stale (Input.typed "exit < /A").line = _ := hparse
      rw [step, executeLine, hreq]
      simp only [hu]
      rfl
    have hkept := (h [.typed "exit < /A"] started _ started_spec.1 (by rw [run_cons_of_step hline]; rfl)).1
    exact step_spoils ⟨_, _, _, hparse, by decide, .inl rfl⟩ hline (hkept _ hline).wellFormed

end Orion68.Redirections
