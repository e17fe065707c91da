import Orion68.Shell.ErrorPaths
import Orion68.Shell.RedirectionOrder

namespace Orion68.Dispatch

open Libc FatFs Shell OpenFailure Descriptors ErrorPaths RedirectionOrder

section Log

/-- What happens from the search for the builtin on. -/
inductive Event
  | ran (c : Command)
  | searched
  | loaded
  | unknown

def externalLog (i : Input) (s : Vfs) : List Event :=
  if (fileExists i s).1 then [.searched, .loaded] else [.searched, .unknown]

def builtin (name : Path) : Option Command := (commands.find? fun c => text c.1 = name).map Prod.snd

/-- `runCommand`, with what happens. -/
def runCommandLog (i : Input) (args : List Path) (s : Vfs) : List Event × Option (Int × Vfs) :=
  match builtin (args.headD []) with
  | none => (externalLog i s, some (-1, external i args s))
  | some c =>
      match c.func i args s with
      | none => ([.ran c], none)
      | some r =>
          if r.1 ≠ 0 ∧ r.1 ≠ cmdExitShell then (.ran c :: externalLog i r.2, some (r.1, external i args r.2))
          else ([.ran c], some r)

/-- Step 3: the VFS with the redirections in place. -/
def redirected (input : Option Fd) (output : Option (Path × UInt32)) (s : Vfs) : Option Vfs :=
  let s := install stdin input s
  match output with
  | none => some s
  | some (file, flags) =>
      let r := vfsOpen file flags s
      r.1.map fun fd => install stdout (some fd) r.2

/-- The arguments and the VFS that a line runs its command with. -/
def dispatched (i : Input) (s : Vfs) : Option (List Path × Vfs) :=
  match parseLine i.stale i.line with
  | .blank | .heredoc => none
  | .command none args output => if args = [] then none else (redirected none output s).map fun s => (args, s)
  | .command (some file) args output =>
      let r := vfsOpen file oRdonly s
      match r.1 with
      | none => none
      | some fd => if args = [] then none else (redirected (some fd) output r.2).map fun s => (args, s)

def dispatchLog (i : Input) (s : Vfs) : List Event :=
  match dispatched i s with
  | none => []
  | some (args, s) => (runCommandLog i args s).1

variable {i : Input} {args : List Path} {output : Option (Path × UInt32)} {input : Option Fd} {s s' : Vfs}

theorem runCommandLog_snd (i : Input) (args : List Path) (s : Vfs) :
    (runCommandLog i args s).2 = runCommand i args s := by
  rw [runCommandLog, runCommand, builtin]
  cases commands.find? fun c => text c.1 = args.headD [] with
  | none => rfl
  | some c =>
      dsimp only [Option.map_some]
      cases c.2.func i args s with
      | none => rfl
      | some r =>
          dsimp only [Option.map_some]
          split <;> rfl

/-- A line that gets to its command leaves with the result of it, and another line does not. -/
def FollowsDispatch (i : Input) (d : Option (List Path × Vfs)) (r : Option (Exit × Vfs)) : Prop :=
  match d with
  | some (args, s) => ∃ after : Vfs → Vfs, r = (runCommand i args s).map fun r => (.ran r.1, after r.2)
  | none => ∃ exit t, r = some (exit, t) ∧ ∀ result, exit ≠ .ran result

theorem withInput_dispatched (i : Input) (args : List Path) (output : Option (Path × UInt32)) (input : Option Fd) (s : Vfs) :
    FollowsDispatch i (if args = [] then none else (redirected input output s).map fun s => (args, s))
      (withInput i args output input s) := by
  rw [withInput]
  by_cases hargs : args = []
  · rw [if_pos hargs, if_pos hargs]
    exact ⟨_, _, rfl, fun _ he => by cases he⟩
  · rw [if_neg hargs, if_neg hargs, redirected.eq_def, execute.eq_def]
    cases output with
    | none => exact ⟨_, rfl⟩
    | some o =>
        dsimp only
        cases (vfsOpen o.1 o.2 (install stdin input s)).1 with
        | none => exact ⟨_, _, rfl, fun _ he => by cases he⟩
        | some fd => exact ⟨fun t => restore stdin input (restore stdout (some fd) t), rfl⟩

theorem executeLine_dispatched (i : Input) (s : Vfs) : FollowsDispatch i (dispatched i s) (executeLine i s) := by
  rw [dispatched, executeLine]
  cases parseLine i.stale i.line with
  | blank | heredoc => exact ⟨_, _, rfl, fun _ he => by cases he⟩
  | command input args output =>
      cases input with
      | none => exact withInput_dispatched i args output none s
      | some file =>
          dsimp only
          cases (vfsOpen file oRdonly s).1 with
          | none => exact ⟨_, _, rfl, fun _ he => by cases he⟩
          | some fd => exact withInput_dispatched i args output (some fd) _

end Log

section Tokens

/-- The tokens of a line, without its redirections. -/
def tokens (stale line : List UInt8) : List Path :=
  parseArgs 16 ((parseInput (parseOutput stale (aparada line)).2).2.dropWhile (· = space))

variable {i : Input} {args : List Path} {s s' : Vfs}

theorem parse_tokens {input : Option Path} {output : Option (Path × UInt32)}
    (h : parseLine i.stale i.line = .command input args output) : args = tokens i.stale i.line := by
  rw [parseLine_eq] at h
  split at h
  next => cases h
  next =>
    split at h
    next => cases h
    next =>
      cases h
      rfl

theorem dispatched_args (h : dispatched i s = some (args, s')) : args = tokens i.stale i.line ∧ args ≠ [] := by
  rw [dispatched] at h
  split at h
  next => cases h
  next => cases h
  next args' output hparse =>
    split at h
    next => cases h
    next hargs =>
      obtain ⟨t, -, he⟩ := Option.map_eq_some_iff.mp h
      cases he
      exact ⟨parse_tokens hparse, hargs⟩
  next file args' output hparse =>
    dsimp only at h
    split at h
    next => cases h
    next =>
      split at h
      next => cases h
      next hargs =>
        obtain ⟨t, -, he⟩ := Option.map_eq_some_iff.mp h
        cases he
        exact ⟨parse_tokens hparse, hargs⟩

def firstBuiltin (i : Input) : Option Command := builtin ((tokens i.stale i.line).headD [])

def Exclusive (i : Input) (s : Vfs) : Prop :=
  match firstBuiltin i with
  | some c => dispatchLog i s = [.ran c]
  | none => ∀ c, .ran c ∉ dispatchLog i s

/-- The line is a command without `<<`, and the files of its redirections can be opened: the output
beside the input. -/
def RedirectionsOpen (i : Input) (s : Vfs) : Prop :=
  ∃ input args output, parseLine i.stale i.line = .command input args output ∧
    (∀ file ∈ input, Opens 0 file oRdonly s) ∧
    ∀ o ∈ output, Opens (if input.isSome then 1 else 0) o.1 o.2 (if input.isSome then s.turn else s)

theorem redirected_isSome_iff (input : Option Fd) (output : Option (Path × UInt32)) (s : Vfs) :
    (redirected input output s).isSome ↔ ∀ o ∈ output, Opens 0 o.1 o.2 (install stdin input s) := by
  rw [redirected.eq_def]
  cases output with
  | none => exact iff_of_true rfl fun o ho => nomatch ho
  | some o =>
      have hone : (∀ o' ∈ some o, Opens 0 o'.1 o'.2 (install stdin input s)) ↔ Opens 0 o.1 o.2 (install stdin input s) := by
        simp
      rw [hone]
      dsimp only
      rw [Option.isSome_map]
      rcases open_cases o.1 o.2 (install stdin input s) with ⟨hno, t, ht, -⟩ | ⟨hopens, fd, t, ht, -⟩
      · rw [ht]
        exact iff_of_false Bool.false_ne_true hno
      · rw [ht]
        exact iff_of_true rfl hopens

theorem dispatched_isSome_iff (i : Input) (s : Vfs) :
    (dispatched i s).isSome ↔ RedirectionsOpen i s ∧ tokens i.stale i.line ≠ [] := by
  rw [dispatched]
  cases hparse : parseLine i.stale i.line with
  | blank | heredoc =>
      refine iff_of_false Bool.false_ne_true ?_
      rintro ⟨⟨input, args, output, hcommand, -⟩, -⟩
      rw [hparse] at hcommand
      cases hcommand
  | command input args output =>
      have hredirs : RedirectionsOpen i s ↔ (∀ file ∈ input, Opens 0 file oRdonly s) ∧
          ∀ o ∈ output, Opens (if input.isSome then 1 else 0) o.1 o.2 (if input.isSome then s.turn else s) := by
        constructor
        · rintro ⟨input', args', output', hcommand, hopen⟩
          rw [hparse] at hcommand
          cases hcommand
          exact hopen
        · intro hopen
          exact ⟨input, args, output, hparse, hopen⟩
      rw [hredirs, ← parse_tokens hparse]
      cases input with
      | none =>
          dsimp only
          by_cases hargs : args = []
          · rw [if_pos hargs]
            exact iff_of_false Bool.false_ne_true fun hall => hall.2 hargs
          · have hnone : ∀ file ∈ (none : Option Path), Opens 0 file oRdonly s := fun file hfile => nomatch hfile
            rw [if_neg hargs, Option.isSome_map, redirected_isSome_iff, and_iff_left hargs, and_iff_right hnone]
            rfl
      | some file =>
          dsimp only
          have hone : (∀ file' ∈ some file, Opens 0 file' oRdonly s) ↔ Opens 0 file oRdonly s := by simp
          rw [hone]
          rcases open_cases file oRdonly s with ⟨hno, t, ht, -⟩ | ⟨hopens, fd, t, ht, hopened⟩
          · rw [ht]
            exact iff_of_false Bool.false_ne_true fun hall => hno hall.1.1
          · rw [ht, and_iff_right hopens]
            dsimp only
            by_cases hargs : args = []
            · rw [if_pos hargs]
              exact iff_of_false Bool.false_ne_true fun hall => hall.2 hargs
            · rw [if_neg hargs, Option.isSome_map, redirected_isSome_iff, and_iff_left hargs]
              apply forall₂_congr
              intro o _
              exact opens_installed_iff hopened (open_input_volume ht)

end Tokens

section Failures

variable {i : Input} {args : List Path} {s s' : Vfs} {c : Command}

/-- A builtin that returns neither 0 nor 99. -/
def Fails (i : Input) (args : List Path) (s : Vfs) : Command → Prop
  | .cat => args.tail = [] ∨ ∃ file rest, args.tail = file :: rest ∧ ¬ Opens 0 file oRdonly s
  | .ls => i.dir = none
  | .cd => args.tail = []
  | .mkdir => args.tail = [] ∨ ∃ dir rest, args.tail = dir :: rest ∧ (i.disk.result ≠ .ok ∨ s.volume dir ≠ .none)
  | .meminfo => ¬ Opens 0 (text "/proc/meminfo") oRdonly s
  | .help | .echo | .reboot | .shutdown | .clear | .exit => False

def Returns (r : Int × Vfs) : Prop := r.1 = 0 ∨ r.1 = cmdExitShell

theorem showFile_returns {n : ℕ} {fd : Fd} {r : Int × Vfs} (h : showFile n fd s = some r) : Returns r := by
  obtain ⟨t, -, rfl⟩ := Option.map_eq_some_iff.mp h
  exact .inl rfl

theorem func_cases (c : Command) (i : Input) (args : List Path) (s : Vfs) :
    (Fails i args s c ∧ ∃ t, c.func i args s = some (-1, t)) ∨
      ¬ Fails i args s c ∧ ∀ r, c.func i args s = some r → Returns r := by
  cases c with
  | help | echo | reboot | shutdown =>
      refine .inr ⟨id, ?_⟩
      rintro _ ⟨⟩
      exact .inl rfl
  | exit =>
      refine .inr ⟨id, ?_⟩
      rintro _ ⟨⟩
      exact .inr rfl
  | clear =>
      refine .inr ⟨id, ?_⟩
      rintro _ ⟨⟩
      left
      rw [cmdClear]
      split <;> rfl
  | cat =>
      rw [Command.func, cmdCat]
      cases hargs : args.tail with
      | nil => exact .inl ⟨.inl hargs, _, rfl⟩
      | cons file rest =>
          rcases open_cases file oRdonly s with ⟨hno, t, ht, -⟩ | ⟨hopens, fd, t, ht, -⟩
          · simp only [ht]
            exact .inl ⟨.inr ⟨file, rest, hargs, hno⟩, _, rfl⟩
          · simp only [ht]
            refine .inr ⟨?_, fun r hr => showFile_returns hr⟩
            rintro (hnil | ⟨file', rest', hcons, hno⟩)
            · rw [hargs] at hnil
              cases hnil
            · rw [hargs] at hcons
              cases hcons
              exact hno hopens
  | ls =>
      rw [Command.func, cmdLs, Fails]
      cases i.dir with
      | none => exact .inl ⟨rfl, _, rfl⟩
      | some entries =>
          refine .inr ⟨fun he => (by cases he), ?_⟩
          rintro _ ⟨⟩
          exact .inl rfl
  | cd =>
      rw [Command.func, cmdCd, Fails]
      cases args.tail with
      | nil => exact .inl ⟨rfl, _, rfl⟩
      | cons dir rest =>
          refine .inr ⟨fun he => (by cases he), ?_⟩
          rintro _ ⟨⟩
          exact .inl rfl
  | mkdir =>
      rw [Command.func, cmdMkdir]
      cases hargs : args.tail with
      | nil => exact .inl ⟨.inl hargs, _, rfl⟩
      | cons dir rest =>
          have hmade : (fMkdir i.disk dir s.volume).1 ≠ .ok ↔ i.disk.result ≠ .ok ∨ s.volume dir ≠ .none := by
            rw [fMkdir]
            by_cases hd : i.disk.result ≠ .ok
            · rw [if_pos hd]
              exact iff_of_true hd (.inl hd)
            · rw [if_neg hd]
              cases hv : s.volume dir <;> simp_all
          by_cases hfail : (fMkdir i.disk dir s.volume).1 ≠ .ok
          · simp only [if_pos hfail]
            exact .inl ⟨.inr ⟨dir, rest, hargs, hmade.mp hfail⟩, _, rfl⟩
          · simp only [if_neg hfail]
            refine .inr ⟨?_, ?_⟩
            · rintro (hnil | ⟨dir', rest', hcons, hnot⟩)
              · rw [hargs] at hnil
                cases hnil
              · rw [hargs] at hcons
                cases hcons
                exact hfail (hmade.mpr hnot)
            · rintro _ ⟨⟩
              exact .inl rfl
  | meminfo =>
      rw [Command.func, cmdMeminfo]
      rcases open_cases (text "/proc/meminfo") oRdonly s with ⟨hno, t, ht, -⟩ | ⟨hopens, fd, t, ht, -⟩
      · simp only [ht]
        exact .inl ⟨hno, _, rfl⟩
      · simp only [ht]
        exact .inr ⟨fun hno => hno hopens, fun r hr => showFile_returns hr⟩

end Failures

section Exclusion

variable {i : Input} {args : List Path} {s s' : Vfs} {c : Command}

theorem externalLog_ran (i : Input) (s : Vfs) (c : Command) : .ran c ∉ externalLog i s := by
  rw [externalLog]
  split <;> simp

theorem dispatched_builtin (h : dispatched i s = some (args, s')) : builtin (args.headD []) = firstBuiltin i := by
  rw [(dispatched_args h).1, firstBuiltin]

theorem tokens_ne_nil (h : firstBuiltin i = some c) : tokens i.stale i.line ≠ [] := by
  intro hnil
  rw [firstBuiltin, hnil] at h
  cases h

theorem runs_none (h : firstBuiltin i = none) (c : Command) : .ran c ∉ dispatchLog i s := by
  rw [dispatchLog]
  split
  next => exact List.not_mem_nil
  next args s' hd =>
    rw [runCommandLog, dispatched_builtin hd, h]
    exact externalLog_ran i s' c

theorem runs_builtin_iff (h : firstBuiltin i = some c) (hd : dispatched i s = some (args, s')) :
    dispatchLog i s = [.ran c] ↔ ¬ Fails i args s' c := by
  rw [dispatchLog, hd]
  dsimp only
  rw [runCommandLog, dispatched_builtin hd, h]
  dsimp only
  rcases func_cases c i args s' with ⟨hfails, t, ht⟩ | ⟨hkeeps, hreturns⟩
  · rw [ht]
    dsimp only
    rw [if_pos (by decide), externalLog]
    refine iff_of_false ?_ fun hnot => hnot hfails
    split <;> simp
  · refine iff_of_true ?_ hkeeps
    cases hr : c.func i args s' with
    | none => rfl
    | some r =>
        have hreturn : ¬ (r.1 ≠ 0 ∧ r.1 ≠ cmdExitShell) := by
          rcases hreturns r hr with hzero | hexit
          · exact fun hboth => hboth.1 hzero
          · exact fun hboth => hboth.2 hexit
        dsimp only
        rw [if_neg hreturn]

/-- A line whose first token names no builtin runs none. The builtin of another line runs, with no
search after it, when the redirections open and it does not fail. -/
theorem dispatch_exclusive_iff (i : Input) (s : Vfs) :
    Exclusive i s ↔ ∀ c, firstBuiltin i = some c →
      RedirectionsOpen i s ∧ ∀ args s', dispatched i s = some (args, s') → ¬ Fails i args s' c := by
  cases hfirst : firstBuiltin i with
  | none =>
      refine iff_of_true ?_ fun c hc => nomatch hc
      rw [Exclusive, hfirst]
      intro c
      exact runs_none hfirst c
  | some c =>
      have hcond : (∀ c', some c = some c' →
            RedirectionsOpen i s ∧ ∀ args s', dispatched i s = some (args, s') → ¬ Fails i args s' c') ↔
          RedirectionsOpen i s ∧ ∀ args s', dispatched i s = some (args, s') → ¬ Fails i args s' c := by
        simp
      have hsome := dispatched_isSome_iff i s
      rw [and_iff_left (tokens_ne_nil hfirst)] at hsome
      rw [hcond, Exclusive, hfirst, ← hsome]
      dsimp only
      cases hd : dispatched i s with
      | none =>
          have hempty : dispatchLog i s = [] := by rw [dispatchLog, hd]
          rw [hempty]
          exact iff_of_false (List.cons_ne_nil _ _).symm fun hall => absurd hall.1 Bool.false_ne_true
      | some d =>
          rw [runs_builtin_iff hfirst hd]
          constructor
          · intro hkeeps
            refine ⟨rfl, ?_⟩
            rintro _ _ ⟨⟩
            exact hkeeps
          · rintro ⟨-, hall⟩
            exact hall d.1 d.2 rfl

/-- `cd` alone prints its message, and is then searched for and reported to be unknown. -/
theorem cd_unknown : dispatchLog (.typed "cd") FatDescriptor.shell = [.ran .cd, .searched, .unknown] ∧
    ¬ Exclusive (.typed "cd") FatDescriptor.shell := by
  have hlog : dispatchLog (.typed "cd") FatDescriptor.shell = [.ran .cd, .searched, .unknown] := by rfl
  have hfirst : firstBuiltin (.typed "cd") = some .cd := by rfl
  refine ⟨hlog, ?_⟩
  rw [Exclusive, hfirst, hlog]
  intro he
  cases he

end Exclusion

end Orion68.Dispatch
