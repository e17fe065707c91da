import Orion68.Shell.Descriptors
import Orion68.Shell.ExecuteLine

namespace Orion68.Commands

open Ownership FatFs Shell OpenFailure Descriptors

variable {i : Input} {args : List Path} {s t u : Vfs} {fd : Fd} {f : Ptr}

theorem put_keeps (bytes : List UInt8) (s : Vfs) : Keeps s (put bytes s) := vfsWrite_keeps stdout bytes s

theorem say_keeps (n : Nat) (message : String) (s : Vfs) : Keeps s (say n message s) := put_keeps _ s

section Builtins

theorem copyOut_keeps {n : Nat} (h : copyOut fd n s = some t) : Keeps s t := by
  induction n generalizing s with
  | zero => cases h
  | succ n ih =>
      rw [copyOut] at h
      have hread := vfsRead_keeps fd 128 s
      split at h
      · exact hread.trans ((put_keeps _ _).trans (ih h))
      · cases h
        exact hread

theorem showFile_keeps {n : Nat} {r : Int × Vfs} (ho : Opened fd s t) (h : showFile n fd t = some r) : Keeps s r.2 := by
  obtain ⟨u, hu, rfl⟩ := Option.map_eq_some_iff.mp h
  exact ho.close (copyOut_keeps hu)

theorem echoArgs_keeps (args : List Path) (s : Vfs) : Keeps s (echoArgs args s) := by
  induction args generalizing s with
  | nil => exact keeps_of_files rfl rfl
  | cons a as ih =>
      cases as with
      | nil => exact put_keeps a s
      | cons b bs => exact (put_keeps a s).trans ((say_keeps 1 " " _).trans (ih _))

theorem listDir_keeps (entries : List (Path × Bool)) (s : Vfs) : Keeps s (listDir entries s) := by
  induction entries generalizing s with
  | nil => exact keeps_of_files rfl rfl
  | cons entry entries ih =>
      rw [listDir]
      refine (put_keeps entry.1 s).trans (Keeps.trans ?_ (ih _))
      split
      · exact (say_keeps 1 "/" _).trans (say_keeps 2 "  " _)
      · exact say_keeps 2 "  " _

theorem help_keeps (names : List String) (s : Vfs) :
    Keeps s (names.foldl (fun s name => say 1 "\n" (put (text name) (say 2 "  " s))) s) := by
  induction names generalizing s with
  | nil => exact keeps_of_files rfl rfl
  | cons name names ih =>
      exact (say_keeps 2 "  " s).trans ((put_keeps (text name) _).trans ((say_keeps 1 "\n" _).trans (ih _)))

theorem cmdCat_keeps {r : Int × Vfs} (h : cmdCat i args s = some r) : Keeps s r.2 := by
  rw [cmdCat] at h
  split at h
  · cases h
    exact say_keeps 20 _ s
  next file _ _ =>
    rcases open_cases file oRdonly s with ⟨-, t, ht, -, hkeep⟩ | ⟨-, fd, t, ht, hopened⟩
    · simp only [ht] at h
      cases h
      exact hkeep.trans ((say_keeps 29 _ t).trans ((put_keeps file _).trans (say_keeps 1 "\n" _)))
    · simp only [ht] at h
      exact showFile_keeps hopened h

theorem cmdLs_keeps (i : Input) (args : List Path) (s : Vfs) : Keeps s (cmdLs i args s).2 := by
  rw [cmdLs]
  split
  · exact (say_keeps 30 _ s).trans ((put_keeps _ _).trans (say_keeps 1 "\n" _))
  · exact (listDir_keeps _ s).trans (say_keeps 1 "\n" _)

theorem cmdCd_keeps (args : List Path) (s : Vfs) : Keeps s (cmdCd args s).2 := by
  rw [cmdCd]
  split
  · exact say_keeps 21 _ s
  · exact (say_keeps 18 _ s).trans ((put_keeps _ _).trans (say_keeps 1 "\n" _))

theorem cmdMkdir_keeps (i : Input) (args : List Path) (s : Vfs) : Keeps s (cmdMkdir i args s).2 := by
  have hvol (v : Volume) : Keeps s { s with volume := v } := keeps_of_files rfl rfl
  rw [cmdMkdir]
  split
  · exact say_keeps 24 _ s
  · simp only
    split
    · exact (hvol _).trans (say_keeps 25 _ _)
    · exact (hvol _).trans ((say_keeps 15 _ _).trans ((put_keeps _ _).trans (say_keeps 1 "\n" _)))

theorem cmdMeminfo_keeps {r : Int × Vfs} (h : cmdMeminfo i s = some r) : Keeps s r.2 := by
  rw [cmdMeminfo] at h
  rcases open_cases (text "/proc/meminfo") oRdonly s with ⟨-, t, ht, -, hkeep⟩ | ⟨-, fd, t, ht, hopened⟩
  · simp only [ht] at h
    cases h
    exact hkeep.trans (say_keeps 36 _ t)
  · simp only [ht] at h
    exact showFile_keeps hopened h

theorem cmdClear_keeps (s : Vfs) : Keeps s (cmdClear s).2 := by
  rw [cmdClear]
  rcases open_cases (text "/dev/tty") oRdwr s with ⟨-, t, ht, -, hkeep⟩ | ⟨-, fd, t, ht, hopened⟩
  · simp only [ht]
    exact hkeep
  · simp only [ht]
    exact hopened.close (vfsIoctl_keeps fd tiocClear t)

theorem func_keeps (c : Command) {r : Int × Vfs} (h : c.func i args s = some r) : Keeps s r.2 := by
  cases c with
  | help =>
      cases h
      exact (say_keeps 23 _ s).trans (help_keeps _ _)
  | echo =>
      cases h
      exact (echoArgs_keeps _ s).trans (say_keeps 1 "\n" _)
  | cat => exact cmdCat_keeps h
  | ls =>
      cases h
      exact cmdLs_keeps i args s
  | cd =>
      cases h
      exact cmdCd_keeps args s
  | mkdir =>
      cases h
      exact cmdMkdir_keeps i args s
  | reboot =>
      cases h
      exact say_keeps 24 _ s
  | shutdown =>
      cases h
      exact say_keeps 23 _ s
  | meminfo => exact cmdMeminfo_keeps h
  | clear =>
      cases h
      exact cmdClear_keeps s
  | exit =>
      cases h
      exact say_keeps 20 _ s

theorem runCommand_keeps {r : Int × Vfs} (h : runCommand i args s = some r) (hr : r.1 = 0 ∨ r.1 = cmdExitShell) :
    Keeps s r.2 := by
  have hminus : (-1 : Int) ≠ 0 ∧ (-1 : Int) ≠ cmdExitShell := by decide
  obtain ⟨r', hr', rfl⟩ := Option.map_eq_some_iff.mp h
  by_cases hfail : r'.1 ≠ 0 ∧ r'.1 ≠ cmdExitShell
  · rw [if_pos hfail] at hr
    exact absurd hr (not_or.mpr hfail)
  · rw [if_neg hfail]
    split at hr'
    next =>
      cases hr'
      exact absurd hminus hfail
    next c _ => exact func_keeps c.2 hr'

end Builtins

section Redirecting

theorem install_open (h : Opened fd s t) (fd' : Fd) :
    install fd' (some fd) t = t.vfsSetFd fd' (some s.files.next) := by
  rw [install, Option.bind_some, h.entry]

end Redirecting

end Orion68.Commands
