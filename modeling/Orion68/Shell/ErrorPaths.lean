import Orion68.Shell.Commands
import Orion68.Shell.Startup

namespace Orion68.ErrorPaths

open Ownership FatFs Shell OpenFailure FatDescriptor Descriptors Commands Startup

def isError : Exit → Prop
  | .heredoc | .noInput | .noOutput => True
  | .blank | .noCommand | .ran _ => False

/-- The descriptors 0 and 1 refer to live files. -/
def StdLive (s : Vfs) : Prop := ∀ fd : Fd, fd.val ≤ 1 → ∃ f, s.fdTable fd = some f ∧ s.files.Live f

/-- The descriptors 0 and 1 refer to the files they referred to, which are live, and no file has
been left open. -/
structure Undone (s t : Vfs) : Prop where
  fdTable : ∀ fd : Fd, fd.val ≤ 1 → t.fdTable fd = s.fdTable fd
  live : ∀ fd : Fd, fd.val ≤ 1 → ∀ f, s.fdTable fd = some f → t.files.Live f
  closed : ∀ p, t.files.Live p → s.files.Live p

/-- A command is given, the input opens, and with it open the output does not. -/
def Dangles (i : Input) (s : Vfs) : Prop :=
  ∃ file args out flags, parseLine i.stale i.line = .command (some file) args (some (out, flags)) ∧ args ≠ [] ∧
    Opens 0 file oRdonly s ∧ ¬ Opens 1 out flags s.turn

variable {i : Input} {s t u : Vfs} {fd : Fd} {args : List Path} {file out : Path} {flags : UInt32}

theorem undone_of_keeps (hlive : StdLive s) (h : Keeps s t) : Undone s t := by
  refine ⟨fun fd _ => by rw [h.fdTable], fun fd hfd f hf => ?_, fun p => (h.live p).mp⟩
  obtain ⟨f', hf', hlive'⟩ := hlive fd hfd
  cases hf.symm.trans hf'
  exact (h.live f).mpr hlive'

theorem closeInput_dangles (hlive : StdLive s) (ho : Opened fd s t)
    (hk : Keeps (install stdin (some fd) t) u) : ¬ Undone s (closeInput (some fd) u) := by
  intro hundone
  have hfd : fd ≠ stdin := ne_of_std ho.le (by decide)
  rw [install_open ho] at hk
  have hentry : u.fdTable fd = some s.files.next := by
    rw [hk.fdTable, Vfs.fdTable_vfsSetFd, Function.update_of_ne hfd, ho.entry]
  have hclosed := close_live hentry ((hk.live _).mpr ho.live)
  have hzero : (vfsClose fd u).2.fdTable stdin = some s.files.next := by
    rw [hclosed.fdTable, Function.update_of_ne hfd.symm, hk.fdTable, Vfs.fdTable_vfsSetFd, Function.update_self]
  obtain ⟨f, hf, hlive'⟩ := hlive stdin (by decide)
  have hsame := hundone.fdTable stdin (by decide)
  rw [closeInput, Option.elim_some, hzero, hf] at hsame
  have hlt := hlive'.lt_next
  rw [← Option.some.inj hsame] at hlt
  exact Nat.lt_irrefl _ hlt

theorem opens_installed_iff (ho : Opened fd s t) (hvol : t.volume = s.volume) :
    Opens 0 out flags (install stdin (some fd) t) ↔ Opens 1 out flags s.turn := by
  have henv : (install stdin (some fd) t).env = s.turn.env := by
    rw [install_open ho]
    exact congrFun ho.world 0
  have hsame : (install stdin (some fd) t).volume = s.turn.volume := by
    rw [install_open ho]
    exact hvol
  have hfree : 0 < (freeEntries (install stdin (some fd) t)).card ↔ 1 < (freeEntries s.turn).card := by
    have hcard := card_freeEntries_opened ho
    have hturn : freeEntries s.turn = freeEntries s := rfl
    rw [install_open ho, freeEntries_setFd (by decide), hturn]
    omega
  rw [Opens, Opens, hfree, FatOpens, FatOpens, DeviceOpens, DeviceOpens, henv, hsame]

/-- There is a command, and its output does not open. -/
def OutputFails (args : List Path) (output : Option (Path × UInt32)) (s : Vfs) : Prop :=
  args ≠ [] ∧ ∃ out flags, output = some (out, flags) ∧ ¬ Opens 0 out flags s

theorem withInput_fails {output : Option (Path × UInt32)} {input : Option Fd}
    (h : OutputFails args output (install stdin input s)) :
    ∃ u, withInput i args output input s = some (.noOutput, closeInput input u) ∧ Keeps (install stdin input s) u := by
  obtain ⟨hargs, out, flags, rfl, hno⟩ := h
  rw [withInput, if_neg hargs, execute.eq_def]
  simp only
  rcases open_cases out flags (install stdin input s) with ⟨-, t, ht, -, hkeep⟩ | ⟨hopens, -⟩
  · simp only [ht]
    exact ⟨_, rfl, hkeep.trans ((say_keeps 37 _ t).trans ((put_keeps out _).trans (say_keeps 1 "\n" _)))⟩
  · exact absurd hopens hno

theorem withInput_no_error {output : Option (Path × UInt32)} {input : Option Fd}
    (h : ¬ OutputFails args output (install stdin input s)) {x : Exit}
    (hr : withInput i args output input s = some (x, t)) : ¬ isError x := by
  rw [withInput, execute.eq_def] at hr
  split at hr
  · cases hr
    exact id
  next hargs =>
    cases output with
    | none =>
        obtain ⟨r, -, hx⟩ := Option.map_eq_some_iff.mp hr
        cases hx
        exact id
    | some o =>
        rcases open_cases o.1 o.2 (install stdin input s) with ⟨hno, -⟩ | ⟨-, fd, t, ht, -⟩
        · exact absurd ⟨hargs, o.1, o.2, rfl, hno⟩ h
        · simp only [ht] at hr
          obtain ⟨r, -, hx⟩ := Option.map_eq_some_iff.mp hr
          cases hx
          exact id

theorem open_input_volume (h : vfsOpen file oRdonly s = (some fd, t)) : t.volume = s.volume := by
  have hsame := open_rdonly_volume file s
  rw [h] at hsame
  exact hsame

theorem not_undone_of_dangles (hlive : StdLive s) (h : Dangles i s) :
    ∃ t, executeLine i s = some (.noOutput, t) ∧ ¬ Undone s t := by
  obtain ⟨file, args, out, flags, hreq, hargs, hopens, hclosed⟩ := h
  rcases open_cases file oRdonly s with ⟨hno, -⟩ | ⟨-, fd, u, hu, ho⟩
  · exact absurd hopens hno
  · have hfail : OutputFails args (some (out, flags)) (install stdin (some fd) u) :=
      ⟨hargs, out, flags, rfl, mt (opens_installed_iff ho (open_input_volume hu)).mp hclosed⟩
    obtain ⟨v, hv, hkeep⟩ := withInput_fails (i := i) hfail
    refine ⟨_, ?_, closeInput_dangles hlive ho hkeep⟩
    simp only [executeLine, hreq, hu, hv]

theorem undone_of_not_dangles (hlive : StdLive s) (h : ¬ Dangles i s) {x : Exit} (hr : executeLine i s = some (x, t))
    (hx : isError x) : Undone s t := by
  rw [executeLine] at hr
  split at hr
  · cases hr
    cases hx
  · cases hr
    exact undone_of_keeps hlive (say_keeps 26 _ s)
  next args output hreq =>
    by_cases hfail : OutputFails args output (install stdin none s)
    · obtain ⟨u, hu, hkeep⟩ := withInput_fails (i := i) hfail
      rw [hu] at hr
      cases hr
      exact undone_of_keeps hlive hkeep
    · exact absurd hx (withInput_no_error hfail hr)
  next file args output hreq =>
    rcases open_cases file oRdonly s with ⟨-, u, hu, -, hkeep⟩ | ⟨hopens, fd, u, hu, ho⟩
    · simp only [hu] at hr
      cases hr
      exact undone_of_keeps hlive
        (hkeep.trans ((say_keeps 39 _ u).trans ((put_keeps file _).trans (say_keeps 1 "\n" _))))
    · simp only [hu] at hr
      by_cases hfail : OutputFails args output (install stdin (some fd) u)
      · obtain ⟨hargs, out, flags, rfl, hclosed⟩ := hfail
        have hclosed' := mt (opens_installed_iff ho (open_input_volume hu)).mpr hclosed
        exact absurd ⟨file, args, out, flags, hreq, hargs, hopens, hclosed'⟩ h
      · exact absurd hx (withInput_no_error hfail hr)

/-- An error leaves the descriptors 0 and 1 as they were, unless it comes with the second
redirection. -/
theorem error_path_undone_iff (i : Input) (s : Vfs) (hlive : StdLive s) :
    (∀ x t, executeLine i s = some (x, t) → isError x → Undone s t) ↔ ¬ Dangles i s := by
  constructor
  · intro h hdangles
    obtain ⟨t, ht, hnot⟩ := not_undone_of_dangles hlive hdangles
    exact hnot (h .noOutput t ht trivial)
  · intro h x t hr hx
    exact undone_of_not_dangles hlive h hr hx

theorem stdLive_of_wellFormed (h : WellFormed s) : StdLive s := by
  intro fd hfd
  obtain ⟨f, hf, hops⟩ := h.std fd (by omega)
  refine ⟨f, hf, ?_⟩
  rw [Heap.Live, ← Option.isSome_map (f := File.ops), hops]
  rfl

theorem error_path_undone_iff_help :
    ∃ t, executeLine (.typed "help < /Z") started = some (.noInput, t) ∧ Undone started t := by
  obtain ⟨hwell, hvol, -⟩ := started_spec
  have hreq : parseLine (Input.typed "help < /Z").stale (Input.typed "help < /Z").line =
      .command (some (text "/Z")) [text "help"] none := rfl
  have hnot : ¬ Dangles (.typed "help < /Z") started := by
    rintro ⟨file, args, out, flags, hreq', -⟩
    cases hreq.symm.trans hreq'
  have hclosed : ¬ Opens 0 (text "/Z") oRdonly started := by
    refine not_opens ?_ rfl
    rw [hvol]
    decide
  rcases open_cases (text "/Z") oRdonly started with ⟨-, u, hu, -⟩ | ⟨hopens, -⟩
  · have hline : executeLine (.typed "help < /Z") started =
        some (.noInput, say 1 "\n" (put (text "/Z") (say 39 "Erro: nao foi possivel abrir entrada: " u))) := by
      simp only [executeLine, hreq, hu]
    have hundone := (error_path_undone_iff _ started (stdLive_of_wellFormed hwell)).mpr hnot
    exact ⟨_, hline, hundone .noInput _ hline trivial⟩
  · exact absurd hopens hclosed

/-- The input is there, but the output is a directory. -/
theorem directory_output_dangles :
    ¬ ∀ (i : Input) (s : Vfs), StdLive s → ∀ x t, executeLine i s = some (x, t) → isError x → Undone s t := by
  intro h
  obtain ⟨hwell, hvol, -⟩ := started_spec
  have houtput : ¬ Opens 1 (text "/D") (oWronly ||| oTrunc) started.turn := by
    have hturn : started.turn.volume = started.volume := rfl
    refine not_opens ?_ rfl
    rw [hturn, hvol]
    decide
  have hdangles : Dangles (.typed "help < /A > /D") started :=
    ⟨text "/A", [text "help"], text "/D", oWronly ||| oTrunc, rfl, by decide, started_opens, houtput⟩
  obtain ⟨t, ht, hnot⟩ := not_undone_of_dangles (stdLive_of_wellFormed hwell) hdangles
  exact hnot (h _ started (stdLive_of_wellFormed hwell) .noOutput t ht trivial)

end Orion68.ErrorPaths
