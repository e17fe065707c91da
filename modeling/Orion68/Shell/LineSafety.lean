import Orion68.Shell.ArgumentVector

namespace Orion68.LineSafety

open MaximalRuns Libc FatFs Shell RedirectionOrder Dispatch LineBuffers ArgumentVector

section Safety

variable {i : Input} {s : Vfs} {l : Locals} {args : List Path}

/-- Nothing is stored outside the local arrays, and each argument of a call is a string within them. -/
def Safe (i : Input) (s : Vfs) : Prop := Inside (buffers i s).1 ∧ ∀ c ∈ (buffers i s).2, Call.Defined c

/-- The search finds a file, which is no directory. -/
def Found (i : Input) : Prop := ∃ c name, i.search = some (c :: name, false)

theorem fileExists_iff (i : Input) (s : Vfs) : (fileExists i s).1 = true ↔ Found i := by
  rw [fileExists, Found]
  rcases i.search with _ | ⟨_ | ⟨c, name⟩, _ | _⟩ <;> simp

/-- A name that fits with the `*` behind it, and no other token if it is the name of a program. -/
def Fits (i : Input) (args : List Path) : Prop := (args.headD []).length ≤ 14 ∧ (Found i → args.length = 1)

theorem commandStage_safe_iff (h : HoldsArgs args l) (hne : args ≠ []) (i : Input) (s : Vfs) :
    (Inside (commandStage i s l).1 ∧ ∀ c ∈ (commandStage i s l).2, Call.Defined c) ↔
      Inside l ∧ (Searched i args s → Fits i args) := by
  rcases commandStage_cases h i s with ⟨hsearched, cs, t, hcs, heq⟩ | ⟨hnot, k, heq⟩
  · obtain ⟨hcalls, hinside⟩ := externalStage_spec i t l
    have hcommands : ∀ c ∈ cs, Call.Defined c := by
      intro c hc
      obtain ⟨k, rfl⟩ := hcs c hc
      exact h.defined _
    have hloader : (∀ c ∈ (externalStage i t l).2, Call.Defined c) ↔ (Found i → args.length = 1) := by
      rw [hcalls, ← fileExists_iff i t]
      by_cases hfile : (fileExists i t).1
      · rw [if_pos hfile, List.forall_mem_singleton, loaderCall_defined_iff h hne]
        exact ⟨fun hone _ => hone, fun hone => hone hfile⟩
      · rw [if_neg hfile]
        exact iff_of_true (fun c hc => nomatch hc) fun h => absurd h hfile
    rw [heq, List.forall_mem_append, and_iff_right hcommands, hloader, hinside, h.strings, and_assoc, Fits]
    exact and_congr_right fun _ => ⟨fun hfits _ => hfits, fun hall => hall hsearched⟩
  · rw [heq, List.forall_mem_singleton, and_iff_left (h.defined _)]
    exact (and_iff_left fun hsearched => absurd hsearched hnot).symm

theorem length_aparada_le (line : List UInt8) : (aparada line).length ≤ (cString line).length := by
  have hle := ((List.takeWhile_sublist (· ≠ 0x0D)).trans ((List.takeWhile_sublist (· ≠ 0x0A)).trans
    (List.dropWhile_sublist (l := cString line) (· = space)))).length_le
  exact hle

/-- A line of at most 255 characters is safe unless the end of it is looked for in an earlier line
and found outside, or it comes to a search for a name that is too long or has arguments. -/
theorem safe_iff (s : Vfs) (h : (cString i.line).length ≤ 255) :
    Safe i s ↔ StaleFits i ∧
      ∀ args s', dispatched i s = some (args, s') → Searched i args s' → Fits i args := by
  have hstage := buffers_stage i s (Nat.lt_succ_of_le (Nat.le_trans (length_aparada_le i.line) h))
  rw [Safe]
  cases hd : dispatched i s with
  | none =>
      rw [hd] at hstage
      obtain ⟨hcalls, hinside⟩ := hstage
      rw [hcalls, hinside]
      apply and_congr_right
      intro _
      exact iff_of_true (fun c hc => nomatch hc) fun _ _ he => nomatch he
  | some d =>
      obtain ⟨args, s'⟩ := d
      rw [hd] at hstage
      obtain ⟨l, hargs, hinside, heq⟩ := hstage
      rw [heq, commandStage_safe_iff hargs (dispatched_args hd).2, hinside]
      apply and_congr_right
      intro _
      constructor
      · rintro hfits _ _ ⟨⟩
        exact hfits
      · intro hall
        exact hall args s' rfl

theorem safe_help : Safe (.typed "help") FatDescriptor.shell := by
  refine (safe_iff FatDescriptor.shell (by decide)).mpr ⟨?_, ?_⟩
  · intro _ _ _ _ b c hone
    have hnone : strstr (aparada (text "help")) (text ">>") = none := by decide
    exact nomatch hnone.symm.trans hone
  · intro args s' hd hsearched
    have hbuiltin : builtin ((tokens [] (text "help")).headD []) = some .help := by rfl
    rw [(dispatched_args hd).1] at hsearched
    exact (hsearched .help hbuiltin).elim

/-- A name of fifteen characters ends outside `buf`. -/
theorem long_name_unsafe : Store.buf 16 ∈ (buffers (.typed "abcdefghijklmno") FatDescriptor.shell).1.stores ∧
    ¬ Safe (.typed "abcdefghijklmno") FatDescriptor.shell := by
  have hmem : Store.buf 16 ∈ (buffers (.typed "abcdefghijklmno") FatDescriptor.shell).1.stores := by decide
  refine ⟨hmem, ?_⟩
  rintro ⟨hinside, -⟩
  exact absurd (hinside _ hmem) (Nat.lt_irrefl 16)

end Safety

section Growth

variable {i : Input} {s : Vfs} {l : Locals}

theorem inside_of_outputRedirect (h : Inside l.outputRedirect.2) : Inside l := by
  have hcut {p q : ℕ} (h : Inside ((l.cut p).fileName q).2) : Inside l :=
    (inside_cut.mp ((fileName_spec (l.cut p) q).2.2.2.mp h).1).1
  rw [Locals.outputRedirect] at h
  split at h
  next => exact hcut h
  next =>
    split at h
    next =>
      split at h
      · exact hcut h
      · exact h
    next => exact h

theorem inside_of_inputRedirect (h : Inside l.inputRedirect.2) : Inside l := by
  rw [Locals.inputRedirect] at h
  split at h
  next =>
    split at h
    · exact ((fileName_spec l _).2.2.2.mp h).1
    · exact h
  next => exact h

theorem inside_of_strtok {p : ℕ} (h : Inside (l.strtok p).2) : Inside l := by
  rw [Locals.strtok] at h
  split at h
  · exact h
  · split at h
    · exact (inside_cut.mp h).1
    · exact h

theorem inside_of_push {p : ℕ} (h : Inside (l.push p)) : Inside l := fun st hst => h st (List.mem_append_left _ hst)

theorem inside_of_tokenLoop {n : ℕ} {x : Option (ℕ × ℕ)} (h : Inside (l.tokenLoop n x)) : Inside l := by
  induction n generalizing l x with
  | zero => exact h
  | succ n ih =>
      cases x with
      | none => exact h
      | some x => exact inside_of_push (inside_of_strtok (ih h))

theorem inside_of_commandStage (h : Inside (commandStage i s l).1) : Inside l := by
  rw [commandStage] at h
  split at h
  next => exact ((externalStage_spec i s l).2.mp h).1
  next c hc =>
    split at h
    next => exact h
    next r hr =>
      split at h
      · exact ((externalStage_spec i r.2 l).2.mp h).1
      · exact h

theorem inside_of_tokenStage {input : Option Fd} {output : Option (ℕ × UInt32)}
    (h : Inside (tokenStage i input output s l).1) : Inside l := by
  apply inside_of_strtok (p := l.skipBlanks 0)
  apply inside_of_tokenLoop (n := 16) (x := (l.strtok (l.skipBlanks 0)).1)
  rw [tokenStage] at h
  split at h
  · exact h
  · split at h
    next => exact h
    next => exact inside_of_commandStage h

theorem length_lt_of_inside (h : Inside (buffers i s).1) (hcalls : (buffers i s).2 ≠ []) :
    (aparada i.line).length < 256 := by
  rw [← (copied_spec (aparada i.line) i.stale (notMem_aparada i.line)).inside]
  rw [buffers] at h hcalls
  dsimp only at h hcalls
  split at h
  next hblank =>
    rw [if_pos hblank] at hcalls
    exact absurd rfl hcalls
  next =>
    split at h
    · exact h
    · apply inside_of_outputRedirect
      apply inside_of_inputRedirect
      split at h
      next => exact inside_of_tokenStage h
      next =>
        split at h
        next => exact h
        next => exact (inside_cut.mp (inside_of_tokenStage h)).1

end Growth

section Programs

variable {i : Input} {s : Vfs}

/-- The line without its redirections and the blanks in front. -/
def commandPart (i : Input) : List UInt8 :=
  (parseInput (parseOutput i.stale (aparada i.line)).2).2.dropWhile (· = space)

/-- The words that have been typed, whatever blanks stand between them. -/
def words (i : Input) : List Path := runs (· ≠ space) (commandPart i)

/-- A call of `loader_pic` with the words, or with the name of the program once more in front of
them, and with as many entries as are defined. -/
structure Received (ws : List Path) (c : Call) : Prop where
  callee : c.callee = .loader
  entries : ∀ k, (c.argv k).isSome ↔ k < c.argc
  strings : Call.strings c = ws.map some ∨ Call.strings c = (ws.head?.toList ++ ws).map some

/-- The words are received, and nothing has been stored outside the local arrays. -/
def Delivered (i : Input) (s : Vfs) : Prop :=
  Inside (buffers i s).1 ∧ ∃ c ∈ (buffers i s).2, Received (words i) c

/-- A word without arguments, and at most one blank behind it. -/
def Alone (w line : List UInt8) : Prop := w ≠ [] ∧ space ∉ w ∧ (line = w ∨ line = w ++ [space])

theorem parseArgs_eq_nil_iff {n : ℕ} {line : List UInt8} : parseArgs (n + 1) line = [] ↔ line = [] := by
  cases line with
  | nil => exact iff_of_true rfl rfl
  | cons c line => exact iff_of_false (List.cons_ne_nil _ _) (List.cons_ne_nil _ _)

theorem parseArgs_singleton_iff {line : List UInt8} (hhead : line.head? ≠ some space) (w : Path) :
    parseArgs 16 line = [w] ↔ Alone w line := by
  have hspace : decide (space ∉ [space]) = false := by decide
  have hword {w : List UInt8} (hw : space ∉ w) : ∀ c ∈ w, decide (c ∉ [space]) = true := by
    intro c hc
    rw [decide_eq_true_iff, List.mem_singleton]
    rintro rfl
    exact hw hc
  cases line with
  | nil =>
      refine iff_of_false (List.cons_ne_nil _ _).symm ?_
      rintro ⟨hne, -, heq | heq⟩
      · exact hne heq.symm
      · exact absurd heq.symm (List.append_ne_nil_of_right_ne_nil _ (List.cons_ne_nil _ _))
  | cons c line =>
      have hargs : parseArgs 16 (c :: line) = (c :: line).takeWhile (· ∉ [space]) ::
        parseArgs 15 ((c :: line).dropWhile (· ∉ [space])).tail := rfl
      rw [hargs, List.cons_eq_cons, parseArgs_eq_nil_iff]
      constructor
      · rintro ⟨rfl, htail⟩
        have hsplit := List.takeWhile_append_dropWhile (p := (· ∉ [space])) (l := c :: line)
        refine ⟨?_, ?_, ?_⟩
        · rw [List.takeWhile_cons_of_pos]
          · exact List.cons_ne_nil _ _
          · simpa using hhead
        · intro hmem
          exact Bool.noConfusion ((List.mem_takeWhile_imp hmem).symm.trans hspace)
        · cases hdrop : (c :: line).dropWhile (· ∉ [space]) with
          | nil =>
              rw [hdrop, List.append_nil] at hsplit
              exact .inl hsplit.symm
          | cons d rest =>
              have hd := List.head_dropWhile_not (· ∉ [space]) (l := c :: line) (by rw [hdrop]; exact List.cons_ne_nil _ _)
              simp only [hdrop, List.head_cons] at hd
              rw [hdrop, List.tail_cons] at htail
              subst htail
              have hblank : d = space := by simpa using hd
              rw [hdrop, hblank] at hsplit
              exact .inr hsplit.symm
      · rintro ⟨hne, hw, heq | heq⟩
        · rw [heq, List.takeWhile_eq_self_iff.mpr (hword hw), List.dropWhile_eq_nil_iff.mpr (hword hw)]
          exact ⟨rfl, rfl⟩
        · rw [heq, List.takeWhile_append_of_pos (hword hw), List.dropWhile_append_of_pos (hword hw)]
          exact ⟨List.append_nil w, rfl⟩

theorem head_commandPart (i : Input) : (commandPart i).head? ≠ some space := by
  rw [commandPart]
  generalize (parseInput (parseOutput i.stale (aparada i.line)).2).2 = line
  intro hhead
  have hnot := List.head?_dropWhile_not (p := (· = space)) (l := line)
  rw [hhead] at hnot
  simp at hnot

theorem words_of_alone {w : Path} (h : Alone w (commandPart i)) : words i = [w] := by
  obtain ⟨hne, hw, hline⟩ := h
  have hall : ∀ c ∈ w, decide (c ≠ space) = true := by
    intro c hc
    rw [decide_eq_true_iff]
    rintro rfl
    exact hw hc
  rcases hline with hline | hline
  · rw [words, hline, runs_of_all hall, if_neg hne]
  · rw [words, hline, runs_append_cons hall (by decide), if_neg hne]
    rfl

theorem loaderCall_received_iff {args ws : List Path} {l : Locals} (h : HoldsArgs args l) (hne : args ≠ [])
    (hws : ∀ w, args = [w] → ws = [w]) : Received ws (loaderCall l) ↔ args.length = 1 := by
  constructor
  · intro hreceived
    by_contra hone
    have hpos := List.length_pos_of_ne_nil hne
    have hnone := none_mem_strings h (by omega)
    rcases hreceived.strings with heq | heq
    · rw [heq] at hnone
      simp at hnone
    · rw [heq] at hnone
      simp at hnone
  · intro hone
    obtain ⟨w, rfl⟩ := List.length_eq_one_iff.mp hone
    refine ⟨rfl, ?_, ?_⟩
    · intro k
      obtain ⟨p, e, hp, -⟩ := h.entry (k := 0) Nat.zero_lt_one
      have hargc : (loaderCall l).argc = 2 := congrArg (· + 1) h.argc
      rw [hargc]
      match k with
      | 0 => exact iff_of_true (by rw [loaderCall_first, hp]; rfl) Nat.zero_lt_two
      | 1 => exact iff_of_true (by rw [loaderCall_second, hp]; rfl) Nat.one_lt_two
      | k + 2 =>
          rw [loaderCall_of_ne (Nat.succ_succ_ne_one k), h.no_entry (Nat.le_add_left 1 (k + 1))]
          exact iff_of_false Bool.false_ne_true (Nat.not_lt_of_le (Nat.le_add_left 2 k))
    · rw [hws w rfl, loaderCall_strings_one h]
      exact .inr rfl

/-- The words are received if the line has only one of them, which fits in the scratch buffer. -/
theorem delivered_iff (s : Vfs) (hfirst : firstBuiltin i = none) (hfound : Found i) :
    Delivered i s ↔ (aparada i.line).length ≤ 255 ∧ StaleFits i ∧ RedirectionsOpen i s ∧
      ∃ w, w.length ≤ 14 ∧ Alone w (commandPart i) := by
  have halone (w : Path) : tokens i.stale i.line = [w] ↔ Alone w (commandPart i) :=
    parseArgs_singleton_iff (head_commandPart i) w
  have hlength : Delivered i s → (aparada i.line).length < 256 := by
    rintro ⟨hinside, c, hc, -⟩
    exact length_lt_of_inside hinside (List.ne_nil_of_mem hc)
  rw [← and_iff_right_of_imp hlength, Nat.lt_succ_iff]
  apply and_congr_right
  intro hlen
  have hstage := buffers_stage i s (Nat.lt_succ_of_le hlen)
  have hsome := dispatched_isSome_iff i s
  rw [Delivered]
  cases hd : dispatched i s with
  | none =>
      rw [hd] at hstage hsome
      refine iff_of_false ?_ ?_
      · rintro ⟨-, c, hc, -⟩
        rw [hstage.1] at hc
        cases hc
      · rintro ⟨-, hopen, w, -, hw⟩
        have htokens := (halone w).mpr hw
        exact Bool.false_ne_true (hsome.mpr ⟨hopen, by rw [htokens]; exact List.cons_ne_nil _ _⟩)
  | some d =>
      obtain ⟨args, s'⟩ := d
      rw [hd] at hstage hsome
      obtain ⟨l, hargs, hinside, heq⟩ := hstage
      obtain ⟨htokens, hne⟩ := dispatched_args hd
      have hopen : RedirectionsOpen i s := (hsome.mp rfl).1
      have hexternal : commandStage i s' l = externalStage i s' l := by
        rw [commandStage, hargs.strings, dispatched_builtin hd, hfirst]
      obtain ⟨hcalls, hexternal_inside⟩ := externalStage_spec i s' l
      rw [if_pos ((fileExists_iff i s').mpr hfound)] at hcalls
      have hws : ∀ w, args = [w] → words i = [w] := by
        intro w hw
        exact words_of_alone ((halone w).mp (htokens.symm.trans hw))
      rw [heq, hexternal, hexternal_inside, hcalls, hargs.strings, hinside, and_iff_right hopen, and_assoc]
      apply and_congr_right
      intro _
      constructor
      · rintro ⟨hshort, c, hc, hreceived⟩
        rw [List.mem_singleton.mp hc, loaderCall_received_iff hargs hne hws] at hreceived
        obtain ⟨w, rfl⟩ := List.length_eq_one_iff.mp hreceived
        exact ⟨w, hshort, (halone w).mp htokens.symm⟩
      · rintro ⟨w, hshort, hw⟩
        have hone : args = [w] := htokens.trans ((halone w).mpr hw)
        refine ⟨by rw [hone]; exact hshort, _, List.mem_singleton_self _, ?_⟩
        rw [loaderCall_received_iff hargs hne hws, hone]
        rfl

def programLine (line : String) : Input := { Input.typed line with search := some (text "PROG.ELF", false) }

theorem delivered_alone : Delivered (programLine "prog") FatDescriptor.shell := by
  refine (delivered_iff FatDescriptor.shell rfl ⟨_, _, rfl⟩).mpr ⟨by decide, ?_, ?_, text "prog", by decide, ?_⟩
  · intro _ _ _ _ b c hone
    have hnone : strstr (aparada (text "prog")) (text ">>") = none := by decide
    exact nomatch hnone.symm.trans hone
  · exact ⟨none, [text "prog"], none, rfl, fun file hfile => (nomatch hfile), fun o ho => (nomatch ho)⟩
  · exact ⟨by decide, by decide, .inl (by decide)⟩

/-- `prog a` is called with its name twice, and with a third entry that is not defined. -/
theorem argument_lost : (buffers (programLine "prog a") FatDescriptor.shell).2.map Call.strings =
      [[some (text "prog"), some (text "prog"), none]] ∧
    words (programLine "prog a") = [text "prog", text "a"] ∧ ¬ Delivered (programLine "prog a") FatDescriptor.shell := by
  have hcalls : (buffers (programLine "prog a") FatDescriptor.shell).2.map Call.strings =
      [[some (text "prog"), some (text "prog"), none]] := by rfl
  have hwords : words (programLine "prog a") = [text "prog", text "a"] := by decide
  refine ⟨hcalls, hwords, ?_⟩
  rintro ⟨-, c, hc, hreceived⟩
  have hstrings : Call.strings c ∈ [[some (text "prog"), some (text "prog"), none]] :=
    hcalls ▸ List.mem_map_of_mem hc
  have hlost := hreceived.strings
  rw [List.mem_singleton.mp hstrings, hwords] at hlost
  exact absurd hlost (by decide)

end Programs

end Orion68.LineSafety
