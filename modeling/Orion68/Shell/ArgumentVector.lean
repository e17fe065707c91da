import Orion68.Lib.MaximalRuns
import Orion68.Shell.LineBuffers

namespace Orion68.ArgumentVector

open CStrings MaximalRuns Libc FatFs Shell RedirectionOrder Dispatch LineBuffers

section Tokens

variable {l l' : Locals} {ptrs : List ℕ} {p n : ℕ}

/-- The first entries of `args_copy` are these, and no others are defined. -/
def Holds (ptrs : List ℕ) (l : Locals) : Prop := l.argc = ptrs.length ∧ ∀ k, l.argsCopy k = ptrs[k]?

theorem Holds.of_args (h : Holds ptrs l) (heq : l'.argsCopy = l.argsCopy ∧ l'.argc = l.argc) : Holds ptrs l' :=
  ⟨heq.2.trans h.1, fun k => (congrFun heq.1 k).trans (h.2 k)⟩

theorem Holds.push (h : Holds ptrs l) (p : ℕ) :
    Holds (ptrs ++ [p]) (l.push p) := by
  refine ⟨?_, ?_⟩
  · change l.argc + 1 = _
    rw [h.1, List.length_append, List.length_singleton]
  · intro k
    change Function.update l.argsCopy l.argc (some p) k = (ptrs ++ [p])[k]?
    rw [h.1]
    rcases Nat.lt_trichotomy k ptrs.length with hlt | rfl | hgt
    · rw [List.getElem?_append_left hlt, Function.update_of_ne (Nat.ne_of_lt hlt), h.2]
    · rw [List.getElem?_concat_length, Function.update_self]
    · rw [Function.update_of_ne (Nat.ne_of_gt hgt), h.2, List.getElem?_eq_none (Nat.le_of_lt hgt),
        List.getElem?_eq_none (by rw [List.length_append, List.length_singleton]; omega)]

theorem Holds.strings (h : Holds ptrs l) : l.strings = ptrs.map l.str := by
  rw [Locals.strings, h.1]
  apply List.ext_getElem
  · rw [List.length_map, List.length_range, List.length_map]
  · intro k hk hk'
    rw [List.length_map] at hk'
    rw [List.getElem_map, List.getElem_range, List.getElem_map, h.2, List.getElem?_eq_getElem hk']
    rfl

theorem push_within (l : Locals) {lo hi : ℕ} (hargc : l.argc < 16) (p : ℕ) : Within lo hi l (l.push p) := by
  refine ⟨fun _ _ => rfl, fun _ _ _ hk => ⟨hk, rfl⟩, fun _ _ => rfl, rfl, [.argsCopy l.argc], rfl, ?_⟩
  intro st hst
  rw [List.mem_singleton.mp hst]
  exact .inr ⟨_, rfl, hargc⟩

structure Token (p q : ℕ) (l l' : Locals) : Prop where
  strtok : Libc.strtok [space] (l.str p) = some (l'.str p, l'.str q)
  apart : p + (l'.str p).length ≤ q
  rest : q + (l'.str q).length ≤ p + (l.str p).length
  within : Within p (p + (l.str p).length) l l'
  args : l'.argsCopy = l.argsCopy ∧ l'.argc = l.argc

theorem strtok_spec (h : l.str p ≠ []) : ∃ q, (l.strtok p).1 = some (p, q) ∧ Token p q l (l.strtok p).2 := by
  have hsome : Libc.strtok [space] (l.str p) =
      some ((l.str p).takeWhile (· ∉ [space]), ((l.str p).dropWhile (· ∉ [space])).tail) := by
    cases hs : l.str p with
    | nil => exact absurd hs h
    | cons c s => rfl
  have hprefix : (l.str p).takeWhile (· ∉ [space]) <+: l.str p := List.takeWhile_prefix _
  have htake : (l.str p).take ((l.str p).takeWhile (· ∉ [space])).length = (l.str p).takeWhile (· ∉ [space]) :=
    (List.prefix_iff_eq_take.mp hprefix).symm
  have hdrop := drop_takeWhile (· ∉ [space]) (l.str p)
  rw [Locals.strtok, if_neg h]
  generalize hn : ((l.str p).takeWhile (· ∉ [space])).length = n at htake hdrop ⊢
  by_cases hlt : n < (l.str p).length
  · rw [if_pos hlt]
    have htoken : (l.cut (p + n)).str p = (l.str p).take n := str_cut_end (Nat.le_of_lt hlt)
    have hrest : (l.cut (p + n)).str (p + n + 1) = (l.str p).drop (n + 1) :=
      (str_cut_of_lt (Nat.lt_succ_self _)).trans (stringAt_add hlt)
    refine ⟨p + n + 1, rfl, ?_, ?_, ?_, cut_within (Nat.le_add_right _ _) (by omega), rfl, rfl⟩
    · rw [hsome, htoken, hrest, htake, ← hdrop, List.tail_drop]
    · rw [htoken, htake, hn]
      exact Nat.le_succ _
    · rw [hrest, List.length_drop]
      omega
  · rw [if_neg hlt]
    have hlen : n = (l.str p).length := Nat.le_antisymm (hn ▸ hprefix.length_le) (Nat.le_of_not_lt hlt)
    have hrest : l.str (p + n) = (l.str p).drop n := stringAt_add (Nat.le_of_eq hlen)
    refine ⟨p + n, rfl, ?_, ?_, ?_, .refl _ _ l, rfl, rfl⟩
    · rw [hsome, hrest, ← htake, ← hdrop, hlen, List.take_length, List.drop_length]
      rfl
    · rw [hlen]
    · rw [hrest, List.length_drop]
      omega

theorem tokenLoop_spec (hl : Holds ptrs l) (hroom : ptrs.length + n ≤ 16) :
    ∃ new, Holds (ptrs ++ new) (Locals.tokenLoop n (l.strtok p).1 (l.strtok p).2) ∧
      new.map (Locals.tokenLoop n (l.strtok p).1 (l.strtok p).2).str = parseArgs n (l.str p) ∧
      (∀ q ∈ new, q + ((Locals.tokenLoop n (l.strtok p).1 (l.strtok p).2).str q).length ≤ p + (l.str p).length) ∧
      Within p (p + (l.str p).length) l (Locals.tokenLoop n (l.strtok p).1 (l.strtok p).2) := by
  induction n generalizing l p ptrs with
  | zero =>
      have hstop : Holds ptrs (l.strtok p).2 ∧ Within p (p + (l.str p).length) l (l.strtok p).2 := by
        by_cases hs : l.str p = []
        · rw [Locals.strtok, if_pos hs]
          exact ⟨hl, .refl _ _ l⟩
        · obtain ⟨q, -, htoken⟩ := strtok_spec hs
          exact ⟨hl.of_args htoken.args, htoken.within⟩
      refine ⟨[], ?_, rfl, fun q hq => (nomatch hq), hstop.2⟩
      rw [List.append_nil]
      exact hstop.1
  | succ n ih =>
      by_cases hs : l.str p = []
      · have hnone : l.strtok p = (none, l) := by rw [Locals.strtok, if_pos hs]
        rw [hnone, hs]
        refine ⟨[], ?_, rfl, fun q hq => (nomatch hq), .refl _ _ l⟩
        rw [List.append_nil]
        exact hl
      · obtain ⟨q, hq, htoken⟩ := strtok_spec hs
        rw [hq]
        generalize (l.strtok p).2 = l' at htoken ⊢
        have hl' : Holds ptrs l' := hl.of_args htoken.args
        have hargc : l'.argc < 16 := by
          rw [hl'.1]
          omega
        obtain ⟨new, hholds, hnew, hend, hwithin⟩ := ih (p := q) (hl'.push p)
          (by rw [List.length_append, List.length_singleton]; omega)
        rw [Locals.tokenLoop]
        generalize Locals.tokenLoop n _ _ = r at hholds hnew hend hwithin ⊢
        have hpush : Within p (p + (l.str p).length) l' (l'.push p) := push_within l' hargc p
        have hkept : r.str p = l'.str p := hwithin.before p htoken.apart
        refine ⟨p :: new, ?_, ?_, ?_, ?_⟩
        · rw [List.append_assoc] at hholds
          exact hholds
        · rw [List.map_cons, hnew, hkept, parseArgs, htoken.strtok]
          rfl
        · intro q' hq'
          rcases List.mem_cons.mp hq' with rfl | hq'
          · rw [hkept]
            exact Nat.le_trans htoken.apart (Nat.le_trans (Nat.le_add_right _ _) htoken.rest)
          · exact Nat.le_trans (hend q' hq') htoken.rest
        · refine (htoken.within.trans hpush).trans (hwithin.mono ?_ htoken.rest)
          exact Nat.le_trans (Nat.le_add_right _ _) htoken.apart

theorem parseArgs_eq_take (n : ℕ) (s : List UInt8) : parseArgs n s = (pieces (· ∉ [space]) s).take n := by
  induction n generalizing s with
  | zero => rfl
  | succ n ih =>
      cases s with
      | nil => rfl
      | cons c s =>
          rw [parseArgs, pieces_cons, List.take_succ_cons, Libc.strtok]
          · exact congrArg (_ :: ·) (ih _)
          · exact List.cons_ne_nil c s

end Tokens

section Calls

variable {i : Input} {l : Locals} {args : List Path} {s : Vfs}

/-- Each argument is a string that ends within the array. -/
def Call.Defined (c : Call) : Prop :=
  ∀ k < c.argc, ∃ p e, c.argv k = some p ∧ p ≤ e ∧ e < 256 ∧ c.lineCopy[e]? = some 0

def Call.strings (c : Call) : List (Option Path) :=
  (List.range c.argc).map fun k => (c.argv k).map (stringAt 0 c.lineCopy)

/-- `args_copy` has the arguments, which lie in the line. -/
def HoldsArgs (args : List Path) (l : Locals) : Prop :=
  ∃ ptrs, Holds ptrs l ∧ ptrs.map l.str = args ∧
    ∀ q ∈ ptrs, q + (l.str q).length < 256 ∧ q + (l.str q).length < l.lineCopy.length

theorem HoldsArgs.strings (h : HoldsArgs args l) : l.strings = args := by
  obtain ⟨ptrs, hholds, hmap, -⟩ := h
  rw [hholds.strings, hmap]

theorem HoldsArgs.entry (h : HoldsArgs args l) {k : ℕ} (hk : k < args.length) :
    ∃ p e, l.argsCopy k = some p ∧ l.str p = args[k] ∧ p ≤ e ∧ e < 256 ∧ l.lineCopy[e]? = some 0 := by
  obtain ⟨ptrs, hholds, rfl, hin⟩ := h
  rw [List.length_map] at hk
  obtain ⟨hlt, hlen⟩ := hin _ (List.getElem_mem hk)
  refine ⟨ptrs[k], _, ?_, ?_, Nat.le_add_right _ _, hlt, getElem?_end hlen⟩
  · rw [hholds.2, List.getElem?_eq_getElem hk]
  · rw [List.getElem_map]

theorem HoldsArgs.no_entry (h : HoldsArgs args l) {k : ℕ} (hk : args.length ≤ k) : l.argsCopy k = none := by
  obtain ⟨ptrs, hholds, rfl, -⟩ := h
  rw [List.length_map] at hk
  rw [hholds.2, List.getElem?_eq_none hk]

theorem HoldsArgs.argc (h : HoldsArgs args l) : l.argc = args.length := by
  obtain ⟨ptrs, hholds, rfl, -⟩ := h
  rw [hholds.1, List.length_map]

theorem HoldsArgs.defined (h : HoldsArgs args l) (callee : Callee) : Call.Defined (l.call callee) := by
  intro k hk
  change k < l.argc at hk
  rw [h.argc] at hk
  obtain ⟨p, e, hp, -, hend⟩ := h.entry hk
  exact ⟨p, e, hp, hend⟩

/-- The call of `loader_pic`: the second entry has become the first one. -/
def loaderCall (l : Locals) : Call :=
  ⟨.loader, l.argc + 1, Function.update l.argsCopy 1 (l.argsCopy 0), l.lineCopy⟩

theorem loaderCall_of_ne {k : ℕ} (h : k ≠ 1) (l : Locals) : (loaderCall l).argv k = l.argsCopy k := by
  change Function.update l.argsCopy 1 (l.argsCopy 0) k = l.argsCopy k
  rw [Function.update_of_ne h]

theorem loaderCall_first (l : Locals) : (loaderCall l).argv 0 = l.argsCopy 0 := loaderCall_of_ne Nat.zero_ne_one l

theorem loaderCall_second (l : Locals) : (loaderCall l).argv 1 = l.argsCopy 0 := by
  change Function.update l.argsCopy 1 (l.argsCopy 0) 1 = l.argsCopy 0
  rw [Function.update_self]

theorem loaderCall_undefined (h : HoldsArgs args l) (hmany : 1 < args.length) :
    args.length < (loaderCall l).argc ∧ (loaderCall l).argv args.length = none := by
  constructor
  · rw [loaderCall, h.argc]
    exact Nat.lt_succ_self _
  · rw [loaderCall_of_ne (Nat.ne_of_gt hmany), h.no_entry (Nat.le_refl _)]

theorem loaderCall_defined_iff (h : HoldsArgs args l) (hne : args ≠ []) :
    Call.Defined (loaderCall l) ↔ args.length = 1 := by
  have hpos := List.length_pos_of_ne_nil hne
  constructor
  · intro hdefined
    by_contra hone
    obtain ⟨hlt, hnone⟩ := loaderCall_undefined h (by omega)
    obtain ⟨p, e, hp, -⟩ := hdefined _ hlt
    rw [hnone] at hp
    cases hp
  · intro hone k hk
    obtain ⟨p, e, hp, -, hend⟩ := h.entry hpos
    rw [loaderCall, h.argc, hone] at hk
    refine ⟨p, e, ?_, hend⟩
    rcases Nat.le_one_iff_eq_zero_or_eq_one.mp (Nat.le_of_lt_succ hk) with rfl | rfl
    · exact (loaderCall_first l).trans hp
    · exact (loaderCall_second l).trans hp

theorem loaderCall_strings_one {t : Path} (h : HoldsArgs [t] l) : Call.strings (loaderCall l) = [some t, some t] := by
  obtain ⟨p, e, hp, hstr, -⟩ := h.entry (k := 0) Nat.zero_lt_one
  have hargc : (loaderCall l).argc = 2 := congrArg (· + 1) h.argc
  rw [Call.strings, hargc]
  change [((loaderCall l).argv 0).map l.str, ((loaderCall l).argv 1).map l.str] = _
  rw [loaderCall_first, loaderCall_second, hp, Option.map_some, hstr]
  rfl

theorem none_mem_strings (h : HoldsArgs args l) (hmany : 1 < args.length) : none ∈ Call.strings (loaderCall l) := by
  obtain ⟨hlt, hnone⟩ := loaderCall_undefined h hmany
  apply List.mem_map.mpr
  refine ⟨args.length, List.mem_range.mpr hlt, ?_⟩
  rw [hnone, Option.map_none]

theorem externalStage_spec (i : Input) (s : Vfs) (l : Locals) :
    (externalStage i s l).2 = (if (fileExists i s).1 then [loaderCall l] else []) ∧
      (Inside (externalStage i s l).1 ↔ Inside l ∧ (l.strings.headD []).length ≤ 14) := by
  have hbuf : (∀ st ∈ (List.range ((l.strings.headD []).length + 2)).map Store.buf, st.Inside) ↔
      (l.strings.headD []).length ≤ 14 := by
    rw [List.forall_mem_map]
    constructor
    · intro hall
      have hlast : (l.strings.headD []).length + 1 < 16 := hall _ (List.mem_range.mpr (Nat.lt_succ_self _))
      omega
    · intro hle k hk
      exact Nat.lt_of_lt_of_le (List.mem_range.mp hk) (Nat.add_le_add_right hle 2)
  have hsecond : (Store.argsCopy 1).Inside := Nat.lt_of_sub_pos (by decide)
  rw [externalStage]
  dsimp only
  by_cases hfile : (fileExists i s).1
  · rw [if_pos hfile, if_pos hfile]
    refine ⟨rfl, ?_⟩
    simp only [Inside, Locals.setArg, List.forall_mem_append, List.forall_mem_singleton, hbuf, and_iff_left hsecond]
  · rw [if_neg hfile, if_neg hfile]
    refine ⟨rfl, ?_⟩
    simp only [Inside, List.forall_mem_append, hbuf]

/-- What is run is searched for: it is no builtin, or one that fails. -/
def Searched (i : Input) (args : List Path) (s : Vfs) : Prop :=
  ∀ c, builtin (args.headD []) = some c → Fails i args s c

/-- The command is run if it is a builtin, and then what is searched for is run if it is found. -/
theorem commandStage_cases (h : HoldsArgs args l) (i : Input) (s : Vfs) :
    (Searched i args s ∧ ∃ cs t, (∀ c ∈ cs, ∃ k, c = l.call (.command k)) ∧
      commandStage i s l = ((externalStage i t l).1, cs ++ (externalStage i t l).2)) ∨
    ¬ Searched i args s ∧ ∃ k, commandStage i s l = (l, [l.call (.command k)]) := by
  rw [commandStage, h.strings, Searched]
  cases builtin (args.headD []) with
  | none =>
      left
      refine ⟨fun c hc => (nomatch hc), [], s, fun c hc => (nomatch hc), ?_⟩
      rfl
  | some c =>
      have hone : (∀ c', some c = some c' → Fails i args s c') ↔ Fails i args s c := by simp
      rw [hone]
      dsimp only
      rcases func_cases c i args s with ⟨hfails, t, ht⟩ | ⟨hkeeps, hreturns⟩
      · left
        refine ⟨hfails, [l.call (.command c)], t, ?_, ?_⟩
        · intro c' hc'
          exact ⟨c, List.mem_singleton.mp hc'⟩
        · rw [ht]
          dsimp only
          rw [if_pos (by decide)]
          rfl
      · right
        refine ⟨hkeeps, c, ?_⟩
        cases hr : c.func i args s with
        | none => rfl
        | some r =>
            have hreturn : ¬ (r.1 ≠ 0 ∧ r.1 ≠ cmdExitShell) := by
              rcases hreturns r hr with hzero | hexit
              · exact fun hboth => hboth.1 hzero
              · exact fun hboth => hboth.2 hexit
            dsimp only
            rw [if_neg hreturn]

end Calls

section Runs

variable {i : Input} {l : Locals} {args : List Path} {s : Vfs}

/-- `execute_line` has gone on to the command with the arguments and the VFS that are given, or has
left without a call. -/
def Stage (i : Input) (inside : Prop) : Option (List Path × Vfs) → Locals × List Call → Prop
  | none, r => r.2 = [] ∧ (Inside r.1 ↔ inside)
  | some (args, s), r => ∃ l, HoldsArgs args l ∧ (Inside l ↔ inside) ∧ r = commandStage i s l

theorem tokenStage_spec {output : Option (ℕ × UInt32)} {p : Prop} (input : Option Fd) (s : Vfs) (hl : Holds [] l)
    (hline : (l.str 0).length < 256) (hlen : (l.str 0).length < l.lineCopy.length)
    (hbehind : ∀ o ∈ output, (l.str 0).length ≤ o.1) (hinside : Inside l ↔ p) (hargs : parseArgs 16 ((l.str 0).dropWhile (· = space)) = args) :
    Stage i p (if args = [] then none else (redirected input (output.map fun o => (l.str o.1, o.2)) s).map fun s => (args, s))
      (tokenStage i input output s l) := by
  obtain ⟨hstr, hend⟩ := str_skipBlanks l 0
  obtain ⟨ptrs, hholds, hmap, hin, hwithin⟩ := tokenLoop_spec (n := 16) (p := l.skipBlanks 0) hl (Nat.le_refl _)
  rw [List.nil_append] at hholds
  rw [hend, Nat.zero_add] at hin hwithin
  rw [hstr, hargs] at hmap
  have hoff : output.map (fun o => (l.str o.1, o.2)) = output.map fun o =>
      ((Locals.tokenLoop 16 (l.strtok (l.skipBlanks 0)).1 (l.strtok (l.skipBlanks 0)).2).str o.1, o.2) := by
    cases output with
    | none => rfl
    | some o =>
        have hkept := hwithin.behind o.1 (hbehind o rfl)
        rw [Option.map_some, Option.map_some, hkept]
  rw [tokenStage, hoff]
  generalize Locals.tokenLoop 16 (l.strtok (l.skipBlanks 0)).1 (l.strtok (l.skipBlanks 0)).2 = r at hholds hmap hin hwithin ⊢
  have hinside' : Inside r ↔ p := (hwithin.inside_iff (Nat.le_of_lt hline)).trans hinside
  have hheld : HoldsArgs args r := by
    refine ⟨ptrs, hholds, hmap, ?_⟩
    intro q hq
    have hle := hin q hq
    rw [hwithin.length]
    exact ⟨Nat.lt_of_le_of_lt hle hline, Nat.lt_of_le_of_lt hle hlen⟩
  have hempty : r.argc = 0 ↔ args = [] := by rw [hheld.argc, List.length_eq_zero_iff]
  by_cases hnil : args = []
  · rw [if_pos hnil, if_pos (hempty.mpr hnil)]
    exact ⟨rfl, hinside'⟩
  · rw [if_neg hnil, if_neg fun h => hnil (hempty.mp h)]
    cases redirected input (output.map fun o => (r.str o.1, o.2)) s with
    | none => exact ⟨rfl, hinside'⟩
    | some s' => exact ⟨r, hheld, hinside', rfl⟩

/-- What an earlier line has left is only cut within the array. -/
def StaleFits (i : Input) : Prop :=
  ∀ input args output, parseLine i.stale i.line = .command input args output → StaleInside i.stale (aparada i.line)

theorem notMem_aparada (line : List UInt8) : 0 ∉ aparada line := by
  intro hmem
  rw [aparada] at hmem
  have hcString := (List.dropWhile_sublist _).subset ((List.takeWhile_sublist _).subset ((List.takeWhile_sublist _).subset hmem))
  exact notMem_upTo 0 line hcString

/-- The copy of a line, before its redirections are looked for. -/
structure Copied (line stale : List UInt8) (l : Locals) : Prop where
  str : l.str 0 = line
  stale : l.str (line.length + 1) = cString stale
  holds : Holds [] l
  length : line.length < l.lineCopy.length
  inside : Inside l ↔ line.length < 256

theorem copied_spec (line stale : List UInt8) (h : 0 ∉ line) : Copied line stale (Locals.copied line stale) := by
  refine ⟨upTo_append h stale, ?_, ⟨rfl, fun _ => rfl⟩, ?_, ?_⟩
  · have hdrop : (line ++ 0 :: stale).drop (line.length + 1) = stale := by
      rw [List.drop_length_add_append]
      rfl
    exact congrArg (upTo 0) hdrop
  · rw [Locals.copied, List.length_append, List.length_cons]
    omega
  · rw [Inside, Locals.copied, List.forall_mem_map]
    constructor
    · intro hall
      exact hall line.length (List.mem_range.mpr (Nat.lt_succ_self _))
    · intro hlt k hk
      exact Nat.lt_of_le_of_lt (Nat.le_of_lt_succ (List.mem_range.mp hk)) hlt

variable {line stale : List UInt8}

theorem Copied.outputTaken (hc : Copied line stale l) (h : line.length < 256) : OutputTaken stale l l.outputRedirect := by
  apply outputRedirect_spec (hc.inside.mpr h)
  · rw [hc.str]
    exact Nat.le_of_lt_succ h
  · rw [hc.str]
    exact hc.stale

theorem Copied.inside_iff (hc : Copied line stale l) (h : line.length < 256) {l' : Locals}
    (hwithin : Within 0 (l.outputRedirect.2.str 0).length l.outputRedirect.2 l') : Inside l' ↔ StaleInside stale line := by
  have houtput := hc.outputTaken h
  have hshort := houtput.shorter
  have hinside := houtput.inside
  rw [hc.str] at hshort hinside
  exact (hwithin.inside_iff (Nat.le_trans hshort (Nat.le_of_lt h))).trans hinside

theorem Copied.tokens_stage (hc : Copied line i.stale l) (h : line.length < 256) (input : Option Fd) (t : Vfs) :
    Stage i (StaleInside i.stale line)
      (if parseArgs 16 ((parseInput (parseOutput i.stale line).2).2.dropWhile (· = space)) = [] then none
        else (redirected input (parseOutput i.stale line).1 t).map fun s =>
          (parseArgs 16 ((parseInput (parseOutput i.stale line).2).2.dropWhile (· = space)), s))
      (tokenStage i input l.outputRedirect.1 t (afterInput l.outputRedirect.2.inputRedirect)) := by
  have houtput := hc.outputTaken h
  have hinput := inputRedirect_spec l.outputRedirect.2
  have hinside := hc.inside_iff h hinput.within_after
  have hlength := hc.length
  have hshort := houtput.shorter
  have hline := hinput.line
  have hleft := hinput.shorter
  rw [houtput.line, hc.str] at hline
  rw [hc.str] at hshort
  have hmap : l.outputRedirect.1.map (fun x => ((afterInput l.outputRedirect.2.inputRedirect).str x.1, x.2)) =
      (parseOutput i.stale line).1 := by
    rw [← hc.str, ← houtput.output]
    cases ho : l.outputRedirect.1 with
    | none => rfl
    | some x =>
        have hkept := hinput.within_after.behind x.1 (houtput.behind x ho)
        rw [Option.map_some, Option.map_some, hkept]
  rw [← hmap]
  apply tokenStage_spec
  · exact (hc.holds.of_args houtput.args).of_args hinput.args_after
  · omega
  · rw [hinput.within_after.length, houtput.length]
    omega
  · intro x hx
    exact Nat.le_trans hleft (houtput.behind x hx)
  · exact hinside
  · rw [hline]

theorem buffers_stage (i : Input) (s : Vfs) (h : (aparada i.line).length < 256) :
    Stage i (StaleFits i) (dispatched i s) (buffers i s) := by
  have hcopied := copied_spec (aparada i.line) i.stale (notMem_aparada i.line)
  rw [dispatched, buffers, StaleFits, parseLine_eq]
  generalize Locals.copied (aparada i.line) i.stale = l at hcopied ⊢
  generalize aparada i.line = line at *
  by_cases hblank : line = [] ∨ line.head? = some 0x23
  · rw [if_pos hblank, if_pos hblank]
    exact ⟨rfl, iff_of_true (fun st hst => by cases hst) fun _ _ _ he => by cases he⟩
  · have hheredoc : (l.find (text "<<")).isSome ↔ (strstr line (text "<<")).isSome := by
      rw [Locals.find, Option.isSome_map, hcopied.str]
    rw [if_neg hblank, if_neg hblank]
    by_cases hdouble : (strstr line (text "<<")).isSome
    · rw [if_pos hdouble, if_pos (hheredoc.mpr hdouble)]
      exact ⟨rfl, iff_of_true (hcopied.inside.mpr h) fun _ _ _ he => by cases he⟩
    · have hfits : (∀ input args output, Request.command (parseInput (parseOutput i.stale line).2).1
          (parseArgs 16 ((parseInput (parseOutput i.stale line).2).2.dropWhile (· = space))) (parseOutput i.stale line).1 =
            .command input args output → StaleInside i.stale line) ↔ StaleInside i.stale line :=
        ⟨fun hall => hall _ _ _ rfl, fun hfits _ _ _ _ => hfits⟩
      have hinput := inputRedirect_spec l.outputRedirect.2
      have hparsed := hinput.input
      have hstage := hcopied.tokens_stage h
      have hfailed := hcopied.inside_iff h hinput.within
      rw [(hcopied.outputTaken h).line, hcopied.str] at hparsed
      rw [if_neg hdouble, if_neg fun h => hdouble (hheredoc.mp h), hfits]
      dsimp only
      generalize l.outputRedirect.2.inputRedirect = n at hparsed hstage hfailed ⊢
      cases hn : n.1 with
      | none =>
          rw [hn, Option.map_none] at hparsed
          have hafter : afterInput n = n.2 := by rw [afterInput, hn, Option.elim_none]
          rw [← hparsed, ← hafter]
          exact hstage none s
      | some x =>
          obtain ⟨p, file⟩ := x
          rw [hn, Option.map_some] at hparsed
          have hafter : afterInput n = n.2.cut p := by rw [afterInput, hn, Option.elim_some]
          rw [← hparsed]
          dsimp only
          rw [← hafter]
          cases (vfsOpen (n.2.str file) oRdonly s).1 with
          | none => exact ⟨rfl, hfailed⟩
          | some fd => exact hstage (some fd) _

end Runs

end Orion68.ArgumentVector
