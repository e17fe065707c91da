import Orion68.Shell.ExecuteLine
import Orion68.Shell.Startup

namespace Orion68.RedirectionOrder

open Libc FatFs Shell Startup

section Events

/-- What a line asks the VFS and the commands for. -/
inductive Evento
  | abre (file : Path) (flags : UInt32)
  | executa (args : List Path)

/-- The files that `execute` opens and the command that it runs, with its result. -/
def executeLog (i : Input) (input : Option Fd) (args : List Path) (output : Option (Path × UInt32)) (s : Vfs) :
    List Evento × Option (Exit × Vfs) :=
  let s := install stdin input s
  match output with
  | none => ([.executa args], (runCommand i args s).map fun r => (.ran r.1, restore stdin input r.2))
  | some (file, flags) =>
      let r := vfsOpen file flags s
      match r.1 with
      | none =>
          ([.abre file flags], some (.noOutput, closeInput input
            (say 1 "\n" (put file (say 37 "Erro: nao foi possivel criar saida: " r.2)))))
      | some fd =>
          ([.abre file flags, .executa args], (runCommand i args (install stdout (some fd) r.2)).map fun r =>
            (.ran r.1, restore stdin input (restore stdout (some fd) r.2)))

def withInputLog (i : Input) (args : List Path) (output : Option (Path × UInt32)) (input : Option Fd) (s : Vfs) :
    List Evento × Option (Exit × Vfs) :=
  if args = [] then ([], some (.noCommand, closeInput input s)) else executeLog i input args output s

def executeLineLog (i : Input) (s : Vfs) : List Evento × Option (Exit × Vfs) :=
  match parseLine i.stale i.line with
  | .blank => ([], some (.blank, s))
  | .heredoc => ([], some (.heredoc, say 26 "Heredoc nao implementado\n" s))
  | .command none args output => withInputLog i args output none s
  | .command (some file) args output =>
      let r := vfsOpen file oRdonly s
      match r.1 with
      | none =>
          ([.abre file oRdonly],
            some (.noInput, say 1 "\n" (put file (say 39 "Erro: nao foi possivel abrir entrada: " r.2))))
      | some fd =>
          let r := withInputLog i args output (some fd) r.2
          (.abre file oRdonly :: r.1, r.2)

def eventos (i : Input) (s : Vfs) : List Evento := (executeLineLog i s).1

variable {i : Input} {args : List Path} {output : Option (Path × UInt32)} {input : Option Fd} {s : Vfs}

theorem executeLog_snd : (executeLog i input args output s).2 = execute i input args output s := by
  cases output with
  | none => rfl
  | some o =>
      simp only [executeLog, execute]
      cases (vfsOpen o.1 o.2 (install stdin input s)).1 with
      | none => rfl
      | some fd => rfl

theorem withInputLog_snd : (withInputLog i args output input s).2 = withInput i args output input s := by
  rw [withInputLog, withInput]
  split
  · rfl
  · exact executeLog_snd

theorem executeLineLog_snd (i : Input) (s : Vfs) : (executeLineLog i s).2 = executeLine i s := by
  rw [executeLineLog, executeLine]
  cases parseLine i.stale i.line with
  | blank => rfl
  | heredoc => rfl
  | command input args output =>
      cases input with
      | none => exact withInputLog_snd
      | some file =>
          dsimp only
          cases (vfsOpen file oRdonly s).1 with
          | none => rfl
          | some fd => exact withInputLog_snd

end Events

section Lines

/-- A text without redirection characters. -/
abbrev Texto := { s : List UInt8 // 0 ∉ s ∧ 0x3C ∉ s ∧ 0x3E ∉ s }

def saidaPrimeiro (c o i : Texto) : List UInt8 := c.1 ++ text " > " ++ o.1 ++ text " < " ++ i.1

def entradaPrimeiro (c o i : Texto) : List UInt8 := c.1 ++ text " < " ++ i.1 ++ text " > " ++ o.1

def Cortada (c : List UInt8) : Prop := (c.dropWhile (· = space)).head? = some 0x23 ∨ 0x0A ∈ c ∨ 0x0D ∈ c

instance (c : List UInt8) : Decidable (Cortada c) := inferInstanceAs (Decidable (_ ∨ _ ∨ _))

/-- The line without the blanks before it and its end. -/
def aparada (line : List UInt8) : List UInt8 :=
  (((cString line).dropWhile (· = space)).takeWhile (· ≠ 0x0A)).takeWhile (· ≠ 0x0D)

theorem parseLine_eq (stale line : List UInt8) :
    parseLine stale line =
      if aparada line = [] ∨ (aparada line).head? = some 0x23 then .blank
      else if (strstr (aparada line) (text "<<")).isSome then .heredoc
      else
        .command (parseInput (parseOutput stale (aparada line)).2).1
          (parseArgs 16 ((parseInput (parseOutput stale (aparada line)).2).2.dropWhile (· = space)))
          (parseOutput stale (aparada line)).1 := rfl

variable {c r u v : List UInt8}

theorem cString_eq (h : 0 ∉ r) : cString r = r := by
  apply List.takeWhile_eq_self_iff.mpr
  intro b hb
  rw [decide_eq_true_iff]
  rintro rfl
  exact h hb

theorem takeWhile_ne_eq {x : UInt8} (h : x ∉ c) (u : List UInt8) :
    (c ++ u).takeWhile (· ≠ x) = c ++ u.takeWhile (· ≠ x) := by
  apply List.takeWhile_append_of_pos
  intro b hb
  rw [decide_eq_true_iff]
  rintro rfl
  exact h hb

theorem takeWhile_ne_congr {x : UInt8} (h : x ∈ c) (u v : List UInt8) :
    (c ++ u).takeWhile (· ≠ x) = (c ++ v).takeWhile (· ≠ x) := by
  induction c with
  | nil => cases h
  | cons b c ih =>
      rw [List.cons_append, List.cons_append, List.takeWhile_cons, List.takeWhile_cons]
      by_cases hb : b = x
      · rw [if_neg (by simp [hb]), if_neg (by simp [hb])]
      · have hc : x ∈ c := (List.mem_cons.mp h).resolve_left (Ne.symm hb)
        rw [ih hc]

/-- The command with its blank, from the first byte that is not blank. -/
def inicio (c : List UInt8) : List UInt8 := (c ++ [space]).dropWhile (· = space)

theorem notMem_inicio {x : UInt8} (hx : x ≠ space) (h : x ∉ c) : x ∉ inicio c := by
  intro hmem
  have hc := (List.dropWhile_sublist _).subset hmem
  rw [List.mem_append, List.mem_singleton] at hc
  exact hc.elim h hx

theorem inicio_eq (c : List UInt8) :
    inicio c = if c.dropWhile (· = space) = [] then [] else c.dropWhile (· = space) ++ [space] := by
  rw [inicio, List.dropWhile_append]
  by_cases hblank : c.dropWhile (· = space) = []
  · rw [hblank]
    rfl
  · rw [if_neg (by simpa using hblank), if_neg hblank]

theorem inicio_head (hc : (c.dropWhile (· = space)).head? ≠ some 0x23) : (inicio c).head? ≠ some 0x23 := by
  rw [inicio_eq]
  cases hblank : c.dropWhile (· = space) with
  | nil => simp
  | cons b l =>
      rw [hblank] at hc
      simpa using hc

theorem aparada_eq (hc : ¬ Cortada c) {x : UInt8} (hx : x ∉ [0, space, 0x0A, 0x0D]) (hline : 0 ∉ c) (hr : 0 ∉ r) :
    ∃ r', r' ⊆ r ∧ aparada (c ++ space :: x :: space :: r) = inicio c ++ x :: space :: r' := by
  rw [Cortada, not_or, not_or] at hc
  obtain ⟨-, hlf, hcr⟩ := hc
  simp only [List.mem_cons, List.not_mem_nil, or_false, not_or] at hx
  obtain ⟨h0, hspace, hxlf, hxcr⟩ := hx
  have hfirst : (c ++ space :: x :: space :: r).dropWhile (· = space) = inicio c ++ x :: space :: r := by
    have hsplit : c ++ space :: x :: space :: r = c ++ [space] ++ x :: space :: r := by simp
    rw [hsplit, List.dropWhile_append, ← inicio]
    by_cases hblank : inicio c = []
    · rw [hblank, if_pos List.isEmpty_nil, List.dropWhile_cons_of_neg (by simp [hspace]), List.nil_append]
    · rw [if_neg (by simpa using hblank)]
  have hzero : 0 ∉ c ++ space :: x :: space :: r := by
    simp [hline, hr, Ne.symm h0, space]
  refine ⟨(r.takeWhile (· ≠ 0x0A)).takeWhile (· ≠ 0x0D), ?_, ?_⟩
  · exact ((List.takeWhile_sublist _).trans (List.takeWhile_sublist _)).subset
  · have hlf' : (0x0A : UInt8) ∉ inicio c ++ [x, space] := by
      simp [notMem_inicio (by decide) hlf, Ne.symm hxlf, space]
    have hcr' : (0x0D : UInt8) ∉ inicio c ++ [x, space] := by
      simp [notMem_inicio (by decide) hcr, Ne.symm hxcr, space]
    have hsplit (l : List UInt8) : inicio c ++ x :: space :: l = inicio c ++ [x, space] ++ l := by simp
    rw [aparada, cString_eq hzero, hfirst, hsplit, takeWhile_ne_eq hlf', takeWhile_ne_eq hcr']
    exact (hsplit _).symm

theorem mem_dropWhile {x : UInt8} (hx : x ≠ space) (h : x ∈ c) : x ∈ c.dropWhile (· = space) := by
  rw [← List.takeWhile_append_dropWhile (p := (· = space)) (l := c), List.mem_append] at h
  refine h.resolve_left fun hblank => hx ?_
  exact of_decide_eq_true (List.mem_takeWhile_imp (p := (· = space)) hblank)

theorem parseLine_cortada (hc : Cortada c) (stale : List UInt8) (hline : 0 ∉ c) (hu : 0 ∉ u) (hv : 0 ∉ v) :
    parseLine stale (c ++ u) = parseLine stale (c ++ v) := by
  have hnonblank : c.dropWhile (· = space) ≠ [] := by
    rcases hc with hhash | hlf | hcr
    · intro hblank
      rw [hblank] at hhash
      cases hhash
    · exact List.ne_nil_of_mem (mem_dropWhile (by decide) hlf)
    · exact List.ne_nil_of_mem (mem_dropWhile (by decide) hcr)
  have haparada {w : List UInt8} (hw : 0 ∉ w) :
      aparada (c ++ w) = ((c.dropWhile (· = space) ++ w).takeWhile (· ≠ 0x0A)).takeWhile (· ≠ 0x0D) := by
    rw [aparada, cString_eq (by simp [hline, hw]), List.dropWhile_append, if_neg (by simpa using hnonblank)]
  rcases hc with hhash | hlf | hcr
  · have hblank {w : List UInt8} (hw : 0 ∉ w) : parseLine stale (c ++ w) = .blank := by
      obtain ⟨l, hl⟩ : ∃ l, c.dropWhile (· = space) = 0x23 :: l := by
        cases hdrop : c.dropWhile (· = space) with
        | nil => exact absurd hdrop hnonblank
        | cons b l =>
            rw [hdrop] at hhash
            exact ⟨l, congrArg (· :: l) (Option.some.inj hhash)⟩
      rw [parseLine_eq, haparada hw, hl]
      exact if_pos (.inr rfl)
    rw [hblank hu, hblank hv]
  · rw [parseLine_eq, parseLine_eq, haparada hu, haparada hv,
      takeWhile_ne_congr (mem_dropWhile (by decide) hlf) u v]
  · by_cases hlf : 0x0A ∈ c
    · rw [parseLine_eq, parseLine_eq, haparada hu, haparada hv,
        takeWhile_ne_congr (mem_dropWhile (by decide) hlf) u v]
    · have hnot : (0x0A : UInt8) ∉ c.dropWhile (· = space) := fun h => hlf ((List.dropWhile_sublist _).subset h)
      rw [parseLine_eq, parseLine_eq, haparada hu, haparada hv, takeWhile_ne_eq hnot, takeWhile_ne_eq hnot,
        takeWhile_ne_congr (mem_dropWhile (by decide) hcr) (u.takeWhile _) (v.takeWhile _)]

end Lines

section Order

variable {i : Input} {s : Vfs} {args : List Path} {output : Option (Path × UInt32)} {input : Option Fd} {f : Path}

theorem parseOutput_flags {stale line : List UInt8} {flags : UInt32} (h : (parseOutput stale line).1 = some (f, flags)) :
    flags ≠ oRdonly := by
  rw [parseOutput] at h
  split at h
  next =>
    obtain ⟨-, rfl⟩ := Prod.mk.inj (Option.some.inj h)
    decide
  next =>
    split at h
    next =>
      split at h
      next =>
        obtain ⟨-, rfl⟩ := Prod.mk.inj (Option.some.inj h)
        decide
      next => cases h
    next => cases h

theorem rdonly_notMem_executeLog (hout : ∀ o, output = some o → o.2 ≠ oRdonly) (f : Path) :
    Evento.abre f oRdonly ∉ (executeLog i input args output s).1 := by
  cases output with
  | none => simp [executeLog]
  | some o =>
      have hflags := (hout o rfl).symm
      simp only [executeLog]
      cases (vfsOpen o.1 o.2 (install stdin input s)).1 with
      | none => simp [hflags]
      | some fd => simp [hflags]

theorem executeLog_events (i j : Input) : (executeLog i input args output s).1 = (executeLog j input args output s).1 := by
  cases output with
  | none => rfl
  | some o =>
      simp only [executeLog]
      cases (vfsOpen o.1 o.2 (install stdin input s)).1 with
      | none => rfl
      | some fd => rfl

theorem withInputLog_events (i j : Input) :
    (withInputLog i args output input s).1 = (withInputLog j args output input s).1 := by
  rw [withInputLog, withInputLog]
  split
  · rfl
  · exact executeLog_events i j

theorem eventos_congr {i j : Input} (h : parseLine i.stale i.line = parseLine j.stale j.line) (s : Vfs) :
    eventos i s = eventos j s := by
  rw [eventos, eventos, executeLineLog, executeLineLog, h]
  cases parseLine j.stale j.line with
  | blank => rfl
  | heredoc => rfl
  | command input args output =>
      cases input with
      | none => exact withInputLog_events i j
      | some file =>
          dsimp only
          cases (vfsOpen file oRdonly s).1 with
          | none => rfl
          | some fd => exact congrArg (Evento.abre file oRdonly :: ·) (withInputLog_events i j)

theorem rdonly_notMem (h : (parseInput (parseOutput i.stale (aparada i.line)).2).1 = none) (f : Path) :
    Evento.abre f oRdonly ∉ eventos i s := by
  rw [eventos, executeLineLog, parseLine_eq, h]
  split_ifs
  · exact List.not_mem_nil
  · exact List.not_mem_nil
  · dsimp only
    rw [withInputLog]
    split_ifs
    · exact List.not_mem_nil
    · exact rdonly_notMem_executeLog (fun o ho => parseOutput_flags ho) f

theorem rdonly_mem (h : ∃ args output, parseLine i.stale i.line = .command (some f) args output) :
    Evento.abre f oRdonly ∈ eventos i s := by
  obtain ⟨args, output, h⟩ := h
  rw [eventos, executeLineLog, h]
  dsimp only
  cases (vfsOpen f oRdonly s).1 with
  | none => exact List.mem_singleton.mpr rfl
  | some fd => exact List.mem_cons_self

theorem parse_saidaPrimeiro {stale p r : List UInt8} (hp : 0x3C ∉ p ∧ 0x3E ∉ p) (hr : 0x3E ∉ r) :
    (parseInput (parseOutput stale (p ++ 0x3E :: space :: r)).2).1 = none := by
  have hout : parseOutput stale (p ++ 0x3E :: space :: r) = (some (trimmed (space :: r), oWronly ||| oTrunc), p) := by
    have hdouble : strstr (p ++ 0x3E :: space :: r) (text ">>") = none := strstr_double hp.2 (by decide) hr
    have hsingle : strstr (p ++ 0x3E :: space :: r) (text ">") = some (p, 0x3E :: space :: r) := strstr_single hp.2 _
    rw [parseOutput, hdouble, hsingle]
    rfl
  have hin : strstr p (text "<") = none := strstr_of_notMem hp.1 _
  rw [hout, parseInput, hin]

theorem parse_entradaPrimeiro (stale : List UInt8) {p r : List UInt8} (hp : 0x3C ∉ p ∧ 0x3E ∉ p) :
    ∃ f, (parseInput (parseOutput stale (p ++ 0x3C :: space :: r)).2).1 = some f := by
  have hq : 0x3E ∉ p ++ [0x3C, space] := by
    simp [hp.2, space]
  have hsplit (l : List UInt8) : p ++ 0x3C :: space :: l = p ++ [0x3C, space] ++ l := by simp
  have hleft : ∃ l, (parseOutput stale (p ++ 0x3C :: space :: r)).2 = p ++ 0x3C :: space :: l := by
    have hdouble : strstr (p ++ 0x3C :: space :: r) (text ">>") =
        (strstr r (text ">>")).map fun q => (p ++ [0x3C, space] ++ q.1, q.2) := by
      rw [hsplit]
      exact strstr_append_of_notMem hq _ _
    have hsingle : strstr (p ++ 0x3C :: space :: r) (text ">") =
        (strstr r (text ">")).map fun q => (p ++ [0x3C, space] ++ q.1, q.2) := by
      rw [hsplit]
      exact strstr_append_of_notMem hq _ _
    rw [parseOutput, hdouble, hsingle]
    cases strstr r (text ">>") with
    | some q => exact ⟨q.1, (hsplit q.1).symm⟩
    | none =>
        cases strstr r (text ">") with
        | none => exact ⟨r, rfl⟩
        | some q =>
            dsimp only [Option.map]
            split
            · exact ⟨q.1, (hsplit q.1).symm⟩
            · exact ⟨r, rfl⟩
  obtain ⟨l, hl⟩ := hleft
  have hsingle : strstr (p ++ 0x3C :: space :: l) (text "<") = some (p, 0x3C :: space :: l) := strstr_single hp.1 _
  rw [hl, parseInput, hsingle]
  exact ⟨_, rfl⟩

theorem saidaPrimeiro_eq (c o e : Texto) :
    saidaPrimeiro c o e = c.1 ++ space :: 0x3E :: space :: (o.1 ++ text " < " ++ e.1) := by
  simp [saidaPrimeiro, text, space]

theorem entradaPrimeiro_eq (c o e : Texto) :
    entradaPrimeiro c o e = c.1 ++ space :: 0x3C :: space :: (e.1 ++ text " > " ++ o.1) := by
  simp [entradaPrimeiro, text, space]

variable {c o e : Texto}

theorem saidaPrimeiro_rdonly (hc : ¬ Cortada c.1) (i : Input) (s : Vfs) (f : Path) :
    Evento.abre f oRdonly ∉ eventos { i with line := saidaPrimeiro c o e } s := by
  obtain ⟨r, hr, hline⟩ := aparada_eq hc (x := 0x3E) (r := o.1 ++ text " < " ++ e.1) (by decide) c.2.1
    (by simp [text, o.2.1, e.2.1])
  have hgt : 0x3E ∉ r := by
    intro h
    have hmem := hr h
    simp [text, o.2.2.2, e.2.2.2] at hmem
  rw [← saidaPrimeiro_eq] at hline
  apply rdonly_notMem
  rw [hline]
  exact parse_saidaPrimeiro ⟨notMem_inicio (by decide) c.2.2.1, notMem_inicio (by decide) c.2.2.2⟩ hgt

theorem entradaPrimeiro_rdonly (hc : ¬ Cortada c.1) (i : Input) (s : Vfs) :
    ∃ f, Evento.abre f oRdonly ∈ eventos { i with line := entradaPrimeiro c o e } s := by
  obtain ⟨r, hr, hline⟩ := aparada_eq hc (x := 0x3C) (r := e.1 ++ text " > " ++ o.1) (by decide) c.2.1
    (by simp [text, o.2.1, e.2.1])
  have hlt : 0x3C ∉ r := by
    intro h
    have hmem := hr h
    simp [text, o.2.2.1, e.2.2.1] at hmem
  have hinicio := notMem_inicio (x := 0x3C) (by decide) c.2.2.1
  rw [← entradaPrimeiro_eq] at hline
  obtain ⟨f, hf⟩ := parse_entradaPrimeiro i.stale (r := r)
    ⟨hinicio, notMem_inicio (by decide) c.2.2.2⟩
  have hhead : (inicio c.1 ++ 0x3C :: space :: r).head? ≠ some 0x23 := by
    have hfirst := inicio_head fun h => hc (.inl h)
    cases hp : inicio c.1 with
    | nil => simp
    | cons b l =>
        rw [hp] at hfirst
        exact hfirst
  have hheredoc : strstr (inicio c.1 ++ 0x3C :: space :: r) (text "<<") = none := strstr_double hinicio (by decide) hlt
  refine ⟨f, rdonly_mem ?_⟩
  dsimp only
  rw [parseLine_eq, hline, if_neg (by simpa using hhead), hheredoc, if_neg (by decide), hf]
  exact ⟨_, _, rfl⟩

/-- Both orders ask for the same exactly when the redirections are not reached. -/
theorem order_independent_iff (c o e : Texto) (i : Input) (s : Vfs) :
    (eventos { i with line := saidaPrimeiro c o e } s).Perm (eventos { i with line := entradaPrimeiro c o e } s) ↔
      Cortada c.1 := by
  constructor
  · intro hperm
    by_contra hc
    obtain ⟨f, hf⟩ := entradaPrimeiro_rdonly hc i s (o := o) (e := e)
    exact saidaPrimeiro_rdonly hc i s f (hperm.mem_iff.mpr hf)
  · intro hc
    have hparse := parseLine_cortada hc i.stale c.2.1 (u := space :: 0x3E :: space :: (o.1 ++ text " < " ++ e.1))
      (v := space :: 0x3C :: space :: (e.1 ++ text " > " ++ o.1)) (by simp [text, space, o.2.1, e.2.1])
      (by simp [text, space, o.2.1, e.2.1])
    rw [← saidaPrimeiro_eq, ← entradaPrimeiro_eq] at hparse
    rw [eventos_congr (j := { i with line := entradaPrimeiro c o e }) hparse]

/-- `cat > out < in` reads no file. -/
theorem cat_order_matters :
    ¬ (eventos (.typed "cat > out < in") started).Perm (eventos (.typed "cat < in > out") started) := by
  intro hperm
  have hc : ¬ Cortada (text "cat") := by decide
  obtain ⟨f, hf⟩ := entradaPrimeiro_rdonly (c := ⟨text "cat", by decide⟩) (o := ⟨text "out", by decide⟩)
    (e := ⟨text "in", by decide⟩) hc (.typed "cat < in > out") started
  exact saidaPrimeiro_rdonly (c := ⟨text "cat", by decide⟩) (o := ⟨text "out", by decide⟩)
    (e := ⟨text "in", by decide⟩) hc (.typed "cat > out < in") started f (hperm.mem_iff.mpr hf)

end Order

end Orion68.RedirectionOrder
