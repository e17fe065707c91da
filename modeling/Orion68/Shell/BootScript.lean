import Orion68.Lib.MaximalRuns
import Orion68.Shell.ExecuteLine
import Orion68.Shell.Descriptors

namespace Orion68.BootScript

open MaximalRuns FatFs Shell OpenFailure FatDescriptor Descriptors

section Script

/-- The 256 bytes of `line`. -/
abbrev Buffer := ℕ → UInt8

def Buffer.cString (line : Buffer) : List UInt8 := Shell.cString ((List.range 256).map line)

/-- `execute_line` may change the buffer that it is given. -/
abbrev Exec := Buffer → Vfs → Buffer × Vfs

/-- The locals of `run_boot_script`; `stores` are the indices of the stores to `line`, and `execs`
the buffers at the calls of `execute_line`. -/
structure Script where
  line : Buffer
  pos : ℕ
  stores : List ℕ
  execs : List Buffer
  vfs : Vfs

def Script.store (i : ℕ) (c : UInt8) (s : Script) : Script :=
  { s with line := Function.update s.line i c, stores := s.stores ++ [i] }

/-- A line that has been ended, unless it is a comment. -/
def endLine (exec : Exec) (s : Script) : Script :=
  if s.line 0 ≠ 0x23 then
    let (line, vfs) := exec s.line (say 1 "\n" (put s.line.cString (say 7 "[boot] " s.vfs)))
    { s with line := line, vfs := vfs, execs := s.execs ++ [s.line] }
  else s

def isEol (c : UInt8) : Bool := c = 0x0A || c = 0x0D

def scriptByte (exec : Exec) (c : UInt8) (s : Script) : Script :=
  if isEol c then
    if 0 < s.pos then endLine exec { s.store s.pos 0 with pos := 0 } else s
  else if s.pos < 256 - 1 then { s.store s.pos c with pos := s.pos + 1 }
  else s

def scriptLoop (exec : Exec) (fd : Fd) : ℕ → Script → Option Script
  | 0, _ => none
  | n + 1, s =>
      match vfsRead fd 1 s.vfs with
      | (some (c :: _), vfs) => scriptLoop exec fd n (scriptByte exec c { s with vfs := vfs })
      | (_, vfs) => some { s with vfs := vfs }

/-- The line that has no end of its own. -/
def lastLine (exec : Exec) (s : Script) : Script := if 0 < s.pos then endLine exec (s.store s.pos 0) else s

/-- `garbage` is in the buffer when it starts, and `n` bounds the calls of `vfs_read`. -/
def runBootScript (exec : Exec) (garbage : Buffer) (n : ℕ) (vfs : Vfs) : Option Script :=
  match vfsOpen (text "/boot.bat") oRdonly vfs with
  | (none, vfs) => some ⟨garbage, 0, [], [], say 34 "Nenhum script de boot encontrado\n" vfs⟩
  | (some fd, vfs) =>
      (scriptLoop exec fd n ⟨garbage, 0, [], [], say 31 "\n=== Executando /boot.bat ===\n" vfs⟩).map fun s =>
        let s := lastLine exec s
        { s with vfs := say 36 "=== Script de boot finalizado ===\n\n" (vfsClose fd s.vfs).2 }

end Script

section Lines

def scriptLines (content : List UInt8) : List (List UInt8) :=
  (runs (fun c => !isEol c) content).filter fun line => line.head? ≠ some 0x23

def command (run : List UInt8) : List (List UInt8) := if run = [] ∨ run.head? = some 0x23 then [] else [run]

/-- The buffer has this string, which may have null bytes in it. -/
def IsLine (buffer : Buffer) (cs : List UInt8) : Prop :=
  (∀ (k : ℕ) (h : k < cs.length), buffer k = cs[k]) ∧ buffer cs.length = 0

variable {run : List UInt8} {c : UInt8}

theorem command_eq_filter (run : List UInt8) :
    (if run = [] then [] else [run]).filter (fun line => decide (line.head? ≠ some 0x23)) = command run := by
  rw [command]
  split
  next hnil => rw [if_pos (.inl hnil), List.filter_nil]
  next hne =>
    rw [List.filter_singleton]
    simp [hne]

theorem scriptLines_of_run (h : ∀ c ∈ run, isEol c = false) : scriptLines run = command run := by
  rw [scriptLines, runs_of_all fun c hc => by rw [h c hc]; rfl, command_eq_filter]

theorem scriptLines_append_cons (h : ∀ c ∈ run, isEol c = false) (hc : isEol c = true) (rest : List UInt8) :
    scriptLines (run ++ c :: rest) = command run ++ scriptLines rest := by
  rw [scriptLines, runs_append_cons (fun c hc => by rw [h c hc]; rfl) (by rw [hc]; rfl), List.filter_append,
    command_eq_filter, scriptLines]

theorem mem_scriptLines_iff {content line : List UInt8} :
    line ∈ scriptLines content ↔
      (∃ pre post, MaximalRun (fun c => (!isEol c) = true) content pre line post) ∧ line.head? ≠ some 0x23 := by
  rw [scriptLines, List.mem_filter, mem_runs_iff, decide_eq_true_eq]

end Lines

section Runs

variable {exec : Exec} {fd : Fd} {D : List UInt8 → Vfs → Prop}

/-- In the states of `D`, the descriptor has bytes to come, and neither the terminal nor the commands
change them. -/
structure Delivers (exec : Exec) (fd : Fd) (D : List UInt8 → Vfs → Prop) : Prop where
  next : ∀ c rest s, D (c :: rest) s → ∃ s', vfsRead fd 1 s = (some [c], s') ∧ D rest s'
  done : ∀ s, D [] s → (vfsRead fd 1 s).1 = none ∨ (vfsRead fd 1 s).1 = some []
  put : ∀ rest bytes s, D rest s → D rest (put bytes s)
  exec : ∀ rest line s, D rest s → D rest (exec line s).2

structure Fills (run : List UInt8) (s : Script) : Prop where
  pos : s.pos = min run.length 255
  line : ∀ (k : ℕ) (h : k < run.length), k < 255 → s.line k = run[k]
  eol : ∀ c ∈ run, isEol c = false

def Inside (s : Script) : Prop := ∀ i ∈ s.stores, i < 256

def Executes (s : Script) (lines : List (List UInt8)) (t : Script) : Prop :=
  ∃ buffers, t.execs = s.execs ++ buffers ∧ List.Forall₂ (fun buffer line => IsLine buffer (line.take 255)) buffers lines

variable {s t u : Script} {run rest : List UInt8} {c : UInt8} {lines lines' : List (List UInt8)}

theorem Executes.trans (h : Executes s lines t) (h' : Executes t lines' u) : Executes s (lines ++ lines') u := by
  obtain ⟨b, hb, hall⟩ := h
  obtain ⟨b', hb', hall'⟩ := h'
  refine ⟨b ++ b', ?_, List.rel_append hall hall'⟩
  rw [hb', hb, List.append_assoc]

theorem Executes.of_eq (h : t.execs = s.execs) : Executes s [] t := ⟨[], by rw [h, List.append_nil], .nil⟩

theorem Fills.isLine (h : Fills run s) : IsLine (s.store s.pos 0).line (run.take 255) := by
  have hlen : (run.take 255).length = s.pos := by rw [List.length_take, h.pos, Nat.min_comm]
  constructor
  · intro k hk
    have hk' := hk
    rw [List.length_take] at hk'
    have hne : k ≠ s.pos := by rw [← hlen]; exact Nat.ne_of_lt hk
    have hkeep : (s.store s.pos 0).line k = s.line k := Function.update_of_ne hne 0 s.line
    rw [hkeep, List.getElem_take]
    exact h.line k (by omega) (by omega)
  · rw [hlen]
    exact Function.update_self _ _ _

theorem Inside.store (hs : Inside s) {i : ℕ} (hi : i < 256) (c : UInt8) : Inside (s.store i c) := by
  intro j hj
  rcases List.mem_append.mp hj with hj | hj
  · exact hs j hj
  · rwa [List.mem_singleton.mp hj]

theorem Fills.pos_lt (h : Fills run s) : s.pos < 256 := by
  have := h.pos
  omega

theorem Fills.pos_eq_zero_iff (h : Fills run s) : s.pos = 0 ↔ run = [] := by
  rw [h.pos, ← List.length_eq_zero_iff]
  omega

theorem endLine_inside (hs : Inside s) : Inside (endLine exec s) := by
  rw [endLine]
  split <;> exact hs

theorem endLine_executes (hfill : Fills run s) (hne : run ≠ []) :
    Executes s (command run) (endLine exec (s.store s.pos 0)) := by
  have hline := hfill.isLine
  obtain ⟨c, run, rfl⟩ := List.exists_cons_of_ne_nil hne
  have hhead : (s.store s.pos 0).line 0 = c := hline.1 0 (by simp)
  rw [endLine, hhead, command]
  by_cases hcomment : c = 0x23
  · rw [if_neg (not_not.mpr hcomment), if_pos (.inr (by rw [hcomment]; rfl))]
    exact .of_eq rfl
  · have hkept : ¬ (c :: run = [] ∨ (c :: run).head? = some 0x23) := by simpa using hcomment
    rw [if_pos hcomment, if_neg hkept]
    exact ⟨[(s.store s.pos 0).line], rfl, .cons hline .nil⟩

theorem endLine_delivers (hD : Delivers exec fd D) (hd : D rest s.vfs) : D rest (endLine exec s).vfs := by
  rw [endLine]
  split
  · apply hD.exec
    apply hD.put
    apply hD.put
    exact hD.put _ _ _ hd
  · exact hd

theorem endLine_pos (exec : Exec) (s : Script) (k : ℕ) :
    endLine exec { s with pos := k } = { endLine exec s with pos := k } := by
  rw [endLine, endLine]
  split <;> rfl

theorem scriptByte_eol (hD : Delivers exec fd D) (hs : Inside s) (hd : D rest s.vfs) (hfill : Fills run s)
    (hc : isEol c = true) :
    Executes s (command run) (scriptByte exec c s) ∧ Inside (scriptByte exec c s) ∧ D rest (scriptByte exec c s).vfs ∧
      Fills [] (scriptByte exec c s) := by
  rw [scriptByte, if_pos hc]
  by_cases hnil : run = []
  · have hzero := hfill.pos_eq_zero_iff.mpr hnil
    subst hnil
    rw [if_neg (by omega)]
    exact ⟨.of_eq rfl, hs, hd, hfill⟩
  · have hpos : 0 < s.pos := Nat.pos_of_ne_zero fun hzero => hnil (hfill.pos_eq_zero_iff.mp hzero)
    rw [if_pos hpos, endLine_pos]
    refine ⟨endLine_executes hfill hnil, endLine_inside (hs.store hfill.pos_lt 0), endLine_delivers hD hd, rfl, ?_, ?_⟩
    · intro k hk
      exact absurd hk (Nat.not_lt_zero k)
    · intro c hc
      exact absurd hc List.not_mem_nil

theorem scriptByte_other (exec : Exec) (hs : Inside s) (hfill : Fills run s) (hc : isEol c = false) :
    (scriptByte exec c s).execs = s.execs ∧ (scriptByte exec c s).vfs = s.vfs ∧ Inside (scriptByte exec c s) ∧
      Fills (run ++ [c]) (scriptByte exec c s) := by
  have hpos := hfill.pos
  have heol : ∀ d ∈ run ++ [c], isEol d = false := by
    intro d hd
    rcases List.mem_append.mp hd with hd | hd
    · exact hfill.eol d hd
    · rwa [List.mem_singleton.mp hd]
  rw [scriptByte, if_neg (by rw [hc]; exact Bool.false_ne_true)]
  by_cases hroom : s.pos < 256 - 1
  · rw [if_pos hroom]
    refine ⟨rfl, rfl, hs.store hfill.pos_lt c, ?_, ?_, heol⟩
    · change s.pos + 1 = _
      rw [List.length_append, List.length_singleton]
      omega
    · intro k hk hlt
      change Function.update s.line s.pos c k = _
      rw [List.length_append, List.length_singleton] at hk
      by_cases hlast : k = s.pos
      · have hlen : run.length ≤ k := by omega
        have hstored : Function.update s.line s.pos c k = c := by rw [hlast, Function.update_self]
        rw [hstored, List.getElem_append_right hlen, List.getElem_singleton]
      · have hold : k < run.length := by omega
        rw [Function.update_of_ne hlast, List.getElem_append_left hold]
        exact hfill.line k hold hlt
  · rw [if_neg hroom]
    refine ⟨rfl, rfl, hs, ?_, ?_, heol⟩
    · rw [List.length_append, List.length_singleton]
      omega
    · intro k hk hlt
      have hold : k < run.length := by omega
      rw [List.getElem_append_left hold]
      exact hfill.line k hold hlt

theorem lastLine_spec (exec : Exec) (hs : Inside s) (hfill : Fills run s) :
    Executes s (command run) (lastLine exec s) ∧ Inside (lastLine exec s) := by
  rw [lastLine]
  by_cases hnil : run = []
  · have hzero := hfill.pos_eq_zero_iff.mpr hnil
    subst hnil
    rw [if_neg (by omega)]
    exact ⟨.of_eq rfl, hs⟩
  · have hpos : 0 < s.pos := Nat.pos_of_ne_zero fun hzero => hnil (hfill.pos_eq_zero_iff.mp hzero)
    rw [if_pos hpos]
    exact ⟨endLine_executes hfill hnil, endLine_inside (hs.store hfill.pos_lt 0)⟩

/-- With the beginning of a line in the buffer, the loop ends, and what is executed are the lines of
what is in the buffer and to come. -/
theorem scriptLoop_spec (hD : Delivers exec fd D) {n : ℕ} (hn : rest.length < n) (hs : Inside s) (hd : D rest s.vfs)
    (hfill : Fills run s) :
    ∃ t, scriptLoop exec fd n s = some t ∧ Executes s (scriptLines (run ++ rest)) (lastLine exec t) ∧
      Inside (lastLine exec t) := by
  induction rest generalizing n run s with
  | nil =>
      obtain ⟨n, rfl⟩ := Nat.exists_eq_succ_of_ne_zero (Nat.ne_of_gt hn)
      have hloop : scriptLoop exec fd (n + 1) s = some { s with vfs := (vfsRead fd 1 s.vfs).2 } := by
        rw [scriptLoop]
        rcases hread : vfsRead fd 1 s.vfs with ⟨bytes, vfs⟩
        have hdone := hD.done s.vfs hd
        rw [hread] at hdone
        rcases hdone with rfl | rfl <;> rfl
      rw [List.append_nil, scriptLines_of_run hfill.eol]
      have hfill' : Fills run { s with vfs := (vfsRead fd 1 s.vfs).2 } := ⟨hfill.pos, hfill.line, hfill.eol⟩
      exact ⟨_, hloop, lastLine_spec exec hs hfill'⟩
  | cons c rest ih =>
      obtain ⟨n, rfl⟩ := Nat.exists_eq_succ_of_ne_zero (Nat.ne_of_gt (Nat.lt_of_le_of_lt (Nat.zero_le _) hn))
      rw [List.length_cons] at hn
      obtain ⟨vfs, hread, hd'⟩ := hD.next c rest s.vfs hd
      have hloop : scriptLoop exec fd (n + 1) s = scriptLoop exec fd n (scriptByte exec c { s with vfs := vfs }) := by
        rw [scriptLoop, hread]
      have hs' : Inside { s with vfs := vfs } := hs
      have hfill' : Fills run { s with vfs := vfs } := ⟨hfill.pos, hfill.line, hfill.eol⟩
      rw [hloop]
      cases hc : isEol c with
      | true =>
          obtain ⟨hexec, hinside, hd'', hempty⟩ := scriptByte_eol hD hs' hd' hfill' hc
          obtain ⟨t, ht, hrest, hin⟩ := ih (Nat.lt_of_succ_lt_succ hn) hinside hd'' hempty
          rw [scriptLines_append_cons hfill.eol hc]
          exact ⟨t, ht, hexec.trans hrest, hin⟩
      | false =>
          obtain ⟨hexecs, hvfs, hinside, hfill''⟩ := scriptByte_other exec hs' hfill' hc
          have hd'' : D rest (scriptByte exec c { s with vfs := vfs }).vfs := hvfs ▸ hd'
          obtain ⟨t, ht, ⟨buffers, hbuffers, hall⟩, hin⟩ := ih (Nat.lt_of_succ_lt_succ hn) hinside hd'' hfill''
          rw [hexecs] at hbuffers
          rw [List.append_assoc] at hall
          exact ⟨t, ht, ⟨buffers, hbuffers, hall⟩, hin⟩

end Runs

section FatScript

variable {fd : Fd} {h : Handle} {s t : Vfs} {rest : List UInt8}

theorem vfsRead_holds (hs : Holds fd h s) (size : UInt32) :
    (vfsRead fd size s).1 = (if (fRead s.env.disk size.toNat h.fil h.volume).1 ≠ .ok then none
        else some (fRead s.env.disk size.toNat h.fil h.volume).2.1) ∧
      (vfsRead fd size s).2.world = s.turn.world := by
  obtain ⟨f, file, p, priv, hf, hfile, hops, hp, hpriv, hq, -, -, -, hvol⟩ := hs
  have hf' : s.turn.fdTable fd = some f := hf
  have hfile' : s.turn.files.cell f = some file := hfile
  have hpriv' : s.turn.privates.cell p = some priv := hpriv
  have hq' : s.turn.fils.cell priv.fatFile = some h.fil := hq
  have hvol' : s.turn.volume = h.volume := hvol
  simp only [vfsRead, withFile, hf', hfile', hops, fatRead, withFat, hp, hpriv', hq', hvol']
  split <;> exact ⟨rfl, rfl⟩

/-- The standard output is not a file on the disk. -/
def Quiet (s : Vfs) : Prop := ∀ f file, s.fdTable stdout = some f → s.files.cell f = some file → file.ops ≠ .fat

theorem Quiet.keeps (hq : Quiet s) (hk : Keeps s t) : Quiet t := by
  intro f file hf hfile
  rw [hk.fdTable] at hf
  have hops := hk.ops f
  rw [hfile] at hops
  cases hfile' : s.files.cell f with
  | none =>
      rw [hfile'] at hops
      cases hops
  | some file' =>
      rw [hfile'] at hops
      rw [Option.some.inj hops]
      exact hq f file' hf hfile'

theorem put_quiet (hq : Quiet s) (bytes : List UInt8) : put bytes s = s.turn ∨ put bytes s = s.turn.misused := by
  rw [put, vfsWrite, withFile]
  cases hf : s.turn.fdTable stdout with
  | none => exact .inl rfl
  | some f =>
      dsimp only
      cases hfile : s.turn.files.cell f with
      | none => exact .inr rfl
      | some file =>
          left
          have hops := hq f file hf hfile
          dsimp only
          cases hcase : file.ops with
          | fat => exact absurd hcase hops
          | null | tty | devNull | zero | serial | proc => rfl

/-- On a drive that does not fail, the descriptor of a FAT file has these bytes to come. -/
structure FatDelivers (fd : Fd) (rest : List UInt8) (s : Vfs) : Prop where
  handle : ∃ h, Holds fd h s ∧ h.fil.valid = true ∧ h.fil.err = .ok ∧ h.fil.flag &&& faRead ≠ 0 ∧
    h.fil.fptr.toNat ≤ (h.fil.bytes h.volume).val.length ∧
    rest = (h.fil.bytes h.volume).val.drop h.fil.fptr.toNat
  quiet : Quiet s
  drive : ∀ n, (s.world n).disk.result = .ok

theorem FatDelivers.read (hd : FatDelivers fd rest s) (size : UInt32) :
    (vfsRead fd size s).1 = some (rest.take size.toNat) ∧
      FatDelivers fd (rest.drop size.toNat) (vfsRead fd size s).2 := by
  obtain ⟨⟨h, hs, hvalid, herr, hflag, hle, rfl⟩, hquiet, hdrive⟩ := hd
  have hdisk : s.env.disk.result = .ok := hdrive 0
  have hval : validate h.fil = .ok := by rw [validate, if_pos hvalid, herr]
  have hread : fRead s.env.disk size.toNat h.fil h.volume =
      (.ok, ((h.fil.bytes h.volume).val.drop h.fil.fptr.toNat).take size.toNat, { h.fil with
        fptr := h.fil.fptr + UInt32.ofNat (((h.fil.bytes h.volume).val.drop h.fil.fptr.toNat).take size.toNat).length
        err := .ok }) := by
    rw [fRead, hval, if_neg (not_not.mpr rfl), if_neg hflag, hdisk, if_pos rfl]
  obtain ⟨hbytes, hworld⟩ := vfsRead_holds hs size
  rw [hread, if_neg (not_not.mpr rfl)] at hbytes
  refine ⟨hbytes, ⟨_, (Op.call_refines hs (.read size)).2, ?_⟩, hquiet.keeps (vfsRead_keeps fd size s), ?_⟩
  · have hhandle : (Op.onHandle s.env (.read size) h).2 = { h with
        fil := (fRead s.env.disk size.toNat h.fil h.volume).2.2
        position := h.position + UInt32.ofNat (fRead s.env.disk size.toNat h.fil h.volume).2.1.length } := by
      rw [Op.onHandle, Handle.read, hread]
      rfl
    rw [hhandle, hread]
    have hlen : (((h.fil.bytes h.volume).val.drop h.fil.fptr.toNat).take size.toNat).length ≤
        (h.fil.bytes h.volume).val.length - h.fil.fptr.toNat := by
      rw [List.length_take, List.length_drop]
      exact Nat.min_le_right _ _
    have hptr := fptr_add_toNat hle (h.fil.bytes h.volume).property hlen
    refine ⟨hvalid, rfl, hflag, ?_, ?_⟩
    · change (h.fil.fptr + UInt32.ofNat _).toNat ≤ (h.fil.bytes h.volume).val.length
      rw [hptr]
      omega
    · change _ = (h.fil.bytes h.volume).val.drop (h.fil.fptr + UInt32.ofNat _).toNat
      rw [hptr, List.drop_drop, List.length_take, List.length_drop]
      rcases Nat.le_total size.toNat ((h.fil.bytes h.volume).val.length - h.fil.fptr.toNat) with hin | hpast
      · rw [Nat.min_eq_left hin]
      · rw [Nat.min_eq_right hpast, List.drop_eq_nil_of_le (by omega), List.drop_eq_nil_of_le (by omega)]
  · intro n
    rw [hworld]
    exact hdrive (n + 1)

theorem FatDelivers.put (hd : FatDelivers fd rest s) (bytes : List UInt8) : FatDelivers fd rest (put bytes s) := by
  obtain ⟨hhandle, hquiet, hdrive⟩ := hd
  rcases put_quiet hquiet bytes with heq | heq
  all_goals
    rw [heq]
    exact ⟨hhandle, hquiet, fun n => hdrive (n + 1)⟩

theorem fat_delivers {exec : Exec} (hexec : ∀ rest line s, FatDelivers fd rest s → FatDelivers fd rest (exec line s).2) :
    Delivers exec fd (FatDelivers fd) := by
  refine ⟨?_, ?_, fun rest bytes s hd => hd.put bytes, hexec⟩
  · intro c rest s hd
    obtain ⟨hbytes, hrest⟩ := hd.read 1
    exact ⟨_, Prod.ext hbytes rfl, hrest⟩
  · intro s hd
    exact .inr (hd.read 1).1

theorem opened_fatDelivers {path : Path} {ro : Bool} {data : Bytes} (hfile : s.volume path = .file ro data)
    (ho : FatOpens path oRdonly s) (hs : Holds fd (openedHandle path oRdonly s) t) (hq : Quiet t)
    (hdrive : ∀ n, (t.world n).disk.result = .ok) : FatDelivers fd data.val t := by
  obtain ⟨-, -, hfil⟩ := fOpen_of_ok ho.2
  rw [if_neg (by decide)] at hfil
  obtain ⟨hvol, -⟩ := fOpen_rdonly s.env.open_ path s.volume
  have hbytes : (openedHandle path oRdonly s).fil.bytes (openedHandle path oRdonly s).volume = data := by
    rw [openedHandle, hfil, hvol]
    change (s.volume path).data = data
    rw [hfile]
    rfl
  have hptr : (openedHandle path oRdonly s).fil.fptr = 0 := by
    rw [openedHandle, hfil]
  refine ⟨⟨_, hs, ?_, ?_, ?_, ?_, ?_⟩, hq, hdrive⟩
  · rw [openedHandle, hfil]
  · rw [openedHandle, hfil]
  · rw [openedHandle, hfil]
    change fatMode oRdonly &&& 0x3F &&& faRead ≠ 0
    decide
  · rw [hptr]
    exact Nat.zero_le _
  · rw [hptr, hbytes]
    rfl

/-- A shell without terminals, and a disk with this script alone. -/
def bootShell (script : Bytes) : Vfs :=
  .start (fun path => if path = text "/boot.bat" then .file false script else .none) fun _ => .granting ⟨.ok, 64, fun _ => 0⟩

theorem bootShell_opens (script : Bytes) :
    ∃ fd s, vfsOpen (text "/boot.bat") oRdonly (bootShell script) = (some fd, s) ∧ FatDelivers fd script.val s := by
  have hfile : (bootShell script).volume (text "/boot.bat") = .file false script := by
    change (if text "/boot.bat" = text "/boot.bat" then Entry.file false script else .none) = _
    rw [if_pos rfl]
  have hopens : FatOpens (text "/boot.bat") oRdonly (bootShell script) := by
    refine ⟨rfl, fOpen_ok rfl ?_⟩
    rw [hfile]
    rfl
  rcases open_fat rfl hopens rfl with ⟨hfull, -⟩ | ⟨fd, t, hopen, hholds⟩
  · exact absurd (hfull 3 (by decide)) (by simp [bootShell, Vfs.start])
  · rcases open_cases (text "/boot.bat") oRdonly (bootShell script) with ⟨-, t', hnone, -⟩ | ⟨-, fd', t', hopen', hopened⟩
    · rw [hopen] at hnone
      cases hnone
    · cases hopen.symm.trans hopen'
      refine ⟨fd, t, hopen, opened_fatDelivers hfile hopens hholds ?_ ?_⟩
      · intro f file hf
        rw [hopened.fdTable, Function.update_of_ne (ne_of_std hopened.le (by decide)).symm] at hf
        cases hf
      · intro n
        rw [hopened.world]
        rfl

end FatScript

section Booting

variable {exec : Exec} {fd : Fd} {D : List UInt8 → Vfs → Prop}

/-- For a script that is opened and whose bytes are delivered in order, what is executed are its
lines, each cut off after 255 bytes, and nothing is stored outside the buffer. -/
theorem boot_script_lines {content : List UInt8} {vfs vfs' : Vfs} (hopen : vfsOpen (text "/boot.bat") oRdonly vfs = (some fd, vfs'))
    (hD : Delivers exec fd D) (hd : D content vfs') (garbage : Buffer) {n : ℕ} (hn : content.length < n) :
    ∃ t, runBootScript exec garbage n vfs = some t ∧
      List.Forall₂ (fun buffer line => IsLine buffer (line.take 255)) t.execs (scriptLines content) ∧
      ∀ i ∈ t.stores, i < 256 := by
  have hstart := hD.put content ((text "\n=== Executando /boot.bat ===\n" ++ [0]).take 31) vfs' hd
  have hempty : Fills [] ⟨garbage, 0, [], [], say 31 "\n=== Executando /boot.bat ===\n" vfs'⟩ :=
    ⟨rfl, fun k hk => absurd hk (Nat.not_lt_zero k), fun c hc => absurd hc List.not_mem_nil⟩
  obtain ⟨t, ht, ⟨buffers, hbuffers, hall⟩, hin⟩ := scriptLoop_spec hD hn (fun i hi => absurd hi List.not_mem_nil) hstart hempty
  rw [List.nil_append] at hbuffers hall
  rw [runBootScript, hopen]
  dsimp only
  rw [ht]
  refine ⟨_, rfl, ?_, hin⟩
  rwa [← hbuffers] at hall

/-- A comment, an empty line, and a last line without an end. -/
theorem boot_script_two :
    ∃ t, runBootScript (fun line s => (line, s)) (fun _ => 0) 20 (bootShell ⟨text "# a\r\nls\n\ncd /b", by decide⟩) = some t ∧
      List.Forall₂ (fun buffer line => IsLine buffer (line.take 255)) t.execs [text "ls", text "cd /b"] ∧
      ∀ i ∈ t.stores, i < 256 := by
  obtain ⟨fd, s, hopen, hd⟩ := bootShell_opens ⟨text "# a\r\nls\n\ncd /b", by decide⟩
  have hlines : scriptLines (text "# a\r\nls\n\ncd /b") = [text "ls", text "cd /b"] := by decide
  have hD : Delivers (fun line s => (line, s)) fd (FatDelivers fd) := fat_delivers fun _ _ _ hd => hd
  rw [← hlines]
  exact boot_script_lines hopen hD hd (fun _ => 0) (by decide)

end Booting

end Orion68.BootScript
