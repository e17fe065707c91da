import Orion68.Basic.Listing
import Orion68.Basic.Direct

namespace Orion68.BasicFiles

open Buffers Slices SortedMaps Numerals Runs TinyBasicPlus BasicLines BasicEntering BasicLineStore BasicListing
  BasicDirect

section Source

/-- What `save` gives to the service to be written. -/
def save (s : Store) : List UInt8 := slice s.program 0 s.programEnd

/-- What `fgets` reads into a buffer of 512, call by call: 511 characters at most, and the NL with them. -/
def fgets : Nat → List UInt8 → List UInt8 → List (List UInt8)
  | _, buffer, [] => if buffer = [] then [] else [buffer]
  | room, buffer, c :: input =>
      if c = NL ∨ room = 1 then (buffer ++ [c]) :: fgets 511 [] input else fgets (room - 1) (buffer ++ [c]) input

def toupper (c : UInt8) : UInt8 := if 97 ≤ c ∧ c ≤ 122 then c - 32 else c

/-- `(uint16_t)strtoul(ptr, &ptr, 10)` where a digit stands; a value that is too large is the largest of
the 64-bit host. -/
def strtoul (ptr : List UInt8) : Nat × List UInt8 :=
  (min (value 10 ((ptr.takeWhile isDigit).map fun c => c.toNat - 48)) (2 ^ 64 - 1) % 2 ^ 16, ptr.dropWhile isDigit)

/-- One round of the loop of `main`: `auto_line` and the line that is written, if there is one. -/
def convertLine (autoLine : Nat) (buffer : List UInt8) : Nat × Option Line :=
  let ptr := ignoreBlanks ((buffer.takeWhile (· ≠ 0)).rdropWhile fun c => c = CR ∨ c = NL ∨ c = SPACE)
  match ptr with
  | [] => (autoLine, none)
  | c :: _ =>
      let (lineNum, autoLine, ptr) :=
        if isDigit c then
          let (lineNum, ptr) := strtoul ptr
          (lineNum, (lineNum + 10) % 2 ^ 16, ignoreBlanks ptr)
        else (autoLine, (autoLine + 10) % 2 ^ 16, ptr)
      if ptr = [] then (autoLine, none) else (autoLine, some (lineNum, ptr.map toupper))

/-- The bytes of a line; its lengths are of type `uint8_t`. -/
def writeLine (e : Line) : List UInt8 :=
  let textLen := e.2.length % 256
  let rawTotal := (2 + 1 + textLen + 1) % 256
  let padding := if rawTotal % 2 ≠ 0 then 1 else 0
  let totalLineSize := (rawTotal + padding) % 256
  UInt8.ofNat (e.1 / 256) :: UInt8.ofNat e.1 :: UInt8.ofNat totalLineSize ::
    (e.2.take textLen ++ NL :: List.replicate padding NL)

def convertLines : Nat → List (List UInt8) → Listing
  | _, [] => []
  | autoLine, buffer :: buffers =>
      let (autoLine, e) := convertLine autoLine buffer
      e.toList ++ convertLines autoLine buffers

def linesOf (input : List UInt8) : Listing := convertLines 10 (fgets 511 [] input)

def convert (input : List UInt8) : List UInt8 := (linesOf input).flatMap writeLine

end Source

variable {s : Store} {e : Line} {L : Listing} {l input keys name : List UInt8} {files : List UInt8 → List UInt8}

section Storing

theorem save_eq (h : Represents s L) : save s = encode L := by rw [save, h.ends, h.holds.slice_eq]

theorem fileRead_eq (hlen : l.length < basicRamSize) (s : Store) :
    fileRead l s = ⟨place 0 l s.program, l.length⟩ := by
  rw [fileRead, List.take_of_length_le (Nat.le_sub_one_of_lt hlen)]

theorem represents_fileRead (hsorted : Sorted L) (hproper : ∀ e ∈ L, Proper e)
    (hlen : (encode L).length < basicRamSize) (s : Store) : Represents (fileRead (encode L) s) L := by
  rw [fileRead_eq hlen]
  exact ⟨holds_place 0 _ _, rfl, hsorted, hproper⟩

/-- The line with `LOAD` can be typed, is not moved over itself, and the file ends before it does. -/
structure Loadable (keys name file : List UInt8) (s : Store) : Prop where
  typed : Typeable (variablesBegin - 4 - s.programEnd) [] keys
  fits : s.programEnd + 2 * (edit keys).length + 4 ≤ variablesBegin
  loads : Loads (edit keys) name
  reaches : file.length ≤ s.programEnd + 2 + (edit keys).length

theorem Loadable.loopRound (h : Loadable keys name (files name) s) (fuel : Nat) :
    ∃ u, BasicDirect.loopRound files none (fuel + 1) keys s = some (.prompt, fileRead (files name) u) :=
  loopRound_load h.typed h.fits h.loads h.reaches fuel

/-- When a program has been saved and `LOAD` has come back to the prompt over another memory, the lines that are
typed next do with it what they would have done with the program that was saved. -/
theorem save_load (m : Program) {lines lines' : List (List UInt8)} {s' : Store} (fuel : Nat)
    (ha : Along (fun keys L => some (enterListing (lineOf keys) L)) Accepts (lines ++ lines') [])
    (hr : run typeKeys lines ⟨m, 0⟩ = some s) (hload : Loadable keys name (save s) s') (hfile : files name = save s) :
    ∃ t u t', run typeKeys (lines ++ lines') ⟨m, 0⟩ = some t ∧
      loopRound files none (fuel + 1) keys s' = some (.prompt, u) ∧ run typeKeys lines' u = some t' ∧
      t'.programEnd = t.programEnd ∧ slice t'.program 0 t'.programEnd = slice t.program 0 t.programEnd := by
  have hvb := variablesBegin_le
  obtain ⟨ha, ha'⟩ := (along_append lines lines' []).mp ha
  obtain ⟨v, hrun, h, hroom⟩ := run_lines (represents_empty m) (by decide) ha
  cases hr.symm.trans hrun
  replace ha' := ha' _ (run_some (fun keys L => enterListing (lineOf keys) L) lines [])
  generalize lines.foldl (fun L keys => enterListing (lineOf keys) L) [] = L at h hroom ha'
  rw [← hfile] at hload
  obtain ⟨u, hback⟩ := hload.loopRound fuel
  have hread : Represents (fileRead (files name) u) L := by
    rw [hfile, save_eq h]
    exact represents_fileRead h.sorted h.proper (by omega) u
  obtain ⟨t, ht, hrep, -⟩ := run_lines h hroom ha'
  obtain ⟨t', ht', hrep', -⟩ := run_lines hread hroom ha'
  refine ⟨t, _, t', by rw [run_append_of_run hr, ht], hback, ht', by rw [hrep'.ends, hrep.ends], ?_⟩
  rw [hrep'.ends, hrep.ends, hrep'.holds.slice_eq, hrep.holds.slice_eq]

/-- `10 new` goes behind the loaded line 5, which `5` deletes. -/
def laterLines : List (List UInt8) := [[49, 48, 32, 110, 101, 119], [53]]

theorem save_load_five : ∃ s t u t', run typeKeys threeLines ⟨fun _ => 0, 0⟩ = some s ∧
    run typeKeys (threeLines ++ laterLines) ⟨fun _ => 0, 0⟩ = some t ∧
    loopRound (fileA (save s)) none 1 loadA ⟨fun _ => 0xff, 7⟩ = some (.prompt, u) ∧
    run typeKeys laterLines u = some t' ∧ t'.programEnd = t.programEnd ∧
    slice t'.program 0 t'.programEnd = slice t.program 0 t.programEnd := by
  have hall : Along (fun keys L => some (enterListing (lineOf keys) L)) Accepts (threeLines ++ laterLines) [] := by decide
  obtain ⟨s, hrun, h, -⟩ := run_lines (represents_empty fun _ => 0) (by decide) ((along_append _ _ _).mp hall).1
  have hload : Loadable loadA [65] (save s) ⟨fun _ => 0xff, 7⟩ :=
    { typed := by decide
      fits := by decide
      loads := loads_loadA
      reaches := by rw [save_eq h]; decide }
  have hfile : fileA (save s) [65] = save s := if_pos rfl
  obtain ⟨t, u, t', h⟩ := save_load _ 0 hall hrun hload hfile
  exact ⟨s, t, u, t', hrun, h⟩

end Storing

section Lines

theorem writeLine_eq (h : e.2.length ≤ 250) : writeLine e = record e := by
  have hlen : e.2.length % 256 = e.2.length := Nat.mod_eq_of_lt (by omega)
  have hraw : (2 + 1 + e.2.length + 1) % 256 = e.2.length + 4 := by omega
  rw [writeLine, record, lineSize, padding, hlen, hraw, List.take_length]
  by_cases heven : e.2.length % 2 = 0
  · rw [if_pos heven, if_neg (by omega), Nat.mod_eq_of_lt (by omega)]
    rfl
  · rw [if_neg heven, if_pos (by omega), Nat.mod_eq_of_lt (by omega)]
    rfl

theorem toNat_upper {c : UInt8} (h : 97 ≤ c ∧ c ≤ 122) :
    97 ≤ c.toNat ∧ c.toNat ≤ 122 ∧ (c - 32).toNat = c.toNat - 32 := by
  have hle : 97 ≤ c.toNat := UInt8.le_iff_toNat_le.mp h.1
  have hge : c.toNat ≤ 122 := UInt8.le_iff_toNat_le.mp h.2
  refine ⟨hle, hge, ?_⟩
  rw [UInt8.toNat_sub]
  change (2 ^ 8 - 32 + c.toNat) % 2 ^ 8 = _
  omega

theorem toupper_upper (c : UInt8) : ¬ (97 ≤ toupper c ∧ toupper c ≤ 122) := by
  rw [toupper]
  split
  next h =>
    obtain ⟨hle, hge, hsub⟩ := toNat_upper h
    intro hlow
    have := (toNat_upper hlow).1
    omega
  next h => exact h

theorem isBlank_toupper {c : UInt8} (h : isBlank c = false) : isBlank (toupper c) = false := by
  rw [toupper]
  split
  next hc =>
    obtain ⟨hle, hge, hsub⟩ := toNat_upper hc
    simp only [isBlank, decide_eq_false_iff_not]
    rintro (he | he)
    · have := congrArg UInt8.toNat he
      rw [hsub] at this
      change c.toNat - 32 = 32 at this
      omega
    · have := congrArg UInt8.toNat he
      rw [hsub] at this
      change c.toNat - 32 = 9 at this
      omega
  next => exact h

theorem toUppercase_of_upper (quote : UInt8) (h : ∀ c ∈ l, ¬ (97 ≤ c ∧ c ≤ 122)) : toUppercase quote l = l := by
  induction l generalizing quote with
  | nil => rfl
  | cons c l ih =>
      obtain ⟨hc, hl⟩ := List.forall_mem_cons.mp h
      rw [toUppercase, ih _ hl, ih _ hl, ih _ hl, if_neg (fun hup : quote = 0 ∧ 97 ≤ c ∧ c ≤ 122 => hc hup.2)]
      split_ifs <;> rfl

theorem convertLine_spec {autoLine : Nat} {buffer : List UInt8} (h : (convertLine autoLine buffer).2 = some e) :
    ∃ t : List UInt8, t ≠ [] ∧ (∀ c ∈ t.head?, isBlank c = false) ∧ e.2 = t.map toupper := by
  rw [convertLine] at h
  generalize hptr : ignoreBlanks ((buffer.takeWhile (· ≠ 0)).rdropWhile fun c => c = CR ∨ c = NL ∨ c = SPACE) = ptr at h
  have hhead : ∀ c ∈ ptr.head?, isBlank c = false := hptr ▸ head_ignoreBlanks _
  cases ptr with
  | nil => cases h
  | cons c ptr =>
      simp only at h
      by_cases hc : isDigit c = true
      · rw [if_pos hc] at h
        simp only at h
        split at h
        next => cases h
        next hne =>
          cases h
          exact ⟨_, hne, head_ignoreBlanks _, rfl⟩
      · rw [if_neg hc] at h
        simp only at h
        rw [if_neg (List.cons_ne_nil c ptr)] at h
        cases h
        exact ⟨c :: ptr, List.cons_ne_nil c ptr, hhead, rfl⟩

theorem convertLines_spec {autoLine : Nat} {buffers : List (List UInt8)} (h : e ∈ convertLines autoLine buffers) :
    e.2 ≠ [] ∧ (∀ c ∈ e.2.head?, isBlank c = false) ∧ toUppercase 0 e.2 = e.2 := by
  induction buffers generalizing autoLine with
  | nil => cases h
  | cons buffer buffers ih =>
      rw [convertLines] at h
      rcases List.mem_append.mp h with h | h
      · obtain ⟨t, hne, hhead, ht⟩ := convertLine_spec (Option.mem_toList.mp h)
        rw [ht]
        refine ⟨mt List.map_eq_nil_iff.mp hne, fun c hc => ?_, toUppercase_of_upper 0 fun c hc => ?_⟩
        · rw [List.head?_map] at hc
          obtain ⟨d, hd, rfl⟩ := Option.map_eq_some_iff.mp hc
          exact isBlank_toupper (hhead d hd)
        · obtain ⟨d, -, rfl⟩ := List.mem_map.mp hc
          exact toupper_upper d
      · exact ih h

end Lines

section Programs

/-- A text that the converter makes a program of. -/
structure Convertible (input : List UInt8) : Prop where
  ascending : Sorted (linesOf input)
  numbers : ∀ e ∈ linesOf input, 0 < e.1 ∧ e.1 < 65530
  plain : ∀ e ∈ linesOf input, ∀ c ∈ e.2, Plain c
  short : ∀ e ∈ linesOf input, e.2.length ≤ 250
  fits : (convert input).length + 6 ≤ variablesBegin

theorem Convertible.proper (h : Convertible input) : ∀ e ∈ linesOf input, Proper e := fun e he =>
  have hline := convertLines_spec he
  ⟨h.numbers e he, hline.1, h.plain e he, hline.2.1, hline.2.2, h.short e he⟩

theorem convert_eq (h : Convertible input) : convert input = encode (linesOf input) :=
  List.flatMap_congr fun e he => writeLine_eq (h.short e he)

/-- A program that the converter has made of a text is listed with the numbers and lines of the text once `LOAD`
has come back to the prompt, and it is the one that typing them makes, byte for byte. -/
theorem convert_load (h : Convertible input) (hload : Loadable keys name (convert input) s) (fuel : Nat)
    (hfile : files name = convert input) (m : Program) :
    (∃ u, loopRound files none (fuel + 1) keys s = some (.prompt, u) ∧ Represents u (linesOf input) ∧
      ∃ s', list 0 basicRamSize u = some ((linesOf input).flatMap fun e => shown e ++ [NL], s')) ∧
      ∃ s', run typeKeys ((linesOf input).map shown) ⟨m, 0⟩ = some s' ∧ s'.programEnd = (convert input).length ∧
        slice s'.program 0 s'.programEnd = convert input := by
  have hvb := variablesBegin_le
  have hfits := h.fits
  have henc := convert_eq h
  rw [← hfile] at hload
  obtain ⟨u, hback⟩ := hload.loopRound fuel
  have hrep : Represents (fileRead (files name) u) (linesOf input) := by
    rw [hfile]
    rw [henc] at hfits ⊢
    exact represents_fileRead h.ascending h.proper (by omega) u
  obtain ⟨ha, hfold⟩ := along_shown (M := []) (L := linesOf input) h.ascending h.proper
    (by rw [List.nil_append, ← henc]; exact hfits)
  obtain ⟨s₂, hrun, hrep₂, -⟩ := run_lines (represents_empty m) (by decide) ha
  rw [hfold, List.nil_append] at hrep₂
  refine ⟨⟨_, hback, hrep, list_all hrep (by rw [← henc]; omega)⟩, s₂, hrun, by rw [hrep₂.ends, henc], ?_⟩
  rw [hrep₂.ends, hrep₂.holds.slice_eq, henc]

/-- `10 print` and, with a carriage return and no number, `  go`. -/
def twoLines : List UInt8 := [49, 48, 32, 112, 114, 105, 110, 116, 10, 32, 32, 103, 111, 13, 10]

theorem convert_load_two : ∃ u s',
    loopRound (fileA (convert twoLines)) none 1 loadA ⟨fun _ => 0xff, 100⟩ = some (.prompt, u) ∧
    list 0 basicRamSize u = some ([49, 48, 32, 80, 82, 73, 78, 84, 10, 50, 48, 32, 71, 79, 10], s') := by
  have hlines : linesOf twoLines = [(10, [80, 82, 73, 78, 84]), (20, [71, 79])] := by decide
  have h : Convertible twoLines :=
    { ascending := by rw [hlines, Sorted]; decide
      numbers := by simp [hlines]
      plain := by rw [hlines]; decide +kernel
      short := by simp [hlines]
      fits := by rw [convert, hlines]; decide }
  have hload : Loadable loadA [65] (convert twoLines) ⟨fun _ => 0xff, 100⟩ :=
    { typed := by decide
      fits := by decide
      loads := loads_loadA
      reaches := by rw [convert, hlines]; decide }
  have hfile : fileA (convert twoLines) [65] = convert twoLines := if_pos rfl
  obtain ⟨u, hback, -, s', hlist⟩ := (convert_load h hload 0 hfile fun _ => 0).1
  rw [hlines] at hlist
  exact ⟨u, s', hback, hlist⟩

end Programs

section Printed

/-- A text that the converter leaves as it is. -/
structure Kept (t : List UInt8) : Prop where
  chars : ∀ c ∈ t, c ≠ 0 ∧ ¬ (97 ≤ c ∧ c ≤ 122)
  last : ∀ c ∈ t.getLast?, c ≠ SPACE

theorem fgets_line {room : Nat} {buffer : List UInt8} (hline : ∀ c ∈ l, c ≠ NL) (hlen : l.length < room)
    (input : List UInt8) : fgets room buffer (l ++ NL :: input) = (buffer ++ l ++ [NL]) :: fgets 511 [] input := by
  induction l generalizing room buffer with
  | nil => rw [List.nil_append, List.append_nil, fgets, if_pos (.inl rfl)]
  | cons c l ih =>
      obtain ⟨hc, hline⟩ := List.forall_mem_cons.mp hline
      rw [List.length_cons] at hlen
      rw [List.cons_append, fgets, if_neg (not_or.mpr ⟨hc, by omega⟩), ih hline (by omega), List.append_assoc buffer [c] l]
      rfl

theorem strtoul_digits {n : Nat} (hn : n < 2 ^ 16) (t : List UInt8) :
    strtoul (digits n ++ SPACE :: t) = (n, SPACE :: t) := by
  have hspace : ¬ isDigit SPACE = true := by decide
  have hdig : ∀ c ∈ digits n, isDigit c = true := fun c hc => isDigit_digits hc
  have hnum : (digits n).map (fun c => c.toNat - 48) = numeral 10 n := by
    rw [digits, List.map_map]
    refine (List.map_congr_left fun d hd => ?_).trans (List.map_id _)
    rw [Function.comp, toNat_digit (numeral_lt (by decide) d hd)]
    exact Nat.add_sub_cancel d 48
  rw [strtoul, List.takeWhile_append_of_pos hdig, List.dropWhile_append_of_pos hdig, List.takeWhile_cons_of_neg hspace,
    List.dropWhile_cons_of_neg hspace, List.append_nil, hnum, value_numeral]
  refine Prod.ext ?_ rfl
  change min n (2 ^ 64 - 1) % 2 ^ 16 = n
  omega

theorem toupper_of_upper {c : UInt8} (h : ¬ (97 ≤ c ∧ c ≤ 122)) : toupper c = c := if_neg h

theorem convertLine_shown (h : Proper e) (hk : Kept e.2) (autoLine : Nat) :
    convertLine autoLine (shown e ++ [NL]) = ((e.1 + 10) % 2 ^ 16, some e) := by
  have hnz : ∀ c ∈ shown e ++ [NL], decide (c ≠ 0) = true := by
    refine List.forall_mem_append.mpr ⟨List.forall_mem_append.mpr ⟨fun c hc => ?_, ?_⟩,
      List.forall_mem_singleton.mpr rfl⟩
    · have hdig := isDigit_digits hc
      refine decide_eq_true ?_
      rintro rfl
      cases hdig
    · exact List.forall_mem_cons.mpr ⟨by decide, fun c hc => decide_eq_true (hk.chars c hc).1⟩
  have hstrip : (shown e ++ [NL]).rdropWhile (fun c => c = CR ∨ c = NL ∨ c = SPACE) = shown e := by
    rw [List.rdropWhile_concat_pos _ _ _ (by decide), List.rdropWhile_eq_self_iff]
    intro hne
    have hlast : (shown e).getLast hne = e.2.getLast h.text :=
      (List.getLast_append_of_ne_nil hne (List.cons_ne_nil SPACE e.2)).trans (List.getLast_cons h.text)
    have hplain := h.plain _ (List.getLast_mem h.text)
    rw [hlast, decide_eq_true_eq]
    rintro (hc | hc | hc)
    · exact hplain.2.1 hc
    · exact hplain.1 hc
    · exact hk.last _ (List.getLast?_eq_getLast_of_ne_nil h.text) hc
  obtain ⟨d, l, hd, hdig⟩ := shown_eq_cons e
  have hnum := h.number
  have hstr : strtoul (d :: l) = (e.1, SPACE :: e.2) := by rw [← hd, shown, strtoul_digits (by omega)]
  have hblank : ignoreBlanks (SPACE :: e.2) = e.2 := ignoreBlanks_of_head h.starts
  have hup : e.2.map toupper = e.2 :=
    (List.map_congr_left fun c hc => toupper_of_upper (hk.chars c hc).2).trans (List.map_id _)
  rw [convertLine, List.takeWhile_eq_self_iff.mpr hnz, hstrip, ignoreBlanks_shown, hd]
  simp only [hdig, if_true, hstr, hblank, if_neg h.text, hup]

theorem linesOf_shown (hproper : ∀ e ∈ L, Proper e) (hkept : ∀ e ∈ L, Kept e.2) :
    linesOf (L.flatMap fun e => shown e ++ [NL]) = L := by
  rw [linesOf]
  generalize 10 = autoLine
  induction L generalizing autoLine with
  | nil => rfl
  | cons e L ih =>
      obtain ⟨he, hproper⟩ := List.forall_mem_cons.mp hproper
      obtain ⟨hk, hkept⟩ := List.forall_mem_cons.mp hkept
      have hlen : (shown e).length < 511 := by
        have hdig := length_digits_le he.number.2
        have htext := he.length
        rw [shown, List.length_append, List.length_cons]
        omega
      rw [List.flatMap_cons, List.append_assoc, List.singleton_append,
        fgets_line (fun c hc => (plain_shown he c hc).1) hlen, convertLines, List.nil_append, convertLine_shown he hk]
      change e :: convertLines ((e.1 + 10) % 2 ^ 16) _ = e :: L
      rw [ih hproper hkept]

/-- What `LIST` prints, given to the converter, becomes the file that `save` writes. -/
theorem list_convert (m : Program) {lines : List (List UInt8)}
    (ha : Along (fun keys L => some (enterListing (lineOf keys) L)) Accepts lines [])
    (hr : run typeKeys lines ⟨m, 0⟩ = some s)
    (hkept : ∀ n t, lines.foldl assign (fun _ => none) n = some t → Kept t) :
    ∃ out s', list 0 basicRamSize s = some (out, s') ∧ convert out = save s := by
  obtain ⟨t, hrun, h, hroom⟩ := run_lines (represents_empty m) (by decide) ha
  cases hr.symm.trans hrun
  have hlookup := lookup_lines ha
  generalize lines.foldl (fun L keys => enterListing (lineOf keys) L) [] = L at h hroom hlookup
  have hkept' : ∀ e ∈ L, Kept e.2 := fun e he => hkept e.1 e.2 (hlookup ▸ h.sorted.lookup_eq he)
  obtain ⟨s', hlist⟩ := list_all h hroom
  refine ⟨_, s', hlist, ?_⟩
  rw [save_eq h, convert, linesOf_shown h.proper hkept']
  exact List.flatMap_congr fun e he => writeLine_eq (h.proper e he).length

/-- `10 let a`, `30 new`, `20 ?"OK"`, `30` and `5 rem`. -/
def fiveLines : List (List UInt8) :=
  [[49, 48, 32, 108, 101, 116, 32, 97], [51, 48, 32, 110, 101, 119], [50, 48, 32, 63, 34, 79, 75, 34], [51, 48],
    [53, 32, 114, 101, 109]]

theorem list_convert_five : ∃ s out s', run typeKeys fiveLines ⟨fun _ => 0, 0⟩ = some s ∧
    list 0 basicRamSize s = some (out, s') ∧ convert out = save s := by
  have ha : Along (fun keys L => some (enterListing (lineOf keys) L)) Accepts fiveLines [] := by decide
  have hprogram : fiveLines.foldl (fun L keys => enterListing (lineOf keys) L) [] =
      [(5, [82, 69, 77]), (10, [76, 69, 84, 32, 65]), (20, [63, 34, 79, 75, 34])] := by decide
  obtain ⟨s, hrun, -⟩ := run_lines (represents_empty fun _ => 0) (by decide) ha
  obtain ⟨out, s', h⟩ := list_convert _ ha hrun fun n t ht => by
    have hmem : (n, t) ∈ [(5, [82, 69, 77]), (10, [76, 69, 84, 32, 65]), (20, [63, 34, 79, 75, 34])] :=
      hprogram ▸ mem_of_lookup ((congrFun (lookup_lines ha) n).trans ht)
    have hkept : ∀ e ∈ ([(5, [82, 69, 77]), (10, [76, 69, 84, 32, 65]), (20, [63, 34, 79, 75, 34])] : Listing),
        (∀ c ∈ e.2, c ≠ 0 ∧ ¬ (97 ≤ c ∧ c ≤ 122)) ∧ ∀ c ∈ e.2.getLast?, c ≠ SPACE := by decide +kernel
    exact ⟨(hkept _ hmem).1, (hkept _ hmem).2⟩
  exact ⟨s, out, s', hrun, h⟩

end Printed

end Orion68.BasicFiles
