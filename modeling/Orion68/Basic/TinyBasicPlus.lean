import Orion68.Lib.Slices

namespace Orion68.TinyBasicPlus

open Copies Buffers Slices

abbrev BELL : UInt8 := 8
abbrev CTRLH : UInt8 := 8
abbrev TAB : UInt8 := 9
abbrev NL : UInt8 := 10
abbrev CR : UInt8 := 13
abbrev ESC : UInt8 := 27
abbrev SPACE : UInt8 := 32
abbrev DQUOTE : UInt8 := 34
abbrev SQUOTE : UInt8 := 39

def basicRamSize : Nat := 64 * 1024

def alignUp (x : Nat) : Nat := (x + 1) / 2 * 2

def alignDown (x : Nat) : Nat := x / 2 * 2

/-- Five frames of 14 bytes. Positions count from `program`, which lies at an even address. -/
def stackLimit : Nat := alignDown (basicRamSize - 14 * 5)

def variablesBegin : Nat := alignDown (stackLimit - 27 * 2)

abbrev Program := Nat → UInt8

structure Store where
  program : Program
  programEnd : Nat

/-- What is in the program memory from a position on. Where `txtpos` only moves ahead it is taken
for this text. -/
def text (m : Program) (p : Nat) : List UInt8 := slice m p (basicRamSize - p)

def position (t : List UInt8) : Nat := basicRamSize - t.length

section Typing

/-- The keys up to the end of the line: whether it was ESC that ended it, the keys that follow, what
is shown, and the memory. There is nothing when the end is still to come. -/
def getlnFrom (programEnd : Nat) : Nat → List UInt8 → Program → Option (Bool × List UInt8 × List UInt8 × Program)
  | _, [], _ => none
  | txtpos, c :: cs, m =>
      if c = ESC then some (true, cs, [], m)
      else if c = NL ∨ c = CR then some (false, cs, [NL], Function.update m txtpos NL)
      else if c = CTRLH then
        if txtpos = programEnd then getlnFrom programEnd txtpos cs m
        else (getlnFrom programEnd (txtpos - 1) cs m).map fun (e, r, out, m) => (e, r, CTRLH :: out, m)
      else if txtpos = variablesBegin - 2 then
        (getlnFrom programEnd txtpos cs m).map fun (e, r, out, m) => (e, r, BELL :: out, m)
      else
        (getlnFrom programEnd (txtpos + 1) cs (Function.update m txtpos c)).map fun (e, r, out, m) => (e, r, c :: out, m)

def getln (prompt : UInt8) (keys : List UInt8) (s : Store) : Option (Bool × List UInt8 × List UInt8 × Program) :=
  (getlnFrom s.programEnd (s.programEnd + 2) keys s.program).map fun (e, r, out, m) => (e, r, prompt :: out, m)

/-- A quote ends where its own character comes again; the other one takes its place. -/
def toUppercase : UInt8 → List UInt8 → List UInt8
  | _, [] => []
  | quote, c :: cs =>
      if c = quote then c :: toUppercase 0 cs
      else if c = DQUOTE ∨ c = SQUOTE then c :: toUppercase c cs
      else if quote = 0 ∧ 97 ≤ c ∧ c ≤ 122 then (c + 65 - 97) :: toUppercase quote cs
      else c :: toUppercase quote cs

/-- `toUppercaseBuffer`, for a line of `n` characters. -/
def toUppercaseBuffer (n : Nat) (s : Store) : Store :=
  { s with program := place (s.programEnd + 2) (toUppercase 0 (slice s.program (s.programEnd + 2) n)) s.program }

end Typing

section Scanning

def isBlank (c : UInt8) : Bool := c = SPACE ∨ c = TAB

def isDigit (c : UInt8) : Bool := 48 ≤ c ∧ c ≤ 57

def ignoreBlanks (t : List UInt8) : List UInt8 := t.dropWhile isBlank

def testnumFrom (num : Nat) : List UInt8 → Nat × List UInt8
  | [] => (num, [])
  | c :: t =>
      if isDigit c then
        if 0xffff / 10 ≤ num then (0xffff, c :: t) else testnumFrom (num * 10 + (c.toNat - 48)) t
      else (num, c :: t)

def testnum (t : List UInt8) : Nat × List UInt8 := testnumFrom 0 (ignoreBlanks t)

end Scanning

section Lines

/-- The `LINENUM` at a position. -/
def lineNumber (m : Program) (p : Nat) : Nat := (m p).toNat * 256 + (m (p + 1)).toNat

/-- A line of length 0 is never left. -/
def findlineFrom (linenum : Nat) (s : Store) : Nat → Nat → Option Nat
  | 0, _ => none
  | fuel + 1, line =>
      if line = s.programEnd then some line
      else if linenum ≤ lineNumber s.program line then some line
      else findlineFrom linenum s fuel (line + (s.program (line + 2)).toNat)

def findline (linenum : Nat) (s : Store) : Option Nat := findlineFrom linenum s (basicRamSize + 1) 0

/-- The line with its NL goes to the end of the free memory. -/
def moveToEnd (n : Nat) (s : Store) : Store :=
  { s with program := descending 1 (n + 1) (variablesBegin - (n + 1)) (s.programEnd + 2) s.program }

/-- Puts the header before the text: where the line starts, `linelen`, and the memory. As `linelen` is
an `unsigned char`, no end is found of a text of more than 255 characters. -/
def addHeader (linenum : Nat) (t : List UInt8) (m : Program) : Option (Nat × Nat × Program) :=
  (t.idxOf? NL).bind fun k =>
    if k < 256 then
      let linelen := (k + 1 + 3) % 256
      let txtpos := position t - 3
      let (txtpos, linelen, m) :=
        if alignDown txtpos ≠ txtpos then
          let txtpos := txtpos - 1
          let linelen := (linelen + 1) % 256
          (txtpos, linelen, ascending 1 (linelen - 1 - 3) (txtpos + 3) (txtpos + 4) m)
        else (txtpos, linelen, m)
      let m := Function.update m txtpos (UInt8.ofNat (linenum / 256))
      let m := Function.update m (txtpos + 1) (UInt8.ofNat linenum)
      let m := Function.update m (txtpos + 2) (UInt8.ofNat linelen)
      some (txtpos, linelen, m)
    else none

/-- A length that leads beyond the program makes `tomove` wrap. -/
def deleteLine (linenum start : Nat) (s : Store) : Option Store :=
  if start ≠ s.programEnd ∧ lineNumber s.program start = linenum then
    let next := start + (s.program (start + 2)).toNat
    if next ≤ s.programEnd then
      let tomove := s.programEnd - next
      some ⟨ascending 1 tomove start next s.program, start + tomove⟩
    else none
  else some s

/-- `Make room for the new line, either all in one hit or lots of little shuffles`: without any room
there is no end to it. -/
def makeRoom : Nat → Nat → Nat → Nat → Store → Option Store
  | _, _, _, 0, s => some s
  | 0, _, _, _ + 1, _ => none
  | fuel + 1, start, txtpos, linelen + 1, s =>
      let spaceToMake :=
        if s.programEnd ≤ txtpos then min (txtpos - s.programEnd) (linelen + 1) else linelen + 1
      let newEnd := s.programEnd + spaceToMake
      let m := descending 1 (s.programEnd - start) (start + spaceToMake) start s.program
      let m := ascending 1 spaceToMake start txtpos m
      makeRoom fuel (start + spaceToMake) (txtpos + spaceToMake) (linelen + 1 - spaceToMake) ⟨m, newEnd⟩

/-- The line gets its header and is merged into the program; without a text it was just a delete. -/
def storeLine (linenum : Nat) (t : List UInt8) (s : Store) : Option Store :=
  (addHeader linenum t s.program).bind fun (txtpos, linelen, m) =>
    let s := { s with program := m }
    (findline linenum s).bind fun start =>
      (deleteLine linenum start s).bind fun s =>
        if s.program (txtpos + 3) = NL then some s else makeRoom 256 start txtpos linelen s

inductive Entry
  | direct
  | qhow
  | prompt
  deriving DecidableEq

/-- What `loop` does with the line behind the program, up to where it goes on with `direct`, `qhow` or
`prompt`. -/
def enterLine (s : Store) : Option (Entry × Store) :=
  ((text s.program (s.programEnd + 2)).idxOf? NL).bind fun n =>
    let s := moveToEnd n (toUppercaseBuffer n s)
    let (linenum, t) := testnum (text s.program (variablesBegin - (n + 1)))
    let t := ignoreBlanks t
    if linenum = 0 then some (.direct, s)
    else if linenum = 0xffff then some (.qhow, s)
    else (storeLine linenum t s).map fun s => (.prompt, s)

/-- One round of `loop` from `prompt` on: nothing is left to do after ESC. -/
def typeLine (keys : List UInt8) (s : Store) : Option (Option Entry × Store) :=
  (getln 62 keys s).bind fun (exit, _, _, m) =>
    if exit then some (none, { s with program := m })
    else (enterLine { s with program := m }).map fun (e, s) => (some e, s)

end Lines

section Listing

/-- `printnum` puts the digits on the stack below `sp` and takes them off again. -/
def pushDigits : Nat → Nat → Nat → Program → Option (Nat × Program)
  | 0, _, _, _ => none
  | fuel + 1, num, sp, m =>
      let sp := sp - 1
      let m := Function.update m sp (UInt8.ofNat (num % 10 + 48))
      if 0 < num / 10 then pushDigits fuel (num / 10) sp m else some (sp, m)

/-- For a number that is not negative; an `int` has ten digits at most. -/
def printnum (num sp : Nat) (m : Program) : Option (List UInt8 × Program) :=
  (pushDigits 10 num sp m).map fun (p, m) => (slice m p (sp - p), m)

/-- What is printed of the line at `p`, where the next one is, and the memory. -/
def printline (sp p : Nat) (m : Program) : Option (List UInt8 × Nat × Program) :=
  (printnum (lineNumber m p) sp m).bind fun (number, m) =>
    ((text m (p + 3)).idxOf? NL).map fun n =>
      let p' := p + 3 + n + 1
      (number ++ SPACE :: slice m (p + 3) n ++ [NL], alignUp p', m)

def printlines (sp : Nat) : Nat → Nat → Store → Option (List UInt8 × Store)
  | 0, _, _ => none
  | fuel + 1, p, s =>
      if p = s.programEnd then some ([], s)
      else
        (printline sp p s.program).bind fun (line, next, m) =>
          (printlines sp fuel next { s with program := m }).map fun (out, s) => (line ++ out, s)

/-- `list`, for a line number that was read. -/
def list (linenum sp : Nat) (s : Store) : Option (List UInt8 × Store) :=
  (findline linenum s).bind fun p => printlines sp (basicRamSize + 1) p s

end Listing

end Orion68.TinyBasicPlus
