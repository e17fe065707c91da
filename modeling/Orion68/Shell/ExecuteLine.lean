import Orion68.Libc.Strings
import Orion68.Shell.Vfs

namespace Orion68.Shell

open Libc FatFs

section Parsing

def space : UInt8 := 0x20

def cString (s : List UInt8) : List UInt8 := s.takeWhile (· ≠ 0)

/-- A file name without the blanks around it; its first byte is never taken off at the end. -/
def trimmed (s : List UInt8) : List UInt8 :=
  match s.dropWhile (· = space) with
  | [] => []
  | c :: s => c :: s.rdropWhile (· = space)

/-- Two bytes on. From the last byte of the line this leads past its end, to what the buffer held
before. -/
def afterTwo (stale : List UInt8) : List UInt8 → List UInt8
  | _ :: _ :: rest => rest
  | _ => cString stale

/-- The output file with the flag for its mode, and what is left of the line. -/
def parseOutput (stale line : List UInt8) : Option (Path × UInt32) × List UInt8 :=
  match strstr line (text ">>") with
  | some (before, found) => (some (trimmed (afterTwo stale found), oWronly ||| oAppend), before)
  | none =>
      match strstr line (text ">") with
      | some (before, found) =>
          if found.tail.head? ≠ some 0x3E then (some (trimmed found.tail, oWronly ||| oTrunc), before)
          else (none, line)
      | none => (none, line)

def parseInput (line : List UInt8) : Option Path × List UInt8 :=
  match strstr line (text "<") with
  | some (before, found) =>
      if found.tail.head? ≠ some 0x3C then (some (trimmed found.tail), before) else (none, line)
  | none => (none, line)

def parseArgs : Nat → List UInt8 → List Path
  | 0, _ => []
  | n + 1, s =>
      match strtok [space] s with
      | none => []
      | some (token, rest) => token :: parseArgs n rest

inductive Request
  | blank
  | heredoc
  | command (input : Option Path) (args : List Path) (output : Option (Path × UInt32))

/-- What a line asks for; `stale` is what the copy of the line has behind its end. -/
def parseLine (stale line : List UInt8) : Request :=
  let line := ((cString line).dropWhile (· = space)).takeWhile (· ≠ 0x0A)
  let line := line.takeWhile (· ≠ 0x0D)
  if line = [] ∨ line.head? = some 0x23 then .blank
  else if (strstr line (text "<<")).isSome then .heredoc
  else
    let output := parseOutput stale line
    let input := parseInput output.2
    .command input.1 (parseArgs 16 (input.2.dropWhile (· = space))) output.1

end Parsing

/-- A line, and what decides about it besides the VFS: what lies behind its copy, how often a loop
may read, the directory that is listed, the drive when one is made, the entry that is found for the
command, and the program that is loaded. -/
structure Input where
  line : List UInt8
  stale : List UInt8
  rounds : Nat
  dir : Option (List (Path × Bool))
  disk : Disk
  search : Option (Path × Bool)
  program : Nat → List Path → Vfs → Vfs

def Input.typed (line : String) : Input :=
  ⟨text line, [], 0, none, ⟨.ok, 0, fun _ => 0⟩, none, fun _ _ s => s⟩

section Commands

def put (bytes : List UInt8) (s : Vfs) : Vfs := (vfsWrite stdout bytes s).2

/-- The first `n` bytes of a literal, which ends in a null byte. -/
def say (n : Nat) (message : String) : Vfs → Vfs := put ((text message ++ [0]).take n)

/-- `vfs_read` into a buffer of 128 bytes and `vfs_write`, until nothing is read. -/
def copyOut (fd : Fd) : Nat → Vfs → Option Vfs
  | 0, _ => none
  | n + 1, s =>
      let r := vfsRead fd 128 s
      match r.1 with
      | some (b :: bs) => copyOut fd n (put (b :: bs) r.2)
      | _ => some r.2

inductive Command
  | help
  | echo
  | cat
  | ls
  | cd
  | mkdir
  | reboot
  | shutdown
  | meminfo
  | clear
  | exit

def commands : List (String × Command) :=
  [("help", .help), ("echo", .echo), ("cat", .cat), ("ls", .ls), ("cd", .cd), ("mkdir", .mkdir), ("reboot", .reboot),
    ("shutdown", .shutdown), ("meminfo", .meminfo), ("clear", .clear), ("exit", .exit)]

def cmdExitShell : Int := 99

def cmdHelp (s : Vfs) : Int × Vfs :=
  (0, (commands.map Prod.fst).foldl (fun s name => say 1 "\n" (put (text name) (say 2 "  " s)))
    (say 23 "Comandos disponiveis:\n" s))

def echoArgs : List Path → Vfs → Vfs
  | [], s => s
  | [a], s => put a s
  | a :: as, s => echoArgs as (say 1 " " (put a s))

def cmdEcho (args : List Path) (s : Vfs) : Int × Vfs := (0, say 1 "\n" (echoArgs args.tail s))

/-- What `cmd_cat` and `cmd_meminfo` do with an open file. -/
def showFile (rounds : Nat) (fd : Fd) (s : Vfs) : Option (Int × Vfs) :=
  (copyOut fd rounds s).map fun s => (0, (vfsClose fd s).2)

def cmdCat (i : Input) (args : List Path) (s : Vfs) : Option (Int × Vfs) :=
  match args.tail with
  | [] => some (-1, say 20 "Uso: cat <arquivo>\n" s)
  | file :: _ =>
      let r := vfsOpen file oRdonly s
      match r.1 with
      | none => some (-1, say 1 "\n" (put file (say 29 "Erro: nao foi possivel abrir " r.2)))
      | some fd => showFile i.rounds fd r.2

def listDir : List (Path × Bool) → Vfs → Vfs
  | [], s => s
  | (name, isDir) :: rest, s =>
      let s := put name s
      listDir rest (say 2 "  " (if isDir then say 1 "/" s else s))

def cmdLs (i : Input) (args : List Path) (s : Vfs) : Int × Vfs :=
  match i.dir with
  | none => (-1, say 1 "\n" (put (args.tail.headD (text "/")) (say 30 "Erro: nao foi possivel listar " s)))
  | some entries => (0, say 1 "\n" (listDir entries s))

def cmdCd (args : List Path) (s : Vfs) : Int × Vfs :=
  match args.tail with
  | [] => (-1, say 21 "cd: falta diretorio\n" s)
  | dir :: _ => (0, say 1 "\n" (put dir (say 18 "cd: mudando para " s)))

def cmdMkdir (i : Input) (args : List Path) (s : Vfs) : Int × Vfs :=
  match args.tail with
  | [] => (-1, say 24 "mkdir: falta diretorio\n" s)
  | dir :: _ =>
      let r := fMkdir i.disk dir s.volume
      let s := { s with volume := r.2 }
      if r.1 ≠ .ok then (-1, say 25 "Erro ao criar diretorio\n" s)
      else (0, say 1 "\n" (put dir (say 15 "mkdir: criado " s)))

def cmdReboot (s : Vfs) : Int × Vfs := (0, say 24 "Reiniciando sistema...\n" s)

def cmdShutdown (s : Vfs) : Int × Vfs := (0, say 23 "Desligando sistema...\n" s)

def cmdMeminfo (i : Input) (s : Vfs) : Option (Int × Vfs) :=
  let r := vfsOpen (text "/proc/meminfo") oRdonly s
  match r.1 with
  | none => some (-1, say 36 "Erro: /proc/meminfo nao disponivel\n" r.2)
  | some fd => showFile i.rounds fd r.2

def cmdClear (s : Vfs) : Int × Vfs :=
  let r := vfsOpen (text "/dev/tty") oRdwr s
  match r.1 with
  | none => (0, r.2)
  | some fd => (0, (vfsClose fd (vfsIoctl fd tiocClear r.2).2).2)

def cmdExit (s : Vfs) : Int × Vfs := (cmdExitShell, say 20 "Saindo do shell...\n" s)

/-- `commands[i].func`. -/
def Command.func (c : Command) (i : Input) (args : List Path) (s : Vfs) : Option (Int × Vfs) :=
  match c with
  | .help => some (cmdHelp s)
  | .echo => some (cmdEcho args s)
  | .cat => cmdCat i args s
  | .ls => some (cmdLs i args s)
  | .cd => some (cmdCd args s)
  | .mkdir => some (cmdMkdir i args s)
  | .reboot => some (cmdReboot s)
  | .shutdown => some (cmdShutdown s)
  | .meminfo => cmdMeminfo i s
  | .clear => some (cmdClear s)
  | .exit => some (cmdExit s)

def fileExists (i : Input) (s : Vfs) : Bool × Vfs :=
  match i.search with
  | none => (false, s)
  | some ([], _) => (false, say 16 "File not found.\n" s)
  | some (_ :: _, true) =>
      (false, put (([0xC3, 0x89] ++ text " um diret" ++ [0xC3, 0xB3] ++ text "rio!\n").take 16) s)
  | some (_ :: _, false) => (true, s)

/-- What follows a command that is unknown or has failed. The program gets the name of the command
for its first argument too, and one more argument than there are. -/
def external (i : Input) (args : List Path) (s : Vfs) : Vfs :=
  let name := args.headD []
  let r := fileExists i s
  if r.1 then
    i.program (args.length + 1) (name :: name :: args.drop 2) (say 34 "execute_line: Arquivo encontrado!\n" r.2)
  else say 1 "\n" (put name (say 22 "Comando desconhecido: " r.2))

def runCommand (i : Input) (args : List Path) (s : Vfs) : Option (Int × Vfs) :=
  let r := match commands.find? fun c => text c.1 = args.headD [] with
    | none => some (-1, s)
    | some c => c.2.func i args s
  r.map fun r => if r.1 ≠ 0 ∧ r.1 ≠ cmdExitShell then (r.1, external i args r.2) else r

end Commands

section Executing

/-- The `return` that `execute_line` leaves by. -/
inductive Exit
  | blank
  | heredoc
  | noInput
  | noCommand
  | noOutput
  | ran (result : Int)

def Exit.result : Exit → Int
  | .blank | .noCommand => 0
  | .heredoc | .noInput | .noOutput => -1
  | .ran result => result

/-- `fd_table[fd]` becomes the file of `r`. -/
def install (fd : Fd) (r : Option Fd) (s : Vfs) : Vfs :=
  match r.bind s.fdTable with
  | none => s
  | some f => s.vfsSetFd fd (some f)

def closeInput (r : Option Fd) (s : Vfs) : Vfs := r.elim s fun r => (vfsClose r s).2

/-- A redirection is closed, and the terminal opened in its place. -/
def restore (fd : Fd) (r : Option Fd) (s : Vfs) : Vfs :=
  match r with
  | none => s
  | some r =>
      let t := vfsOpen (text "/dev/tty") oRdwr (vfsClose r s).2
      match t.1 with
      | none => t.2
      | some tty => t.2.vfsSetFd fd (t.2.fdTable tty)

/-- Steps 3 to 5, with the input open. -/
def execute (i : Input) (input : Option Fd) (args : List Path) (output : Option (Path × UInt32)) (s : Vfs) :
    Option (Exit × Vfs) :=
  let s := install stdin input s
  match output with
  | none => (runCommand i args s).map fun r => (.ran r.1, restore stdin input r.2)
  | some (file, flags) =>
      let r := vfsOpen file flags s
      match r.1 with
      | none =>
          some (.noOutput, closeInput input
            (say 1 "\n" (put file (say 37 "Erro: nao foi possivel criar saida: " r.2))))
      | some fd =>
          (runCommand i args (install stdout (some fd) r.2)).map fun r =>
            (.ran r.1, restore stdin input (restore stdout (some fd) r.2))

def withInput (i : Input) (args : List Path) (output : Option (Path × UInt32)) (input : Option Fd) (s : Vfs) :
    Option (Exit × Vfs) :=
  if args = [] then some (.noCommand, closeInput input s) else execute i input args output s

def executeLine (i : Input) (s : Vfs) : Option (Exit × Vfs) :=
  match parseLine i.stale i.line with
  | .blank => some (.blank, s)
  | .heredoc => some (.heredoc, say 26 "Heredoc nao implementado\n" s)
  | .command none args output => withInput i args output none s
  | .command (some file) args output =>
      let r := vfsOpen file oRdonly s
      match r.1 with
      | none =>
          some (.noInput, say 1 "\n" (put file (say 39 "Erro: nao foi possivel abrir entrada: " r.2)))
      | some fd => withInput i args output (some fd) r.2

end Executing

end Orion68.Shell
