import LC3.Assembly.Image
import LC3.CommandLine
import LC3.Diagnostic
import LC3.Dump
import LC3.Machine.Step

/-!
# Sessions

A session carries out a command on a console. A program is run in rounds: after each one its output
is written, and if it waits for input some more is read. It ends when the program halts or faults,
when the limit on instructions is reached, and when it waits for input that has ended. A session
has a budget of rounds, so that a program that runs forever is one that uses up every budget.
-/

namespace LC3

/-!
## Consoles

What a command uses of its surroundings: files, an input of bytes and an output of bytes. A
transcript is a console in memory: the input is known in advance, in the pieces in which it
arrives, and the output is kept.
-/

/-- Access to files, input and output. Reading at most `n` bytes gives none only at the end of the
input, unless `n` is zero. -/
structure Console (m : Type → Type) where
  readFile : String → m (Except String String)
  readInput : Nat → m (List UInt8)
  writeOutput : List UInt8 → m Unit

def Console.print {m : Type → Type} (c : Console m) (text : String) : m Unit :=
  c.writeOutput (text.toList.flatMap String.utf8EncodeChar)

structure Transcript where
  files : String → Except String String
  input : List (List UInt8)
  output : Array UInt8

namespace Transcript

/-- The next bytes of the input, at most `n`, and the pieces that are left. -/
def take (n : Nat) : List (List UInt8) → List UInt8 × List (List UInt8)
  | [] => ([], [])
  | [] :: rest => take n rest
  | piece :: rest => (piece.take n, piece.drop n :: rest)

def console : Console (StateM Transcript) where
  readFile name := fun t => (t.files name, t)
  readInput n := fun t =>
    let (bytes, rest) := take n t.input
    (bytes, { t with input := rest })
  writeOutput bytes := fun t => ((), { t with output := t.output.appendList bytes })

end Transcript

/-! ## Sessions -/

/-- How a session ends: well, with a message, without a command to carry out, or with its budget
used up. -/
inductive Ending
  | success
  | failure (message : String)
  | usage
  | unfinished
deriving DecidableEq

def Ending.status : Ending → UInt32
  | .success => 0
  | .failure _ => 1
  | .usage => 2
  | .unfinished => 1

def Ending.message? : Ending → Option String
  | .failure message => some message
  | .unfinished => some "Program did not halt"
  | _ => none

namespace Session

variable {M : Type → Type} [Monad M]

def progress (left right : String) : String := Dump.padLeft 12 left ++ " " ++ right ++ "\n"

def fileProgress (left file : String) : String := progress left ("target " ++ file)

def assembleFile (c : Console M) (file : String) : M (Except String (Machine × Labels)) := do
  match ← c.readFile file with
  | .error message => return .error message
  | .ok source =>
    match assemble source with
    | .error e => return .error e.diagnostic.message
    | .ok result => return .ok result

def flush (c : Console M) (m : Machine) : M Machine := do
  let (words, output) := m.output.drain
  c.writeOutput (words.map Word.lowByte)
  return { m with output := output }

/-- Reads as much input as fits in the queue; none at the end of the input. -/
def feed (c : Console M) (m : Machine) : M (Option Machine) := do
  let bytes ← c.readInput m.input.free
  if bytes.isEmpty then return none
  return some { m with input := (m.input.fill (bytes.map Word.ofByte)).2 }

/-- Runs a machine for at most so many rounds: the machine that halted or why it did not, and
nothing when the rounds are used up. -/
def rounds (c : Console M) (limit : Option Nat) :
    Nat → Machine → M (Option (Except String Machine))
  | 0, _ => return none
  | n + 1, m => do
    let (result, m) := m.run (limit.map (· - m.executed))
    let m ← flush c m
    match result with
    | .error fault => return some (.error fault.message)
    | .ok .halted => return some (.ok m)
    | .ok .executed =>
      if limit.isSome then
        return some (.error ("Program did not halt within " ++ m.executed.repr ++ " instructions"))
      else rounds c limit n m
    | .ok .waitingForInput =>
      match ← feed c m with
      | some m => rounds c limit n m
      | none => return some (.error "Program is waiting for input but stdin is closed")
    | .ok .waitingForOutput => rounds c limit n m

def runMachine (c : Console M) (settings : Settings) (file : String) (minimal : Bool)
    (limit : Option Nat) (budget : Nat) (m : Machine) : M Ending := do
  match ← rounds c limit budget m with
  | none => return .unfinished
  | some (.error message) => return .failure message
  | some (.ok m) =>
    if !minimal then
      c.print ("\n" ++ Dump.padLeft 12 "Halted" ++ "\n")
      c.print (Dump.registers m settings.literals)
      c.print (fileProgress "Completed" file)
    return .success

def run (c : Console M) (settings : Settings) (file : String) (minimal : Bool)
    (limit : Option Nat) (budget : Nat) : M Ending := do
  if !minimal then c.print (fileProgress "Assembling" file)
  match ← assembleFile c file with
  | .error message => return .failure message
  | .ok (m, _) =>
    if !minimal then c.print (progress "Running" "assembled program")
    runMachine c settings file minimal (limit <|> settings.stepLimit) budget m

def check (c : Console M) (file : String) : M Ending := do
  c.print (fileProgress "Checking" file)
  match ← assembleFile c file with
  | .error message => return .failure message
  | .ok _ =>
    c.print (progress "Success" "no errors found!")
    return .success

def dump (c : Console M) (settings : Settings) (file : String) (decimal : Bool) : M Ending := do
  c.print (fileProgress "Assembling" file)
  match ← assembleFile c file with
  | .error message => return .failure message
  | .ok (m, labels) =>
    let mode := if decimal then .dec else settings.literals
    c.print (Dump.registers m mode)
    if !labels.isEmpty then c.print (Dump.labels labels)
    c.print (Dump.memory m mode)
    return .success

def versionNumber : String := "0.1.0"

def welcomeText : String :=
  "\n~ lc3vm v" ++ versionNumber ++ " ~\n" ++
    "LC3 virtual machine & assembler\n" ++
    "\nWelcome to lc3vm, an assembler and virtual machine for LC3 assembly code.\n" ++
    "Please use `-h` or `--help` to access the usage instructions and documentation.\n\n"

def helpText : String :=
  "Usage: lc3vm [FILE]\n" ++
    "       lc3vm run FILE [--minimal] [--limit COUNT]\n" ++
    "       lc3vm check FILE\n" ++
    "       lc3vm dump FILE [--dec]\n"

def carryOut (c : Console M) (settings : Settings) (budget : Nat) : Command → M Ending
  | .welcome => do
    c.print welcomeText
    return .success
  | .help => do
    c.print helpText
    return .success
  | .version => do
    c.print ("lc3vm " ++ versionNumber ++ "\n")
    return .success
  | .run file minimal limit => run c settings file minimal limit budget
  | .check file => check c file
  | .dump file decimal => dump c settings file decimal

/-- Carries out the command that a reader of arguments makes of them, under the settings of the
environment and with so many rounds for a program. -/
def startWithin (reader : List String → Except CommandLine.UsageError Command) (budget : Nat)
    (c : Console M) (arguments : List String) (variableValue : String → Option String) :
    M Ending :=
  match reader arguments with
  | .error _ => return .usage
  | .ok command => carryOut c (Settings.read variableValue) budget command

def longestSession : Nat := UInt64.size

def start (c : Console M) (arguments : List String) (variableValue : String → Option String) :
    M Ending :=
  startWithin CommandLine.read longestSession c arguments variableValue

end Session

end LC3
