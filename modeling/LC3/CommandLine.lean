import LC3.Settings

/-!
# The command line

A command is named by a word, or the single argument is a file to run. Options may stand anywhere
after the name, short ones may share a dash, and the value of an option follows it directly, after
an equals sign, or as the next argument. After a lone `--` everything is a file name. No option may
be given twice.
-/

namespace LC3

inductive Command
  | welcome
  | help
  | version
  | run (file : String) (minimal : Bool) (limit : Option Nat)
  | check (file : String)
  | dump (file : String) (decimal : Bool)
deriving DecidableEq

namespace CommandLine

inductive Switch
  | help
  | version
  | minimal
  | limit
  | dec
deriving DecidableEq

/-- The letter, the word, and whether a value belongs to the option. -/
structure SwitchForm where
  switch : Switch
  letter : Char
  word : String
  takesValue : Bool

inductive Verb
  | run
  | check
  | dump
deriving DecidableEq

def helpForm : SwitchForm := ⟨.help, 'h', "help", false⟩

def Verb.switches : Verb → List SwitchForm
  | .run => [⟨.minimal, 'm', "minimal", false⟩, ⟨.limit, 'l', "limit", true⟩, helpForm]
  | .check => [helpForm]
  | .dump => [⟨.dec, 'd', "dec", false⟩, helpForm]

def outerSwitches : List SwitchForm := [helpForm, ⟨.version, 'V', "version", false⟩]

def Verb.ofName? (name : String) : Option Verb :=
  if name = "run" then some .run
  else if name = "check" then some .check
  else if name = "dump" then some .dump
  else none

inductive UsageError
  | unknownOption
  | repeatedOption
  | badValue
  | missingValue
  | unexpectedValue
  | emptyFileName
  | unexpectedArgument
  | missingArgument
deriving DecidableEq

/-- Reading ends early at an error and at a request for help or the version. -/
inductive Interruption
  | usage (e : UsageError)
  | shown (c : Command)
deriving DecidableEq

/-- What the arguments have said so far. -/
structure Given where
  minimal : Bool := false
  limit : Option Nat := none
  decimal : Bool := false
  file : Option String := none
deriving DecidableEq

namespace Given

def setFlag (g : Given) : Switch → Except Interruption Given
  | .help => .error (.shown .help)
  | .version => .error (.shown .version)
  | .minimal =>
    if g.minimal then .error (.usage .repeatedOption) else .ok { g with minimal := true }
  | .dec =>
    if g.decimal then .error (.usage .repeatedOption) else .ok { g with decimal := true }
  | .limit => .error (.usage .missingValue)

/-- Takes the value of an option; the limit is the only one that has one. -/
def setValue (g : Given) (value : String) : Except Interruption Given :=
  match parseLimit? value.toList with
  | none => .error (.usage .badValue)
  | some n =>
    if g.limit.isSome then .error (.usage .repeatedOption) else .ok { g with limit := some n }

def setFile (g : Given) (name : String) : Except Interruption Given :=
  if g.file.isSome then .error (.usage .unexpectedArgument)
  else if name.isEmpty then .error (.usage .emptyFileName)
  else .ok { g with file := some name }

end Given

def splitValue (text : List Char) : List Char × Option String :=
  match text.dropWhile (· != '=') with
  | [] => (text, none)
  | _ :: value => (text.takeWhile (· != '='), some (String.ofList value))

/-- Takes a long option without its dashes; the answer tells whether its value has to follow. -/
def takeLong (forms : List SwitchForm) (g : Given) (text : List Char) :
    Except Interruption (Given × Bool) :=
  let (word, value) := splitValue text
  match forms.find? (·.word == String.ofList word), value with
  | none, _ => .error (.usage .unknownOption)
  | some form, none =>
    if form.takesValue then .ok (g, true) else (g.setFlag form.switch).map (·, false)
  | some form, some value =>
    if form.takesValue then (g.setValue value).map (·, false)
    else .error (.usage .unexpectedValue)

/-- Takes the letters after a dash; the answer tells whether a value has to follow. -/
def takeShort (forms : List SwitchForm) (g : Given) :
    List Char → Except Interruption (Given × Bool)
  | [] => .ok (g, false)
  | letter :: rest =>
    match forms.find? (·.letter == letter) with
    | none => .error (.usage .unknownOption)
    | some form =>
      if form.takesValue then
        match rest with
        | [] => .ok (g, true)
        | '=' :: value => (g.setValue (String.ofList value)).map (·, false)
        | value => (g.setValue (String.ofList value)).map (·, false)
      else
        match g.setFlag form.switch with
        | .error e => .error e
        | .ok g => takeShort forms g rest

def takeFiles (g : Given) : List String → Except Interruption Given
  | [] => .ok g
  | name :: rest =>
    match g.setFile name with
    | .error e => .error e
    | .ok g => takeFiles g rest

inductive Shape
  | files
  | long (text : List Char)
  | short (letters : List Char)
  | plain

def Shape.of (argument : String) : Shape :=
  match argument.toList with
  | ['-', '-'] => .files
  | '-' :: '-' :: text => .long text
  | '-' :: letter :: rest => .short (letter :: rest)
  | _ => .plain

/-- Reads the arguments after a command's name; `awaited` tells whether the last option still needs
its value. -/
def takeArguments (forms : List SwitchForm) (g : Given) (awaited : Bool) :
    List String → Except Interruption Given
  | [] => if awaited then .error (.usage .missingValue) else .ok g
  | argument :: rest =>
    match Shape.of argument, awaited with
    | .plain, true =>
      match g.setValue argument with
      | .error e => .error e
      | .ok g => takeArguments forms g false rest
    | .plain, false =>
      match g.setFile argument with
      | .error e => .error e
      | .ok g => takeArguments forms g false rest
    | _, true => .error (.usage .missingValue)
    | .files, false => takeFiles g rest
    | .long text, false =>
      match takeLong forms g text with
      | .error e => .error e
      | .ok (g, awaited) => takeArguments forms g awaited rest
    | .short letters, false =>
      match takeShort forms g letters with
      | .error e => .error e
      | .ok (g, awaited) => takeArguments forms g awaited rest

def Verb.command (verb : Verb) (g : Given) : Except Interruption Command :=
  match g.file with
  | none => .error (.usage .missingArgument)
  | some file =>
    match verb with
    | .run => .ok (.run file g.minimal g.limit)
    | .check => .ok (.check file)
    | .dump => .ok (.dump file g.decimal)

def Verb.read (verb : Verb) (arguments : List String) : Except Interruption Command :=
  match takeArguments verb.switches {} false arguments with
  | .error e => .error e
  | .ok g => verb.command g

def readHelp : List String → Except Interruption Command
  | [] => .ok .help
  | [name] =>
    if (Verb.ofName? name).isSome || name == "help" then .ok .help
    else .error (.usage .unexpectedArgument)
  | _ => .error (.usage .unexpectedArgument)

/-- The command without a name: run the file, if there is one. -/
def unnamed (g : Given) : Command :=
  match g.file with
  | some file => .run file false none
  | none => .welcome

/-- Reads all arguments. The name of a command counts as such also after a file name. -/
def readFrom (g : Given) : List String → Except Interruption Command
  | [] => .ok (unnamed g)
  | argument :: rest =>
    if argument = "help" then readHelp rest
    else
      match Verb.ofName? argument with
      | some verb => verb.read rest
      | none =>
        match Shape.of argument with
        | .files => (takeFiles g rest).map unnamed
        | .plain =>
          match g.setFile argument with
          | .error e => .error e
          | .ok g => readFrom g rest
        | .long text =>
          match takeLong outerSwitches g text with
          | .error e => .error e
          | .ok (g, _) => readFrom g rest
        | .short letters =>
          match takeShort outerSwitches g letters with
          | .error e => .error e
          | .ok (g, _) => readFrom g rest

def read (arguments : List String) : Except UsageError Command :=
  match readFrom {} arguments with
  | .ok c => .ok c
  | .error (.shown c) => .ok c
  | .error (.usage e) => .error e

end CommandLine

end LC3
