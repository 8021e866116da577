/-
  HybridAccess — the command line.

  A command line may name a configuration file with `--config` and one of
  three commands, one of which has a flag. `Invocation.read` reads the words
  behind the name of the program, or says why they are not carried out
  (`Stop`): because of an error, or because help or the version is asked for.

  A value of `--config` may be a word of its own. It is looked at only when the
  option is settled: before the next option is, or at the end. So an error in
  a later word can come first.
-/

namespace HybridAccess.CommandLine

/-- Why a command line is not carried out. -/
inductive Stop
  | unknownArgument
  /-- The value of an option is missing or empty. -/
  | invalidValue
  | invalidCommand
  /-- An option is given twice. -/
  | conflict
  /-- A flag has a value. -/
  | surplusValue
  /-- Help is asked for, about a command if one is named. -/
  | help (command : Option String)
  | version
deriving DecidableEq, Repr

/-- What is to be done. -/
inductive Action
  /-- Run the client. -/
  | run
  /-- Write a configuration file with the defaults, over an existing one only with `force`. -/
  | writeConfig (force : Bool)
  /-- Print the name of the configuration file. -/
  | printPath
deriving DecidableEq, Repr

/-- What a command line says. -/
structure Invocation where
  /-- The configuration file, if it is named. -/
  config : Option String
  /-- What is to be done, if it is said. -/
  action : Option Action
deriving DecidableEq, Repr

/-! ## Words -/

/-- A word of a command line. -/
inductive Word
  /-- Two dashes: no options follow. -/
  | escape
  /-- An option with a long name, and the value behind an equals sign. -/
  | long (name : String) (value : Option String)
  /-- Options with short names, of which the first one matters. -/
  | short (name : Char)
  /-- Anything else. -/
  | plain
deriving DecidableEq, Repr

/-- The name of a long option and its value. -/
def Word.ofLong (cs : List Char) : Word :=
  let name := String.ofList (cs.takeWhile (· ≠ '='))
  match cs.dropWhile (· ≠ '=') with
  | [] => .long name none
  | _ :: value => .long name (some (String.ofList value))

/-- What a word is. -/
def Word.of (text : String) : Word :=
  match text.toList with
  | ['-', '-'] => escape
  | '-' :: '-' :: cs => ofLong cs
  | '-' :: c :: _ => short c
  | _ => plain

/-! ## Commands -/

/-- The name of the command that runs the client. -/
def runName : String := "run"

/-- The name of the command that writes a configuration file. -/
def writeConfigName : String := "init-config"

/-- The name of the command that tells where the configuration file is. -/
def printPathName : String := "print-config-path"

/-- The name of the command that tells the usage. -/
def helpName : String := "help"

/-- The names that may stand for a command. -/
def commandNames : List String := [runName, writeConfigName, printPathName, helpName]

/-- Read the words behind a command: whether `--force` is given, which only one command has. -/
def readFlags (command : String) (force : Bool) : List String → Except Stop Bool
  | [] => .ok force
  | word :: words =>
    match Word.of word with
    | .escape => if words.isEmpty then .ok force else .error .unknownArgument
    | .long "help" none | .short 'h' => .error (.help (some command))
    | .long "help" (some _) => .error .surplusValue
    | .long "force" value =>
      if command ≠ writeConfigName then .error .unknownArgument
      else if value.isSome then .error .surplusValue
      else if force then .error .conflict
      else readFlags command true words
    | _ => .error .unknownArgument

/-- Read a command and the words behind it, none if the word is no command. -/
def readAction? (word : String) (words : List String) : Option (Except Stop Action) :=
  if word = runName then some ((readFlags word false words).map fun _ => .run)
  else if word = writeConfigName then some ((readFlags word false words).map .writeConfig)
  else if word = printPathName then some ((readFlags word false words).map fun _ => .printPath)
  else if word = helpName then
    some (.error (match words with
      | [] => .help none
      | [name] => if name ∈ commandNames then .help (some name) else .invalidCommand
      | _ => .invalidCommand))
  else none

/-! ## Options -/

/-- What is known of `--config`. -/
inductive Pending
  | nothing
  /-- The option was read, and its value comes next. -/
  | option
  /-- The value was read, and not looked at. -/
  | value (text : String)
deriving DecidableEq, Repr

/-- How far a command line was read. -/
structure Progress where
  config : Option String
  pending : Pending
deriving DecidableEq, Repr

namespace Progress

/-- Take over the value of `--config`. -/
def store (p : Progress) (text : String) : Except Stop Progress :=
  if p.config.isSome then .error .conflict
  else if text.isEmpty then .error .invalidValue
  else .ok ⟨some text, .nothing⟩

/-- Look at the value of `--config`. -/
def settle (p : Progress) : Except Stop Progress :=
  match p.pending with
  | .nothing => .ok p
  | .option => .error .invalidValue
  | .value text => { p with pending := .nothing }.store text

/-- Look at the value of `--config` before the reading stops. -/
def settleAnd {α : Type} (p : Progress) (stop : Stop) : Except Stop α := do
  let _ ← p.settle
  throw stop

end Progress

/-- Read the words behind two dashes, where no option and no command may stand. -/
def readEscaped (p : Progress) : List String → Except Stop Invocation
  | [] => p.settle.map fun p => ⟨p.config, none⟩
  | word :: _ => .error (if word ∈ commandNames then .unknownArgument else .invalidCommand)

/-- Read the rest of a command line. -/
def readRest (p : Progress) : List String → Except Stop Invocation
  | [] => p.settle.map fun p => ⟨p.config, none⟩
  | word :: words =>
    match (if p.pending = .option then none else readAction? word words) with
    | some action => do
      let action ← action
      let p ← p.settle
      return ⟨p.config, some action⟩
    | none =>
      match Word.of word with
      | .escape => readEscaped p words
      | .long "config" none => p.settle.bind fun p => readRest { p with pending := .option } words
      | .long "config" (some value) =>
        (p.settle.bind (·.store value)).bind fun p => readRest p words
      | .long "help" none | .short 'h' => p.settleAnd (.help none)
      | .long "version" none | .short 'V' => p.settleAnd .version
      | .long "help" (some _) | .long "version" (some _) => .error .surplusValue
      | .long _ _ | .short _ => .error .unknownArgument
      | .plain =>
        if p.pending = .option then readRest { p with pending := .value word } words
        else .error .invalidCommand

/-- Read the words of a command line, the name of the program in front. -/
def Invocation.read (words : List String) : Except Stop Invocation :=
  readRest ⟨none, .nothing⟩ (words.drop 1)

end HybridAccess.CommandLine
