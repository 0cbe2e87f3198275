/-
Synod.CommandLine.Arguments -- what the command line asks for

An option is written `--name value` or `--name=value`, or with its letter as
`-n value`, `-nvalue` or `-n=value`, and at most once.  Words that start with a dash
are options, except a dash alone and everything after `--`.  Options of the program
stand before the command, those of a command after it.

Arguments are read from the left, and the first thing wrong with them decides.  An
operand that is a word of its own is not looked at until something follows it: the
next option, a word, or the end.  A command is no such thing, so what is wrong with
the command's own arguments, and a wish for help among them, comes first.
-/

namespace Synod.CommandLine

set_option autoImplicit false

inductive Command
  /-- Runs the node, perhaps with a value it proposes once it leads. -/
  | start (proposal : Option String)
  /-- Asks a running node to propose a value. -/
  | propose (address value : String)
  /-- Writes a first configuration. -/
  | init (output nodeId : String)
  | validate
  /-- Shows what the store holds. -/
  | status (json : Bool)
deriving DecidableEq, Repr

structure Invocation where
  config : String
  logLevel : Option String
  command : Command
deriving DecidableEq, Repr

/-- Why arguments name nothing to run. -/
inductive Refusal
  | usage
  | help
  | version
deriving DecidableEq, Repr

/-! ## Options -/

/-- What an option takes. -/
inductive Operand
  | nothing
  | text
  /-- A text that is not empty. -/
  | path
deriving DecidableEq, Repr

structure Opt where
  name : String
  letter : Option Char := none
  operand : Operand
deriving DecidableEq, Repr

/-- The options and words that one level of the command line takes. -/
structure Level where
  options : List Opt := []
  /-- How many words it takes, and needs. -/
  words : Nat := 0
  commands : List String := []
  version : Bool := false

/-- What was read at one level. -/
structure Reading where
  values : List (String × String) := []
  words : List String := []
  /-- An option whose operand is a word of its own, which has to come yet or has come
  and is not looked at yet. -/
  pending : Option (Opt × Option String) := none
  /-- Whether only words follow. -/
  trailing : Bool := false

namespace Reading

def assign (r : Reading) (o : Opt) (value : String) : Except Refusal Reading :=
  if (r.values.lookup o.name).isSome = true ∨ (o.operand = .path ∧ value = "") then .error .usage
  else .ok { r with values := r.values ++ [(o.name, value)] }

/-- Whether an operand has to come next. -/
def waiting (r : Reading) : Bool :=
  match r.pending with
  | some (_, none) => true
  | _ => false

/-- Looks at the pending operand. -/
def settle (r : Reading) : Except Refusal Reading :=
  match r.pending with
  | none => .ok r
  | some (_, none) => .error .usage
  | some (o, some value) => { r with pending := none }.assign o value

/-- Leaves with a refusal, unless the pending operand gives another. -/
def leave (r : Reading) (refusal : Refusal) : Except Refusal Reading := do
  let _ ← r.settle
  .error refusal

/-- An option, with the operand that is written in one word with it. -/
def option (r : Reading) (o : Opt) (operand : Option String) : Except Refusal Reading := do
  let r ← r.settle
  match operand with
  | some value => if o.operand = .nothing then .error .usage else r.assign o value
  | none => if o.operand = .nothing then r.assign o "" else .ok { r with pending := some (o, none) }

def word (r : Reading) (level : Level) (word : String) : Except Refusal Reading := do
  let r ← r.settle
  if r.words.length < level.words then .ok { r with words := r.words ++ [word] }
  else .error .usage

end Reading

def readLong (level : Level) (r : Reading) (body : List Char) : Except Refusal Reading :=
  let name := String.ofList (body.takeWhile (· ≠ '='))
  let operand := match body.dropWhile (· ≠ '=') with
    | [] => none
    | _ :: value => some (String.ofList value)
  if name = "help" ∧ operand = none then r.leave .help
  else if name = "version" ∧ operand = none ∧ level.version = true then r.leave .version
  else
    match level.options.find? fun o => o.name = name with
    | some o => r.option o operand
    | none => .error .usage

/-- Letters of options; all that follows a letter with an operand is its operand. -/
def readShort (level : Level) (r : Reading) : List Char → Except Refusal Reading
  | [] => .ok r
  | c :: rest =>
    if c = 'h' then r.leave .help
    else if c = 'V' ∧ level.version = true then r.leave .version
    else
      match level.options.find? fun o => o.letter = some c with
      | none => .error .usage
      | some o =>
        if o.operand = .nothing then
          match r.option o none with
          | .ok r => readShort level r rest
          | .error refusal => .error refusal
        else
          match rest with
          | [] => r.option o none
          | '=' :: value => r.option o (some (String.ofList value))
          | value => r.option o (some (String.ofList value))

/-- An argument that starts with a dash and is more than that. -/
def dashed (arg : String) : Bool :=
  match arg.toList with
  | '-' :: _ :: _ => true
  | _ => false

/-- Reads one argument that is no command. -/
def readArgument (level : Level) (r : Reading) (arg : String) : Except Refusal Reading :=
  if r.trailing then r.word level arg
  else if dashed arg then
    match arg.toList with
    | ['-', '-'] => .ok { r with trailing := true }
    | '-' :: '-' :: body => readLong level r body
    | _ :: letters => readShort level r letters
    | [] => .error .usage
  else
    match r.pending with
    | some (o, none) => .ok { r with pending := some (o, some arg) }
    | _ => r.word level arg

/-- Reads a level up to the end or to a command, with the arguments after that.  An
operand that is pending at a command stays so. -/
def readLevel (level : Level) (r : Reading) :
    List String → Except Refusal (Reading × Option (String × List String))
  | [] => do
    let r ← r.settle
    if r.words.length < level.words then .error .usage else .ok (r, none)
  | arg :: rest =>
    if r.trailing = false ∧ r.waiting = false ∧ arg ∈ level.commands then .ok (r, some (arg, rest))
    else
      match readArgument level r arg with
      | .ok r => readLevel level r rest
      | .error refusal => .error refusal

/-! ## The program's own -/

def commandNames : List String := ["start", "propose", "init", "validate", "status"]

def program : Level where
  options := [
    { name := "config", letter := some 'c', operand := .path },
    { name := "log-level", letter := some 'l', operand := .text }]
  commands := "help" :: commandNames
  version := true

/-- Where a configuration is, unless told. -/
def defaultConfig : String := "wolfpaxos.toml"

/-- Reads a level that has no commands. -/
def readCommand (level : Level) (args : List String) : Except Refusal Reading :=
  Prod.fst <$> readLevel level {} args

def command (name : String) (args : List String) : Except Refusal Command :=
  if name = "start" then do
    let r ← readCommand { options := [{ name := "propose", operand := .text }] } args
    return .start (r.values.lookup "propose")
  else if name = "propose" then do
    let r ← readCommand
      { options := [{ name := "address", letter := some 'a', operand := .text }], words := 1 } args
    return .propose ((r.values.lookup "address").getD "localhost:7654") (r.words.headD "")
  else if name = "init" then do
    let r ← readCommand
      { options := [
          { name := "output", letter := some 'o', operand := .path },
          { name := "node-id", operand := .text }] } args
    return .init ((r.values.lookup "output").getD defaultConfig)
      ((r.values.lookup "node-id").getD "node-1")
  else if name = "validate" then do
    let _ ← readCommand {} args
    return .validate
  else if name = "status" then do
    let r ← readCommand { options := [{ name := "json", operand := .nothing }] } args
    return .status (r.values.lookup "json").isSome
  else
    match args with
    | [] => .error .help
    | [topic] => if topic ∈ program.commands then .error .help else .error .usage
    | _ => .error .usage

/-- Reads all arguments.  The command's own are judged before the operand that was
pending at its name. -/
def parse (args : List String) : Except Refusal Invocation := do
  match ← readLevel program {} args with
  | (r, some (name, rest)) =>
    let command ← command name rest
    let r ← r.settle
    return {
      config := (r.values.lookup "config").getD defaultConfig
      logLevel := r.values.lookup "log-level"
      command }
  | (_, none) => .error .usage

end Synod.CommandLine
