import FieldQuery.Number.Integer

/-!
# Reading options

Arguments are options, operands and the names of subcommands. An option has a long name after two
dashes and may have a letter after one. Letters may be joined, and the value of an option follows
it as the next argument, directly after the letter, or after an equals sign. A subcommand ends the
arguments of the command and takes all that follow. After two dashes alone everything is an operand.
-/

namespace FieldQuery

/-- What the value of an option may be. -/
inductive ValueForm where
  | text
  | nonempty
  /-- A number that fits 64 bits without a sign. -/
  | count
deriving DecidableEq, Repr

/-- The number that the text denotes, with a plus sign or without one. -/
def count? (text : String) : Option Nat :=
  (natural? (match text.toList with
    | '+' :: cs => cs
    | cs => cs)).filter fun n => n < Nat.pow 2 64

def ValueForm.accepts (text : String) : ValueForm → Bool
  | .text => true
  | .nonempty => !text.isEmpty
  | .count => (count? text).isSome

inductive OptionKind where
  | flag
  | value (form : ValueForm)
  /-- Asks for help, and nothing else is done. -/
  | help
  /-- Asks for the version, and nothing else is done. -/
  | version
deriving DecidableEq, Repr

structure OptionSpec where
  long : String
  letter : Option Char := none
  kind : OptionKind := .flag
deriving DecidableEq, Repr

inductive Operands where
  | none
  | one
  /-- One, which may look like an option if there is no such option. -/
  | oneOfAnyForm
deriving DecidableEq, Repr

structure CommandSpec where
  options : List OptionSpec := []
  operands : Operands := .none
  subcommands : List String := []
deriving DecidableEq, Repr

/-- Why arguments ask for nothing to be run. -/
inductive Stop where
  /-- The arguments do not make sense. -/
  | usage
  | help
  | version
deriving DecidableEq, Repr

/-- The arguments of one command, taken apart. -/
structure Given where
  /-- Options by long name, each with its value. A flag has an empty one. -/
  options : List (String × String) := []
  operand : Option String := none
  /-- The subcommand and the arguments after it. -/
  subcommand : Option (String × List String) := none
deriving DecidableEq, Repr

namespace Given

def has (g : Given) (long : String) : Bool :=
  (g.options.lookup long).isSome

/-- Adds an option, which may not be given twice. -/
def addOption (g : Given) (long value : String) : Except Stop Given :=
  if g.has long then .error .usage
  else .ok { g with options := g.options ++ [(long, value)] }

/-- Adds an option with a value, which has to be of the option's form. -/
def addValue (g : Given) (o : OptionSpec) (value : String) : Except Stop Given :=
  match o.kind with
  | .value form => if form.accepts value then g.addOption o.long value else .error .usage
  | _ => .error .usage

end Given

namespace CommandSpec

variable (spec : CommandSpec)

def long? (name : String) : Option OptionSpec :=
  spec.options.find? fun o => o.long = name

def letter? (c : Char) : Option OptionSpec :=
  spec.options.find? fun o => o.letter = some c

/-- The next operand may look like an option. -/
def takesAnyForm (g : Given) : Bool :=
  spec.operands = .oneOfAnyForm && g.operand.isNone

def addOperand (g : Given) (arg : String) : Except Stop Given :=
  if spec.operands = .none || g.operand.isSome then .error .usage
  else .ok { g with operand := some arg }

/-- What options have come to, and the option that waits for its value. -/
abbrev Progress := Given × Option OptionSpec

/-- Takes an option that has no value yet. -/
def takeOption (g : Given) (o : OptionSpec) : Except Stop Progress :=
  match o.kind with
  | .flag => do return (← g.addOption o.long "", none)
  | .value _ => .ok (g, some o)
  | .help => .error .help
  | .version => .error .version

/-- Takes the name after two dashes and the value after an equals sign. -/
def takeLong (g : Given) (arg : String) (cs : List Char) : Except Stop Progress :=
  let name := String.ofList (cs.takeWhile (· ≠ '='))
  let attached := (cs.dropWhile (· ≠ '=')).tail?
  match spec.long? name, attached with
  | some o, none => takeOption g o
  | some o, some value => do return (← g.addValue o (String.ofList value), none)
  | none, _ =>
    if spec.takesAnyForm g then do return (← spec.addOperand g arg, none)
    else .error .usage

def takeLetters (g : Given) : List Char → Except Stop Progress
  | [] => .ok (g, none)
  | c :: cs =>
    match spec.letter? c with
    | none => .error .usage
    | some o => do
      match ← takeOption g o with
      | (g, none) => takeLetters g cs
      | (g, some o) =>
        if cs.isEmpty then return (g, some o)
        else
          let value := if cs.head? = some '=' then cs.tail else cs
          return (← g.addValue o (String.ofList value), none)

/-- Takes an argument that has dashes in front. -/
def takeDashed (g : Given) (arg : String) : List Char → Except Stop Progress
  | '-' :: '-' :: cs => spec.takeLong g arg cs
  | cs =>
    let letters := cs.tail
    if spec.takesAnyForm g && letters.any (fun c => (spec.letter? c).isNone) then do
      return (← spec.addOperand g arg, none)
    else spec.takeLetters g letters

/-- A dash alone is a plain word. -/
def isDashed (arg : String) : Bool :=
  arg.startsWith "-" && arg ≠ "-"

def read (g : Given) : List String → Except Stop Given
  | [] => .ok g
  | arg :: args =>
    if arg ∈ spec.subcommands then .ok { g with subcommand := some (arg, args) }
    else if arg = "--" then args.foldlM spec.addOperand g
    else if isDashed arg then do
      match ← spec.takeDashed g arg arg.toList with
      | (g, none) => read g args
      | (g, some o) =>
        match args with
        | [] => .error .usage
        | value :: args =>
          if isDashed value then .error .usage
          else read (← g.addValue o value) args
    else do read (← spec.addOperand g arg) args

end CommandSpec

end FieldQuery
