import SchemaForms.Compile.Build
import SchemaForms.Text.Numeral

/-!
# Command line

The arguments of the program: one input, and options that take the argument
after them or a value behind an equals sign. An option may be given once. The
value of an option is judged when the next argument is reached.
-/

namespace SchemaForms.CommandLine

inductive Format where
  | json
  | xml
  deriving DecidableEq, Repr

structure Arguments where
  input : String
  instancePath : Option String
  element : Option String
  format : Format
  settings : Settings
  allowDoctype : Bool
  deriving DecidableEq, Repr

inductive ArgumentError where
  | displayHelp
  | displayVersion
  | unknownArgument
  | invalidValue
  | valueValidation
  | tooManyValues
  | argumentConflict
  | missingRequiredArgument
  deriving DecidableEq, Repr

/-- Asking for help or the version is no failure. -/
def ArgumentError.exitCode : ArgumentError → Nat
  | .displayHelp => 0
  | .displayVersion => 0
  | _ => 2

inductive OptionName where
  | instancePath
  | element
  | format
  | placeholder
  | defaultChoice
  | maxDepth
  | moduleTag
  deriving DecidableEq, Repr

inductive Switch where
  | allowDoctype
  | help
  | version
  deriving DecidableEq, Repr

inductive LongName where
  | option (name : OptionName)
  | switch (switch : Switch)
  deriving DecidableEq, Repr

def LongName.ofText? : String → Option LongName
  | "instance" => some (.option .instancePath)
  | "element" => some (.option .element)
  | "format" => some (.option .format)
  | "placeholder" => some (.option .placeholder)
  | "default-choice" => some (.option .defaultChoice)
  | "max-depth" => some (.option .maxDepth)
  | "module-tag-name" => some (.option .moduleTag)
  | "allow-dtd" => some (.switch .allowDoctype)
  | "help" => some (.switch .help)
  | "version" => some (.switch .version)
  | _ => none

def Switch.ofLetter? : Char → Option Switch
  | 'h' => some .help
  | 'V' => some .version
  | _ => none

/-- What the arguments have given so far. -/
structure Given where
  input : Option String
  instancePath : Option String
  element : Option String
  format : Option Format
  placeholder : Option Placeholder
  defaultChoice : Option DefaultChoice
  maxDepth : Option Nat
  moduleTag : Option String
  allowDoctype : Bool
  deriving DecidableEq, Repr

def Given.nothing : Given := ⟨none, none, none, none, none, none, none, none, false⟩

/-- A value that may be given once, as far as it can be read. -/
def once {α : Type} (before : Option α) (value : Except ArgumentError α) :
    Except ArgumentError (Option α) :=
  if before.isSome then .error .argumentConflict else value.map some

def formatValue : String → Except ArgumentError Format
  | "json" => .ok .json
  | "xml" => .ok .xml
  | _ => .error .invalidValue

def placeholderValue : String → Except ArgumentError Placeholder
  | "none" => .ok .none
  | "template" => .ok .template
  | _ => .error .invalidValue

def defaultChoiceValue : String → Except ArgumentError DefaultChoice
  | "none" => .ok .none
  | "first" => .ok .first
  | _ => .error .invalidValue

def numberValue (value : String) : Except ArgumentError Nat :=
  match Text.word64? value with
  | some number => .ok number
  | none => .error .valueValidation

def pathValue (value : String) : Except ArgumentError String :=
  if value.isEmpty then .error .invalidValue else .ok value

def Given.set (given : Given) (name : OptionName) (value : String) :
    Except ArgumentError Given :=
  match name with
  | .instancePath => do
      return { given with instancePath := ← once given.instancePath (pathValue value) }
  | .element => do return { given with element := ← once given.element (.ok value) }
  | .format => do return { given with format := ← once given.format (formatValue value) }
  | .placeholder => do
      return { given with placeholder := ← once given.placeholder (placeholderValue value) }
  | .defaultChoice => do
      return { given with defaultChoice := ← once given.defaultChoice (defaultChoiceValue value) }
  | .maxDepth => do return { given with maxDepth := ← once given.maxDepth (numberValue value) }
  | .moduleTag => do return { given with moduleTag := ← once given.moduleTag (.ok value) }

def Given.turnOn (given : Given) : Switch → Except ArgumentError Given
  | .allowDoctype =>
      if given.allowDoctype then .error .argumentConflict
      else .ok { given with allowDoctype := true }
  | .help => .error .displayHelp
  | .version => .error .displayVersion

/-- An argument whose meaning is settled when the next one is reached. -/
inductive Pending where
  | nothing
  | option (name : OptionName) (value : Option String)
  deriving DecidableEq, Repr

def Given.settle (given : Given) : Pending → Except ArgumentError Given
  | .nothing => .ok given
  | .option _ none => .error .invalidValue
  | .option name (some value) => given.set name value

/-- The name of a long option, and the value behind its equals sign. -/
def splitAtEquals (text : List Char) : List Char × Option (List Char) :=
  match text.dropWhile (· != '=') with
  | [] => (text, none)
  | _ :: value => (text.takeWhile (· != '='), some value)

inductive Kind where
  | escape
  | long (name : String) (value : Option String)
  | letters (letters : List Char)
  | plain
  deriving DecidableEq, Repr

def Kind.ofArgument (argument : String) : Kind :=
  match argument.toList with
  | ['-', '-'] => .escape
  | '-' :: '-' :: rest =>
      let (name, value) := splitAtEquals rest
      .long (String.ofList name) (value.map String.ofList)
  | ['-'] => .plain
  | '-' :: flags => .letters flags
  | _ => .plain

def readLong (given : Given) (pending : Pending) (name : String) (value : Option String) :
    Except ArgumentError (Given × Pending) :=
  match LongName.ofText? name, value with
  | none, _ => .error .unknownArgument
  | some (.switch _), some _ => .error .tooManyValues
  | some (.switch switch), none => do
      return (← (← given.settle pending).turnOn switch, .nothing)
  | some (.option option), some value => do
      return (← (← given.settle pending).set option value, .nothing)
  | some (.option option), none => do
      return (← given.settle pending, .option option none)

/-- Letters behind one dash; each must be known, and the first one decides. -/
def readLetters (given : Given) (pending : Pending) (letters : List Char) :
    Except ArgumentError (Given × Pending) :=
  match letters with
  | [] => .ok (given, pending)
  | letter :: _ =>
      match Switch.ofLetter? letter with
      | none => .error .unknownArgument
      | some switch => do return (← (← given.settle pending).turnOn switch, .nothing)

def readPlain (given : Given) (pending : Pending) (argument : String) :
    Except ArgumentError (Given × Pending) :=
  match given.input with
  | some _ => .error .unknownArgument
  | none => do
      let given ← given.settle pending
      return ({ given with input := some argument }, .nothing)

/-- Reads arguments; behind a double dash all of them are plain. -/
def readAll (given : Given) (pending : Pending) (escaped : Bool) :
    List String → Except ArgumentError Given
  | [] => given.settle pending
  | argument :: rest => do
      if escaped then
        let (given, pending) ← readPlain given pending argument
        readAll given pending true rest
      else
        match Kind.ofArgument argument, pending with
        | .escape, pending => readAll given pending true rest
        | .long name value, pending =>
            let (given, pending) ← readLong given pending name value
            readAll given pending false rest
        | .letters letters, pending =>
            let (given, pending) ← readLetters given pending letters
            readAll given pending false rest
        | .plain, .option name none =>
            readAll given (.option name (some argument)) false rest
        | .plain, pending =>
            let (given, pending) ← readPlain given pending argument
            readAll given pending false rest

def Given.arguments (given : Given) : Except ArgumentError Arguments :=
  match given.input with
  | none => .error .missingRequiredArgument
  | some input =>
      .ok
        { input := input
          instancePath := given.instancePath
          element := given.element
          format := given.format.getD .json
          settings :=
            { placeholder := given.placeholder.getD Settings.default.placeholder
              defaultChoice := given.defaultChoice.getD Settings.default.defaultChoice
              maxDepth := given.maxDepth.getD Settings.default.maxDepth
              moduleTag := given.moduleTag.getD Settings.default.moduleTag }
          allowDoctype := given.allowDoctype }

def Arguments.read (arguments : List String) : Except ArgumentError Arguments := do
  (← readAll .nothing .nothing false arguments).arguments

end SchemaForms.CommandLine
