import Unmangle.Text.Decimal

/-!
# Command lines

A command line is a command with its input and options. Some options belong to the program as a
whole and may stand before the command or behind it; if one of these stands at both places, the
place behind the command decides. At one place no option may stand twice. The value of an option is
the next argument or follows an equals sign, and after two dashes everything is an input.
-/

namespace Unmangle.CommandLine

inductive OutputFormat where
  | text
  | json
deriving DecidableEq, Repr

/-- The look of text output. -/
inductive TextStyle where
  | plain
  | styled
  | ansi
deriving DecidableEq, Repr

inductive LogLevel where
  | trace
  | debug
  | info
  | warn
  | error
deriving DecidableEq, Repr

/-- The options that some part of a command line gives. -/
structure Settings where
  logLevel : Option LogLevel := none
  logJson : Bool := false
  config : Option String := none
  format : Option OutputFormat := none
  noColor : Bool := false
  fullNames : Bool := false
  noGenericNames : Bool := false
  maxDepth : Option Nat := none
  style : Option TextStyle := none
  index : Option Nat := none
  input : Option String := none
deriving DecidableEq, Repr, Inhabited

inductive Command where
  /-- Render the exception at the root of a document. -/
  | render (input : String)
  /-- Render one frame of it. -/
  | frame (input : String) (index : Nat)
deriving DecidableEq, Repr

/-- A command line that makes sense. -/
structure Invocation where
  command : Command
  config : Option String := none
  format : OutputFormat := .text
  style : TextStyle := .plain
  noColor : Bool := false
  fullNames : Bool := false
  noGenericNames : Bool := false
  maxDepth : Option Nat := none
deriving DecidableEq, Repr

inductive Request where
  | version
  | invoke (invocation : Invocation)
deriving DecidableEq, Repr

/-- Where on a command line an argument stands. -/
inductive Place where
  | beforeCommand
  | afterRender
  | afterFrame
deriving DecidableEq, Repr

/-- Sets what may be set once. -/
def once {α : Type} (old : Option α) (new : Option α) : Option (Option α) :=
  match old, new with
  | none, some value => some (some value)
  | _, _ => none

/-- Raises a flag that may be raised once. -/
def raise (old : Bool) : Option Bool := if old then none else some true

namespace Settings

/-- Raises the flag of an option that takes no value. Nothing if there is no such flag. -/
def flag? (settings : Settings) (name : String) : Option (Option Settings) :=
  match name with
  | "log-json" => some ((raise settings.logJson).map fun logJson => { settings with logJson })
  | "no-color" => some ((raise settings.noColor).map fun noColor => { settings with noColor })
  | "full-names" =>
    some ((raise settings.fullNames).map fun fullNames => { settings with fullNames })
  | "no-generic-names" =>
    some ((raise settings.noGenericNames).map fun noGenericNames =>
      { settings with noGenericNames })
  | _ => none

def logLevels : List (String × LogLevel) :=
  [("trace", .trace), ("debug", .debug), ("info", .info), ("warn", .warn), ("error", .error)]

def formats : List (String × OutputFormat) := [("text", .text), ("json", .json)]

def styles : List (String × TextStyle) := [("plain", .plain), ("styled", .styled), ("ansi", .ansi)]

/-- Sets an option to a value. Nothing if the option is unknown at this place, set already, or
not to be set to this value. -/
def set? (place : Place) (settings : Settings) (name value : String) : Option Settings :=
  match name with
  | "log-level" =>
    (once settings.logLevel (logLevels.lookup value)).map fun logLevel =>
      { settings with logLevel }
  | "config" =>
    (once settings.config (if value.isEmpty then none else some value)).map fun config =>
      { settings with config }
  | "format" =>
    (once settings.format (formats.lookup value)).map fun format => { settings with format }
  | "max-depth" =>
    (once settings.maxDepth (Text.count? value.toList)).map fun maxDepth =>
      { settings with maxDepth }
  | "style" =>
    if place = .beforeCommand then none
    else (once settings.style (styles.lookup value)).map fun style => { settings with style }
  | "index" =>
    if place ≠ .afterFrame then none
    else
      (once settings.index (Text.count? value.toList)).map fun index => { settings with index }
  | _ => none

def setInput? (settings : Settings) (value : String) : Option Settings :=
  (once settings.input (some value)).map fun input => { settings with input }

end Settings

/-- What an argument looks like. -/
inductive Shape where
  /-- Two dashes alone. -/
  | separator
  /-- Two dashes, a name and perhaps a value behind an equals sign. -/
  | long (name : String) (value : Option String)
  /-- A dash and letters. -/
  | short (letters : List Char)
  | plain
deriving DecidableEq, Repr

def Shape.of (arg : String) : Shape :=
  match arg.toList with
  | ['-', '-'] => .separator
  | '-' :: '-' :: rest =>
    match rest.span (· != '=') with
    | (name, []) => .long (.ofList name) none
    | (name, _ :: value) => .long (.ofList name) (some (.ofList value))
  | ['-'] => .plain
  | '-' :: letters => .short letters
  | _ => .plain

/-- The rest of a command line behind two dashes: inputs only. -/
def readInputs? (settings : Settings) : List String → Option Settings
  | [] => some settings
  | arg :: rest => (settings.setInput? arg).bind fun settings => readInputs? settings rest

/-- The options and the input behind a command. -/
def readAfter? (place : Place) (settings : Settings) : List String → Option Settings
  | [] => some settings
  | arg :: rest =>
    match Shape.of arg with
    | .separator => readInputs? settings rest
    | .plain => (settings.setInput? arg).bind fun settings => readAfter? place settings rest
    | .short _ => none
    | .long name value =>
      match settings.flag? name, value with
      | some raised, none => raised.bind fun settings => readAfter? place settings rest
      | some _, some _ => none
      | none, some value =>
        (settings.set? place name value).bind fun settings => readAfter? place settings rest
      | none, none =>
        match rest with
        | value :: rest =>
          if Shape.of value = .plain then
            (settings.set? place name value).bind fun settings => readAfter? place settings rest
          else none
        | [] => none

/-- The command that options before and behind it make up. -/
def combine? (place : Place) (before after : Settings) : Option Request := do
  let input ← after.input
  let command ←
    match place with
    | .beforeCommand => none
    | .afterRender => some (.render input)
    | .afterFrame => after.index.map (.frame input)
  some <| .invoke
    { command
      config := after.config.or before.config
      format := (after.format.or before.format).getD .text
      style := after.style.getD .plain
      noColor := before.noColor || after.noColor
      fullNames := before.fullNames || after.fullNames
      noGenericNames := before.noGenericNames || after.noGenericNames
      maxDepth := after.maxDepth.or before.maxDepth }

/-- The place behind the command of some name. -/
def placeAfter? : String → Option Place
  | "render" => some .afterRender
  | "frame" => some .afterFrame
  | _ => none

/-- The options before the command, the command and all behind it. -/
def readBefore? (settings : Settings) : List String → Option Request
  | [] => none
  | arg :: rest =>
    match Shape.of arg with
    | .separator => none
    | .plain =>
      (placeAfter? arg).bind fun place =>
        (readAfter? place {} rest).bind (combine? place settings)
    | .short letters => if letters.head? = some 'V' then some .version else none
    | .long name value =>
      if name = "version" then if value.isNone then some .version else none
      else
        match settings.flag? name, value with
        | some raised, none => raised.bind fun settings => readBefore? settings rest
        | some _, some _ => none
        | none, some value =>
          (settings.set? .beforeCommand name value).bind fun settings => readBefore? settings rest
        | none, none =>
          match rest with
          | value :: rest =>
            if Shape.of value = .plain then
              (settings.set? .beforeCommand name value).bind fun settings =>
                readBefore? settings rest
            else none
          | [] => none

/-- Reads a command line; nothing if it makes no sense. -/
def parse? (args : List String) : Option Request := readBefore? {} args

end Unmangle.CommandLine
