/-!
# Arguments of the command

The command takes configuration files as `-c FILE` or `--config FILE`, a log level as `--log-level TEXT`, and
overrides as everything that is no option. A long option may carry its value behind an equals sign, a short one
directly behind its letter; otherwise the next argument is the value, whatever it looks like. Two dashes alone
end the options.
-/

namespace LayeredConfig.CommandLine

/-- Why arguments are refused. -/
inductive UsageFault where
  /-- There is no option of this name. -/
  | unknownOption (name : String)
  /-- An option is used without the value that it takes, or with a value although it takes none. -/
  | misusedOption (name : String)
  /-- The value of an option is not a file. -/
  | refusedValue (name value : String)
  deriving DecidableEq, Repr

/-- The wording of a fault. -/
def UsageFault.message : UsageFault → String
  | unknownOption name => s!"No such option: {name}"
  | misusedOption name => s!"Option '{name}' is used wrongly."
  | refusedValue name value => s!"Invalid value for '{name}': File '{value}' is a directory."

/-- What arguments ask for. -/
structure Invocation where
  files : List String
  level : String
  overrides : List String
  help : Bool
  deriving DecidableEq, Repr

namespace Invocation

/-- What no arguments ask for. -/
def none : Invocation := ⟨[], "WARNING", [], false⟩

end Invocation

/-- The options of the command. -/
inductive Switch where
  | config
  | logLevel
  | help
  deriving DecidableEq, Repr

namespace Switch

/-- Whether an option takes a value. -/
def takesValue : Switch → Bool
  | config | logLevel => true
  | help => false

/-- The option of a long name. -/
def ofLong? (name : String) : Option Switch :=
  [("--config", config), ("--log-level", logLevel), ("--help", help)].lookup name

/-- The option of a letter. -/
def ofLetter? (letter : Char) : Option Switch :=
  [('c', config)].lookup letter

/-- An invocation in which an option is given; `value` is used only by options that take one. -/
def apply (switch : Switch) (value : String) (invocation : Invocation) : Invocation :=
  match switch with
  | config => { invocation with files := invocation.files ++ [value] }
  | logLevel => { invocation with level := value }
  | help => { invocation with help := true }

end Switch

/-- How an argument reads on its own. -/
inductive Word where
  /-- It is no option. -/
  | plain (text : String)
  /-- It ends the options. -/
  | endOfOptions
  /-- It is an option with its value. -/
  | complete (switch : Switch) (value : String)
  /-- It is an option whose value is the next argument. -/
  | needsValue (switch : Switch) (name : String)
  /-- It is an option that takes no value. -/
  | flag (switch : Switch)
  | fault (fault : UsageFault)

namespace Word

/-- Splits a text at its first equals sign. -/
def splitValue : List Char → List Char × Option (List Char)
  | [] => ([], none)
  | '=' :: rest => ([], some rest)
  | c :: rest =>
    let (name, value) := splitValue rest
    (c :: name, value)

/-- Reads an argument that begins with two dashes. -/
def ofLong (chars : List Char) : Word :=
  let (nameChars, value) := splitValue chars
  let name := String.ofList nameChars
  match Switch.ofLong? name with
  | none => .fault (.unknownOption name)
  | some switch =>
    match switch.takesValue, value with
    | true, some value => .complete switch (String.ofList value)
    | true, none => .needsValue switch name
    | false, some _ => .fault (.misusedOption name)
    | false, none => .flag switch

/-- Reads an argument that begins with one dash and this letter. -/
def ofShort (letter : Char) (rest : List Char) : Word :=
  let name := String.ofList ['-', letter]
  match Switch.ofLetter? letter with
  | none => .fault (.unknownOption name)
  | some switch =>
    if rest.isEmpty then .needsValue switch name else .complete switch (String.ofList rest)

/-- Reads an argument. -/
def ofText (text : String) : Word :=
  match text.toList with
  | ['-', '-'] => .endOfOptions
  | '-' :: '-' :: _ => ofLong text.toList
  | '-' :: letter :: rest => ofShort letter rest
  | _ => .plain text

end Word

/-- Adds what arguments ask for to an invocation. -/
def parseOver (invocation : Invocation) : List String → Except UsageFault Invocation
  | [] => .ok invocation
  | text :: rest =>
    match Word.ofText text with
    | .plain text => parseOver { invocation with overrides := invocation.overrides ++ [text] } rest
    | .endOfOptions => .ok { invocation with overrides := invocation.overrides ++ rest }
    | .complete switch value => parseOver (switch.apply value invocation) rest
    | .flag switch => parseOver (switch.apply "" invocation) rest
    | .fault fault => .error fault
    | .needsValue switch name =>
      match rest with
      | [] => .error (.misusedOption name)
      | value :: rest => parseOver (switch.apply value invocation) rest

/-- What arguments ask for. -/
def parse (arguments : List String) : Except UsageFault Invocation :=
  parseOver .none arguments

end LayeredConfig.CommandLine
