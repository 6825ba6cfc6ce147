/-!
# Arguments

What the program is asked to do. Options may stand before or after other arguments, their values
behind a blank or an equals sign. A value behind a blank must not look like an option. An option
may be given only once, unless it is one that counts or collects.
-/

set_option autoImplicit false

namespace Governance.CommandLine

inductive RuleSource where
  | rules (path : String)
  | effective (path : String)
  deriving DecidableEq, Repr

inductive Command where
  | evaluate (event : String) (source : RuleSource) (explain : Bool)
  | effective (scopes policies target : String) (previous : Option String)
  | bundle (event verdict : String) (extras : List String)
  | hash (file : String) (unregistered : Bool)
  | verify (bundle : String)
  | validate (rules scopes : Option String)
  deriving DecidableEq, Repr

structure Invocation where
  config : Option String
  command : Command
  deriving DecidableEq, Repr

inductive Request where
  | version
  | help
  | run (invocation : Invocation)
  deriving DecidableEq, Repr

namespace Command

def paths : Command → List String
  | .evaluate event (.rules path) _ => [event, path]
  | .evaluate event (.effective path) _ => [event, path]
  | .effective scopes policies _ previous => [scopes, policies] ++ previous.toList
  | .bundle event verdict _ => [event, verdict]
  | .hash file _ => [file]
  | .verify path => [path]
  | .validate rules scopes => rules.toList ++ scopes.toList

end Command

def Invocation.paths (invocation : Invocation) : List String :=
  invocation.config.toList ++ invocation.command.paths

/-! ## Tokens -/

inductive Token where
  | long (name : String) (value : Option String)
  | letters (letters : List Char)
  | stop
  | word (text : String)
  deriving DecidableEq, Repr

/-- The form of an argument. A single hyphen is a word. -/
def Token.ofText (text : String) : Token :=
  match text.toList with
  | '-' :: '-' :: rest =>
    if rest.isEmpty then .stop
    else
      let name := String.ofList (rest.takeWhile (· ≠ '='))
      match rest.dropWhile (· ≠ '=') with
      | [] => .long name none
      | _ :: value => .long name (some (String.ofList value))
  | '-' :: letter :: rest => .letters (letter :: rest)
  | _ => .word text

def isValue (text : String) : Bool :=
  match Token.ofText text with
  | .word _ => true
  | _ => false

/-! ## Options -/

/-- How often an option may be given, and with what: once without a value, any number of times
without a value, once with a path or a text, any number of times with a text; or at once. -/
inductive OptionKind where
  | flag
  | counted
  | path
  | text
  | texts
  | immediate (request : Request)
  deriving DecidableEq, Repr

structure OptionSpec where
  name : String
  kind : OptionKind
  letter : Option Char := none
  deriving DecidableEq, Repr

def commonOptions : List OptionSpec :=
  [⟨"verbose", .counted, some 'v'⟩, ⟨"log-json", .flag, none⟩, ⟨"config", .path, none⟩,
    ⟨"help", .immediate .help, some 'h'⟩]

def leadingOptions : List OptionSpec :=
  commonOptions ++ [⟨"version", .immediate .version, some 'V'⟩]

structure Arguments where
  options : List (String × String) := []
  words : List String := []
  deriving Repr

namespace Arguments

def values (arguments : Arguments) (name : String) : List String :=
  (arguments.options.filter fun option => option.1 == name).map Prod.snd

def value? (arguments : Arguments) (name : String) : Option String :=
  (arguments.values name).head?

def has (arguments : Arguments) (name : String) : Bool := (arguments.value? name).isSome

def add? (arguments : Arguments) (spec : OptionSpec) (value : String) : Option Arguments :=
  let again := arguments.has spec.name
  let added := { arguments with options := arguments.options ++ [(spec.name, value)] }
  match spec.kind with
  | .counted => some added
  | .texts => some added
  | .path => if again || value.isEmpty then none else some added
  | _ => if again then none else some added

end Arguments

inductive Reading where
  | immediate (request : Request)
  | arguments (given : Arguments) (rest : List String)

def readLetters (specs : List OptionSpec) : List Char → Arguments → Option (Request ⊕ Arguments)
  | [], given => some (.inr given)
  | letter :: rest, given =>
    match specs.find? fun spec => spec.letter == some letter with
    | none => none
    | some spec =>
      match spec.kind with
      | .immediate request => some (.inl request)
      | _ => (given.add? spec "").bind (readLetters specs rest)

/-- Reads options and words. Words are collected, or the first one ends the reading. Behind a
double hyphen everything is a word. -/
def readArguments (specs : List OptionSpec) (collect : Bool) :
    List String → Arguments → Option Reading
  | [], given => some (.arguments given [])
  | text :: rest, given =>
    match Token.ofText text with
    | .stop => some (.arguments { given with words := given.words ++ rest } [])
    | .word word =>
      if collect then readArguments specs collect rest { given with words := given.words ++ [word] }
      else some (.arguments given (word :: rest))
    | .letters letters =>
      match readLetters specs letters given with
      | none => none
      | some (.inl request) => some (.immediate request)
      | some (.inr given) => readArguments specs collect rest given
    | .long name value =>
      match specs.find? fun spec => spec.name == name with
      | none => none
      | some spec =>
        let takesValue := match spec.kind with
          | .path => true
          | .text => true
          | .texts => true
          | _ => false
        match takesValue, value, rest with
        | true, some value, rest => (given.add? spec value).bind (readArguments specs collect rest)
        | true, none, value :: rest =>
          if isValue value then (given.add? spec value).bind (readArguments specs collect rest)
          else none
        | true, none, [] => none
        | false, some _, _ => none
        | false, none, rest =>
          match spec.kind with
          | .immediate request => some (.immediate request)
          | _ => (given.add? spec "").bind (readArguments specs collect rest)

/-! ## Commands -/

def optionsOf? : String → Option (List OptionSpec)
  | "evaluate" => some [⟨"event", .path, none⟩, ⟨"rules", .path, none⟩,
      ⟨"effective", .path, none⟩, ⟨"explain", .flag, none⟩]
  | "effective" => some [⟨"scopes", .path, none⟩, ⟨"policies", .path, none⟩,
      ⟨"target", .text, none⟩, ⟨"previous", .path, none⟩]
  | "bundle" => some [⟨"event", .path, none⟩, ⟨"verdict", .path, none⟩, ⟨"extra", .texts, none⟩]
  | "hash" => some [⟨"unregistered", .flag, none⟩]
  | "verify" => some [⟨"bundle", .path, none⟩]
  | "validate" => some [⟨"rules", .path, none⟩, ⟨"scopes", .path, none⟩]
  | _ => none

/-- Whether there is help on what a request for help names: nothing, a command, or help itself. -/
def isTopic : List String → Bool
  | [] => true
  | ["help"] => true
  | [name] => (optionsOf? name).isSome
  | _ => false

def commandOf? (name : String) (given : Arguments) : Option Command :=
  match name, given.words with
  | "evaluate", [] => do
    let event ← given.value? "event"
    let source ← match given.value? "rules", given.value? "effective" with
      | some path, none => some (RuleSource.rules path)
      | none, some path => some (RuleSource.effective path)
      | _, _ => none
    some (.evaluate event source (given.has "explain"))
  | "effective", [] => do
    let scopes ← given.value? "scopes"
    let policies ← given.value? "policies"
    let target ← given.value? "target"
    some (.effective scopes policies target (given.value? "previous"))
  | "bundle", [] => do
    let event ← given.value? "event"
    let verdict ← given.value? "verdict"
    some (.bundle event verdict (given.values "extra"))
  | "hash", [file] => if file.isEmpty then none else some (.hash file (given.has "unregistered"))
  | "verify", [] => (given.value? "bundle").map .verify
  | "validate", [] =>
    match given.value? "rules", given.value? "scopes" with
    | none, none => none
    | rules, scopes => some (.validate rules scopes)
  | _, _ => none

/-- What a list of arguments asks for, or nothing if it cannot be understood. A configuration
behind the command takes the place of one in front of it. -/
def Request.parse? (arguments : List String) : Option Request :=
  match readArguments leadingOptions false arguments {} with
  | none => none
  | some (.immediate request) => some request
  | some (.arguments _ []) => none
  | some (.arguments _ ("help" :: topics)) => if isTopic topics then some .help else none
  | some (.arguments leading (name :: rest)) => do
    let specs ← optionsOf? name
    match ← readArguments (commonOptions ++ specs) true rest {} with
    | .immediate request => some request
    | .arguments given _ =>
      let command ← commandOf? name given
      some (.run ⟨(given.value? "config").or (leading.value? "config"), command⟩)

end Governance.CommandLine
