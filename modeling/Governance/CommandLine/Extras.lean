import Governance.Json.Parser
import Governance.Text.Blank
import Governance.Text.Quoted
import Governance.Text.Split

/-!
# Extra facts

Facts that are added to a bundle on the command line as `key=value`. A value that is JSON text is
that value, any other is a text. Of two facts with one key the later one stays.
-/

set_option autoImplicit false

namespace Governance.CommandLine

inductive ExtraError where
  | notPair (argument : String)
  | emptyKey (argument : String)
  deriving DecidableEq, Repr

def ExtraError.message : ExtraError → String
  | .notPair argument => "extra " ++ Text.quote argument ++ " is not key=value"
  | .emptyKey argument => "extra " ++ Text.quote argument ++ " has an empty key"

/-- Reads one fact. Blanks around its key are dropped. -/
def readExtra (argument : String) : Except ExtraError (String × Json) :=
  match Text.splitOnce? '=' argument.toList with
  | none => .error (.notPair argument)
  | some (key, value) =>
    let key := Text.trim (String.ofList key)
    let value := String.ofList value
    if key.isEmpty then .error (.emptyKey argument)
    else .ok (key, (Json.parseValue? value).getD (.str value))

def readExtras : List String → Except ExtraError (List (String × Json))
  | [] => .ok []
  | argument :: rest =>
    match readExtra argument with
    | .error problem => .error problem
    | .ok extra => (readExtras rest).map (extra :: ·)

def parseExtras (arguments : List String) : Except ExtraError (SortedMap String Json) :=
  (readExtras arguments).map SortedMap.ofList

end Governance.CommandLine
