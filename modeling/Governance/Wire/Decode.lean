import Governance.Digest
import Governance.FieldPath.Text
import Governance.Identifier
import Governance.Wire.Named

/-!
# Reading records

How values of JSON are read as records. A record is an object of its fields, or an array of them in
the order of their declaration; fields that are not known are ignored. Which refusal is reported is
part of the format: members are visited in the order in which they are listed, the first one that
is refused decides, and only then the first field that is absent.
-/

set_option autoImplicit false

namespace Governance.Wire

inductive DecodeError where
  | invalidType (found : Json) (expected : String)
  | outOfRange (found : Int) (expected : String)
  | notOneMember
  | invalidLength (length : Nat) (expected : String)
  | missingField (name : String)
  | duplicateField (name : String)
  | unknownVariant (name : String) (known : List String)
  | unknownVariantIndex (index : Nat) (count : Nat)
  | emptyIdentifier (kind : IdentifierKind)
  | invalidFieldPath (text : String) (problem : PathProblem)
  | invalidDigest (problem : DigestError)
  | invalidTimestamp
  | invalidBundleId
  deriving DecidableEq

abbrev Decoded (α : Type) := Except DecodeError α

/-! ## Messages -/

def shape : Json → String
  | .null => "null"
  | .bool value => "boolean `" ++ Json.boolText value ++ "`"
  | .int value => "integer `" ++ toString value ++ "`"
  | .float value => "floating point `" ++ Json.floatText value ++ "`"
  | .str text => "string " ++ Text.quote text
  | .arr _ => "sequence"
  | .obj _ => "map"

def oneOf : List String → String
  | [] => "there are no variants"
  | [a] => "expected `" ++ a ++ "`"
  | [a, b] => "expected `" ++ a ++ "` or `" ++ b ++ "`"
  | names => "expected one of " ++ ", ".intercalate (names.map fun name => "`" ++ name ++ "`")

def emptyIdentifierMessage (kind : IdentifierKind) : String :=
  "invalid " ++ kind.description ++ ": must be non-empty"

def invalidFieldPathMessage (text : String) (problem : PathProblem) : String :=
  "invalid field path \"" ++ text ++ "\": " ++ problem.message

def invalidDigestMessage (problem : DigestError) : String :=
  "integrity error: " ++ problem.message

def DecodeError.message : DecodeError → String
  | .invalidType found expected => "invalid type: " ++ shape found ++ ", expected " ++ expected
  | .outOfRange found expected =>
    "invalid value: integer `" ++ toString found ++ "`, expected " ++ expected
  | .notOneMember => "invalid value: map, expected map with a single key"
  | .invalidLength length expected =>
    "invalid length " ++ toString length ++ ", expected " ++ expected
  | .missingField name => "missing field `" ++ name ++ "`"
  | .duplicateField name => "duplicate field `" ++ name ++ "`"
  | .unknownVariant name known => "unknown variant `" ++ name ++ "`, " ++ oneOf known
  | .unknownVariantIndex index count =>
    "invalid value: integer `" ++ toString index ++ "`, expected variant index 0 <= i < "
      ++ toString count
  | .emptyIdentifier kind => emptyIdentifierMessage kind
  | .invalidFieldPath text problem => invalidFieldPathMessage text problem
  | .invalidDigest problem => invalidDigestMessage problem
  | .invalidTimestamp => "invalid timestamp"
  | .invalidBundleId => "invalid bundle id"

/-! ## Scalars -/

/-- Any value. Members are put in order, because they may come from a text. -/
def value (value : Json) : Decoded Json := .ok value.normalized

def text : Json → Decoded String
  | .str text => .ok text
  | found => .error (.invalidType found "a string")

def flag : Json → Decoded Bool
  | .bool value => .ok value
  | found => .error (.invalidType found "a boolean")

def int64 : Json → Decoded Int64
  | .int value =>
    if Int64.minValue.toInt ≤ value ∧ value ≤ Int64.maxValue.toInt then .ok (Int64.ofInt value)
    else .error (.outOfRange value "i64")
  | found => .error (.invalidType found "i64")

def word64 (expected : String) : Json → Decoded UInt64
  | .int value =>
    if 0 ≤ value ∧ value ≤ (Text.wordMax : Int) then .ok (UInt64.ofNat value.toNat)
    else .error (.outOfRange value expected)
  | found => .error (.invalidType found expected)

def identifier (kind : IdentifierKind) (found : Json) : Decoded (Identifier kind) :=
  match text found with
  | .error refusal => .error refusal
  | .ok text =>
    match Identifier.ofText? kind text with
    | some id => .ok id
    | none => .error (.emptyIdentifier kind)

def fieldPath (found : Json) : Decoded FieldPath :=
  match text found with
  | .error refusal => .error refusal
  | .ok text => (FieldPath.parse text).mapError (.invalidFieldPath text)

def digest (found : Json) : Decoded ContentDigest :=
  match text found with
  | .error refusal => .error refusal
  | .ok text => (ContentDigest.parse text).mapError .invalidDigest

/-! ## Containers -/

def optional {α : Type} (read : Json → Decoded α) : Json → Decoded (Option α)
  | .null => .ok none
  | found => (read found).map some

def items {α : Type} (read : Json → Decoded α) : List Json → Decoded (List α)
  | [] => .ok []
  | item :: rest =>
    match read item with
    | .error refusal => .error refusal
    | .ok item => (items read rest).map (item :: ·)

def list {α : Type} (read : Json → Decoded α) : Json → Decoded (List α)
  | .arr found => items read found
  | found => .error (.invalidType found "a sequence")

/-- Reads the entries of a map in the order in which they are listed, each key before its value. A
later entry replaces an earlier one with an equal key. -/
def entries {κ ν : Type} [KeyOrder κ] [DecidableLT κ] (key : String → Decoded κ)
    (read : Json → Decoded ν) : List (String × Json) → SortedMap κ ν → Decoded (SortedMap κ ν)
  | [], map => .ok map
  | (name, found) :: rest, map =>
    match key name with
    | .error refusal => .error refusal
    | .ok key' =>
      match read found with
      | .error refusal => .error refusal
      | .ok value => entries key read rest (map.insert key' value)

def map {κ ν : Type} [KeyOrder κ] [DecidableLT κ] (key : String → Decoded κ)
    (read : Json → Decoded ν) : Json → Decoded (SortedMap κ ν)
  | .obj members => entries key read members {}
  | found => .error (.invalidType found "a map")

/-! ## Names -/

def variant {α : Type} [Named α] (name : String) : Decoded α :=
  match ofName? α name with
  | some value => .ok value
  | none => .error (.unknownVariant name (names α))

/-- What may stand beside a name that is written as the only key of an object. -/
def unit : Json → Decoded Unit
  | .null => .ok ()
  | found => .error (.invalidType found "unit")

/-- A name, read by the given function. The name may also be the key of an object with a single
member, whose value then has to be empty. -/
def nameWith {α : Type} (content : Json → Decoded Unit) (read : String → Decoded α) :
    Json → Decoded α
  | .str name => read name
  | .obj [(name, found)] =>
    match read name with
    | .error refusal => .error refusal
    | .ok value => (content found).map fun _ => value
  | .obj _ => .error .notOneMember
  | found => .error (.invalidType found "string or map")

def named {α : Type} [Named α] : Json → Decoded α := nameWith unit variant

/-! ## Records -/

structure RecordName where
  name : String
  count : Nat

def elementCount (count : Nat) : String :=
  toString count ++ if count = 1 then " element" else " elements"

/-- What keeps a record from being read: a field that is refused, with the place at which it was
given; an array that ends at the place of a field; or a field that was not given by name. -/
inductive Fault where
  | refused (place : Nat) (cause : DecodeError)
  | tooShort (place : Nat)
  | absent (name : String)

namespace Fault

/-- The place at which a fault shows, if it shows before the whole record has been visited. -/
def place? : Fault → Option Nat
  | .refused place _ => some place
  | .tooShort place => some place
  | .absent _ => none

/-- The fault that is reported when there are two: the one at the earlier place, or else the one of
the field that is declared first. -/
def earlier (first second : Fault) : Fault :=
  match first.place?, second.place? with
  | some p, some q => if q < p then second else first
  | none, some _ => second
  | _, none => first

def toError (record : RecordName) : Fault → DecodeError
  | .refused _ cause => cause
  | .tooShort place =>
    .invalidLength place (record.name ++ " with " ++ elementCount record.count)
  | .absent name => .missingField name

end Fault

structure Fields (α : Type) where
  result : Except Fault α

namespace Fields

variable {α β : Type}

instance : Functor Fields where
  map f fields := ⟨fields.result.map f⟩

def combine (first : Fields (α → β)) (second : Fields α) : Fields β :=
  ⟨match first.result, second.result with
    | .ok f, .ok value => .ok (f value)
    | .ok _, .error fault => .error fault
    | .error fault, .ok _ => .error fault
    | .error fault, .error fault' => .error (fault.earlier fault')⟩

instance : Seq Fields where
  seq first second := first.combine (second ())

end Fields

inductive Given (σ : Type) where
  | byName (members : List (String × σ))
  | byPlace (items : List σ)

def valuesOf {σ : Type} (name : String) : Nat → List (String × σ) → List (Nat × σ)
  | _, [] => []
  | place, (candidate, found) :: rest =>
    if candidate = name then (place, found) :: valuesOf name (place + 1) rest
    else valuesOf name (place + 1) rest

namespace Given

variable {σ α : Type}

/-- Reads a field by its name or by its place in the declaration. The value of a field that was not
given is `absent`, if there is such a value. A name must not be given twice. -/
def fieldOr (absent : Option α) (place : Nat) (name : String) (read : σ → Decoded α)
    (given : Given σ) : Fields α :=
  ⟨match given with
    | .byName members =>
      match valuesOf name 0 members, absent with
      | [], some value => .ok value
      | [], none => .error (.absent name)
      | (first, found) :: repeated, _ =>
        match read found with
        | .error refusal => .error (.refused first refusal)
        | .ok value =>
          match repeated with
          | [] => .ok value
          | (second, _) :: _ => .error (.refused second (.duplicateField name))
    | .byPlace items =>
      match items[place]?, absent with
      | none, some value => .ok value
      | none, none => .error (.tooShort place)
      | some found, _ => (read found).mapError (.refused place)⟩

def field (place : Nat) (name : String) (read : σ → Decoded α) (given : Given σ) : Fields α :=
  given.fieldOr none place name read

def optionalField (place : Nat) (name : String) (read : Json → Decoded α) (given : Given Json) :
    Fields (Option α) :=
  given.fieldOr (some none) place name (optional read)

def length : Given σ → Nat
  | .byName _ => 0
  | .byPlace items => items.length

end Given

/-- Reads the fields of a record. Values that are given by place may not be more than the record
has fields; `surplus` is what should have been given instead. -/
def readFields {σ α : Type} (record : RecordName) (surplus : String)
    (read : Given σ → Fields α) (given : Given σ) : Decoded α :=
  match (read given).result with
  | .error fault => .error (fault.toError record)
  | .ok value =>
    if record.count < given.length then .error (.invalidLength given.length surplus)
    else .ok value

def record {α : Type} (name : String) (count : Nat) (read : Given Json → Fields α) :
    Json → Decoded α
  | .obj members => readFields ⟨name, count⟩ "fewer elements in array" read (.byName members)
  | .arr items => readFields ⟨name, count⟩ "fewer elements in array" read (.byPlace items)
  | found => .error (.invalidType found name)

def present (name : String) : Option Json → List (String × Json)
  | none => []
  | some value => [(name, value)]

/-! ## Records with a tag -/

def taggedFields {σ α : Type} (name : String) (count : Nat) (read : Given σ → Fields α) :
    Given σ → Decoded α :=
  readFields ⟨name, count⟩ (elementCount count ++ " in sequence") read

/-- Finds the tag of a record and what is given beside it: in an object the member with the name of
the tag, in an array the first element. -/
def splitTag {σ : Type} (tag : String) : Given σ → Decoded (σ × Given σ)
  | .byName members =>
    match valuesOf tag 0 members with
    | [] => .error (.missingField tag)
    | [(_, found)] => .ok (found, .byName (members.filter fun member => member.1 ≠ tag))
    | _ => .error (.duplicateField tag)
  | .byPlace [] => .error (.missingField tag)
  | .byPlace (found :: rest) => .ok (found, .byPlace rest)

end Governance.Wire
