import Governance.Yaml.Token

/-!
# Nodes

A YAML document of scalars, lists and maps, and how it is put together from tokens. An alias is the
node with its anchor. A text holds one document; a text without tokens is an empty plain scalar.
-/

set_option autoImplicit false

namespace Governance.Yaml

inductive Node where
  | plain (text : String)
  | quoted (text : String)
  | list (items : List Node)
  | map (members : List (Node × Node))
  deriving Inhabited

def Node.empty : Node := .plain ""

structure Feed where
  tokens : List Token
  anchors : List (String × Node) := []

namespace Feed

def isAt (marks : List Token) (feed : Feed) : Bool := feed.tokens.head?.any marks.contains

def after? (mark : Token) (feed : Feed) : Option Feed :=
  if feed.isAt [mark] then some { feed with tokens := feed.tokens.drop 1 } else none

def opening (name : String) (feed : Feed) : Feed :=
  { feed with anchors := feed.anchors.filter fun entry => entry.1 != name }

/-- The feed behind the node with an anchor. An anchor of the same name within it is a later one. -/
def closing (name : String) (node : Node) (feed : Feed) : Feed :=
  if feed.anchors.any fun entry => entry.1 == name then feed
  else { feed with anchors := (name, node) :: feed.anchors }

end Feed

/-- What a node may be at its place: in block style or only in flow style, and whether it may be a
list that is not indented. -/
structure Place where
  block : Bool
  unindented : Bool

namespace Place

def element : Place := ⟨true, false⟩

def member : Place := ⟨true, true⟩

def flow : Place := ⟨false, false⟩

def begins (place : Place) : Token → Bool
  | .plain _ => true
  | .quoted _ => true
  | .flowList => true
  | .flowMap => true
  | .blockList => place.block
  | .blockMap => place.block
  | .item => place.unindented
  | _ => false

end Place

namespace Node

mutual

def read? : Nat → Place → Feed → Option (Node × Feed)
  | 0, _, _ => none
  | steps + 1, place, feed =>
    match feed.tokens with
    | .alias name :: rest =>
      (feed.anchors.find? fun entry => entry.1 == name).map fun entry =>
        (entry.2, { feed with tokens := rest })
    | .anchor name :: rest =>
      let feed := { feed with tokens := rest }
      if feed.tokens.head?.any place.begins then
        (readContent? steps place (feed.opening name)).map fun (node, feed) =>
          (node, feed.closing name node)
      else some (empty, (feed.opening name).closing name empty)
    | _ => readContent? steps place feed

def readContent? : Nat → Place → Feed → Option (Node × Feed)
  | 0, _, _ => none
  | steps + 1, place, feed =>
    match feed.tokens with
    | [] => none
    | token :: rest =>
      if !place.begins token then none
      else
        let behind := { feed with tokens := rest }
        match token with
        | .plain text => some (.plain text, behind)
        | .quoted text => some (.quoted text, behind)
        | .flowList => (readFlowItems? steps true behind).map fun (items, feed) =>
          (.list items, feed)
        | .flowMap => (readFlowMembers? steps true behind).map fun (members, feed) =>
          (.map members, feed)
        | .blockList => do
          let (items, feed) ← readItems? steps [.item, .blockEnd] behind
          let feed ← feed.after? .blockEnd
          some (.list items, feed)
        | .blockMap => (readMembers? steps behind).map fun (members, feed) => (.map members, feed)
        | .item => (readItems? steps [.item, .key, .value, .blockEnd] feed).map fun (items, feed) =>
          (.list items, feed)
        | _ => none

def readUnless? : Nat → List Token → Place → Feed → Option (Node × Feed)
  | 0, _, _, _ => none
  | steps + 1, marks, place, feed =>
    if feed.isAt marks then some (empty, feed) else read? steps place feed

def readItems? : Nat → List Token → Feed → Option (List Node × Feed)
  | 0, _, _ => none
  | steps + 1, marks, feed =>
    match feed.after? .item with
    | none => some ([], feed)
    | some feed => do
      let (item, feed) ← readUnless? steps marks .element feed
      let (items, feed) ← readItems? steps marks feed
      some (item :: items, feed)

/-- The members of a map in block style up to its end, and what is left. A key or a value may be
missing. -/
def readMembers? : Nat → Feed → Option (List (Node × Node) × Feed)
  | 0, _ => none
  | steps + 1, feed =>
    match feed.after? .blockEnd with
    | some feed => some ([], feed)
    | none => do
      let marks := [.key, .value, .blockEnd]
      let feed ← feed.after? .key
      let (key, feed) ← readUnless? steps marks .member feed
      let (value, feed) ← match feed.after? .value with
        | none => some (empty, feed)
        | some feed => readUnless? steps marks .member feed
      let (members, feed) ← readMembers? steps feed
      some ((key, value) :: members, feed)

def readFlowValue? : Nat → Token → Feed → Option (Node × Feed)
  | 0, _, _ => none
  | steps + 1, ending, feed =>
    match feed.after? .value with
    | none => some (empty, feed)
    | some feed => readUnless? steps [.comma, ending] .flow feed

/-- The elements of a list in flow style up to its end, and what is left. An element may be a single
pair. The key of a pair that has none takes the token behind its mark. -/
def readFlowItems? : Nat → Bool → Feed → Option (List Node × Feed)
  | 0, _, _ => none
  | steps + 1, first, feed =>
    match feed.after? .flowListEnd with
    | some feed => some ([], feed)
    | none => do
      let feed ← if first then some feed else feed.after? .comma
      match feed.after? .flowListEnd with
      | some feed => some ([], feed)
      | none =>
        let (item, feed) ← match feed.after? .key with
          | none => read? steps .flow feed
          | some feed => do
            let (key, feed) ←
              if feed.isAt [.value, .comma, .flowListEnd] then
                some (empty, { feed with tokens := feed.tokens.drop 1 })
              else read? steps .flow feed
            let (value, feed) ← readFlowValue? steps .flowListEnd feed
            some (.map [(key, value)], feed)
        let (items, feed) ← readFlowItems? steps false feed
        some (item :: items, feed)

/-- The members of a map in flow style up to its end, and what is left. A node without the mark of a
key has no value. -/
def readFlowMembers? : Nat → Bool → Feed → Option (List (Node × Node) × Feed)
  | 0, _, _ => none
  | steps + 1, first, feed =>
    match feed.after? .flowMapEnd with
    | some feed => some ([], feed)
    | none => do
      let feed ← if first then some feed else feed.after? .comma
      match feed.after? .flowMapEnd with
      | some feed => some ([], feed)
      | none =>
        let (member, feed) ← match feed.after? .key with
          | none => (read? steps .flow feed).map fun (key, feed) => ((key, empty), feed)
          | some feed => do
            let (key, feed) ← readUnless? steps [.value, .comma, .flowMapEnd] .flow feed
            let (value, feed) ← readFlowValue? steps .flowMapEnd feed
            some ((key, value), feed)
        let (members, feed) ← readFlowMembers? steps false feed
        some (member :: members, feed)

end

def ofTokens? (tokens : List Token) : Option Node := do
  let steps := 4 * tokens.length + 4
  let (node, feed) ← match tokens with
    | [] => some (empty, { tokens })
    | .documentStart :: tokens =>
      let feed : Feed := { tokens }
      if tokens.isEmpty then some (empty, feed)
      else readUnless? steps [.documentStart, .documentEnd] .element feed
    | _ => read? steps .element { tokens }
  if feed.tokens.all (· == .documentEnd) then some node else none

def ofText? (text : String) : Option Node := (Token.ofText? text).bind ofTokens?

end Node

end Governance.Yaml
