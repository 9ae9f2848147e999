import ImageFS.Yaml.Token

/-!
# Documents

A document is a tree of scalars, lists and mappings. A missing value is an empty plain scalar, and a
mapping keeps its items in order, repeated keys too. A node with an anchor can be referred to from
behind its start on, from within itself too. References go by number: that of an anchor is how many
other names were known when it was met. Of several anchors with one number the last one counts.
-/

set_option autoImplicit false

namespace ImageFS.Yaml

inductive Node where
  | scalar (style : Style) (tag : Option String) (text : String)
  | list (items : List Node)
  | mapping (items : List (Node × Node))
  | reference (number : Nat)

def Node.empty : Node := .scalar .plain none ""

/-- A node with an anchor. `place` counts the anchors before it. -/
structure Anchored where
  number : Nat
  place : Nat
  node : Node

structure Document where
  root : Node
  anchored : List Anchored

def Document.target (d : Document) : Node → Node
  | .reference number =>
    let latest (found : Option Anchored) (a : Anchored) : Option Anchored :=
      if a.number = number ∧ found.all (·.place ≤ a.place) then some a else found
    ((d.anchored.foldl latest none).map (·.node)).getD .empty
  | node => node

def standardHandles : List (String × String) := [("!", "!"), ("!!", "tag:yaml.org,2002:")]

/-- The tokens to come, and what the ones before said of handles and anchors. `names` are the names of
anchors with their numbers, the latest first, and `known` is how many different ones there are. -/
structure Parser where
  tokens : List Token
  handles : List (String × String) := []
  names : List (String × Nat) := []
  known : Nat := 0
  places : Nat := 0
  anchored : List Anchored := []

abbrev ParserM := StateT Parser (Except Malformed)

namespace ParserM

def peek : ParserM (Option Token) := return (← get).tokens.head?

def skip : ParserM Unit := modify fun p => { p with tokens := p.tokens.tail }

def sees (ts : List Token) : ParserM Bool := return (← peek).any ts.contains

def skipIf (t : Token) : ParserM Bool := do
  if (← peek) = some t then
    skip
    return true
  return false

def anchor? : ParserM (Option String) := do
  match ← peek with
  | some (.anchor name) =>
    skip
    return some name
  | _ => return none

def tag? : ParserM (Option String) := do
  match ← peek with
  | some (.tag what) =>
    skip
    if what.handle = "" then return some what.name
    match (← get).handles.lookup what.handle with
    | some stem => return some (stem ++ what.name)
    | none => throw .unknownHandle
  | _ => return none

def properties : ParserM (Option String × Option String) := do
  match ← anchor? with
  | some anchor => return (some anchor, ← tag?)
  | none =>
    let tag ← tag?
    return (← if tag.isSome then anchor? else pure none, tag)

def enter (name : String) : ParserM (Nat × Nat) := do
  let p ← get
  let known := if (p.names.lookup name).isSome then p.known else p.known + 1
  set { p with names := (name, p.known) :: p.names, known, places := p.places + 1 }
  return (p.known, p.places)

def keep (node : Node) : Option (Nat × Nat) → ParserM Node
  | none => return node
  | some (number, place) => do
    modify fun p => { p with anchored := ⟨number, place, node⟩ :: p.anchored }
    return node

def refer (name : String) : ParserM Node := do
  match (← get).names.lookup name with
  | some number => return .reference number
  | none => throw .unknownAnchor

end ParserM

namespace Node

open ParserM

mutual

/-- Reads a node. The value of a mapping may be a list whose entries are not indented more than the
keys. -/
def parse : Nat → Bool → ParserM Node
  | 0, _ => throw .missingNode
  | fuel + 1, isValue => do
    match ← peek with
    | some (.reference name) =>
      skip
      refer name
    | _ =>
      let (anchor, tag) ← properties
      let place ← anchor.mapM enter
      let node ← parseContent fuel isValue (anchor.isSome || tag.isSome) tag
      keep node place

/-- Reads a node from behind its anchor and tag. If it has one of them the rest may be missing. -/
def parseContent : Nat → Bool → Bool → Option String → ParserM Node
  | 0, _, _, _ => throw .missingNode
  | fuel + 1, isValue, mayMiss, tag => do
    match ← peek with
    | some (.scalar style text) =>
      skip
      return .scalar style (tag.filter (· ≠ "!")) text
    | some .listStart =>
      skip
      return .list (← parseList fuel)
    | some .mappingStart =>
      skip
      return .mapping (← parseMapping fuel)
    | some .flowListStart =>
      skip
      return .list (← parseFlowList fuel true)
    | some .flowMappingStart =>
      skip
      return .mapping (← parseFlowMapping fuel true)
    | next =>
      if isValue ∧ next = some .entry then return .list (← parseFlatList fuel)
      if mayMiss then return .scalar .plain tag ""
      throw .missingNode

def parseUnless : Nat → Bool → List Token → ParserM Node
  | 0, _, _ => throw .missingNode
  | fuel + 1, isValue, ends => do
    if ← sees ends then return empty
    parse fuel isValue

def parseList : Nat → ParserM (List Node)
  | 0 => throw .missingDelimiter
  | fuel + 1 => do
    if ← skipIf .blockEnd then return []
    if !(← skipIf .entry) then throw .missingDelimiter
    let item ← parseUnless fuel false [.entry, .blockEnd]
    return item :: (← parseList fuel)

def parseFlatList : Nat → ParserM (List Node)
  | 0 => throw .missingDelimiter
  | fuel + 1 => do
    if !(← skipIf .entry) then return []
    let item ← parseUnless fuel false [.entry, .key, .value, .blockEnd]
    return item :: (← parseFlatList fuel)

def parseMapping : Nat → ParserM (List (Node × Node))
  | 0 => throw .missingDelimiter
  | fuel + 1 => do
    if ← skipIf .blockEnd then return []
    if !(← skipIf .key) then throw .missingDelimiter
    let key ← parseUnless fuel true [.key, .value, .blockEnd]
    let value ←
      if ← skipIf .value then parseUnless fuel true [.key, .value, .blockEnd] else pure empty
    return (key, value) :: (← parseMapping fuel)

def parseFlowList : Nat → Bool → ParserM (List Node)
  | 0, _ => throw .missingDelimiter
  | fuel + 1, first => do
    if ← skipIf .flowListEnd then return []
    if !first then
      if !(← skipIf .comma) then throw .missingDelimiter
      if ← skipIf .flowListEnd then return []
    let item ← if ← skipIf .key then parsePair fuel else parse fuel false
    return item :: (← parseFlowList fuel false)

/-- Reads a mapping of a single pair within a flow list. Where its key is missing, the token that
shows this is skipped too. -/
def parsePair : Nat → ParserM Node
  | 0 => throw .missingNode
  | fuel + 1 => do
    let noKey ← sees [.value, .comma, .flowListEnd]
    let key ← parseUnless fuel false [.value, .comma, .flowListEnd]
    if noKey then skip
    let value ← if ← skipIf .value then parseUnless fuel false [.comma, .flowListEnd] else pure empty
    return .mapping [(key, value)]

/-- Reads the items of a flow mapping. An item without a question mark or a colon is a key. -/
def parseFlowMapping : Nat → Bool → ParserM (List (Node × Node))
  | 0, _ => throw .missingDelimiter
  | fuel + 1, first => do
    if ← skipIf .flowMappingEnd then return []
    if !first then
      if !(← skipIf .comma) then throw .missingDelimiter
      if ← skipIf .flowMappingEnd then return []
    let item ←
      if ← skipIf .key then
        let key ← parseUnless fuel false [.value, .comma, .flowMappingEnd]
        let value ← if ← skipIf .value then parseUnless fuel false [.comma, .flowMappingEnd] else pure empty
        pure (key, value)
      else pure (← parse fuel false, empty)
    return item :: (← parseFlowMapping fuel false)

end

end Node

namespace Document

open ParserM

/-- Takes note of the directives in front of a document. There may be one version, of those that the
format has had, and no handle twice. -/
def directives : List Directive → Bool → ParserM Unit
  | [], _ => return
  | .version major minor :: rest, versioned => do
    if versioned then throw .repeatedDirective
    if major ≠ 1 ∨ (minor ≠ 1 ∧ minor ≠ 2) then throw .unknownVersion
    directives rest true
  | .handle name stem :: rest, versioned => do
    if ((← get).handles.lookup name).isSome then throw .repeatedDirective
    modify fun p => { p with handles := (name, stem) :: p.handles }
    directives rest versioned

def directive? : Token → Option Directive
  | .directive what => some what
  | _ => none

def parse : ParserM Document := do
  let tokens := (← get).tokens
  let fuel := 4 * tokens.length + 4
  let found := (tokens.map directive?).takeWhile Option.isSome
  directives (found.filterMap id) false
  modify fun p => { p with tokens := p.tokens.drop found.length, handles := p.handles ++ standardHandles }
  let marked ← skipIf .documentStart
  if found ≠ [] ∧ !marked then throw .missingDocument
  let missing ←
    match ← peek with
    | none => pure true
    | some t => pure (marked && (t = .documentStart || t = .documentEnd || (directive? t).isSome))
  let root ← if missing then pure Node.empty else Node.parse fuel false
  let p ← get
  match p.tokens.dropWhile (· = .documentEnd) with
  | [] => return { root, anchored := p.anchored }
  | .documentStart :: _ => throw .severalDocuments
  | _ => throw .missingDelimiter

def ofText (text : String) : Except Malformed Document := do
  parse.run' { tokens := ← tokens text }

end Document

end ImageFS.Yaml
