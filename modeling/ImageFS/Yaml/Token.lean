import ImageFS.Yaml.BlockScalar
import ImageFS.Yaml.Directive

/-!
# Tokens

A text is first cut into tokens. Indentation becomes tokens too: a block list or mapping opens where
its first item stands and closes at the first line that is indented less. Whether a node is a key
shows only at the colon behind it, so the place of a possible key is kept until then.
-/

set_option autoImplicit false

namespace ImageFS.Yaml

inductive Token where
  | directive (what : Directive)
  | documentStart
  | documentEnd
  | listStart
  | mappingStart
  | blockEnd
  | flowListStart
  | flowListEnd
  | flowMappingStart
  | flowMappingEnd
  | entry
  | comma
  | key
  | value
  | anchor (name : String)
  | reference (name : String)
  | tag (what : Tag)
  | scalar (style : Style) (text : String)
deriving DecidableEq

/-- The place of what may turn out to be a key: the number of tokens before it, and where it stands. -/
structure PossibleKey where
  tokens : Nat
  line : Nat
  column : Nat
  bytes : Nat
  required : Bool

def maxKeyLength : Nat := 1024

/-- The tokens so far, the latest first. `indents` are the columns of the open blocks, innermost first;
`outer` are the possible keys around each open flow collection. -/
structure Scan where
  cursor : Cursor
  indents : List Nat := []
  key : Option PossibleKey := none
  outer : List (Option PossibleKey) := []
  keyAllowed : Bool := true
  tokens : List Token := []
  count : Nat := 0

namespace Scan

def inFlow (s : Scan) : Bool := !s.outer.isEmpty

def indent (s : Scan) : Nat := (s.indents.head?.map (· + 1)).getD 0

def push (s : Scan) (t : Token) : Scan := { s with tokens := t :: s.tokens, count := s.count + 1 }

def insert (s : Scan) (place : Nat) (t : Token) : Scan :=
  let (later, earlier) := s.tokens.splitAt (s.count - place)
  { s with tokens := later ++ t :: earlier, count := s.count + 1 }

def past (s : Scan) (n : Nat) : Scan := { s with cursor := s.cursor.past n }

def closeBlocks (s : Scan) (column : Nat) : Scan :=
  if s.inFlow then s
  else { (s.indents.takeWhile (column < ·)).foldl (fun s _ => s.push .blockEnd) s with
    indents := s.indents.dropWhile (column < ·) }

def closeAll (s : Scan) : Scan :=
  { s.indents.foldl (fun s _ => s.push .blockEnd) s with indents := [] }

/-- Opens a block at a column that is indented more than the innermost one, with its first token at
the given place. -/
def openBlock (s : Scan) (column place : Nat) (t : Token) : Scan :=
  if s.inFlow || s.indents.head?.any (column ≤ ·) then s
  else { s.insert place t with indents := column :: s.indents }

def dropKey (s : Scan) : Except Malformed Scan :=
  match s.key with
  | some k => if k.required then .error .missingColon else .ok { s with key := none }
  | none => .ok s

def markKey (s : Scan) : Except Malformed Scan := do
  if !s.keyAllowed then return s
  let s ← s.dropKey
  let column := s.cursor.column
  return { s with key := some {
    tokens := s.count
    line := s.cursor.line
    column := column
    bytes := s.cursor.bytes
    required := !s.inFlow && s.indents.head? = some column } }

/-- A key ends on its line and is not too long. -/
def expireKey (s : Scan) : Except Malformed Scan :=
  match s.key with
  | some k =>
    if k.line < s.cursor.line ∨ k.bytes + maxKeyLength < s.cursor.bytes then s.dropKey else .ok s
  | none => .ok s

/-- Skips blanks, comments and line ends. A tab is no blank where a key may stand. -/
def skipSpace : Nat → Scan → Scan
  | 0, s => s
  | fuel + 1, s =>
    match s.cursor.rest with
    | [] => s
    | c :: _ =>
      if c = ' ' ∨ (c = byteOrderMark ∧ s.cursor.column = 0) ∨ (c = '\t' ∧ (s.inFlow ∨ !s.keyAllowed)) then
        skipSpace fuel (s.past 1)
      else if c = '#' then skipSpace fuel { s with cursor := s.cursor.pastComment }
      else if isBreak c then skipSpace fuel { s.past 1 with keyAllowed := s.keyAllowed || !s.inFlow }
      else s

def marker (s : Scan) (t : Token) : Except Malformed Scan := do
  let s ← s.closeAll.dropKey
  return { (s.past 3).push t with keyAllowed := false }

def directive (s : Scan) (text : List Char) : Except Malformed Scan := do
  let s ← s.closeAll.dropKey
  let (what, rest) ← Directive.read text
  let s := (s.past (s.cursor.rest.length - rest.length)).push (.directive what)
  return { s with cursor := ← s.cursor.pastLine, keyAllowed := false }

def openFlow (s : Scan) (t : Token) : Except Malformed Scan := do
  let s ← s.markKey
  return { (s.past 1).push t with outer := s.key :: s.outer, key := none, keyAllowed := true }

def closeFlow (s : Scan) (t : Token) : Except Malformed Scan := do
  let s ← s.dropKey
  return { (s.past 1).push t with key := s.outer.head?.join, outer := s.outer.tail, keyAllowed := false }

def comma (s : Scan) : Except Malformed Scan := do
  let s ← s.dropKey
  return { (s.past 1).push .comma with keyAllowed := true }

def entry (s : Scan) : Except Malformed Scan := do
  if !s.inFlow && !s.keyAllowed then throw .misplacedEntry
  let s ← (s.openBlock s.cursor.column s.count .listStart).dropKey
  return { (s.past 1).push .entry with keyAllowed := true }

def explicitKey (s : Scan) : Except Malformed Scan := do
  if !s.inFlow && !s.keyAllowed then throw .misplacedKey
  let s ← (s.openBlock s.cursor.column s.count .mappingStart).dropKey
  return { (s.past 1).push .key with keyAllowed := !s.inFlow }

def value (s : Scan) : Except Malformed Scan :=
  match s.key with
  | some k =>
    let s := (({ s with key := none, keyAllowed := false }.insert k.tokens .key).openBlock k.column k.tokens
      .mappingStart)
    return (s.past 1).push .value
  | none => do
    if !s.inFlow && !s.keyAllowed then throw .misplacedValue
    let s := s.openBlock s.cursor.column s.count .mappingStart
    return { (s.past 1).push .value with keyAllowed := !s.inFlow }

def named (s : Scan) (t : String → Token) (text : List Char) : Except Malformed Scan := do
  let s ← s.markKey
  let name ← anchorName text
  return { (s.past (1 + name.length)).push (t (String.ofList name)) with keyAllowed := false }

def tag (s : Scan) : Except Malformed Scan := do
  let s ← s.markKey
  let (what, length) ← Tag.read s.inFlow s.cursor.rest
  return { (s.past length).push (.tag what) with keyAllowed := false }

def scalar (s : Scan) (style : Style) (read : Except Malformed Reading) : Except Malformed Scan := do
  let s ← s.markKey
  let r ← read
  return { s.push (.scalar style (String.ofList r.text)) with cursor := r.stop, keyAllowed := r.brokeLine }

def block (s : Scan) (style : Style) (fuel : Nat) : Except Malformed Scan := do
  let s ← s.dropKey
  let r ← blockScalar (style = .folded) (s.indents.head?.getD 0) fuel s.cursor.next
  return { s.push (.scalar style (String.ofList r.text)) with cursor := r.stop, keyAllowed := true }

def isIndicator (c : Char) : Bool :=
  isFlowIndicator c || ['-', '?', ':', '#', '&', '*', '!', '|', '>', '\x27', '\x22', '%', '@', '\x60'].contains c

def startsPlain (s : Scan) (c : Char) (rest : List Char) : Bool :=
  !(isBlank c || isIndicator c) || (c = '-' && !rest.head?.any isBlank)
    || (!s.inFlow && (c = '?' || c = ':') && !endsWord rest)

def token (s : Scan) (fuel : Nat) (c : Char) (rest : List Char) : Except Malformed Scan :=
  if c = '%' ∧ s.cursor.column = 0 then s.directive rest
  else if s.cursor.atMarker then s.marker (if c = '-' then .documentStart else .documentEnd)
  else if c = '[' then s.openFlow .flowListStart
  else if c = '{' then s.openFlow .flowMappingStart
  else if c = ']' then s.closeFlow .flowListEnd
  else if c = '}' then s.closeFlow .flowMappingEnd
  else if c = ',' then s.comma
  else if c = '-' ∧ endsWord rest then s.entry
  else if c = '?' ∧ (s.inFlow ∨ endsWord rest) then s.explicitKey
  else if c = ':' ∧ (s.inFlow ∨ endsWord rest) then s.value
  else if c = '*' then s.named .reference rest
  else if c = '&' then s.named .anchor rest
  else if c = '!' then s.tag
  else if c = '|' ∧ !s.inFlow then s.block .literal fuel
  else if c = '>' ∧ !s.inFlow then s.block .folded fuel
  else if c = '\x27' ∨ c = '\x22' then s.scalar .quoted (quoted c fuel s.cursor.next)
  else if s.startsPlain c rest then s.scalar .plain (plain s.inFlow s.indent fuel s.cursor)
  else .error .unexpectedCharacter

/-- Reads all tokens. A token has at least one character, so the fuel lasts for what is left. -/
def run : Nat → Scan → Except Malformed (List Token)
  | 0, s => .ok s.tokens.reverse
  | fuel + 1, s => do
    let s := s.skipSpace (fuel + 1)
    match s.cursor.rest with
    | [] =>
      let s ← s.closeAll.dropKey
      return s.tokens.reverse
    | c :: rest =>
      let s ← s.expireKey
      let s ← (s.closeBlocks s.cursor.column).token (fuel + 1) c rest
      s.run fuel

end Scan

def tokens (text : String) : Except Malformed (List Token) :=
  let chars := text.toList
  if chars.all isAllowed then
    let chars := lines chars
    Scan.run (chars.length + 1) { cursor := { rest := chars } }
  else .error .controlCharacter

end ImageFS.Yaml
