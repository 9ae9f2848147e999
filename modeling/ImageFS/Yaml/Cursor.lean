/-!
# Places in a YAML text

A cursor is what is left of a text together with the place reached. Carriage returns and next-line
characters are turned into line feeds by `lines`; line and paragraph separators end a line as they are.
-/

set_option autoImplicit false

namespace ImageFS.Yaml

inductive Malformed where
  | controlCharacter
  | unexpectedCharacter
  | tabAsIndentation
  | unclosedQuote
  | unknownEscape
  | badBlockHeader
  | badAnchor
  | badTag
  | badDirective
  | extraCharacters
  | misplacedEntry
  | misplacedKey
  | misplacedValue
  | missingColon
  | missingNode
  | missingDelimiter
  | missingDocument
  | repeatedDirective
  | unknownVersion
  | unknownHandle
  | unknownAnchor
  | severalDocuments
deriving DecidableEq

def Malformed.message : Malformed → String
  | .controlCharacter => "control characters are not allowed"
  | .unexpectedCharacter => "found a character that cannot start any token"
  | .tabAsIndentation => "found a tab character that violates indentation"
  | .unclosedQuote => "found no end of a quoted scalar"
  | .unknownEscape => "found an unknown escape"
  | .badBlockHeader => "found an indentation indicator equal to 0"
  | .badAnchor => "did not find the name of an anchor"
  | .badTag => "did not find a tag"
  | .badDirective => "did not find a directive"
  | .extraCharacters => "did not find a comment or the end of the line"
  | .misplacedEntry => "list entries are not allowed here"
  | .misplacedKey => "mapping keys are not allowed here"
  | .misplacedValue => "mapping values are not allowed here"
  | .missingColon => "did not find the ':' of a key"
  | .missingNode => "did not find a value"
  | .missingDelimiter => "did not find the end of a list or mapping"
  | .missingDocument => "did not find the start of a document"
  | .repeatedDirective => "found a directive twice"
  | .unknownVersion => "found a document of another version"
  | .unknownHandle => "found an undefined tag handle"
  | .unknownAnchor => "found an unknown anchor"
  | .severalDocuments => "found more than one document"

def isBlank (c : Char) : Bool := c = ' ' ∨ c = '\t'

def isBreak (c : Char) : Bool := c = '\n' ∨ c = '\u2028' ∨ c = '\u2029'

def endsWord : List Char → Bool
  | [] => true
  | c :: _ => isBlank c || isBreak c

def endsLine : List Char → Bool
  | [] => true
  | c :: _ => isBreak c

def isAllowed (c : Char) : Bool :=
  let n := c.toNat
  n = 0x9 ∨ n = 0xA ∨ n = 0xD ∨ n = 0x85
    ∨ (0x20 ≤ n ∧ n ≤ 0x7E) ∨ (0xA0 ≤ n ∧ n ≤ 0xFFFD) ∨ 0x10000 ≤ n

def lines : List Char → List Char
  | [] => []
  | '\r' :: '\n' :: rest => '\n' :: lines rest
  | c :: rest => (if c = '\r' ∨ c.toNat = 0x85 then '\n' else c) :: lines rest

def byteOrderMark : Char := '\uFEFF'

structure Cursor where
  rest : List Char
  line : Nat := 0
  column : Nat := 0
  bytes : Nat := 0

namespace Cursor

def next (c : Cursor) : Cursor :=
  match c.rest with
  | [] => c
  | x :: rest =>
    if isBreak x then ⟨rest, c.line + 1, 0, c.bytes + x.utf8Size⟩
    else ⟨rest, c.line, c.column + 1, c.bytes + x.utf8Size⟩

def past (c : Cursor) : Nat → Cursor
  | 0 => c
  | n + 1 => c.next.past n

def pastWhile (c : Cursor) (p : Char → Bool) : Cursor := c.past (c.rest.takeWhile p).length

def gap (c : Cursor) : List Char := c.rest.takeWhile fun x => isBlank x || isBreak x

/-- Whether a line starts here with three dashes or three dots that stand alone. -/
def atMarker (c : Cursor) : Bool :=
  c.column = 0 &&
    match c.rest with
    | '-' :: '-' :: '-' :: rest | '.' :: '.' :: '.' :: rest => endsWord rest
    | _ => false

def pastComment (c : Cursor) : Cursor :=
  if c.rest.head? = some '#' then c.pastWhile (!isBreak ·) else c

def pastLine (c : Cursor) : Except Malformed Cursor :=
  let c := (c.pastWhile isBlank).pastComment
  if endsLine c.rest then .ok c.next else .error .extraCharacters

end Cursor

/-- What a gap within a scalar stands for. Blanks are kept if the line goes on. A line feed that comes
first is dropped if more line ends follow, and is a space if none do. -/
def foldGap (gap : List Char) : List Char :=
  match gap.filter isBreak with
  | [] => gap
  | ['\n'] => [' ']
  | '\n' :: more => more
  | breaks => breaks

/-- Whether a tab stands to the left of `indent` on a line that starts within the gap. -/
def tabInIndent (indent : Nat) (gap : List Char) : Bool :=
  ((gap.dropWhile isBlank).splitBy fun a _ => !isBreak a).any fun line =>
    ((line.filter fun c => !isBreak c).take indent).contains '\t'

end ImageFS.Yaml
