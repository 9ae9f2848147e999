import ImageFS.Yaml.Cursor

/-!
# Scalars

A plain or quoted scalar may run over several lines. Within one, a line end and the blanks around it
are folded into a space. In a flow collection a plain scalar also ends at the characters that the
collection is written with.
-/

set_option autoImplicit false

namespace ImageFS.Yaml

inductive Style where
  | plain
  | quoted
  | literal
  | folded
deriving DecidableEq

def isFlowIndicator (c : Char) : Bool := [',', '[', ']', '{', '}'].contains c

/-- A word of a plain scalar. It ends before a blank, a line end, a colon that ends a word and, in a
flow collection, a flow indicator. -/
def plainWord (inFlow : Bool) : List Char → Except Malformed (List Char)
  | [] => .ok []
  | c :: rest =>
    if isBlank c || isBreak c then .ok []
    else if c = ':' ∧ endsWord rest then .ok []
    else if inFlow && isFlowIndicator c then .ok []
    else if inFlow && c = ':' && (rest.head?.any fun d => isFlowIndicator d || d = '?') then
      .error .unexpectedCharacter
    else do
      let word ← plainWord inFlow rest
      return c :: word

/-- A scalar that was read, and the place behind it. `brokeLine` says whether a line end was passed
after its last word. -/
structure Reading where
  text : List Char
  stop : Cursor
  brokeLine : Bool := false

/-- Reads a plain scalar. Outside flow collections its lines have to be indented by `indent`. -/
def plain (inFlow : Bool) (indent : Nat) : Nat → Cursor → Except Malformed Reading
  | 0, start => .ok ⟨[], start, false⟩
  | fuel + 1, start => do
    let word ← plainWord inFlow start.rest
    let wordEnd := start.past word.length
    let gap := wordEnd.gap
    if tabInIndent indent gap then throw .tabAsIndentation
    let stop := wordEnd.past gap.length
    let here : Reading := ⟨word, stop, gap.any isBreak⟩
    if gap = [] ∨ (!inFlow && stop.column < indent) ∨ stop.rest.head? = some '#' ∨ stop.atMarker then
      return here
    let more ← plain inFlow indent fuel stop
    if more.text = [] then return here
    return { more with text := word ++ foldGap gap ++ more.text }

def hexDigit? (c : Char) : Option Nat :=
  if '0' ≤ c ∧ c ≤ '9' then some (c.toNat - '0'.toNat)
  else if 'a' ≤ c ∧ c ≤ 'f' then some (c.toNat - 'a'.toNat + 10)
  else if 'A' ≤ c ∧ c ≤ 'F' then some (c.toNat - 'A'.toNat + 10)
  else none

def hexNumber? (digits : List Char) : Option Nat :=
  digits.foldlM (fun n c => (hexDigit? c).map (16 * n + ·)) 0

def simpleEscapes : List (Char × Nat) :=
  [('0', 0x00), ('a', 0x07), ('b', 0x08), ('t', 0x09), ('\t', 0x09), ('n', 0x0A), ('v', 0x0B), ('f', 0x0C),
   ('r', 0x0D), ('e', 0x1B), (' ', 0x20), ('\x22', 0x22), ('/', 0x2F), ('\x5c', 0x5C), ('N', 0x85), ('_', 0xA0),
   ('L', 0x2028), ('P', 0x2029)]

def escapeDigits (c : Char) : Nat :=
  if c = 'x' then 2 else if c = 'u' then 4 else if c = 'U' then 8 else 0

/-- The character that an escape stands for, and the length of the escape behind the backslash. -/
def escape : List Char → Except Malformed (Char × Nat)
  | [] => .error .unclosedQuote
  | c :: rest =>
    match simpleEscapes.lookup c with
    | some n => .ok (.ofNat n, 1)
    | none =>
      let length := escapeDigits c
      let digits := rest.take length
      match hexNumber? digits with
      | some n =>
        if length = 0 ∨ digits.length < length ∨ !n.isValidChar then .error .unknownEscape
        else .ok (.ofNat n, length + 1)
      | none => .error .unknownEscape

def quoted (quote : Char) : Nat → Cursor → Except Malformed Reading
  | 0, _ => .error .unclosedQuote
  | fuel + 1, start => do
    let prepend (text : List Char) (after : Cursor) : Except Malformed Reading := do
      let more ← quoted quote fuel after
      return { more with text := text ++ more.text }
    if start.atMarker then throw .unclosedQuote
    match start.rest with
    | [] => throw .unclosedQuote
    | '\x27' :: '\x27' :: _ =>
      if quote = '\x27' then prepend ['\x27'] (start.past 2) else prepend ['\x27'] start.next
    | '\x5c' :: rest =>
      if quote = '\x27' then prepend ['\x5c'] start.next
      else if rest.head?.any isBreak then
        let gap := (start.past 2).gap
        prepend (gap.filter isBreak) (start.past (2 + gap.length))
      else
        let (c, length) ← escape rest
        prepend [c] (start.past (1 + length))
    | c :: _ =>
      if c = quote then return ⟨[], start.next, false⟩
      else if isBlank c || isBreak c then prepend (foldGap start.gap) (start.past start.gap.length)
      else prepend [c] start.next

end ImageFS.Yaml
