import ImageFS.Yaml.Scalar

/-!
# Anchors and tags

A node may have a name, its anchor, and a tag that says what it is. A tag is written with a handle that
stands for the front of a longer name, or in full between angle brackets. An octet of a tag may be
written as a percent sign and two digits; it is kept as the character of its number.
-/

set_option autoImplicit false

namespace ImageFS.Yaml

def isWordChar (c : Char) : Bool := c.isAlphanum || c = '_' || c = '-'

def anchorName (text : List Char) : Except Malformed (List Char) :=
  let (name, rest) := text.span isWordChar
  if name ≠ [] ∧ (endsWord rest ∨ rest.head?.any ['?', ':', ',', ']', '}', '%', '@', '\x60'].contains) then
    .ok name
  else .error .badAnchor

def handle (text : List Char) : List Char :=
  let (name, rest) := text.tail.span isWordChar
  if rest.head? = some '!' then '!' :: name ++ ['!'] else '!' :: name

def isHandle (text : List Char) : Bool := text = ['!'] || (1 < text.length && text.getLast? = some '!')

def isTagChar (inFull : Bool) (c : Char) : Bool :=
  isWordChar c
    || [';', '/', '?', ':', '@', '&', '=', '+', '$', '.', '%', '!', '~', '*', '\x27', '(', ')'].contains c
    || (inFull && [',', '[', ']'].contains c)

def sequenceLength? (octet : Nat) : Option Nat :=
  if octet < 0x80 then some 1
  else if 0xC0 ≤ octet ∧ octet < 0xE0 then some 2
  else if 0xE0 ≤ octet ∧ octet < 0xF0 then some 3
  else if 0xF0 ≤ octet ∧ octet < 0xF8 then some 4
  else none

/-- The characters of a tag at the front of a text, as they are written. The first `due` octets have to go
on with a sequence. -/
def tagChars (inFull : Bool) : Nat → List Char → Except Malformed (List Char)
  | due, '%' :: high :: low :: rest =>
    match hexNumber? [high, low] with
    | none => .error .badTag
    | some octet =>
      let left? :=
        if due = 0 then (sequenceLength? octet).map (· - 1)
        else if octet / 64 = 2 then some (due - 1) else none
      match left? with
      | none => .error .badTag
      | some left => return '%' :: high :: low :: (← tagChars inFull left rest)
  | due, c :: rest =>
    if due ≠ 0 ∨ c = '%' then .error .badTag
    else if isTagChar inFull c then return c :: (← tagChars inFull 0 rest)
    else .ok []
  | due, [] => if due = 0 then .ok [] else .error .badTag

def octets : List Char → List Char
  | '%' :: high :: low :: rest => .ofNat ((hexNumber? [high, low]).getD 0) :: octets rest
  | c :: rest => c :: octets rest
  | [] => []

def tagText (written : List Char) : String := String.ofList ((octets written).takeWhile (· ≠ '\x00'))

/-- A tag as it is written. Without a handle the name is the whole tag. -/
structure Tag where
  handle : String
  name : String
deriving DecidableEq

namespace Tag

/-- Reads a tag in one of its forms: in full, with a handle that is defined elsewhere, or local. An
exclamation mark alone is a whole tag. The length comes with it. -/
def form : List Char → Except Malformed (Tag × Nat)
  | '!' :: '<' :: text => do
    let name ← tagChars true 0 text
    if name = [] ∨ (text.drop name.length).head? ≠ some '>' then throw .badTag
    return (⟨"", tagText name⟩, name.length + 3)
  | text => do
    let front := Yaml.handle text
    if front ≠ ['!'] ∧ isHandle front then
      let name ← tagChars false 0 (text.drop front.length)
      if name = [] then throw .badTag
      return (⟨String.ofList front, tagText name⟩, front.length + name.length)
    let name ← tagChars false 0 text.tail
    return (if tagText name = "" then ⟨"", "!"⟩ else ⟨"!", tagText name⟩, name.length + 1)

def read (inFlow : Bool) (text : List Char) : Except Malformed (Tag × Nat) := do
  let (tag, length) ← form text
  let stop := text.drop length
  if endsWord stop || (inFlow && stop.head? = some ',') then return (tag, length)
  throw .badTag

end Tag

end ImageFS.Yaml
