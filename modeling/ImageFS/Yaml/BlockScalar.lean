import ImageFS.Yaml.Scalar

/-!
# Block scalars

A block scalar is made of whole lines that are indented by the same number of spaces. A literal one
keeps its line ends. In a folded one a line end between two lines that do not start with a blank is a
space. A header says what becomes of the line ends behind the last line, and may say how far the lines
are indented.
-/

set_option autoImplicit false

namespace ImageFS.Yaml

/-- Which line ends behind the last line are kept: none, the first or all. -/
inductive Chomping where
  | strip
  | clip
  | keep
deriving DecidableEq

/-- What stands behind the indicator of a block scalar. An indentation of 0 is not known. -/
structure BlockHeader where
  chomping : Chomping := .clip
  indent : Nat := 0
  length : Nat := 0
deriving DecidableEq

namespace BlockHeader

def chomping? : Option Char → Option Chomping
  | some '+' => some .keep
  | some '-' => some .strip
  | _ => none

def indent? : Option Char → Except Malformed (Option Nat)
  | some c =>
    if c = '0' then .error .badBlockHeader
    else if c.isDigit then .ok (some (c.toNat - '0'.toNat))
    else .ok none
  | none => .ok none

def read (text : List Char) : Except Malformed BlockHeader :=
  let first := text.head?
  let second := text.tail.head?
  match chomping? first with
  | some chomping => do
    match ← indent? second with
    | some indent => return { chomping, indent, length := 2 }
    | none => return { chomping, length := 1 }
  | none => do
    match ← indent? first, chomping? second with
    | some indent, some chomping => return { chomping, indent, length := 2 }
    | some indent, none => return { indent, length := 1 }
    | none, _ => return {}

end BlockHeader

/-- Empty lines, and the place in the line behind them up to which it is indented. `widest` is the
largest column that was reached. -/
structure LeadIn where
  breaks : List Char
  widest : Nat
  stop : Cursor

/-- Skips empty lines and the indentation of the line behind them. If the indentation is not known, all
spaces are. -/
def leadIn (indent : Nat) : Nat → Nat → Cursor → Except Malformed LeadIn
  | 0, widest, start => .ok ⟨[], widest, start⟩
  | fuel + 1, widest, start => do
    let spaces := (start.rest.takeWhile (· = ' ')).length
    let stop := start.past (if indent = 0 then spaces else min spaces (indent - start.column))
    let widest := max widest stop.column
    match stop.rest with
    | [] => return ⟨[], widest, stop⟩
    | c :: _ =>
      if c = '\t' ∧ (indent = 0 ∨ stop.column < indent) then throw .tabAsIndentation
      if !isBreak c then return ⟨[], widest, stop⟩
      let more ← leadIn indent fuel widest stop.next
      return { more with breaks := c :: more.breaks }

structure BlockGap where
  first : List Char
  more : List Char

def BlockGap.fold (gap : BlockGap) (folded indented : Bool) : List Char :=
  if folded && gap.first = ['\n'] && !indented then (if gap.more = [] then [' '] else gap.more)
  else gap.first ++ gap.more

def BlockGap.chomp (gap : BlockGap) : Chomping → List Char
  | .strip => []
  | .clip => gap.first
  | .keep => gap.first ++ gap.more

structure BlockLines where
  text : List Char
  gap : BlockGap
  stop : Cursor

/-- Reads lines for as long as they are indented by `indent`. `gap` is what stands before the first of
them, and `afterBlank` says whether the line before that starts with a blank. -/
def blockLines (folded : Bool) (indent : Nat) : Nat → BlockGap → Bool → Cursor → Except Malformed BlockLines
  | 0, gap, _, start => .ok ⟨[], gap, start⟩
  | fuel + 1, gap, afterBlank, start => do
    if start.column ≠ indent ∨ start.rest = [] then return ⟨[], gap, start⟩
    let startsBlank := start.rest.head?.any isBlank
    let line := start.rest.takeWhile (!isBreak ·)
    let lineEnd := start.past line.length
    let next ← leadIn indent fuel 0 lineEnd.next
    let more ← blockLines folded indent fuel ⟨lineEnd.rest.take 1, next.breaks⟩ startsBlank next.stop
    return { more with text := gap.fold folded (afterBlank || startsBlank) ++ line ++ more.text }

/-- Reads a block scalar from behind its indicator. Its lines are indented more than the block around
it, which leaves `outer` columns free. -/
def blockScalar (folded : Bool) (outer fuel : Nat) (start : Cursor) : Except Malformed Reading := do
  let header ← BlockHeader.read start.rest
  let first ← (start.past header.length).pastLine
  let known := if header.indent = 0 then 0 else outer + header.indent
  let leading ← leadIn known fuel 0 first
  let indent := if known = 0 then max leading.widest (outer + 1) else known
  let found ← blockLines folded indent fuel ⟨[], leading.breaks⟩ false leading.stop
  return ⟨found.text ++ found.gap.chomp header.chomping, found.stop, true⟩

end ImageFS.Yaml
