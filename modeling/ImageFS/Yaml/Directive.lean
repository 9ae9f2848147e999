import ImageFS.Yaml.Property

/-!
# Directives

Lines in front of a document that start with a percent sign. One names the version of the format, the
others define the handles of tags.
-/

set_option autoImplicit false

namespace ImageFS.Yaml

inductive Directive where
  | version (major minor : Nat)
  | handle (name stem : String)
deriving DecidableEq

namespace Directive

def maxVersionDigits : Nat := 9

def versionNumber (text : List Char) : Except Malformed (Nat × List Char) :=
  let (digits, rest) := text.span Char.isDigit
  if digits = [] ∨ maxVersionDigits < digits.length then .error .badDirective
  else .ok (digits.foldl (fun n c => 10 * n + (c.toNat - '0'.toNat)) 0, rest)

def readVersion (text : List Char) : Except Malformed (Directive × List Char) := do
  match ← versionNumber text with
  | (major, '.' :: rest) => do
    let (minor, rest) ← versionNumber rest
    return (.version major minor, rest)
  | _ => throw .badDirective

def readHandle (text : List Char) : Except Malformed (Directive × List Char) := do
  if text.head? ≠ some '!' then throw .badDirective
  let name := Yaml.handle text
  let rest := text.drop name.length
  if !isHandle name ∨ !rest.head?.any isBlank then throw .badDirective
  let text := rest.dropWhile isBlank
  let stem ← tagChars true 0 text
  let rest := text.drop stem.length
  if stem = [] ∨ !endsWord rest then throw .badDirective
  return (.handle (String.ofList name) (tagText stem), rest)

def read (text : List Char) : Except Malformed (Directive × List Char) :=
  let (name, rest) := text.span isWordChar
  if !endsWord rest then .error .badDirective
  else if name = ['Y', 'A', 'M', 'L'] then readVersion (rest.dropWhile isBlank)
  else if name = ['T', 'A', 'G'] then readHandle (rest.dropWhile isBlank)
  else .error .badDirective

end Directive

end ImageFS.Yaml
