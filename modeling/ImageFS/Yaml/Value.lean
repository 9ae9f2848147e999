import ImageFS.Yaml.Node

/-!
# Values in a document

What a node means where a number, a truth value, a text or a mapping is wanted. A number or a truth
value is a plain scalar, or a literal one with the tag for it. Any scalar is a text.
-/

set_option autoImplicit false

namespace ImageFS.Yaml

inductive ValueType where
  | number
  | truth
  | text
  | mapping
deriving DecidableEq

def ValueType.name : ValueType → String
  | .number => "a number of 32 bits"
  | .truth => "a boolean"
  | .text => "a string"
  | .mapping => "a mapping"

inductive BadValue where
  | wrongType (wanted : ValueType)
  | repeatedKey (key : String)
deriving DecidableEq

def BadValue.message : BadValue → String
  | .wrongType wanted => s!"invalid type: expected {wanted.name}"
  | .repeatedKey key => s!"duplicate field: {key}"

def natInBase? (base : Nat) (digits : List Char) : Option Nat :=
  if digits = [] then none
  else digits.foldlM (fun n c => (hexDigit? c).bind fun d => if d < base then some (base * n + d) else none) 0

/-- A number in decimal, or in another base after `0x`, `0o` or `0b`. A decimal number starts with 0
only if it is 0. -/
def natOfChars? : List Char → Option Nat
  | '0' :: 'x' :: digits => natInBase? 16 digits
  | '0' :: 'o' :: digits => natInBase? 8 digits
  | '0' :: 'b' :: digits => natInBase? 2 digits
  | ['0'] => some 0
  | '0' :: _ => none
  | digits => natInBase? 10 digits

def nat? (text : String) : Option Nat :=
  match text.toList with
  | '+' :: rest => natOfChars? rest
  | chars => natOfChars? chars

namespace Document

def plainText? (d : Document) (tag : String) (node : Node) : Option String :=
  match d.target node with
  | .scalar .plain _ text => some text
  | .scalar .literal found text => if found = some tag then some text else none
  | _ => none

def number (d : Document) (node : Node) : Except BadValue UInt32 :=
  match (d.plainText? "tag:yaml.org,2002:int" node).bind nat? with
  | some n => if n < UInt32.size then .ok (.ofNat n) else .error (.wrongType .number)
  | none => .error (.wrongType .number)

def truth (d : Document) (node : Node) : Except BadValue Bool :=
  match d.plainText? "tag:yaml.org,2002:bool" node with
  | some text =>
    if ["true", "True", "TRUE"].contains text then .ok true
    else if ["false", "False", "FALSE"].contains text then .ok false
    else .error (.wrongType .truth)
  | none => .error (.wrongType .truth)

def text (d : Document) (node : Node) : Except BadValue String :=
  match d.target node with
  | .scalar _ _ text => .ok text
  | _ => .error (.wrongType .text)

/-- The items of a mapping by the texts of their keys. A missing value is an empty mapping. -/
def fields (d : Document) (node : Node) : Except BadValue (List (String × Node)) :=
  match d.target node with
  | .mapping items => items.mapM fun (key, value) => return (← d.text key, value)
  | .scalar .plain _ "" => .ok []
  | _ => .error (.wrongType .mapping)

end Document

/-- The value of a key, which may appear once. A key that is missing has the default. -/
def fieldOr {α : Type} (fields : List (String × Node)) (key : String) (read : Node → Except BadValue α)
    (default : α) : Except BadValue α :=
  match fields.filter (·.1 = key) with
  | [] => .ok default
  | [(_, value)] => read value
  | _ => .error (.repeatedKey key)

end ImageFS.Yaml
