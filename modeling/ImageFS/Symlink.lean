import ImageFS.Error

/-!
# Symlink destinations

A destination is a byte string of up to 51 bytes without zeros. One of the form `root?A:B` is
conditional: a privileged caller is sent to `A`, every other caller to `B`.
-/

set_option autoImplicit false

namespace ImageFS.Symlink

/-- What a conditional destination starts with: `root?`. -/
def conditionalMark : List UInt8 := ['r', 'o', 'o', 't', '?'].map Char.toUInt8

def separator : UInt8 := ':'.toUInt8

def parts? (payload : List UInt8) : Option (List UInt8 × List UInt8) := do
  let rest ← conditionalMark.isPrefixOf? payload
  match rest.dropWhile (· ≠ separator) with
  | [] => none
  | _ :: other => some (rest.takeWhile (· ≠ separator), other)

def resolve (payload : List UInt8) (privileged : Bool) : List UInt8 :=
  match parts? payload with
  | some (root, other) => if privileged then root else other
  | none => payload

def validate (payload : List UInt8) : Except Error Unit :=
  if payload.isEmpty then .error (.invalidArgument .emptyTarget)
  else if payload.contains 0 then .error (.invalidArgument .zeroInTarget)
  else if maxTargetLength < payload.length then .error .targetTooLong
  else .ok ()

def conditional (root other : List UInt8) : Except Error (List UInt8) := do
  if root.contains separator then throw (.invalidArgument .separatorInTarget)
  let payload := conditionalMark ++ root ++ separator :: other
  validate payload
  return payload

end ImageFS.Symlink
