/-!
# Hexadecimal words
-/

set_option autoImplicit false

namespace ImageFS.Text

def hexWord (w : UInt32) : String :=
  let digits := Nat.toDigits 16 w.toNat
  "0x" ++ String.ofList (List.replicate (8 - digits.length) '0' ++ digits)

end ImageFS.Text
