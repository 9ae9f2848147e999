/-!
# Sizes for people

A number of bytes is shown in the largest unit that it reaches, with two decimals. The number is
first rounded to 53 significant bits and then divided exactly; both roundings send ties to the even
neighbour.
-/

set_option autoImplicit false

namespace ImageFS.Text

/-- The integer nearest to `n / d`, the even one of two. -/
def roundDiv (n d : Nat) : Nat :=
  let q := n / d
  let r := n % d
  if 2 * r < d then q
  else if d < 2 * r then q + 1
  else q + q % 2

def roundTo53Bits (n : Nat) : Nat :=
  let step := 1 <<< (Nat.log2 n - 52)
  roundDiv n step * step

def sizeUnits : List String := ["KB", "MB", "GB", "TB"]

/-- Divides by 1024 as long as that leaves at least 1 and there is a unit left. -/
def scale (n divisor : Nat) (unit : String) : List String → Nat × String
  | [] => (divisor, unit)
  | next :: rest => if 1024 * divisor ≤ n then scale n (1024 * divisor) next rest else (divisor, unit)

def hundredths (n : Nat) : String :=
  let cents := n % 100
  s!"{n / 100}.{cents / 10}{cents % 10}"

def sizeText (bytes : Nat) : String :=
  let n := roundTo53Bits bytes
  match scale n 1 "B" sizeUnits with
  | (1, unit) => s!"{bytes} {unit}"
  | (divisor, unit) => s!"{hundredths (roundDiv (100 * n) divisor)} {unit}"

end ImageFS.Text
