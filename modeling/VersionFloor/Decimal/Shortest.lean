import VersionFloor.Decimal.Binary

/-!
# Decimals: the shortest text of a number

The text of a floating point number has the fewest digits that read back as the same number, the
nearest such when there are two, written without an exponent.
-/

namespace VersionFloor.Decimal

/-- the power of ten of the first digit of `num / den` -/
def leadingPower (num den : Nat) : Int :=
  let k := (digitCount num : Int) - digitCount den
  let reached := if k < 0 then den ≤ num * tenTo k.natAbs else den * tenTo k.natAbs ≤ num
  if reached then k else k - 1

/-- `num / den` in units of `10 ^ p`, as a fraction -/
def inTens (num den : Nat) (p : Int) : Nat × Nat :=
  if p < 0 then (num * tenTo p.natAbs, den) else (num, den * tenTo p.natAbs)

/-- of the two multiples of `10 ^ p` next to the number, the ones that read back, nearest first -/
def Binary.neighbours (b : Binary) (p : Int) : List Nat :=
  let (n, d) := inTens b.ratio.1 b.ratio.2 p
  let q := n / d
  let order := if 2 * (n % d) < d then [q, q + 1] else [q + 1, q]
  order.filter fun c => Binary.ofDecimal? c p = some b

/-- digits and power; `fuel` further places are tried after the place `p` -/
def Binary.shortestFrom (b : Binary) (p : Int) : (fuel : Nat) → Nat × Int
  | 0 => ((b.neighbours p).headD 0, p)
  | fuel + 1 =>
    match b.neighbours p with
    | c :: _ => (c, p)
    | [] => b.shortestFrom (p - 1) fuel

/-- the shortest `digits * 10 ^ power` that reads back as `b` -/
def Binary.shortest (b : Binary) : Nat × Int :=
  b.shortestFrom (leadingPower b.ratio.1 b.ratio.2) 17

/-- `digits * 10 ^ power` without an exponent -/
def positional (digits : Nat) (power : Int) : String :=
  let ds := Nat.toDigits 10 digits
  let cs :=
    if 0 ≤ power then ds ++ List.replicate power.natAbs '0'
    else if power.natAbs < ds.length then
      ds.take (ds.length - power.natAbs) ++ '.' :: ds.drop (ds.length - power.natAbs)
    else '0' :: '.' :: List.replicate (power.natAbs - ds.length) '0' ++ ds
  String.ofList cs

/-- drops the zeros at the end of the digits, as many as `fuel` allows -/
def stripZeros (digits : Nat) (power : Int) : (fuel : Nat) → Nat × Int
  | 0 => (digits, power)
  | fuel + 1 =>
    if digits % 10 = 0 ∧ digits ≠ 0 then stripZeros (digits / 10) (power + 1) fuel
    else (digits, power)

def Binary.text (b : Binary) : String :=
  if b.mantissa = 0 then "0"
  else
    let (d, p) := b.shortest
    let (d, p) := stripZeros d p 20
    positional d p

/-- a floating point number with its sign, or one of the values beyond the finite ones -/
inductive Double where
  | finite (negative : Bool) (size : Binary)
  | infinite (negative : Bool)
  | nan
  deriving DecidableEq, Repr

def Double.text : Double → String
  | .finite negative size => (if negative then "-" else "") ++ size.text
  | .infinite negative => if negative then "-inf" else "inf"
  | .nan => "NaN"

end VersionFloor.Decimal
