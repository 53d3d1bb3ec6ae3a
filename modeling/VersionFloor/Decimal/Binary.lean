/-!
# Decimals: binary numbers of 53 bits

Binary floating point numbers of 53 bits as exact values `mantissa * 2 ^ exponent`.  Every operation
computes the exact quotient first and rounds once, a tie to the even neighbour.
-/

namespace VersionFloor.Decimal

/-- a number that is not negative; normal numbers have a mantissa of 53 bits -/
structure Binary where
  mantissa : Nat
  exponent : Int
  deriving DecidableEq, Repr

/-- the quotient rounded to the nearest natural number -/
def roundQuotient (num den : Nat) : Nat :=
  let q := num / den
  let r := num % den
  if 2 * r < den then q else if den < 2 * r then q + 1 else q + q % 2

/-- `num / den` in units of `2 ^ e`, as a fraction -/
def inUnits (num den : Nat) (e : Int) : Nat × Nat :=
  if e < 0 then (num <<< e.natAbs, den) else (num, den <<< e.natAbs)

/-- a mantissa of 53 bits stays below this -/
def mantissaLimit : Nat := 0x20000000000000

def tenTo (n : Nat) : Nat := Nat.pow 10 n

namespace Binary

def zero : Binary := ⟨0, 0⟩

/-- the exponent of the last bit that a number of this size keeps -/
def unitExponent (num den : Nat) : Int :=
  let low := max ((Nat.log2 num : Int) - Nat.log2 den - 53) (-1074)
  let (n, d) := inUnits num den low
  if n / d < mantissaLimit then low else low + 1

/-- the nearest number, absent above the largest one -/
def ofRatio? (num den : Nat) : Option Binary :=
  if num = 0 then some zero
  else
    let e := unitExponent num den
    let (n, d) := inUnits num den e
    let m := roundQuotient n d
    let b : Binary :=
      if m = mantissaLimit then ⟨mantissaLimit / 2, e + 1⟩ else if m = 0 then zero else ⟨m, e⟩
    if 971 < b.exponent then none else some b

/-- the exact value as a fraction -/
def ratio (b : Binary) : Nat × Nat :=
  if b.exponent < 0 then (b.mantissa, 1 <<< b.exponent.natAbs)
  else (b.mantissa <<< b.exponent.natAbs, 1)

def ofNat? (n : Nat) : Option Binary := ofRatio? n 1

def mul? (a b : Binary) : Option Binary :=
  ofRatio? (a.ratio.1 * b.ratio.1) (a.ratio.2 * b.ratio.2)

/-- `b` is not zero -/
def div? (a b : Binary) : Option Binary :=
  ofRatio? (a.ratio.1 * b.ratio.2) (a.ratio.2 * b.ratio.1)

end Binary

def digitCount (n : Nat) : Nat := (Nat.toDigits 10 n).length

/-- the number nearest to `digits * 10 ^ power`.  Powers far out of range are settled by the
number of digits alone. -/
def Binary.ofDecimal? (digits : Nat) (power : Int) : Option Binary :=
  if digits = 0 then some zero
  else if 400 < digitCount digits + power then none
  else if digitCount digits + power < -400 then some zero
  else if power < 0 then ofRatio? digits (tenTo power.natAbs)
  else ofRatio? (digits * tenTo power.natAbs) 1

end VersionFloor.Decimal
