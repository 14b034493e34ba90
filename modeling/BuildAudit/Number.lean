/-!
# Machine numbers

The limits of the numbers that files, options and tables hold: whole numbers of 64 bits, with and
without a sign, and doubles, of which only the overflow matters here.
-/

namespace BuildAudit.Number

/-- The largest number of 64 bits without a sign. -/
def maxWord64 : Nat := 0xffffffffffffffff

/-- How many values 64 bits have. -/
def modulus64 : Nat := 0x10000000000000000

/-- The largest number of 64 bits with a sign. -/
def maxInt64 : Nat := 0x7fffffffffffffff

/-- Whether a number fits 64 bits with a sign. -/
def fitsInt64 (n : Int) : Bool := -(maxInt64 : Int) - 1 ≤ n && n ≤ maxInt64

/-- The sum of two numbers of 64 bits with a sign, if it is one. -/
def addInt64? (a b : Int) : Option Int := if fitsInt64 (a + b) then some (a + b) else none

/-- The sum of numbers of 64 bits with a sign, unless adding them one after the other overflows. -/
def sumInt64? (ns : List Int) : Option Int := ns.foldlM addInt64? 0

/-- The least natural number that rounds to an infinite double: halfway between the largest double
and the power of two above it. -/
def doubleLimit : Nat := Nat.pow 2 1024 - Nat.pow 2 970

/-- Whether `n` times ten to the power `e` rounds to an infinite double.  A power is only computed
for numbers near the limit. -/
def exceedsDouble (n : Nat) (e : Int) : Bool :=
  let digits : Int := (toString n).length
  if n = 0 ∨ digits + e ≤ 308 then false
  else if digits + e ≥ 310 then true
  else n * Nat.pow 10 e.toNat ≥ doubleLimit * Nat.pow 10 (-e).toNat

/-- A natural number rounded to the 53 leading bits that a double keeps; a half goes to the even
neighbour. -/
def roundToDouble (n : Nat) : Nat :=
  let unit := Nat.pow 2 (n.log2 - 52)
  let kept := n / unit
  let rest := n % unit
  let up := 2 * rest > unit || (2 * rest == unit && kept % 2 == 1)
  (if up then kept + 1 else kept) * unit

/-- Whether the product of two natural numbers is infinite when it is computed in doubles. -/
def productExceedsDouble (a b : Nat) : Bool := roundToDouble a * roundToDouble b ≥ doubleLimit

end BuildAudit.Number
