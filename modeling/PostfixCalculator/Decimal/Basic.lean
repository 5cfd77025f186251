/-! Decimal numbers with an exact order against multiples of powers of two. -/
namespace PostfixCalculator

/-- The number `digits · 10 ^ exponent`. One number has several such forms. -/
structure Decimal where
  digits : Nat
  exponent : Int
  deriving DecidableEq, Repr

namespace Decimal

/-- Compares `d` with `n · 2 ^ q`. Each power with a negative exponent is moved, inverted, to the
other side, so both sides are natural numbers. -/
def compareDyadic (d : Decimal) (n : Nat) (q : Int) : Ordering :=
  compare (d.digits * Nat.pow 10 d.exponent.toNat * Nat.pow 2 (-q).toNat)
    (n * Nat.pow 2 q.toNat * Nat.pow 10 (-d.exponent).toNat)

def length (n : Nat) : Nat := (Nat.toDigits 10 n).length

end Decimal
end PostfixCalculator
