import PostfixCalculator.Decimal.Basic

/-! The magnitudes of the binary64 format, in the order of their bit patterns, and the decimals
that round to each of them.

A magnitude is given by its pattern without the sign bit. Patterns and magnitudes are ordered
alike, so rounding is a question of where a decimal lies between neighbouring patterns. -/
namespace PostfixCalculator.Binary64

/-- The leading bit of a normal significand, which its pattern leaves out. It is also the least
pattern of a normal magnitude. -/
def implicitBit : Nat := 0x10000000000000

def infinity : Nat := 0x7FF0000000000000

def signBit : Nat := 0x8000000000000000

/-- The magnitude of the pattern `b` is `significand b · 2 ^ scale b`. -/
def significand (b : Nat) : Nat :=
  if b < implicitBit then b else implicitBit + b % implicitBit

def scale (b : Nat) : Int := (max 1 (b / implicitBit) : Nat) - 1075

/-- The decimal rounds to `b` or below: it lies below the midpoint of `b` and its successor, or on
it and `b` is even. Nothing rounds above infinity. -/
def roundsAtMost (d : Decimal) (b : Nat) : Bool :=
  infinity ≤ b ||
    match d.compareDyadic (2 * significand b + 1) (scale b - 1) with
    | .lt => true
    | .eq => b % 2 == 0
    | .gt => false

def roundsTo (d : Decimal) (b : Nat) : Bool :=
  roundsAtMost d b && (b == 0 || !roundsAtMost d (b - 1))

/-- The least number from `start` on that satisfies `p`, found by halving `2 ^ bits` candidates. The
last of these has to satisfy `p`, and so has all that follows one that does. -/
def leastFrom (p : Nat → Bool) (start : Nat) : Nat → Nat
  | 0 => start
  | bits + 1 =>
    let half := Nat.pow 2 bits
    if p (start + half - 1) then leastFrom p start bits else leastFrom p (start + half) bits

def nearest (d : Decimal) : Nat := leastFrom (roundsAtMost d) 0 63

def ofDecimal (d : Decimal) : Float := Float.ofBits (UInt64.ofNat (nearest d))

def isNegative (x : Float) : Bool := signBit ≤ x.toBits.toNat

def magnitude (x : Float) : Nat := x.toBits.toNat % signBit

end PostfixCalculator.Binary64
