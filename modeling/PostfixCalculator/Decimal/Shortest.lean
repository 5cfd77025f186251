import PostfixCalculator.Decimal.Binary64

/-! The shortest decimal that rounds to a given binary64 magnitude. -/
namespace PostfixCalculator.Binary64

def exact (b : Nat) : Decimal :=
  ⟨significand b * Nat.pow 2 (scale b).toNat * Nat.pow 5 (-scale b).toNat, min (scale b) 0⟩

/-- The decimal next to `x` on the grid that leaves out its last `k` digits, if it rounds to `b`.
Of two the nearer is taken, and the upper one when they are equally near. -/
def onGrid (b : Nat) (x : Decimal) (k : Nat) : Option Decimal :=
  let unit := Nat.pow 10 k
  let lower : Decimal := ⟨x.digits / unit, x.exponent + k⟩
  let upper : Decimal := ⟨x.digits / unit + 1, x.exponent + k⟩
  match roundsTo lower b, roundsTo upper b with
  | true, true => some (if 2 * (x.digits % unit) < unit then lower else upper)
  | true, false => some lower
  | false, true => some upper
  | false, false => none

def coarsest (b : Nat) (x : Decimal) : Nat → Decimal
  | 0 => x
  | k + 1 => (onGrid b x (k + 1)).getD (coarsest b x k)

/-- The decimal with the fewest digits that rounds to the finite magnitude `b`, of several the
nearest to it, and of two equally near the upper one. Its digits do not end in zero unless it is
zero. -/
def shortest (b : Nat) : Decimal :=
  if b = 0 then ⟨0, 0⟩
  else
    let x := exact b
    coarsest b x (Decimal.length x.digits)

end PostfixCalculator.Binary64
