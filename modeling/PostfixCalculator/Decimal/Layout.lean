import PostfixCalculator.Decimal.Shortest

/-! The text of a number. -/
namespace PostfixCalculator

structure Layout where
  wholeEnd : List Char
  /-- Numbers are written without an exponent when the power of ten of their first digit
  satisfies this. -/
  positional : Int → Bool

namespace Layout

/-- Never an exponent, and no decimal point without a fraction. -/
def plain : Layout := ⟨[], fun _ => true⟩

/-- Always a fraction, or an exponent below `10 ^ -4` and from `10 ^ 16` on. -/
def pointed : Layout := ⟨['.', '0'], fun p => -4 ≤ p && p < 16⟩

def spread (layout : Layout) (d : Decimal) : List Char :=
  let ds := Nat.toDigits 10 d.digits
  let whole := ds.length + d.exponent
  if 0 ≤ d.exponent then ds ++ List.replicate d.exponent.toNat '0' ++ layout.wholeEnd
  else if 0 < whole then ds.take whole.toNat ++ '.' :: ds.drop whole.toNat
  else '0' :: '.' :: List.replicate (-whole).toNat '0' ++ ds

def scientific (d : Decimal) : List Char :=
  let ds := Nat.toDigits 10 d.digits
  let power := ds.length + d.exponent - 1
  ds.take 1 ++ (if ds.length = 1 then [] else '.' :: ds.drop 1) ++
    'e' :: (if power < 0 then ['-'] else []) ++ Nat.toDigits 10 power.natAbs

def decimal (layout : Layout) (d : Decimal) : List Char :=
  if d.digits = 0 ∨ layout.positional (Decimal.length d.digits + d.exponent - 1) then
    layout.spread d
  else scientific d

/-- The shortest text that reads back, with a sign for negative numbers and for negative zero. -/
def number (layout : Layout) (x : Float) : List Char :=
  let b := Binary64.magnitude x
  if Binary64.infinity < b then ['N', 'a', 'N']
  else
    (if Binary64.isNegative x then ['-'] else []) ++
      (if b = Binary64.infinity then ['i', 'n', 'f'] else layout.decimal (Binary64.shortest b))

end Layout
end PostfixCalculator
