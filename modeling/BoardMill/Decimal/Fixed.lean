import BoardMill.Decimal.Binary
import BoardMill.Decimal.Digits

/-! # Decimals with a fixed number of places

The exact binary value is rounded to the nearest multiple of the last place, a
half to the even one. A negative number keeps its sign when it rounds to zero.
-/

namespace BoardMill.Decimal

/-- A number of last places, written with its point. -/
def placeText (places units : Nat) : List Char :=
  let digits := padLeft (places + 1) (toDigits units)
  let whole := digits.length - places
  digits.take whole ++ (if places = 0 then [] else '.' :: digits.drop whole)

/-- The decimal with `places` places nearest to a double. -/
def fixedText (places : Nat) (x : Float) : String :=
  let sign (negative : Bool) (text : List Char) := if negative then '-' :: text else text
  String.ofList <| match Binary.ofFloat x with
    | .notANumber => ['N', 'a', 'N']
    | .infinite negative => sign negative ['i', 'n', 'f']
    | .finite negative m e _ =>
      let (num, den) := Binary.ratio m e
      sign negative (placeText places (roundHalfEven (num * Nat.pow 10 places) den))

end BoardMill.Decimal
