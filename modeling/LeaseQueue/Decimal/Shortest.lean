import LeaseQueue.Bytes

/-!
# The shortest decimal of a binary number

A positive double is `m * 2 ^ q`.  The reals that round to it form an interval around it, with its
ends when `m` is even.  Among the decimals of that interval we take those with the fewest digits,
and of these the one nearest to the value; a tie goes to the even digit.

`Dyadic.shortest` finds it in exact arithmetic: for 1, 2, … 17 digits it tests the two neighbours of
the value on the decimal grid of that many digits.  `Layout` says how the digits are then set out.
-/

namespace LeaseQueue.Decimal

/-- The positive number `mantissa * 2 ^ exponent`. -/
structure Dyadic where
  mantissa : Nat
  exponent : Int
  /-- The next smaller double is only half as far away as the next greater one. -/
  narrowBelow : Bool
deriving DecidableEq, Repr

/-- The number `digits * 10 ^ exponent`. -/
structure Digits where
  digits : Nat
  exponent : Int
deriving DecidableEq, Repr

/-- The leading bit of a mantissa, `2 ^ 52`, which is not among a double's bits. -/
def hiddenBit : Nat := 0x10000000000000

/-- The magnitude of a finite, nonzero double with these bits. -/
def Dyadic.ofBits (bits : UInt64) : Dyadic :=
  let fraction : Nat := bits.toNat % hiddenBit
  let biased : Nat := bits.toNat / hiddenBit % 0x800
  if biased = 0 then ⟨fraction, -1074, false⟩
  else ⟨hiddenBit + fraction, biased - 1075, fraction == 0 && 1 < biased⟩

/-! ## Algorithm -/

/-- Compares `a * 2 ^ p` with `b * 10 ^ e`. -/
def compareScaled (a : Nat) (p : Int) (b : Nat) (e : Int) : Ordering :=
  compare (a * Nat.pow 2 p.toNat * Nat.pow 10 (-e).toNat)
    (b * Nat.pow 10 e.toNat * Nat.pow 2 (-p).toNat)

/-- The exponent of the leading decimal digit. -/
def Dyadic.magnitude (d : Dyadic) : Int :=
  let estimate := ((Nat.log2 d.mantissa : Int) + d.exponent) * 30103 / 100000
  let reaches (e : Int) : Bool := compareScaled d.mantissa d.exponent 1 e != .lt
  if reaches (estimate + 1) then estimate + 1
  else if reaches estimate then estimate
  else estimate - 1

/-- Whether the decimal `c * 10 ^ e` rounds to the number.  The interval's ends are counted in
quarters of the last place. -/
def Dyadic.admits (d : Dyadic) (c : Nat) (e : Int) : Bool :=
  let low := if d.narrowBelow then 4 * d.mantissa - 1 else 4 * d.mantissa - 2
  let high := 4 * d.mantissa + 2
  let closed := d.mantissa % 2 == 0
  (match compareScaled low (d.exponent - 2) c e with
    | .lt => true | .eq => closed | .gt => false) &&
  (match compareScaled high (d.exponent - 2) c e with
    | .gt => true | .eq => closed | .lt => false)

/-- The greatest `c` with `c * 10 ^ e` at most the number. -/
def Dyadic.floorAt (d : Dyadic) (e : Int) : Nat :=
  (d.mantissa * Nat.pow 2 d.exponent.toNat * Nat.pow 10 (-e).toNat) /
    (Nat.pow 2 (-d.exponent).toNat * Nat.pow 10 e.toNat)

/-- The better of the two neighbours on the grid of multiples of `10 ^ e`, if one will do. -/
def Dyadic.onGrid? (d : Dyadic) (e : Int) : Option Nat :=
  let below := d.floorAt e
  let above := below + 1
  match d.admits below e, d.admits above e with
  | true, true =>
    match compareScaled (2 * d.mantissa) d.exponent (below + above) e with
    | .lt => some below
    | .gt => some above
    | .eq => if below % 2 = 0 then some below else some above
  | true, false => some below
  | false, true => some above
  | false, false => none

/-- Ten steps of a grid are one of the next. -/
def Digits.carry (d : Digits) : Digits :=
  if d.digits % 10 = 0 then ⟨d.digits / 10, d.exponent + 1⟩ else d

/-- The nearest of the decimals with the fewest digits. -/
def Dyadic.shortest (d : Dyadic) : Digits :=
  let lead := d.magnitude
  let grids := (List.range 17).map fun (n : Nat) => lead - (n : Int)
  match grids.findSome? fun e => (d.onGrid? e).map fun c => (Digits.mk c e).carry with
  | some found => found
  | none => ⟨d.floorAt (lead - 16), lead - 16⟩

/-! ## Layout -/

/-- How a decimal is set out.  A number whose leading digit has an exponent from `plainFrom` up to
`plainTo` is written with a point and no exponent; `none` sets no bound. -/
structure Layout where
  plainFrom : Option Int
  plainTo : Option Int
deriving DecidableEq, Repr

/-- Digits with a point after the first `whole` of them, filled up with zeros; at least one digit
stands on either side of the point. -/
def placePoint (digits : List Char) (whole : Int) : List Char :=
  let shown := List.replicate (-whole).toNat '0' ++ digits
  let before := shown.take whole.toNat
  let after := shown.drop whole.toNat
  let before := before ++ List.replicate (whole.toNat - before.length) '0'
  (if before.isEmpty then ['0'] else before) ++ '.' :: (if after.isEmpty then ['0'] else after)

/-- One digit, the others after a point, and an exponent with its sign. -/
def withExponent (digits : List Char) (exponent : Int) : List Char :=
  let tail := digits.drop 1
  let sign := if exponent < 0 then '-' else '+'
  digits.take 1 ++ (if tail.isEmpty then [] else '.' :: tail) ++
    'e' :: sign :: Nat.toDigits 10 exponent.natAbs

def Layout.digits (layout : Layout) (d : Digits) : List Char :=
  let text := Nat.toDigits 10 d.digits
  let lead := d.exponent + text.length - 1
  if layout.plainFrom.all (· ≤ lead) && layout.plainTo.all (lead ≤ ·) then
    placePoint (text ++ List.replicate d.exponent.toNat '0')
      (text.length + d.exponent)
  else withExponent text lead

/-- The bit that is set in negative doubles. -/
def signBit : Nat := 0x8000000000000000

/-- The text of a double. -/
def Layout.text (layout : Layout) (bits : UInt64) : List Char :=
  let magnitude := bits.toNat % signBit
  let sign := if bits.toNat < signBit then [] else ['-']
  if magnitude = 0 then sign ++ "0.0".toList
  else if magnitude = 0x7FF0000000000000 then sign ++ "inf".toList
  else if magnitude > 0x7FF0000000000000 then "NaN".toList
  else sign ++ layout.digits (Dyadic.ofBits (UInt64.ofNat magnitude)).shortest

end LeaseQueue.Decimal
