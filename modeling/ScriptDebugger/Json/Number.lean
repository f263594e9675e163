import ScriptDebugger.Decimal.Shortest
/-!
# Numbers of a JSON text

A number without fraction and exponent that fits 64 bits, signed or unsigned, stays an integer. Any
other number becomes a double: its digits are gathered into a 64-bit significand as far as they fit,
and the significand is multiplied or divided by a power of ten. Writing a double takes the fewest
digits that read back.
-/

namespace ScriptDebugger.Json

/-- A number as a JSON document holds it. -/
inductive Number
  /-- An integer; a text yields those of 64 bits, signed or unsigned. -/
  | int (value : Int)
  /-- A double; a text yields finite ones only. -/
  | real (value : Float)
  deriving DecidableEq

/-- The parts of a number as it is written. -/
structure Numeral where
  /-- Whether a minus sign stands in front. -/
  isNegative : Bool
  /-- The digits before the point. -/
  whole : List Nat
  /-- The digits after the point, if there is one. -/
  fraction : List Nat
  /-- The sign and the digits of the exponent, if there is one. -/
  exponent : Option (Bool × List Nat)
  deriving DecidableEq, Repr

namespace Numeral

/-- The value of a decimal digit. -/
def digitValue (c : Char) : Nat := c.toNat - '0'.toNat

/-- The digits at the front, and what follows them. -/
def takeDigits (cs : List Char) : List Nat × List Char :=
  ((cs.takeWhile Char.isDigit).map digitValue, cs.dropWhile Char.isDigit)

/-- The digits before the point: at least one, and no zero in front of another digit. -/
def takeWhole? (cs : List Char) : Option (List Nat × List Char) :=
  match takeDigits cs with
  | ([], _) => none
  | (0 :: _ :: _, _) => none
  | parts => some parts

/-- A point and the digits after it, of which there is at least one. -/
def takeFraction? : List Char → Option (List Nat × List Char)
  | '.' :: cs =>
    match takeDigits cs with
    | ([], _) => none
    | parts => some parts
  | cs => some ([], cs)

/-- An exponent up to the end of the characters. -/
def takeExponent? : List Char → Option (Option (Bool × List Nat))
  | [] => some none
  | c :: cs =>
    if c = 'e' ∨ c = 'E' then
      let (isNegative, digits) :=
        match cs with
        | '-' :: ds => (true, ds)
        | '+' :: ds => (false, ds)
        | ds => (false, ds)
      match takeDigits digits with
      | ([], _) => none
      | (ds, []) => some (some (isNegative, ds))
      | (_, _ :: _) => none
    else none

/-- The parts of a written number; `none` where the characters are no number. -/
def read? (cs : List Char) : Option Numeral := do
  let (isNegative, cs) :=
    match cs with
    | '-' :: ds => (true, ds)
    | ds => (false, ds)
  let (whole, cs) ← takeWhole? cs
  let (fraction, cs) ← takeFraction? cs
  let exponent ← takeExponent? cs
  pure ⟨isNegative, whole, fraction, exponent⟩

/-- Gathers digits behind a significand while it stays below `2 ^ 64`; the rest is left over. -/
def gather (significand : Nat) : List Nat → Nat × List Nat
  | [] => (significand, [])
  | d :: ds =>
    if significand * 10 + d < UInt64.size then gather (significand * 10 + d) ds
    else (significand, d :: ds)

/-- A power of ten as a double. -/
def powerOfTen (n : Nat) : Float := Float.ofScientific 1 false n

/-- A double times a power of ten, in steps of at most `10 ^ 308`; `none` where it overflows. -/
def scale? (f : Float) (exponent : Int) : Option Float :=
  if exponent.natAbs ≤ 308 then
    if 0 ≤ exponent then
      let g := f * powerOfTen exponent.natAbs
      if g.isInf then none else some g
    else some (f / powerOfTen exponent.natAbs)
  else if f == 0 then some f
  else if 0 ≤ exponent then none
  else scale? (f / powerOfTen 308) (exponent + 308)
termination_by (-exponent).toNat
decreasing_by omega

/-- The greatest value that a written exponent may have. -/
def exponentLimit : Nat := 2147483647

/-- The magnitude of a number that is no integer of 64 bits. `shift` counts the places by which the
gathered significand stands away from the point. -/
def magnitude? (significand : Nat) (shift : Int) (exponent : Option (Bool × List Nat)) :
    Option Float :=
  match exponent with
  | none => scale? (Float.ofNat significand) shift
  | some (isNegative, ds) =>
    let e := ds.foldl (fun n d => n * 10 + d) 0
    if exponentLimit < e then
      if significand ≠ 0 ∧ !isNegative then none else some 0
    else
      scale? (Float.ofNat significand)
        (max (-exponentLimit - 1)
          (min exponentLimit (if isNegative then shift - e else shift + e)))

/-- The number that a numeral stands for; `none` where its magnitude exceeds the doubles. -/
def number? (n : Numeral) : Option Number :=
  let (significand, leftOver) := gather 0 n.whole
  if leftOver = [] ∧ n.fraction = [] ∧ n.exponent = none then
    if !n.isNegative then some (.int significand)
    else if significand = 0 ∨ UInt64.size / 2 < significand then some (.real (-Float.ofNat significand))
    else some (.int (-significand))
  else
    let (significand, unread) := gather significand n.fraction
    let shift : Int := leftOver.length - (n.fraction.length - unread.length)
    (magnitude? significand shift n.exponent).map fun f => .real (if n.isNegative then -f else f)

end Numeral

namespace Number

/-- The number that the characters write. -/
def read? (cs : List Char) : Option Number := (Numeral.read? cs).bind Numeral.number?

/-- The double nearest to the number. -/
def toFloat : Number → Float
  | .int n => Float.ofInt n
  | .real x => x

/-- The digits of a decimal with one digit before the point and an exponent. -/
def scientific (d : Decimal) : List Char :=
  let ds := d.digitChars
  let exponent : Int := d.exponent + ds.length - 1
  let fraction := match ds.tail with
    | [] => []
    | tail => '.' :: tail
  ds.take 1 ++ fraction ++ 'e' :: (toString exponent).toList

/-- A double in a JSON text: the fewest digits that read back, a tie going to the even digit. The
point stands among the digits, with at least one digit on either side, while the first digit counts
at least `10 ^ -5` and less than `10 ^ 16`; beyond that an exponent is written. -/
def realText (x : Float) : List Char :=
  let d := Decimal.shortest x .toEven
  let point : Int := d.exponent + d.digitChars.length
  let magnitude :=
    if -5 < point ∧ point ≤ 16 then
      if 0 ≤ d.exponent then d.positional ++ ['.', '0'] else d.positional
    else scientific d
  if x.toBits.toNat < UInt64.size / 2 then magnitude else '-' :: magnitude

/-- A number in a JSON text. -/
def text : Number → List Char
  | .int n => (toString n).toList
  | .real x => realText x

end Number

end ScriptDebugger.Json
