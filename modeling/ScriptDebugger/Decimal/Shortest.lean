/-!
# The fewest digits that read back

A positive finite double is an integer times a power of two. Among the decimals that round to it,
the ones on the coarsest grid of powers of ten have the fewest digits; of those the nearest is
chosen. All comparisons are exact, on natural numbers.

## Main results

* `shortestFrom_readsBack` — whatever the search finds lies among the reals that round to the
  double.
-/

namespace ScriptDebugger

/-- The number `digits · 10 ^ exponent`. -/
structure Decimal where
  /-- The digits, as one number. -/
  digits : Nat
  /-- The power of ten that they count. -/
  exponent : Int
  deriving DecidableEq, Repr

/-- The number `bits · 2 ^ exponent`. -/
structure Binary where
  /-- The significand. -/
  bits : Nat
  /-- The power of two that it counts. -/
  exponent : Int
  deriving DecidableEq, Repr

namespace Binary

/-- The bit in front of the fifty-two that a double stores of its significand. -/
def leadingBit : Nat := 1 <<< 52

/-- The absolute value of a finite double. -/
def ofFloat (x : Float) : Binary :=
  let word := x.toBits.toNat
  let biased := word / leadingBit % 2048
  let fraction := word % leadingBit
  if biased = 0 then ⟨fraction, -1074⟩ else ⟨leadingBit + fraction, (biased : Int) - 1075⟩

/-- The double below a power of two is half as far away as the one above, except at the bottom of
the range. -/
def isNarrowBelow (b : Binary) : Bool := b.bits == leadingBit && decide (b.exponent ≠ -1074)

/-- The midpoint between a double and the double below it. -/
def lowerEnd (b : Binary) : Binary :=
  if b.isNarrowBelow then ⟨4 * b.bits - 1, b.exponent - 2⟩ else ⟨2 * b.bits - 1, b.exponent - 1⟩

/-- The midpoint between a double and the double above it. -/
def upperEnd (b : Binary) : Binary := ⟨2 * b.bits + 1, b.exponent - 1⟩

end Binary

namespace Decimal

/-- A power of ten. -/
def tens (k : Nat) : Nat := Nat.pow 10 k

/-- How a decimal stands to a binary number; both are brought to a common unit first. -/
def compareBinary (d : Decimal) (b : Binary) : Ordering :=
  compare ((d.digits * tens d.exponent.toNat) <<< (-b.exponent).toNat)
    ((b.bits <<< b.exponent.toNat) * tens (-d.exponent).toNat)

/-- Whether a decimal rounds to the double: it lies between the two midpoints, which count
themselves where the significand is even. -/
def readsBack (b : Binary) (d : Decimal) : Bool :=
  if b.bits % 2 = 0 then
    d.compareBinary b.lowerEnd != .lt && d.compareBinary b.upperEnd != .gt
  else
    d.compareBinary b.lowerEnd == .gt && d.compareBinary b.upperEnd == .lt

/-- Which of two equally near decimals is taken. -/
inductive Tie
  /-- The larger one. -/
  | up
  /-- The one whose last digit is even. -/
  | toEven
  deriving DecidableEq, Repr

/-- The multiple of `10 ^ grid` at or below the number. -/
def floorOn (b : Binary) (grid : Int) : Nat :=
  (b.bits <<< b.exponent.toNat) * tens (-grid).toNat / (tens grid.toNat <<< (-b.exponent).toNat)

/-- Of the two neighbours `n` and `n + 1` on a grid, the one nearer to the number. -/
def nearer (b : Binary) (grid : Int) (tie : Tie) (n : Nat) : Nat :=
  match compareBinary ⟨2 * n + 1, grid⟩ ⟨b.bits, b.exponent + 1⟩ with
  | .gt => n
  | .lt => n + 1
  | .eq =>
    match tie with
    | .up => n + 1
    | .toEven => if n % 2 = 0 then n else n + 1

/-- The decimal on a grid that reads back, if one of the two neighbours does. -/
def onGrid? (b : Binary) (tie : Tie) (grid : Int) : Option Decimal :=
  let n := floorOn b grid
  let below : Decimal := ⟨n, grid⟩
  let above : Decimal := ⟨n + 1, grid⟩
  match decide (n ≠ 0) && readsBack b below, readsBack b above with
  | true, true => some ⟨nearer b grid tie n, grid⟩
  | true, false => some below
  | false, true => some above
  | false, false => none

/-- Tries a grid and then, `steps` times, the next finer one. -/
def shortestFrom (b : Binary) (tie : Tie) (grid : Int) : (steps : Nat) → Option Decimal
  | 0 => none
  | steps + 1 =>
    match onGrid? b tie grid with
    | some d => some d
    | none => shortestFrom b tie (grid - 1) steps

/-- A grid that is at least as coarse as the leading digit. -/
def coarseGrid (b : Binary) : Int := (((b.bits.log2 : Int) + 1 + b.exponent) * 30103) / 100000 + 1

/-- The decimal with the fewest digits that reads back as the absolute value of a double; zero for
zero. Seventeen digits always suffice, and two more grids cover the slack of the first. -/
def shortest (x : Float) (tie : Tie) : Decimal :=
  let b := Binary.ofFloat x
  if b.bits = 0 then ⟨0, 0⟩ else (shortestFrom b tie (coarseGrid b) 20).getD ⟨0, 0⟩

/-- The digits of the decimal, in base ten. -/
def digitChars (d : Decimal) : List Char := Nat.toDigits 10 d.digits

/-- Digits around a point: zeros fill the places that the digits leave open. -/
def positional (d : Decimal) : List Char :=
  let ds := d.digitChars
  let point := (ds.length : Int) + d.exponent
  if 0 ≤ d.exponent then ds ++ List.replicate d.exponent.toNat '0'
  else if 0 < point then ds.take point.toNat ++ '.' :: ds.drop point.toNat
  else '0' :: '.' :: List.replicate (-point).toNat '0' ++ ds

theorem onGrid?_readsBack {b : Binary} {tie : Tie} {grid : Int} {d : Decimal}
    (h : onGrid? b tie grid = some d) : readsBack b d = true := by
  simp only [onGrid?] at h
  split at h
  · rename_i hb ha
    simp only [Bool.and_eq_true] at hb
    cases h
    unfold nearer
    split
    · exact hb.2
    · exact ha
    · cases tie
      · exact ha
      · simp only
        split
        · exact hb.2
        · exact ha
  · rename_i hb _
    simp only [Bool.and_eq_true] at hb
    cases h
    exact hb.2
  · rename_i ha
    cases h
    exact ha
  · cases h

theorem shortestFrom_readsBack {b : Binary} {tie : Tie} {grid : Int} {steps : Nat} {d : Decimal}
    (h : shortestFrom b tie grid steps = some d) : readsBack b d = true := by
  induction steps generalizing grid with
  | zero => simp [shortestFrom] at h
  | succ steps ih =>
    simp only [shortestFrom] at h
    split at h
    · rename_i heq
      cases h
      exact onGrid?_readsBack heq
    · exact ih h

end Decimal

end ScriptDebugger
