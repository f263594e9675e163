import ScriptDebugger.Proofs.Decimal.Doubles
import ScriptDebugger.Proofs.Json.Numerals
/-!
# Doubles in a JSON text

The text of a finite double can be read again. What can fail is the power of ten: the digits are
gathered to a significand of sixty-four bits, which is multiplied by a power of ten, and the product
may overflow. For all but the fifteen greatest doubles the product is too small for that, whatever
the digits are; for these fifteen the digits are known.

## Main results

* `Decimal.scaled_le` — digits that read back do not write more than the double's upper end.
* `Numeral.isSome_scale?_of_le` — a significand times a power of ten that does not overflow.
* `Number.isSome_read?_realText` — the text of a finite double is readable.
* `Number.isFinite_of_read?` — what a text is read as is an integer of 64 bits or a finite double.
-/

namespace ScriptDebugger

/-! ## The fewest digits -/

namespace Decimal

theorem tens_add (j k : Nat) : tens (j + k) = tens j * tens k := Nat.pow_add 10 j k

theorem not_below {b : Binary} {d : Decimal} (h : readsBack b d = true) :
    d.compareBinary b.lowerEnd ≠ .lt := by
  intro hlt
  unfold readsBack at h
  rw [hlt] at h
  split at h
  · cases h
  · cases h

theorem not_above {b : Binary} {d : Decimal} (h : readsBack b d = true) :
    d.compareBinary b.upperEnd ≠ .gt := by
  intro hgt
  unfold readsBack at h
  rw [hgt] at h
  split at h
  · rw [Bool.and_comm] at h
    cases h
  · rw [Bool.and_comm] at h
    cases h

/-- No zero reads back as another number. -/
theorem digits_pos {b : Binary} {d : Decimal} (h : readsBack b d = true) (hb : b.bits ≠ 0) :
    0 < d.digits := by
  refine Nat.pos_of_ne_zero fun hzero => not_below h ?_
  have hbits : 0 < b.lowerEnd.bits := by
    unfold Binary.lowerEnd
    split
    · show 0 < 4 * b.bits - 1
      omega
    · show 0 < 2 * b.bits - 1
      omega
  rw [compareBinary, hzero, Nat.zero_mul, Nat.zero_shiftLeft]
  refine Nat.compare_eq_lt.2 (Nat.mul_pos ?_ (one_le_tens _))
  exact Nat.shiftLeft_pos_iff.2 hbits

/-- The fewest digits of a double are a zero, or they read back. -/
theorem shortest_cases (x : Float) (tie : Tie) :
    shortest x tie = ⟨0, 0⟩ ∨
      readsBack (Binary.ofFloat x) (shortest x tie) = true ∧ 0 < (shortest x tie).digits := by
  unfold shortest
  simp only
  split
  · exact .inl rfl
  · rename_i hbits
    cases hfound : shortestFrom (Binary.ofFloat x) tie (coarseGrid (Binary.ofFloat x)) 20 with
    | none => exact .inl rfl
    | some d =>
        have hreads := shortestFrom_readsBack hfound
        exact .inr ⟨hreads, digits_pos hreads hbits⟩

/-- What digits in front write does not exceed the upper end of the double. -/
theorem scaled_le {b : Binary} {d : Decimal} (h : readsBack b d = true) {n u k : Nat}
    (hn : n * tens u ≤ d.digits) (hk : d.exponent + u = k) :
    n * tens k ≤ (2 * b.bits + 1) * 2 ^ (b.exponent - 1).toNat := by
  have hupper : (d.digits * tens d.exponent.toNat) <<< (-(b.exponent - 1)).toNat ≤
      ((2 * b.bits + 1) <<< (b.exponent - 1).toNat) * tens (-d.exponent).toNat :=
    Nat.le_of_not_lt fun hlt => not_above h (Nat.compare_eq_gt.2 hlt)
  rw [Nat.shiftLeft_eq, Nat.shiftLeft_eq] at hupper
  -- a negative exponent stands on the other side of the comparison
  have hplaces : k + (-d.exponent).toNat = u + d.exponent.toNat := by omega
  refine Nat.le_of_mul_le_mul_right ?_ (one_le_tens (-d.exponent).toNat)
  calc n * tens k * tens (-d.exponent).toNat
      = n * tens u * tens d.exponent.toNat := by
        rw [Nat.mul_assoc, ← tens_add, hplaces, tens_add, Nat.mul_assoc]
    _ ≤ d.digits * tens d.exponent.toNat := Nat.mul_le_mul_right _ hn
    _ ≤ d.digits * tens d.exponent.toNat * 2 ^ (-(b.exponent - 1)).toNat :=
        Nat.le_mul_of_pos_right _ (Nat.two_pow_pos _)
    _ ≤ _ := hupper

theorem upper_le_bound : (2 ^ 54 - 31) * Double.twos 970 ≤ Double.bound := by
  rw [Double.bound, Double.twos_mantissa]

theorem upper_le_bound_below : (2 ^ 54 - 1) * Double.twos 969 ≤ Double.bound := by
  refine Nat.le_trans ?_ upper_le_bound
  have htwo : Double.twos 1 = 2 := rfl
  have htwice : Double.twos 970 = Double.twos 1 * Double.twos 969 := Double.twos_add 1 969
  rw [htwice, htwo]
  generalize Double.twos 969 = t
  omega

theorem size_le_bound : UInt64.size ≤ Double.bound := by
  have hsize : UInt64.size ≤ Double.twos 970 := Double.two_pow_le_twos (j := 64) (by decide)
  exact Nat.le_trans hsize (Nat.le_mul_of_pos_left _ (by decide))

theorem upper_lt_tens : (2 ^ 54 - 1) * Double.twos 970 < tens 309 := by decide +kernel

section

variable {x : Float} (hx : x.isFinite = true) {d : Decimal}
  (h : readsBack (Binary.ofFloat x) d = true) {n u k : Nat} (hn : n * tens u ≤ d.digits)
  (hk : d.exponent + u = k)

include hx h hn hk

/-- A finite double is written with powers of ten that have doubles themselves. -/
theorem places_le (hpos : 0 < n) : k ≤ 308 := by
  obtain ⟨hbits, hexponent⟩ := Double.ofFloat_lt hx
  have hupper : n * tens k < tens 309 := by
    calc n * tens k
        ≤ (2 * (Binary.ofFloat x).bits + 1) * 2 ^ ((Binary.ofFloat x).exponent - 1).toNat :=
          scaled_le h hn hk
      _ ≤ (2 ^ 54 - 1) * Double.twos 970 :=
          Nat.mul_le_mul (by omega) (Double.two_pow_le_twos (by omega))
      _ < tens 309 := upper_lt_tens
  by_cases hle : k ≤ 308
  · exact hle
  · have htens : tens 309 ≤ n * tens k :=
      Nat.le_trans (Double.tens_le (by omega)) (Nat.le_mul_of_pos_left _ hpos)
    exact absurd hupper (Nat.not_lt.2 htens)

/-- But for the fifteen greatest ones, a double is written well within the doubles. -/
theorem scaled_le_bound
    (hroom : (Binary.ofFloat x).bits + 16 ≤ 2 ^ 53 ∨ (Binary.ofFloat x).exponent ≤ 970) :
    n * tens k ≤ Double.bound := by
  obtain ⟨hbits, hexponent⟩ := Double.ofFloat_lt hx
  refine Nat.le_trans (scaled_le h hn hk) ?_
  cases hroom with
  | inl hroom =>
      refine Nat.le_trans (Nat.mul_le_mul ?_ ?_) upper_le_bound
      · omega
      · exact Double.two_pow_le_twos (by omega)
  | inr hroom =>
      refine Nat.le_trans (Nat.mul_le_mul ?_ ?_) upper_le_bound_below
      · omega
      · exact Double.two_pow_le_twos (by omega)

end

/-- Whether the digits of a double, all of them gathered, can be multiplied by their power of
ten. -/
def isScalable (b : Binary) : Bool :=
  let d := (shortestFrom b .toEven (coarseGrid b) 20).getD ⟨0, 0⟩
  decide (d.digits < UInt64.size) && decide (0 ≤ d.exponent ∧ d.exponent ≤ 308) &&
    !(Float.ofNat d.digits * Json.Numeral.powerOfTen d.exponent.natAbs).isInf

theorem isScalable_greatest :
    (List.range 15).all (fun i => isScalable ⟨2 ^ 53 - 1 - i, 971⟩) = true := by decide +kernel

/-- The fifteen greatest doubles are written with digits that can be multiplied. -/
theorem isScalable_of_greatest {x : Float} (hx : x.isFinite = true)
    (h : ¬((Binary.ofFloat x).bits + 16 ≤ 2 ^ 53 ∨ (Binary.ofFloat x).exponent ≤ 970)) :
    isScalable (Binary.ofFloat x) = true := by
  obtain ⟨hbits, hexponent⟩ := Double.ofFloat_lt hx
  generalize Binary.ofFloat x = b at h hbits hexponent ⊢
  obtain ⟨bits, exponent⟩ := b
  simp only at h hbits hexponent
  have hsame : bits = 2 ^ 53 - 1 - (2 ^ 53 - 1 - bits) := by omega
  have hgreatest : exponent = 971 := by omega
  have hmem : 2 ^ 53 - 1 - bits ∈ List.range 15 := List.mem_range.2 (by omega)
  rw [hgreatest, hsame]
  exact List.all_eq_true.1 isScalable_greatest _ hmem

end Decimal

namespace Json

/-! ## Powers of ten behind a significand -/

namespace Numeral

/-- A division by a power of ten does not fail. -/
theorem isSome_scale?_of_neg (f : Float) {e : Int} (he : e < 0) : (scale? f e).isSome = true := by
  induction f, e using scale?.induct with
  | case1 f e hsmall hnonneg => omega
  | case2 f e hsmall hnonneg => omega
  | case3 f e hsmall hneg =>
      rw [scale?, if_pos hsmall, if_neg hneg]
      rfl
  | case4 f e hsmall hzero =>
      rw [scale?, if_neg hsmall, if_pos hzero]
      rfl
  | case5 f e hsmall hne hnonneg => omega
  | case6 f e hsmall hne hneg ih =>
      rw [scale?, if_neg hsmall, if_neg hne, if_neg hneg]
      exact ih (by omega)

/-- A significand times a power of ten that is well within the doubles. -/
theorem isSome_scale?_of_le {n k : Nat} (hn : n < UInt64.size) (hk : k ≤ 308)
    (hle : n * Decimal.tens k ≤ Double.bound) : (scale? (Float.ofNat n) k).isSome = true := by
  have hnatAbs : (k : Int).natAbs = k := rfl
  rw [scale?, hnatAbs, if_pos hk, if_pos (Int.natCast_nonneg k)]
  simp only [Double.not_isInf_scaled hn hk hle]
  rfl

theorem isSome_scale?_of_nonpos {n : Nat} (hn : n < UInt64.size) {e : Int} (he : e ≤ 0) :
    (scale? (Float.ofNat n) e).isSome = true := by
  cases Int.lt_or_eq_of_le he with
  | inl hneg => exact isSome_scale?_of_neg _ hneg
  | inr hzero =>
      subst hzero
      refine isSome_scale?_of_le (k := 0) hn (by decide) ?_
      rw [show n * Decimal.tens 0 = n from Nat.mul_one n]
      exact Nat.le_trans (Nat.le_of_lt hn) Decimal.size_le_bound

/-- A significand with an exponent that is written. -/
theorem isSome_magnitude? {n : Nat} (hn : n < UInt64.size) {shift : Int} (hshift : shift ≤ 0)
    {isNegative : Bool} {ds : List Nat} {e : Nat} (he : valueFrom 0 ds = e)
    (h : isNegative = false → e ≤ exponentLimit ∧
      (0 ≤ shift + e → (scale? (Float.ofNat n) (shift + e)).isSome = true)) :
    (magnitude? n shift (some (isNegative, ds))).isSome = true := by
  have hvalue : ds.foldl (fun n d => n * 10 + d) 0 = e := he
  rw [magnitude?, hvalue]
  cases isNegative with
  | true =>
      simp only [Bool.not_true, Bool.false_eq_true, and_false, if_false, if_true]
      split
      · rfl
      · exact isSome_scale?_of_nonpos hn (by omega)
  | false =>
      obtain ⟨hlimit, hscale⟩ := h rfl
      rw [if_neg (Nat.not_lt.2 hlimit)]
      simp only [Bool.false_eq_true, if_false]
      by_cases hnonneg : 0 ≤ shift + e
      · have hsame :
            max (-exponentLimit - 1 : Int) (min exponentLimit (shift + e)) = shift + e := by omega
        rw [hsame]
        exact hscale hnonneg
      · exact isSome_scale?_of_nonpos hn (by omega)

/-- The places by which gathered digits stand behind the point. -/
def places (n : Nat) (fraction : List Nat) : Int :=
  -((fraction.length : Int) - (gather n fraction).2.length)

theorem places_nonpos (n : Nat) (fraction : List Nat) : places n fraction ≤ 0 := by
  have hle := length_gather_le n fraction
  unfold places
  omega

/-- A numeral whose digits before the point are all gathered. -/
theorem isSome_number? {isNegative : Bool} {whole fraction : List Nat}
    {exponent : Option (Bool × List Nat)} (hwhole : valueFrom 0 whole < UInt64.size)
    (hreal : ¬(fraction = [] ∧ exponent = none))
    (h : (magnitude? (gather (valueFrom 0 whole) fraction).1
      (places (valueFrom 0 whole) fraction) exponent).isSome = true) :
    (number? ⟨isNegative, whole, fraction, exponent⟩).isSome = true := by
  rw [number?, gather_of_lt hwhole]
  simp only [true_and, hreal, if_false, Option.isSome_map]
  unfold places at h
  simpa using h

theorem digitValue_le {c : Char} (h : c.isDigit = true) : digitValue c ≤ 9 := by
  simp only [Char.isDigit, Bool.and_eq_true, decide_eq_true_eq] at h
  have hhigh : c.toNat ≤ 57 := h.2
  have hzero : '0'.toNat = 48 := rfl
  unfold digitValue
  omega

/-- Digits write less than a power of ten with as many places. -/
theorem valueFrom_lt (n : Nat) {ds : List Char} (h : ∀ c ∈ ds, c.isDigit = true) :
    valueFrom n (ds.map digitValue) < (n + 1) * Decimal.tens ds.length := by
  induction ds generalizing n with
  | nil => exact Nat.lt_of_lt_of_eq (Nat.lt_succ_self n) (Nat.mul_one _).symm
  | cons c ds ih =>
      have hc := digitValue_le (h c List.mem_cons_self)
      rw [List.map_cons, valueFrom_cons, List.length_cons, Decimal.tens_succ, ← Nat.mul_assoc]
      refine Nat.lt_of_lt_of_le (ih _ fun c hc => h c (List.mem_cons_of_mem _ hc)) ?_
      exact Nat.mul_le_mul_right _ (by omega)

theorem le_gather (n : Nat) (ds : List Nat) : n ≤ (gather n ds).1 := by
  induction ds generalizing n with
  | nil => exact Nat.le_refl n
  | cons d ds ih =>
      rw [gather_cons]
      split
      · exact Nat.le_trans (by omega) (ih (n * 10 + d))
      · exact Nat.le_refl n

end Numeral

namespace Number

open Numeral

/-- A sign in front of the characters of a number. -/
def signed (isNegative : Bool) (cs : List Char) : List Char :=
  (if isNegative then ['-'] else []) ++ cs

/-- A number with digits on both sides of the point is readable where not too many of them stand
before it. -/
theorem isSome_read?_point {whole fraction : List Char} (hwhole : IsWhole whole)
    (hlength : whole.length ≤ 19) (hfraction : ∀ c ∈ fraction, c.isDigit = true)
    (hne : fraction ≠ []) (isNegative : Bool) :
    (read? (signed isNegative (whole ++ '.' :: fraction))).isSome = true := by
  have hpoint : NoDigit ('.' :: fraction) := noDigit_cons rfl fraction
  have htake := takeFraction?_point hfraction hne noDigit_nil
  rw [List.append_nil] at htake
  have hnumeral : Numeral.read? (signed isNegative (whole ++ '.' :: fraction)) =
      some ⟨isNegative, whole.map digitValue, fraction.map digitValue, none⟩ := by
    rw [signed, ← List.append_assoc, Numeral.read?_append hwhole hpoint, htake]
    rfl
  have hvalue : valueFrom 0 (whole.map digitValue) < UInt64.size := by
    calc valueFrom 0 (whole.map digitValue) < (0 + 1) * Decimal.tens whole.length :=
          valueFrom_lt 0 hwhole.isDigit
      _ ≤ (0 + 1) * Decimal.tens 19 := Nat.mul_le_mul_left _ (Double.tens_le hlength)
      _ < UInt64.size := by decide
  rw [read?, hnumeral, Option.bind_some]
  refine isSome_number? hvalue ?_ ?_
  · intro hnone
    exact hne (List.map_eq_nil_iff.1 hnone.1)
  · exact isSome_scale?_of_nonpos (gather_lt hvalue _) (places_nonpos _ _)

theorem isDigit_of_mem_replicate {n : Nat} {c : Char} (h : c ∈ List.replicate n '0') :
    c.isDigit = true := by
  rw [List.eq_of_mem_replicate h]
  rfl

/-- Only zero is written with a zero in front. -/
theorem digits_eq_zero {d : Decimal} (h : d.digitChars = ['0']) : d.digits = 0 := by
  have hvalue : valueFrom 0 (d.digitChars.map digitValue) = d.digits := valueFrom_toDigits d.digits
  rw [h] at hvalue
  exact hvalue.symm

theorem isWhole_append_zeros {d : Decimal} (hd : d.digits = 0 → d.exponent = 0) :
    IsWhole (d.digitChars ++ List.replicate d.exponent.toNat '0') := by
  have hdigits : IsWhole d.digitChars := isWhole_toDigits d.digits
  constructor
  · intro c hc
    cases List.mem_append.1 hc with
    | inl hmem => exact hdigits.isDigit c hmem
    | inr hmem => exact isDigit_of_mem_replicate hmem
  · exact List.append_ne_nil_of_left_ne_nil hdigits.ne_nil _
  · intro hhead
    rw [List.head?_append_of_ne_nil _ hdigits.ne_nil] at hhead
    have hsingle := hdigits.leading hhead
    rw [hd (digits_eq_zero hsingle), hsingle]
    rfl

theorem isWhole_take {ds : List Char} (hds : IsWhole ds) {k : Nat} (hk : 0 < k) :
    IsWhole (ds.take k) := by
  constructor
  · intro c hc
    exact hds.isDigit c (List.mem_of_mem_take hc)
  · intro hnil
    cases List.take_eq_nil_iff.1 hnil with
    | inl hzero => omega
    | inr hempty => exact hds.ne_nil hempty
  · intro hhead
    rw [List.head?_take, if_neg (Nat.ne_of_gt hk)] at hhead
    rw [hds.leading hhead, List.take_of_length_le hk]

/-- Digits around a point are readable. -/
theorem isSome_read?_positional {d : Decimal} (hd : d.digits = 0 → d.exponent = 0)
    (hpoint : d.exponent + d.digitChars.length ≤ 16) (isNegative : Bool) :
    (read? (signed isNegative
      (if 0 ≤ d.exponent then d.positional ++ ['.', '0'] else d.positional))).isSome = true := by
  have hdigits : IsWhole d.digitChars := isWhole_toDigits d.digits
  by_cases hnonneg : 0 ≤ d.exponent
  · have htext : d.positional = d.digitChars ++ List.replicate d.exponent.toNat '0' :=
      if_pos hnonneg
    rw [if_pos hnonneg, htext]
    refine isSome_read?_point (isWhole_append_zeros hd) ?_ ?_ (List.cons_ne_nil _ _) isNegative
    · rw [List.length_append, List.length_replicate]
      omega
    · exact List.all_eq_true.1 rfl
  · rw [if_neg hnonneg]
    generalize hplace : (d.digitChars.length : Int) + d.exponent = point
    by_cases hpos : 0 < point
    · have htext : d.positional =
          d.digitChars.take point.toNat ++ '.' :: d.digitChars.drop point.toNat := by
        simp only [Decimal.positional, if_neg hnonneg, hplace, if_pos hpos]
      rw [htext]
      refine isSome_read?_point (isWhole_take hdigits (by omega)) ?_ ?_ ?_ isNegative
      · have hle := List.length_take_le point.toNat d.digitChars
        omega
      · intro c hc
        exact hdigits.isDigit c (List.mem_of_mem_drop hc)
      · intro hnil
        have hle := List.drop_eq_nil_iff.1 hnil
        omega
    · have htext : d.positional =
          ['0'] ++ '.' :: (List.replicate (-point).toNat '0' ++ d.digitChars) := by
        simp only [Decimal.positional, if_neg hnonneg, hplace, if_neg hpos]
        rfl
      have hzero : IsWhole ['0'] := isWhole_toDigits 0
      rw [htext]
      refine isSome_read?_point hzero (by decide) ?_ ?_ isNegative
      · intro c hc
        cases List.mem_append.1 hc with
        | inl hmem => exact isDigit_of_mem_replicate hmem
        | inr hmem => exact hdigits.isDigit c hmem
      · exact List.append_ne_nil_of_right_ne_nil _ hdigits.ne_nil

/-- What one digit before the point, others behind it and an exponent are read as. -/
theorem read?_scientific (d : Decimal) {c : Char} {cs : List Char} (hds : d.digitChars = c :: cs)
    (isNegative : Bool) :
    Numeral.read? (signed isNegative (scientific d)) =
      some ⟨isNegative, [digitValue c], cs.map digitValue,
        some (decide (d.exponent + cs.length < 0),
          (Nat.toDigits 10 (d.exponent + cs.length).natAbs).map digitValue)⟩ := by
  have hdigits : IsWhole (c :: cs) := hds ▸ isWhole_toDigits d.digits
  have hfirst : IsWhole [c] := isWhole_take hdigits Nat.one_pos
  have hcs : ∀ e ∈ cs, e.isDigit = true := fun e he => hdigits.isDigit e (List.mem_cons_of_mem c he)
  have hexponent : d.exponent + d.digitChars.length - 1 = d.exponent + cs.length := by
    rw [hds, List.length_cons]
    omega
  have hwritten := takeExponent?_written (d.exponent + cs.length)
  generalize hend : 'e' :: (toString (d.exponent + cs.length)).toList = back at hwritten
  have hback : NoDigit back := hend ▸ noDigit_cons rfl _
  cases cs with
  | nil =>
      have htext : scientific d = [c] ++ back := by
        simp only [scientific, hexponent, hend]
        rw [hds]
        rfl
      rw [signed, htext, ← List.append_assoc, Numeral.read?_append hfirst hback, ← hend,
        takeFraction?]
      · rw [hend, Option.bind_some, hwritten]
        rfl
      · intro ds heq
        cases (List.cons.inj heq).1
  | cons c' cs =>
      have htext : scientific d = [c] ++ '.' :: ((c' :: cs) ++ back) := by
        simp only [scientific, hexponent, hend]
        rw [hds]
        rfl
      have hpoint : NoDigit ('.' :: ((c' :: cs) ++ back)) := noDigit_cons rfl _
      rw [signed, htext, ← List.append_assoc, Numeral.read?_append hfirst hpoint,
        takeFraction?_point hcs (List.cons_ne_nil _ _) hback, Option.bind_some, hwritten]
      rfl

/-- The digits that are gathered of a double can be multiplied by their power of ten. -/
theorem isSome_scale?_gathered {x : Float} (hx : x.isFinite = true) {d : Decimal}
    (hreads : Decimal.readsBack (Binary.ofFloat x) d = true) {n : Nat} {ds : List Nat}
    (hpos : 0 < n) (hn : n < UInt64.size) (hvalue : valueFrom n ds = d.digits)
    (hd : Decimal.shortest x .toEven = d) (hplaces : 0 ≤ d.exponent + (gather n ds).2.length) :
    (scale? (Float.ofNat (gather n ds).1) (d.exponent + (gather n ds).2.length)).isSome = true := by
  obtain ⟨k, hk⟩ := Int.eq_ofNat_of_zero_le hplaces
  have hgather := gather_scaled_le n ds
  rw [hvalue] at hgather
  by_cases hroom : (Binary.ofFloat x).bits + 16 ≤ 2 ^ 53 ∨ (Binary.ofFloat x).exponent ≤ 970
  · rw [hk]
    refine isSome_scale?_of_le (gather_lt hn ds) ?_ ?_
    · exact Decimal.places_le hx hreads hgather hk (Nat.lt_of_lt_of_le hpos (le_gather n ds))
    · exact Decimal.scaled_le_bound hx hreads hgather hk hroom
  -- the digits of one of the greatest doubles fit 64 bits, so all of them were gathered
  · have hscalable := Decimal.isScalable_of_greatest hx hroom
    have hbits : (Binary.ofFloat x).bits ≠ 0 := by omega
    have hshortest : Decimal.shortest x .toEven = (Decimal.shortestFrom (Binary.ofFloat x) .toEven
        (Decimal.coarseGrid (Binary.ofFloat x)) 20).getD ⟨0, 0⟩ := if_neg hbits
    simp only [Decimal.isScalable, ← hshortest, hd, Bool.and_eq_true, decide_eq_true_eq,
      Bool.not_eq_true'] at hscalable
    obtain ⟨⟨hsmall, hnonneg, hle⟩, hinf⟩ := hscalable
    have hall : gather n ds = (d.digits, []) := by
      rw [gather_of_lt (hvalue.symm ▸ hsmall), hvalue]
    rw [hall, List.length_nil, Int.natCast_zero, Int.add_zero, scale?, if_pos (by omega),
      if_pos hnonneg]
    simp only [hinf]
    rfl

/-- The digits of a double that reads back, with an exponent behind them, are readable. -/
theorem isSome_read?_exponent {x : Float} (hx : x.isFinite = true)
    (hreads : Decimal.readsBack (Binary.ofFloat x) (Decimal.shortest x .toEven) = true)
    (hpos : 0 < (Decimal.shortest x .toEven).digits) (isNegative : Bool) :
    (read? (signed isNegative (scientific (Decimal.shortest x .toEven)))).isSome = true := by
  generalize hd : Decimal.shortest x .toEven = d at hreads hpos ⊢
  have hdigits : IsWhole d.digitChars := isWhole_toDigits d.digits
  have hvalue : valueFrom 0 (d.digitChars.map digitValue) = d.digits := valueFrom_toDigits d.digits
  cases hds : d.digitChars with
  | nil => exact absurd hds hdigits.ne_nil
  | cons c cs =>
      rw [hds] at hdigits hvalue
      rw [List.map_cons, valueFrom_cons, Nat.zero_mul, Nat.zero_add] at hvalue
      have hfirst : 0 < digitValue c := by
        refine Nat.pos_of_ne_zero fun hzero => ?_
        have hc := digitValue_eq_zero (hdigits.isDigit c List.mem_cons_self) hzero
        rw [hc] at hdigits
        have hsingle : d.digitChars = ['0'] := by
          rw [hds, hc, hdigits.leading rfl]
        rw [digits_eq_zero hsingle] at hpos
        cases hpos
      have hsmall : digitValue c < UInt64.size := by
        have hle := digitValue_le (hdigits.isDigit c List.mem_cons_self)
        exact Nat.lt_of_le_of_lt hle (by decide)
      have hgather := gather_scaled_le (digitValue c) (cs.map digitValue)
      rw [hvalue] at hgather
      rw [read?, read?_scientific d hds, Option.bind_some]
      have hsingle : valueFrom 0 [digitValue c] = digitValue c := by simp
      have hwhole : valueFrom 0 [digitValue c] < UInt64.size := by
        rw [hsingle]
        exact hsmall
      refine isSome_number? hwhole (fun hnone => by cases hnone.2) ?_
      rw [hsingle]
      refine isSome_magnitude? (gather_lt hsmall _) (places_nonpos _ _) (valueFrom_toDigits _) ?_
      intro hsign
      have hnonneg : 0 ≤ d.exponent + cs.length := Int.not_lt.1 (of_decide_eq_false hsign)
      constructor
      · have hfront : digitValue c * Decimal.tens cs.length ≤ d.digits := by
          have hscaled := scaled_le_valueFrom (digitValue c) (cs.map digitValue)
          rwa [List.length_map, hvalue] at hscaled
        have hplaces : (d.exponent + cs.length).natAbs ≤ 308 :=
          Decimal.places_le hx hreads hfront (by omega) hfirst
        exact Nat.le_trans hplaces (by decide)
      · intro hplaces
        have hk : places (digitValue c) (cs.map digitValue) + (d.exponent + cs.length).natAbs =
            d.exponent + (gather (digitValue c) (cs.map digitValue)).2.length := by
          rw [places, List.length_map]
          omega
        rw [hk] at hplaces ⊢
        exact isSome_scale?_gathered hx hreads hfirst hsmall hvalue hd hplaces

/-- The text of a finite double is readable. -/
theorem isSome_read?_realText {x : Float} (hx : x.isFinite = true) :
    (read? (realText x)).isSome = true := by
  have hsigned (cs : List Char) : (if x.toBits.toNat < UInt64.size / 2 then cs else '-' :: cs) =
      signed (decide (¬x.toBits.toNat < UInt64.size / 2)) cs := by
    by_cases hsign : x.toBits.toNat < UInt64.size / 2
    · simp [signed, hsign]
    · simp [signed, hsign]
  have hcases := Decimal.shortest_cases x .toEven
  simp only [realText, hsigned]
  split
  · rename_i hpoint
    refine isSome_read?_positional ?_ hpoint.2 _
    intro hzero
    cases hcases with
    | inl heq => rw [heq]
    | inr hreads => exact absurd hzero (Nat.ne_of_gt hreads.2)
  · rename_i hpoint
    cases hcases with
    | inl heq =>
        rw [heq] at hpoint
        exact absurd (by decide) hpoint
    | inr hreads => exact isSome_read?_exponent hx hreads.1 hreads.2 _

/-! ## What a text yields -/

/-- A number as a text yields it: an integer of 64 bits or a finite double. -/
def IsFinite : Number → Prop
  | .int n => FitsWord (.int n)
  | .real x => x.isFinite = true

end Number

namespace Numeral

open Number

theorem isFinite_powerOfTen {n : Nat} (hn : n ≤ 308) : (powerOfTen n).isFinite = true :=
  (Double.normal_powerOfTen hn).isFinite

/-- Scaling leaves a double finite, or fails. -/
theorem isFinite_scale? {f g : Float} {e : Int} (hf : f.isFinite = true)
    (h : scale? f e = some g) : g.isFinite = true := by
  induction f, e using scale?.induct with
  | case1 f e hsmall hnonneg product hinf =>
      rw [scale?, if_pos hsmall, if_pos hnonneg] at h
      simp only [product] at hinf
      simp only [hinf, if_true] at h
      cases h
  | case2 f e hsmall hnonneg product hinf =>
      rw [scale?, if_pos hsmall, if_pos hnonneg] at h
      simp only [product] at hinf
      simp only [hinf] at h
      obtain rfl := Option.some.inj h
      exact Double.isFinite_mul hf (isFinite_powerOfTen hsmall) (Bool.eq_false_iff.2 hinf)
  | case3 f e hsmall hneg =>
      rw [scale?, if_pos hsmall, if_neg hneg] at h
      obtain rfl := Option.some.inj h
      exact Double.isFinite_div_powerOfTen hf (by omega) hsmall
  | case4 f e hsmall hzero =>
      rw [scale?, if_neg hsmall, if_pos hzero] at h
      obtain rfl := Option.some.inj h
      exact hf
  | case5 f e hsmall hne hnonneg =>
      rw [scale?, if_neg hsmall, if_neg hne, if_pos hnonneg] at h
      cases h
  | case6 f e hsmall hne hneg ih =>
      rw [scale?, if_neg hsmall, if_neg hne, if_neg hneg] at h
      exact ih (Double.isFinite_div_powerOfTen hf (by decide) (by decide)) h

theorem isFinite_magnitude? {n : Nat} (hn : n < UInt64.size) {shift : Int}
    {exponent : Option (Bool × List Nat)} {f : Float} (h : magnitude? n shift exponent = some f) :
    f.isFinite = true := by
  have hfinite := Double.isFinite_ofNat hn
  cases exponent with
  | none => exact isFinite_scale? hfinite h
  | some written =>
      rw [magnitude?] at h
      split at h
      · split at h
        · cases h
        · obtain rfl := Option.some.inj h
          exact Double.isFinite_ofNat (by decide)
      · exact isFinite_scale? hfinite h

/-- A numeral stands for an integer of 64 bits or a finite double, or for nothing. -/
theorem isFinite_number? {numeral : Numeral} {n : Number} (h : number? numeral = some n) :
    n.IsFinite := by
  have hsignificand : (gather 0 numeral.whole).1 < UInt64.size := gather_lt (by decide) _
  rw [number?] at h
  generalize gather 0 numeral.whole = gathered at h hsignificand
  simp only at h
  split at h
  · split at h
    · obtain rfl := Option.some.inj h
      constructor
      · simp only [UInt64.size]
        omega
      · exact Int.ofNat_lt.2 hsignificand
    · split at h
      · obtain rfl := Option.some.inj h
        exact Double.isFinite_neg (Double.isFinite_ofNat hsignificand)
      · rename_i hsmall
        obtain rfl := Option.some.inj h
        simp only [UInt64.size] at hsmall
        constructor
        · simp only [UInt64.size]
          omega
        · simp only [UInt64.size]
          omega
  · obtain ⟨f, hf, rfl⟩ := Option.map_eq_some_iff.1 h
    have hfinite := isFinite_magnitude? (gather_lt hsignificand _) hf
    show (if numeral.isNegative then -f else f).isFinite = true
    split
    · exact Double.isFinite_neg hfinite
    · exact hfinite

end Numeral

namespace Number

/-- What a text is read as is an integer of 64 bits or a finite double. -/
theorem isFinite_of_read? {cs : List Char} {n : Number} (h : read? cs = some n) : n.IsFinite := by
  obtain ⟨numeral, -, hnumber⟩ := Option.bind_eq_some_iff.1 h
  exact Numeral.isFinite_number? hnumber

/-- An integer of 64 bits or a finite double is readable. -/
theorem isSome_read?_text {n : Number} (h : n.IsFinite) : (read? n.text).isSome = true := by
  cases n with
  | int n =>
      rw [read?_int h]
      rfl
  | real x => exact isSome_read?_realText h

end Number

end Json

end ScriptDebugger
