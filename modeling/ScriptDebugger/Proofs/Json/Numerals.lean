import ScriptDebugger.Json.Number
/-!
# Reading written numbers

A number is written with digits, and around them a sign, a point and an exponent. The parts are read
one behind the other, each up to the first character that does not belong to it, and the digits are
gathered to a significand. An integer of 64 bits, signed or unsigned, reads back as it is.

## Main results

* `takeWhole?_append`, `takeFraction?_point`, `takeExponent?_written` — reading the parts.
* `gather_of_lt`, `gather_scaled_le` — what gathering digits gives, with and without a rest.
* `Number.read?_int` — an integer of 64 bits reads back.
-/

namespace ScriptDebugger

/-! ## Powers of ten -/

theorem Decimal.tens_succ (k : Nat) : tens (k + 1) = 10 * tens k := Nat.pow_succ'

theorem Decimal.one_le_tens (k : Nat) : 1 ≤ tens k := Nat.one_le_pow k 10 (by decide)

namespace Json

/-! ## Digits -/

namespace Numeral

/-- The number that digits write behind a number. -/
def valueFrom (n : Nat) (ds : List Nat) : Nat := ds.foldl (fun n d => n * 10 + d) n

@[simp] theorem valueFrom_nil (n : Nat) : valueFrom n [] = n := rfl

@[simp] theorem valueFrom_cons (n d : Nat) (ds : List Nat) :
    valueFrom n (d :: ds) = valueFrom (n * 10 + d) ds := rfl

/-- Further digits only move a number up. -/
theorem scaled_le_valueFrom (n : Nat) (ds : List Nat) :
    n * Decimal.tens ds.length ≤ valueFrom n ds := by
  induction ds generalizing n with
  | nil => exact Nat.le_of_eq (Nat.mul_one n)
  | cons d ds ih =>
      have hstep : n * Decimal.tens (ds.length + 1) ≤ (n * 10 + d) * Decimal.tens ds.length := by
        rw [Decimal.tens_succ, ← Nat.mul_assoc]
        exact Nat.mul_le_mul_right _ (Nat.le_add_right _ _)
      exact Nat.le_trans hstep (ih (n * 10 + d))

theorem le_valueFrom (n : Nat) (ds : List Nat) : n ≤ valueFrom n ds :=
  calc n = n * 1 := (Nat.mul_one n).symm
    _ ≤ n * Decimal.tens ds.length := Nat.mul_le_mul_left n (Decimal.one_le_tens _)
    _ ≤ valueFrom n ds := scaled_le_valueFrom n ds

/-- The digits of a number write it. -/
theorem valueFrom_toDigits (n : Nat) :
    valueFrom 0 ((Nat.toDigits 10 n).map digitValue) = n := by
  have hten := Nat.ofDigitChars_ten_toDigits (n := n)
  rw [Nat.ofDigitChars_eq_foldl] at hten
  rw [valueFrom, List.foldl_map]
  simpa only [Nat.mul_comm, digitValue] using hten

theorem gather_cons (n d : Nat) (ds : List Nat) :
    gather n (d :: ds) =
      if n * 10 + d < UInt64.size then gather (n * 10 + d) ds else (n, d :: ds) := rfl

/-- Digits that write less than `2 ^ 64` are all gathered. -/
theorem gather_of_lt {n : Nat} {ds : List Nat} (h : valueFrom n ds < UInt64.size) :
    gather n ds = (valueFrom n ds, []) := by
  induction ds generalizing n with
  | nil => rfl
  | cons d ds ih =>
      have hfirst : n * 10 + d < UInt64.size := Nat.lt_of_le_of_lt (le_valueFrom _ ds) h
      rw [gather_cons, if_pos hfirst]
      exact ih h

/-- Where no digit is left over, all that they write is gathered. -/
theorem gather_of_nil {n : Nat} {ds : List Nat} (h : (gather n ds).2 = []) :
    (gather n ds).1 = valueFrom n ds := by
  induction ds generalizing n with
  | nil => rfl
  | cons d ds ih =>
      rw [gather_cons] at h ⊢
      split at h
      · rw [if_pos ‹_›]
        exact ih h
      · cases h

/-- What is gathered of some digits is as much as they write, but for the digits left over. -/
theorem gather_scaled_le (n : Nat) (ds : List Nat) :
    (gather n ds).1 * Decimal.tens (gather n ds).2.length ≤ valueFrom n ds := by
  induction ds generalizing n with
  | nil => exact Nat.le_of_eq (Nat.mul_one n)
  | cons d ds ih =>
      rw [gather_cons]
      split
      · exact ih (n * 10 + d)
      · exact scaled_le_valueFrom n (d :: ds)

theorem gather_lt {n : Nat} (h : n < UInt64.size) (ds : List Nat) :
    (gather n ds).1 < UInt64.size := by
  induction ds generalizing n with
  | nil => exact h
  | cons d ds ih =>
      rw [gather_cons]
      split
      · exact ih ‹_›
      · exact h

theorem length_gather_le (n : Nat) (ds : List Nat) : (gather n ds).2.length ≤ ds.length := by
  induction ds generalizing n with
  | nil => exact Nat.le_refl 0
  | cons d ds ih =>
      rw [gather_cons]
      split
      · exact Nat.le_succ_of_le (ih (n * 10 + d))
      · exact Nat.le_refl _

/-! ## The parts of a written number -/

/-- Whether characters go on with something else than a digit. -/
def NoDigit (cs : List Char) : Prop := ∀ c ∈ cs.head?, c.isDigit = false

theorem takeDigits_append {ds rest : List Char} (hds : ∀ c ∈ ds, c.isDigit = true)
    (hrest : NoDigit rest) : takeDigits (ds ++ rest) = (ds.map digitValue, rest) := by
  have htake : rest.takeWhile Char.isDigit = [] ∧ rest.dropWhile Char.isDigit = rest := by
    cases rest with
    | nil => exact ⟨rfl, rfl⟩
    | cons c rest =>
        have hc : c.isDigit = false := hrest c rfl
        simp [hc]
  rw [takeDigits, List.takeWhile_append_of_pos hds, List.dropWhile_append_of_pos hds, htake.1,
    htake.2, List.append_nil]

/-- A digit has a value below ten, and only the digit zero has none. -/
theorem digitValue_eq_zero {c : Char} (h : c.isDigit = true) (hzero : digitValue c = 0) :
    c = '0' := by
  simp only [Char.isDigit, Bool.and_eq_true, decide_eq_true_eq] at h
  have hlow : 48 ≤ c.toNat := h.1
  have hsame : c.toNat = '0'.toNat := by
    rw [digitValue] at hzero
    have : '0'.toNat = 48 := rfl
    omega
  exact Char.ext (UInt32.toNat_inj.1 hsame)

/-- Digits that may stand in front of the point. -/
structure IsWhole (ds : List Char) : Prop where
  isDigit : ∀ c ∈ ds, c.isDigit = true
  ne_nil : ds ≠ []
  /-- No zero stands in front of another digit. -/
  leading : ds.head? = some '0' → ds = ['0']

theorem takeWhole?_append {ds rest : List Char} (hds : IsWhole ds) (hrest : NoDigit rest) :
    takeWhole? (ds ++ rest) = some (ds.map digitValue, rest) := by
  rw [takeWhole?, takeDigits_append hds.isDigit hrest]
  match ds, hds with
  | [], hds => exact absurd rfl hds.ne_nil
  | [c], _ =>
      simp only [List.map_cons, List.map_nil]
      split
      · simp_all
      · simp_all
      · rfl
  | c :: d :: ds, hds =>
      have hc : digitValue c ≠ 0 := by
        intro hzero
        have hlead := digitValue_eq_zero (hds.isDigit c List.mem_cons_self) hzero
        subst hlead
        cases hds.leading rfl
      simp only [List.map_cons]
      split
      · simp_all
      · simp_all
      · rfl

theorem isWhole_toDigits (n : Nat) : IsWhole (Nat.toDigits 10 n) where
  isDigit _ hc := Nat.isDigit_of_mem_toDigits (by decide) (by decide) hc
  ne_nil := Nat.toDigits_ne_nil
  leading := by
    induction n using Nat.strongRecOn with
    | ind n ih =>
        by_cases hn : n < 10
        · intro hhead
          rw [Nat.toDigits_of_lt_base hn] at hhead ⊢
          exact congrArg (fun c => [c]) (Option.some.inj hhead)
        · intro hhead
          have hle : 10 ≤ n := Nat.le_of_not_lt hn
          have hsmaller : n / 10 < n := Nat.div_lt_self (by omega) (by decide)
          have hfront : (Nat.toDigits 10 (n / 10)).head? = some '0' := by
            rw [Nat.toDigits_of_base_le (by decide) hle, List.head?_append] at hhead
            cases hdigits : Nat.toDigits 10 (n / 10) with
            | nil => exact absurd hdigits Nat.toDigits_ne_nil
            | cons c cs =>
                rw [hdigits] at hhead
                exact hhead
          have hzero := valueFrom_toDigits (n / 10)
          rw [ih _ hsmaller hfront] at hzero
          have : n / 10 = 0 := hzero.symm
          omega

theorem takeFraction?_point {ds rest : List Char} (hds : ∀ c ∈ ds, c.isDigit = true)
    (hne : ds ≠ []) (hrest : NoDigit rest) :
    takeFraction? ('.' :: (ds ++ rest)) = some (ds.map digitValue, rest) := by
  rw [takeFraction?, takeDigits_append hds hrest]
  cases ds with
  | nil => exact absurd rfl hne
  | cons c ds => rfl

theorem noDigit_nil : NoDigit [] := nofun

theorem noDigit_cons {c : Char} (h : c.isDigit = false) (cs : List Char) : NoDigit (c :: cs) := by
  intro d hd
  obtain rfl := Option.some.inj hd
  exact h

end Numeral

/-! ## Integers -/

/-- The digits of an integer stand behind a sign where it is negative. -/
theorem toList_toString_int (n : Int) :
    (toString n).toList =
      (if n < 0 then ['-'] else []) ++ Nat.toDigits 10 n.natAbs := by
  cases n with
  | ofNat n =>
      have hsign : ¬(Int.ofNat n < 0) := Int.not_lt.2 (Int.natCast_nonneg n)
      rw [if_neg hsign]
      exact Nat.toList_repr
  | negSucc n =>
      rw [if_pos (Int.negSucc_lt_zero n)]
      show (("-" ++ Nat.repr (n + 1)) : String).toList = _
      rw [String.toList_append, Nat.toList_repr]
      rfl

/-- A written exponent is read up to the end. -/
theorem Numeral.takeExponent?_written (n : Int) :
    takeExponent? ('e' :: (toString n).toList) =
      some (some (decide (n < 0), (Nat.toDigits 10 n.natAbs).map digitValue)) := by
  have hdigits := isWhole_toDigits n.natAbs
  have htake := takeDigits_append hdigits.isDigit noDigit_nil
  rw [List.append_nil] at htake
  rw [toList_toString_int]
  generalize Nat.toDigits 10 n.natAbs = ds at hdigits htake ⊢
  cases ds with
  | nil => exact absurd rfl hdigits.ne_nil
  | cons c cs =>
      by_cases hneg : n < 0
      · rw [if_pos hneg, decide_eq_true hneg, List.singleton_append, takeExponent?]
        simp only [true_or, if_true, htake]
        rfl
      · have hc : c.isDigit = true := hdigits.isDigit c List.mem_cons_self
        rw [if_neg hneg, decide_eq_false hneg, List.nil_append, takeExponent?]
        · simp only [true_or, if_true, htake]
          rfl
        · intro ds heq
          obtain rfl := (List.cons.inj heq).1
          cases hc
        · intro ds heq
          obtain rfl := (List.cons.inj heq).1
          cases hc

/-- An integer of 64 bits, signed or unsigned. -/
def Number.FitsWord : Number → Prop
  | .int n => -(UInt64.size / 2 : Int) ≤ n ∧ n < UInt64.size
  | .real _ => False

namespace Numeral

/-- A sign and the digits before the point are read in front of the rest. -/
theorem read?_append {ds rest : List Char} (hds : IsWhole ds) (hrest : NoDigit rest)
    (isNegative : Bool) :
    read? ((if isNegative then ['-'] else []) ++ ds ++ rest) =
      (takeFraction? rest).bind fun parts =>
        (takeExponent? parts.2).bind fun exponent =>
          some ⟨isNegative, ds.map digitValue, parts.1, exponent⟩ := by
  have hwhole := takeWhole?_append hds hrest
  cases isNegative with
  | true =>
      show (takeWhole? (ds ++ rest)).bind _ = _
      rw [hwhole]
      rfl
  | false =>
      have hminus : ∀ cs, ds ++ rest ≠ '-' :: cs := by
        intro cs heq
        cases ds with
        | nil => exact hds.ne_nil rfl
        | cons c ds =>
            have hc := hds.isDigit c List.mem_cons_self
            obtain rfl := (List.cons.inj heq).1
            cases hc
      simp only [Bool.false_eq_true, if_false, List.nil_append]
      rw [read?, hwhole]
      · rfl
      · exact hminus

end Numeral

/-- An integer is written as a sign and digits, and nothing else. -/
theorem Numeral.read?_int (n : Int) :
    read? (Number.int n).text =
      some ⟨decide (n < 0), (Nat.toDigits 10 n.natAbs).map digitValue, [], none⟩ := by
  have hread := read?_append (isWhole_toDigits n.natAbs) noDigit_nil (decide (n < 0))
  simp only [decide_eq_true_eq, List.append_nil] at hread
  rw [Number.text, toList_toString_int, hread]
  rfl

/-- A natural number of any size reads as itself or as a double. -/
theorem Number.of_read?_nat {n : Nat} {m : Number} (h : read? (Number.int n).text = some m) :
    m = .int n ∨ ∃ x, m = .real x := by
  have hvalue := Numeral.valueFrom_toDigits n
  rw [read?, Numeral.read?_int, Option.bind_some, Numeral.number?] at h
  simp only [Int.natAbs_natCast, Int.not_lt.2 (Int.natCast_nonneg n), decide_false, and_self,
    and_true] at h
  split at h
  · rename_i hnone
    rw [Numeral.gather_of_nil hnone, hvalue] at h
    exact Or.inl (Option.some.inj h).symm
  · obtain ⟨x, -, rfl⟩ := Option.map_eq_some_iff.1 h
    exact Or.inr ⟨_, rfl⟩

/-- An integer of 64 bits reads back. -/
theorem Number.read?_int {n : Int} (h : FitsWord (.int n)) :
    read? (Number.int n).text = some (.int n) := by
  have hvalue := Numeral.valueFrom_toDigits n.natAbs
  have hlt : n.natAbs < UInt64.size := by
    have hlow := h.1
    have hhigh := h.2
    simp only [UInt64.size] at hlow hhigh ⊢
    omega
  have hgather := Numeral.gather_of_lt (hvalue.symm ▸ hlt)
  rw [hvalue] at hgather
  rw [read?, Numeral.read?_int, Option.bind_some, Numeral.number?]
  simp only [hgather]
  by_cases hneg : n < 0
  · have hlow := h.1
    simp only [UInt64.size] at hlow
    have hsmall : ¬(n.natAbs = 0 ∨ UInt64.size / 2 < n.natAbs) := by
      simp only [UInt64.size]
      omega
    have hsame : -(n.natAbs : Int) = n := by omega
    simp only [hneg, decide_true, Bool.not_true, Bool.false_eq_true, if_false, and_self, if_true]
    rw [if_neg hsmall, hsame]
  · have hsame : (n.natAbs : Int) = n := by omega
    simp [hneg, hsame]

end Json

end ScriptDebugger
