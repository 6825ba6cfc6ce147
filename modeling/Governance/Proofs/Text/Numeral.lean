import Governance.Proofs.Text.Split
import Governance.Text.Digits
import Mathlib.Data.List.Induction

/-!
# Decimal numerals

The digits of a number are the one text of digits without a leading zero that denotes it.
-/

set_option autoImplicit false

namespace Governance.Text

theorem decimal?_eq_some_iff {text : List Char} {number : Nat} :
    decimal? text = some number ↔
      text ≠ [] ∧ (∀ c ∈ text, isDigit c = true) ∧ ofDigits text = number := by
  unfold decimal?
  split
  · rename_i numeral
    have digits := List.all_eq_true.mp numeral.2
    constructor
    · intro read
      exact ⟨numeral.1, digits, Option.some.inj read⟩
    · rintro ⟨_, _, rfl⟩
      rfl
  · rename_i other
    refine iff_of_false (fun read => nomatch read) fun numeral => other ?_
    exact ⟨numeral.1, List.all_eq_true.mpr numeral.2.1⟩

/-! ## The digits of a number -/

theorem isDigit_of_mem_toDigits {number : Nat} {c : Char} (listed : c ∈ Nat.toDigits 10 number) :
    isDigit c = true :=
  Nat.isDigit_of_mem_toDigits (by decide) (by decide) listed

theorem not_mem_toDigits {c : Char} (other : isDigit c = false) (number : Nat) :
    c ∉ Nat.toDigits 10 number := by
  intro listed
  rw [isDigit_of_mem_toDigits listed] at other
  cases other

theorem ofDigits_toDigits (number : Nat) : ofDigits (Nat.toDigits 10 number) = number :=
  Nat.ofDigitChars_ten_toDigits

theorem decimal?_toDigits (number : Nat) : decimal? (Nat.toDigits 10 number) = some number :=
  decimal?_eq_some_iff.mpr
    ⟨Nat.toDigits_ne_nil, fun _ => isDigit_of_mem_toDigits, ofDigits_toDigits number⟩

/-- Only the number zero is written with a zero in front. -/
theorem eq_zero_of_head?_toDigits {number : Nat}
    (zero : (Nat.toDigits 10 number).head? = some '0') : number = 0 := by
  induction number using Nat.strongRecOn with
  | ind number ih =>
      by_cases small : number < 10
      · rw [Nat.toDigits_of_lt_base small] at zero
        have single : ∀ digit < 10, digit.digitChar = '0' → digit = 0 := by decide
        exact single number small (Option.some.inj zero)
      · have large : 10 ≤ number := Nat.le_of_not_lt small
        obtain ⟨first, more, shape⟩ := List.exists_cons_of_ne_nil
          (Nat.toDigits_ne_nil (n := number / 10) (b := 10))
        rw [Nat.toDigits_of_base_le (by decide) large, shape] at zero
        have none : number / 10 = 0 := ih (number / 10) (by omega) (by rw [shape]; exact zero)
        omega

/-- The digits of a number are found again in front of a text that does not go on with a digit. -/
theorem span_toDigits (number : Nat) {rest : List Char}
    (ends : ∀ c, rest.head? = some c → isDigit c = false) :
    (Nat.toDigits 10 number ++ rest).takeWhile isDigit = Nat.toDigits 10 number ∧
      (Nat.toDigits 10 number ++ rest).dropWhile isDigit = rest :=
  span_append (fun _ => isDigit_of_mem_toDigits) ends

/-! ## Numerals -/

/-- A text of digits without a leading zero, and the number that it denotes. -/
structure Numeral (digits : List Char) (number : Nat) : Prop where
  proper : digits ≠ []
  digit : ∀ c ∈ digits, isDigit c = true
  leading : digits.head? = some '0' → digits = ['0']
  value : ofDigits digits = number

/-- A text that denotes a number is its numeral unless it is longer than a zero in front. -/
theorem numeral_iff_decimal? {digits : List Char} {number : Nat} :
    Numeral digits number ↔ decimal? digits = some number ∧
      ¬ (digits.head? = some '0' ∧ 1 < digits.length) := by
  rw [decimal?_eq_some_iff]
  constructor
  · intro numeral
    refine ⟨⟨numeral.proper, numeral.digit, numeral.value⟩, ?_⟩
    rintro ⟨zero, long⟩
    rw [numeral.leading zero] at long
    exact absurd long (by decide)
  · rintro ⟨⟨proper, digit, value⟩, admitted⟩
    refine ⟨proper, digit, fun zero => ?_, value⟩
    obtain ⟨more, rfl⟩ := List.head?_eq_some_iff.mp zero
    cases more with
    | nil => rfl
    | cons c more => exact absurd ⟨zero, Nat.succ_lt_succ (Nat.succ_pos _)⟩ admitted

theorem digitChar_digitValue {c : Char} (digit : isDigit c = true) :
    digitValue c < 10 ∧ Nat.digitChar (digitValue c) = c := by
  unfold isDigit at digit
  simp only [Bool.and_eq_true, decide_eq_true_eq] at digit
  have low : 48 ≤ c.toNat := digit.1
  have high : c.toNat ≤ 57 := digit.2
  have small : digitValue c < 10 := by
    change c.toNat - 48 < 10
    omega
  refine ⟨small, Char.toNat_inj.mp ?_⟩
  rw [Nat.toNat_digitChar_of_lt_ten small]
  change 48 + (c.toNat - 48) = c.toNat
  omega

theorem ofDigits_append (digits : List Char) (c : Char) :
    ofDigits (digits ++ [c]) = 10 * ofDigits digits + digitValue c := by
  simp [ofDigits]

theorem toDigits_ofDigits {digits : List Char} (proper : digits ≠ [])
    (digit : ∀ c ∈ digits, isDigit c = true)
    (leading : digits.head? = some '0' → digits = ['0']) :
    Nat.toDigits 10 (ofDigits digits) = digits := by
  induction digits using List.reverseRecOn with
  | nil => exact absurd rfl proper
  | append_singleton digits c ih =>
      obtain ⟨small, same⟩ := digitChar_digitValue (digit c (by simp))
      cases digits with
      | nil =>
          have value : ofDigits [c] = digitValue c := by simp [ofDigits]
          rw [List.nil_append, value, Nat.toDigits_of_lt_base small, same]
      | cons first more =>
          have noZero : first ≠ '0' := by
            rintro rfl
            simpa using leading rfl
          have front := ih (List.cons_ne_nil _ _)
            (fun d listed => digit d (List.mem_append_left _ listed))
            (fun zero => absurd (Option.some.inj zero) noZero)
          -- without a leading zero the number in front of the last digit is not zero
          have positive : 0 < ofDigits (first :: more) := by
            apply Nat.pos_of_ne_zero
            intro zero
            rw [zero, Nat.toDigits_zero] at front
            exact noZero (List.cons.inj front).1.symm
          rw [ofDigits_append, ← Nat.toDigits_append_toDigits (by decide) positive small, front,
            Nat.toDigits_of_lt_base small, same]

theorem numeral_iff {digits : List Char} {number : Nat} :
    Numeral digits number ↔ digits = Nat.toDigits 10 number := by
  constructor
  · intro numeral
    rw [← numeral.value, toDigits_ofDigits numeral.proper numeral.digit numeral.leading]
  · rintro rfl
    refine ⟨Nat.toDigits_ne_nil, fun _ => isDigit_of_mem_toDigits, fun zero => ?_,
      ofDigits_toDigits number⟩
    rw [eq_zero_of_head?_toDigits zero, Nat.toDigits_zero]

end Governance.Text
