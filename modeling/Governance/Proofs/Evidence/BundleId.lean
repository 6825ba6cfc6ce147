import Mathlib.Algebra.Ring.Nat
import Governance.BundleId
import Governance.Proofs.Json.Quoted
import Governance.Proofs.Text.Split

/-!
# Bundle identifiers read back

The text of a bundle identifier, 32 digits in five groups with hyphens between them, is read as the
identifier.
-/

set_option autoImplicit false

namespace Governance.BundleId

/-! ## Digits -/

theorem readHex?_concat (digits : List Char) (c : Char) :
    readHex? (digits ++ [c]) = (readHex? digits).bind fun value =>
      (Text.hexValue? c).map (16 * value + ·) := by
  rw [readHex?, readHex?, List.foldlM_append]
  refine congrArg _ (funext fun value => ?_)
  simp

theorem readHex?_hexDigits (count value : Nat) :
    readHex? (hexDigits count value) = some (value % 16 ^ count) := by
  induction count generalizing value with
  | zero =>
      rw [Nat.pow_zero, Nat.mod_one]
      rfl
  | succ count ih =>
      have digit := Text.hexValue?_hexDigit (value % 16) (Nat.mod_lt _ (by decide))
      have whole : 16 * (value / 16 % 16 ^ count) + value % 16 = value % 16 ^ (count + 1) := by
        rw [Nat.pow_succ', Nat.mod_mul, Nat.add_comm]
      rw [hexDigits, readHex?_concat, ih, Option.bind_some, digit, Option.map_some, whole]

theorem length_hexDigits (count value : Nat) : (hexDigits count value).length = count := by
  induction count generalizing value with
  | zero => rfl
  | succ count ih => rw [hexDigits, List.length_append, ih, List.length_singleton]

theorem hexDigit_ne_hyphen : ∀ value < 16, Text.hexDigit value ≠ '-' := by decide

theorem hyphen_not_mem_hexDigits (count value : Nat) : '-' ∉ hexDigits count value := by
  induction count generalizing value with
  | zero => exact List.not_mem_nil
  | succ count ih =>
      rw [hexDigits, List.mem_append, List.mem_singleton, not_or]
      exact ⟨ih _, Ne.symm (hexDigit_ne_hyphen _ (Nat.mod_lt _ (by decide)))⟩

/-! ## Groups -/

theorem groupsOf_spec {lengths : List Nat} {digits : List Char}
    (enough : digits.length = lengths.sum) :
    (groupsOf lengths digits).map List.length = lengths ∧
      (groupsOf lengths digits).flatten = digits := by
  induction lengths generalizing digits with
  | nil => exact ⟨rfl, (List.eq_nil_of_length_eq_zero enough).symm⟩
  | cons length rest ih =>
      rw [List.sum_cons] at enough
      have left : (digits.drop length).length = rest.sum := by
        rw [List.length_drop, enough, Nat.add_sub_cancel_left]
      obtain ⟨lengths, whole⟩ := ih left
      rw [groupsOf, List.map_cons, List.flatten_cons, lengths, whole, List.length_take,
        Nat.min_eq_left (by omega), List.take_append_drop]
      exact ⟨rfl, rfl⟩

theorem length_intercalate (separator : Char) (word : List Char) (words : List (List Char)) :
    ([separator].intercalate (word :: words)).length
      = word.length + ((words.map List.length).map (· + 1)).sum := by
  rw [Text.intercalate_cons, List.length_append, List.length_flatMap, List.map_map]
  simp [Function.comp_def]

theorem digits?_grouped {digits : List Char} (enough : digits.length = 32)
    (noHyphen : '-' ∉ digits) :
    digits? (['-'].intercalate (groupsOf groupLengths digits)) = some digits := by
  obtain ⟨lengths, whole⟩ := @groupsOf_spec groupLengths digits enough
  have absent : ∀ group ∈ groupsOf groupLengths digits, '-' ∉ group := fun group listed inside =>
    noHyphen (whole ▸ List.mem_flatten_of_mem listed inside)
  generalize groupsOf groupLengths digits = groups at lengths whole absent
  cases groups with
  | nil => cases lengths
  | cons first rest =>
      have split := Text.splitOn_joined absent
      obtain ⟨one, others⟩ := List.cons.inj lengths
      have size : (['-'].intercalate (first :: rest)).length = 36 := by
        rw [length_intercalate, one, others]
        rfl
      have joined : Text.splitOn '-' (['-'].intercalate (first :: rest)) = first :: rest := by
        rw [Text.intercalate_cons]
        exact split
      simp [digits?, size, joined, lengths, whole]

theorem parse?_uuidText (id : BundleId) : parse? id.uuidText = some id := by
  have small : id.value.toNat < 16 ^ 32 := id.value.isLt
  have digits := digits?_grouped (length_hexDigits 32 id.value.toNat)
    (hyphen_not_mem_hexDigits 32 id.value.toNat)
  have read : readHex? (hexDigits 32 id.value.toNat) = some id.value.toNat := by
    rw [readHex?_hexDigits, Nat.mod_eq_of_lt small]
  have same : BitVec.ofNat 128 id.value.toNat = id.value := by
    rw [BitVec.ofNat_toNat, BitVec.setWidth_eq]
  rw [parse?, uuidText, String.toList_ofList, digits]
  simp only [bind, Option.bind, read, same]

end Governance.BundleId
