import Governance.Json.Parser
import Governance.Json.Text

/-!
# Quoted strings

A quoted string reads back as the string it was written for, whatever stands behind it. Hence two
texts that begin with quoted strings are equal only if the strings and the rests are.
-/

set_option autoImplicit false

namespace Governance

namespace Text

theorem hexValue?_hexDigit : ∀ value < 16, hexValue? (hexDigit value) = some value := by decide

end Text

namespace Json

/-! ## One character -/

private theorem readEscape?_control {c : Char} (small : c.toNat < 32) (rest : List Char) :
    readEscape? (['u', '0', '0'] ++ Text.byteHex (UInt8.ofNat c.toNat) ++ rest)
      = some (c, rest) := by
  have size : (UInt8.ofNat c.toNat).toNat = c.toNat := by
    rw [UInt8.toNat_ofNat']
    omega
  have zero : Text.hexValue? '0' = some 0 := by decide
  have high := Text.hexValue?_hexDigit (c.toNat / 16) (by omega)
  have low := Text.hexValue?_hexDigit (c.toNat % 16) (by omega)
  have unit : ((0 * 16 + 0) * 16 + c.toNat / 16) * 16 + c.toNat % 16 = c.toNat := by omega
  simp only [List.cons_append, List.nil_append, Text.byteHex, size, readEscape?,
    readUnicodeEscape?, readHexFour?, zero, high, low, Option.bind_eq_bind, Option.bind_some,
    unit, Char.ofNat_toNat]
  rw [if_pos (.inl (by omega))]

/-- A character either stands for itself or is escaped by a sequence that reads back. -/
theorem escapeChar_cases (c : Char) :
    (escapeChar c = [c] ∧ c ≠ '"' ∧ c ≠ '\\' ∧ ¬ c.toNat < 32) ∨
      ∃ escape, escapeChar c = '\\' :: escape ∧
        ∀ rest, readEscape? (escape ++ rest) = some (c, rest) := by
  have sameChar : ∀ d : Char, c.toNat = d.toNat → d = c := fun d same =>
    (Char.toNat_inj.mp same).symm
  unfold escapeChar
  split
  · rename_i same
    exact .inr ⟨['"'], rfl, fun rest => by subst same; rfl⟩
  split
  · rename_i same
    exact .inr ⟨['\\'], rfl, fun rest => by subst same; rfl⟩
  split
  · rename_i same
    exact .inr ⟨['b'], rfl, fun rest => by rw [← sameChar (Char.ofNat 8) same]; rfl⟩
  split
  · rename_i same
    exact .inr ⟨['f'], rfl, fun rest => by rw [← sameChar (Char.ofNat 12) same]; rfl⟩
  split
  · rename_i same
    exact .inr ⟨['n'], rfl, fun rest => by subst same; rfl⟩
  split
  · rename_i same
    exact .inr ⟨['r'], rfl, fun rest => by subst same; rfl⟩
  split
  · rename_i same
    exact .inr ⟨['t'], rfl, fun rest => by subst same; rfl⟩
  split
  · rename_i small
    exact .inr ⟨_, rfl, readEscape?_control small⟩
  · rename_i noQuote noBackslash _ _ _ _ _ large
    exact .inl ⟨rfl, noQuote, noBackslash, large⟩

/-! ## Strings -/

theorem readString?_escaped (body rest : List Char) {steps : Nat} (enough : body.length < steps) :
    readString? steps (body.flatMap escapeChar ++ '"' :: rest) = some (body, rest) := by
  induction body generalizing steps with
  | nil =>
      obtain ⟨steps, rfl⟩ := Nat.exists_eq_add_one_of_ne_zero (Nat.ne_of_gt enough)
      simp [readString?]
  | cons c body ih =>
      obtain ⟨steps, rfl⟩ := Nat.exists_eq_add_one_of_ne_zero (Nat.ne_of_gt (Nat.zero_lt_of_lt enough))
      have later : readString? steps (body.flatMap escapeChar ++ '"' :: rest) = some (body, rest) :=
        ih (by simpa using enough)
      rcases escapeChar_cases c with ⟨plain, noQuote, noBackslash, large⟩ | ⟨escape, shape, read⟩
      · simp only [List.flatMap_cons, plain, List.cons_append, List.nil_append]
        rw [readString?]
        · simp only [large, if_false, later, Option.map_some]
        · exact noQuote
        · exact noBackslash
      · simp only [List.flatMap_cons, shape, List.cons_append, List.append_assoc]
        rw [readString?]
        simp only [read, later, Option.map_some]

theorem toList_quoted (text : String) :
    (quoted text).toList = '"' :: (text.toList.flatMap escapeChar ++ ['"']) := by
  simp [quoted]

/-- Texts that begin with quoted strings agree only in the strings and behind them. -/
theorem quoted_cut {text other : String} {rest others : List Char}
    (same : (quoted text).toList ++ rest = (quoted other).toList ++ others) :
    text = other ∧ rest = others := by
  simp only [toList_quoted, List.cons_append, List.append_assoc, List.nil_append,
    List.cons.injEq, true_and] at same
  have enough := Nat.lt_succ_of_le (Nat.le_add_right text.toList.length other.toList.length)
  have enough' := Nat.lt_succ_of_le (Nat.le_add_left other.toList.length text.toList.length)
  have first := readString?_escaped text.toList rest enough
  rw [same, readString?_escaped other.toList others enough'] at first
  obtain ⟨sameText, sameRest⟩ := Prod.ext_iff.mp (Option.some.inj first)
  exact ⟨(String.toList_inj.mp sameText).symm, sameRest.symm⟩

theorem quoted_injective {text other : String} (same : quoted text = quoted other) :
    text = other := by
  have behind : (quoted text).toList ++ [] = (quoted other).toList ++ [] := by rw [same]
  exact (quoted_cut behind).1

end Json

end Governance
