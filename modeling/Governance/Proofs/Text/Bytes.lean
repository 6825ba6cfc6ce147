import Governance.SortedMap

/-!
# The order of texts is that of their bytes

Texts compare character by character. UTF-8 keeps that order, so texts that are sorted are sorted
by their bytes as well.
-/

set_option autoImplicit false

namespace Governance.Text

def bytes (text : String) : List UInt8 := text.toUTF8.data.toList

theorem bytes_eq_flatMap (text : String) :
    bytes text = text.toList.flatMap String.utf8EncodeChar := by
  rw [bytes, String.toUTF8_eq_toByteArray, ← String.utf8Encode_toList, List.utf8Encode]
  simp

/-! ## Bytes of single characters -/

theorem cons_lt_of_lt {byte other : Nat} (less : byte < other) (small : other < 256)
    (rest others : List UInt8) : UInt8.ofNat byte :: rest < UInt8.ofNat other :: others := by
  refine List.Lex.rel ?_
  rw [UInt8.lt_iff_toNat_lt, UInt8.toNat_ofNat', UInt8.toNat_ofNat']
  omega

theorem cons_lt_of_le {byte other : Nat} {rest others : List UInt8} (le : byte ≤ other)
    (small : other < 256) (tie : byte = other → rest < others) :
    UInt8.ofNat byte :: rest < UInt8.ofNat other :: others := by
  rcases Nat.lt_or_eq_of_le le with less | same
  · exact cons_lt_of_lt less small _ _
  · subst same
    exact List.Lex.cons (tie rfl)

theorem codePoint_lt (c : Char) : c.val.toNat < 1114112 := by
  rcases c.valid with low | ⟨_, high⟩
  · exact Nat.lt_trans low (by decide)
  · exact high

theorem encoded_lt {c d : Char} (less : c < d) (rest others : List UInt8) :
    String.utf8EncodeChar c ++ rest < String.utf8EncodeChar d ++ others := by
  have less' : c.val.toNat < d.val.toNat := less
  have bound := codePoint_lt d
  unfold String.utf8EncodeChar
  dsimp only
  generalize c.val.toNat = m at *
  generalize d.val.toNat = n at *
  -- a longer form starts with a greater byte; forms of one length compare byte by byte
  split
  · repeat' split
    all_goals exact cons_lt_of_lt (by omega) (by omega) _ _
  · split
    · split
      · omega
      · split
        · refine cons_lt_of_le (by omega) (by omega) fun same => ?_
          exact cons_lt_of_lt (by omega) (by omega) _ _
        · split
          all_goals exact cons_lt_of_lt (by omega) (by omega) _ _
    · split
      · split
        · omega
        · split
          · omega
          · split
            · refine cons_lt_of_le (by omega) (by omega) fun same => ?_
              refine cons_lt_of_le (by omega) (by omega) fun same' => ?_
              exact cons_lt_of_lt (by omega) (by omega) _ _
            · exact cons_lt_of_lt (by omega) (by omega) _ _
      · split
        · omega
        · split
          · omega
          · split
            · omega
            · refine cons_lt_of_le (by omega) (by omega) fun same => ?_
              refine cons_lt_of_le (by omega) (by omega) fun same' => ?_
              refine cons_lt_of_le (by omega) (by omega) fun same'' => ?_
              exact cons_lt_of_lt (by omega) (by omega) _ _

/-! ## Bytes of texts -/

theorem encoded_lt_of_lex {chars others : List Char} (less : List.Lex (· < ·) chars others) :
    chars.flatMap String.utf8EncodeChar < others.flatMap String.utf8EncodeChar := by
  induction less with
  | @nil c rest =>
      rw [List.flatMap_nil, List.flatMap_cons]
      cases encoded : String.utf8EncodeChar c with
      | nil => exact absurd encoded String.utf8EncodeChar_ne_nil
      | cons => exact List.Lex.nil
  | cons _ ih =>
      rw [List.flatMap_cons, List.flatMap_cons]
      exact List.append_left_lt ih
  | rel less =>
      rw [List.flatMap_cons, List.flatMap_cons]
      exact encoded_lt less _ _

/-- Texts compare as their bytes do. -/
theorem lt_iff_bytes_lt {text other : String} : text < other ↔ bytes text < bytes other := by
  rw [bytes_eq_flatMap, bytes_eq_flatMap]
  constructor
  · exact encoded_lt_of_lex
  · intro less
    by_cases holds : text < other
    · exact holds
    · by_cases greater : other < text
      · exact absurd (encoded_lt_of_lex greater) (List.lt_asymm less)
      · have same : text = other := KeyOrder.total holds greater
        exact absurd (same ▸ less) (List.lt_irrefl _)

end Governance.Text
