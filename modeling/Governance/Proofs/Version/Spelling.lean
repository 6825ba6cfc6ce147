import Governance.Proofs.Text.Numeral
import Governance.Version.Basic
import Mathlib.Data.List.Forall2

/-!
# The spelling of versions

A version has exactly one spelling: three numerals with dots between them, a pre-release behind a
hyphen and build metadata behind a plus sign. It is what is written for the version.
-/

set_option autoImplicit false

namespace Governance

namespace Text

def dotted (pieces : List (List Char)) : List Char := ['.'].intercalate pieces

theorem dotted_cons (piece : List Char) (pieces : List (List Char)) :
    dotted (piece :: pieces) = piece ++ pieces.flatMap ('.' :: ·) := intercalate_cons _ _ _

theorem splitOn_dotted {pieces : List (List Char)} (proper : pieces ≠ [])
    (noDot : ∀ piece ∈ pieces, '.' ∉ piece) : splitOn '.' (dotted pieces) = pieces := by
  obtain ⟨piece, more, rfl⟩ := List.exists_cons_of_ne_nil proper
  rw [dotted_cons, splitOn_joined noDot]

theorem mem_dotted {c : Char} {pieces : List (List Char)} (listed : c ∈ dotted pieces) :
    c = '.' ∨ ∃ piece ∈ pieces, c ∈ piece := by
  cases pieces with
  | nil => cases listed
  | cons piece pieces =>
      rw [dotted_cons, List.mem_append, List.mem_flatMap] at listed
      rcases listed with first | ⟨other, present, inside⟩
      · exact .inr ⟨piece, List.mem_cons_self, first⟩
      · rcases List.mem_cons.mp inside with rfl | inside
        · exact .inl rfl
        · exact .inr ⟨other, List.mem_cons_of_mem _ present, inside⟩

end Text

namespace Version

/-! ## The grammar -/

inductive SpellsPart : List Char → PreReleasePart → Prop where
  | numeric {digits : List Char} {value : Nat} :
      Text.Numeral digits value → SpellsPart digits (.numeric value)
  | label {text : String}
      {valid : (isLabel text.toList && !text.toList.all Text.isDigit) = true} :
      SpellsPart text.toList (.label text valid)

inductive SpellsPreRelease : List Char → List PreReleasePart → Prop where
  | none : SpellsPreRelease [] []
  | some {pieces : List (List Char)} {parts : List PreReleasePart} :
      parts ≠ [] → List.Forall₂ SpellsPart pieces parts →
      SpellsPreRelease ('-' :: Text.dotted pieces) parts

inductive SpellsBuild : List Char → List BuildPart → Prop where
  | none : SpellsBuild [] []
  | some {parts : List BuildPart} :
      parts ≠ [] → SpellsBuild ('+' :: Text.dotted (parts.map (·.text.toList))) parts

/-- A version in full. The numbers fit 64 bits by their type. -/
def Spells (text : List Char) (version : Version) : Prop :=
  ∃ major minor patch preRelease build,
    Text.Numeral major version.major.toNat ∧ Text.Numeral minor version.minor.toNat ∧
      Text.Numeral patch version.patch.toNat ∧ SpellsPreRelease preRelease version.preRelease ∧
      SpellsBuild build version.build ∧
      text = Text.dotted [major, minor, patch] ++ preRelease ++ build

/-! ## What is written -/

def numbers (version : Version) : List (List Char) :=
  [Nat.toDigits 10 version.major.toNat, Nat.toDigits 10 version.minor.toNat,
    Nat.toDigits 10 version.patch.toNat]

theorem dotted_numbers_append (version : Version) (rest : List Char) :
    Text.dotted version.numbers ++ rest =
      Nat.toDigits 10 version.major.toNat ++ '.' :: (Nat.toDigits 10 version.minor.toNat ++
        '.' :: (Nat.toDigits 10 version.patch.toNat ++ rest)) := by
  simp [numbers, Text.dotted_cons]

def marked (mark : Char) (words : List (List Char)) : List Char :=
  if words = [] then [] else mark :: Text.dotted words

theorem marked_nil (mark : Char) : marked mark [] = [] := rfl

theorem marked_of_ne_nil (mark : Char) {words : List (List Char)} (proper : words ≠ []) :
    marked mark words = mark :: Text.dotted words := if_neg proper

def preReleaseWords (version : Version) : List (List Char) :=
  version.preRelease.map (·.display.toList)

def buildWords (version : Version) : List (List Char) := version.build.map (·.text.toList)

def suffix (version : Version) : List Char :=
  marked '-' version.preReleaseWords ++ marked '+' version.buildWords

theorem head?_marked_append {mark c : Char} {words : List (List Char)} {rest : List Char}
    (first : (marked mark words ++ rest).head? = some c) : c = mark ∨ rest.head? = some c := by
  by_cases empty : words = []
  · subst empty
    exact .inr first
  · rw [marked_of_ne_nil mark empty] at first
    exact .inl (Option.some.inj first).symm

theorem startsSuffix_of_head?_suffix {version : Version} {c : Char}
    (first : version.suffix.head? = some c) : startsSuffix c = true := by
  obtain rfl | first := head?_marked_append first
  · rfl
  rw [← List.append_nil (marked '+' _)] at first
  obtain rfl | none := head?_marked_append first
  · rfl
  · cases none

theorem toList_display (version : Version) :
    version.display.toList = Text.dotted version.numbers ++ version.suffix := by
  have words : ∀ parts : List String,
      (".".intercalate parts).toList = Text.dotted (parts.map String.toList) := fun parts =>
    String.toList_intercalate
  have preRelease : (if version.preRelease.isEmpty then ""
      else "-" ++ preReleaseText version.preRelease).toList = marked '-' version.preReleaseWords := by
    unfold marked preReleaseWords preReleaseText
    cases version.preRelease with
    | nil => rfl
    | cons part parts => simp [words, Function.comp_def]
  have build : (if version.build.isEmpty then ""
      else "+" ++ buildText version.build).toList = marked '+' version.buildWords := by
    unfold marked buildWords buildText
    cases version.build with
    | nil => rfl
    | cons part parts => simp [words, Function.comp_def]
  rw [display, String.toList_append, String.toList_append, preRelease, build]
  simp [numbers, suffix, Text.dotted_cons]

theorem toList_display_numeric (value : Nat) :
    (PreReleasePart.numeric value).display.toList = Nat.toDigits 10 value := by
  simp [PreReleasePart.display, Nat.toString_eq_repr, Nat.repr]

theorem spellsPart_iff {piece : List Char} {part : PreReleasePart} :
    SpellsPart piece part ↔ piece = part.display.toList := by
  cases part with
  | numeric value =>
      rw [toList_display_numeric, ← Text.numeral_iff]
      constructor
      · rintro ⟨numeral⟩
        exact numeral
      · exact .numeric
  | label text valid =>
      constructor
      · rintro ⟨⟩
        rfl
      · rintro rfl
        exact .label

theorem forall₂_spellsPart_iff {pieces : List (List Char)} {parts : List PreReleasePart} :
    List.Forall₂ SpellsPart pieces parts ↔ pieces = parts.map (·.display.toList) := by
  induction parts generalizing pieces with
  | nil => simp
  | cons part parts ih =>
      cases pieces with
      | nil => simp
      | cons piece pieces => simp [spellsPart_iff, ih]

theorem spellsPreRelease_iff {text : List Char} {parts : List PreReleasePart} :
    SpellsPreRelease text parts ↔ text = marked '-' (parts.map (·.display.toList)) := by
  unfold marked
  constructor
  · intro spelled
    cases spelled with
    | none => rfl
    | some proper pieces => rw [forall₂_spellsPart_iff.mp pieces, if_neg (by simpa using proper)]
  · rintro rfl
    split
    · rename_i empty
      obtain rfl := List.map_eq_nil_iff.mp empty
      exact .none
    · rename_i proper
      refine .some ?_ (forall₂_spellsPart_iff.mpr rfl)
      simpa using proper

theorem spellsBuild_iff {text : List Char} {parts : List BuildPart} :
    SpellsBuild text parts ↔ text = marked '+' (parts.map (·.text.toList)) := by
  unfold marked
  constructor
  · intro spelled
    cases spelled with
    | none => rfl
    | some proper => rw [if_neg (by simpa using proper)]
  · rintro rfl
    split
    · rename_i empty
      obtain rfl := List.map_eq_nil_iff.mp empty
      exact .none
    · rename_i proper
      refine .some ?_
      simpa using proper

/-- What is written for a version is its spelling. -/
theorem spells_iff {text : List Char} {version : Version} :
    Spells text version ↔ text = version.display.toList := by
  rw [toList_display]
  constructor
  · rintro ⟨_, _, _, _, _, major, minor, patch, preRelease, build, rfl⟩
    rw [Text.numeral_iff.mp major, Text.numeral_iff.mp minor, Text.numeral_iff.mp patch,
      spellsPreRelease_iff.mp preRelease, spellsBuild_iff.mp build, List.append_assoc]
    rfl
  · rintro rfl
    exact ⟨_, _, _, _, _, Text.numeral_iff.mpr rfl, Text.numeral_iff.mpr rfl,
      Text.numeral_iff.mpr rfl, spellsPreRelease_iff.mpr rfl, spellsBuild_iff.mpr rfl,
      (List.append_assoc _ _ _).symm⟩

end Version

end Governance
