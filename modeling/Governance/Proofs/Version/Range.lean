import Governance.Proofs.Version.Lenient
import Governance.Version.Requirement

/-!
# Ranges with one bound

A version in full behind a sign is read as a requirement of one comparator, and a version without a
pre-release satisfies it exactly if precedence puts it on that side of the bound.
-/

set_option autoImplicit false

namespace Governance

inductive Bound.Compares : Bound → Char → Ordering → Prop where
  | less : Compares .less '<' .lt
  | greater : Compares .greater '>' .gt

def Comparator.atVersion (bound : Bound) (version : Version) : Comparator :=
  ⟨bound, version.major, some version.minor, some version.patch, version.preRelease⟩

variable {bound : Bound} {sign : Char} {ordering : Ordering}

/-! ## Reading -/

namespace Version

theorem isDigit_of_head?_display {version : Version} {c : Char}
    (first : version.display.toList.head? = some c) : Text.isDigit c = true := by
  rw [toList_display] at first
  exact (isCore_numbers version).isDigit_of_head? first

theorem mem_display {version : Version} {c : Char} (listed : c ∈ version.display.toList) :
    c = '+' ∨ isPartsChar c = true := by
  rw [toList_display, suffix] at listed
  obtain number | suffix := List.mem_append.mp listed
  · obtain rfl | digit := (isCore_numbers version).mem_dotted number
    · exact .inr rfl
    · exact .inr (by simp [isPartsChar, isIdentifierChar, digit])
  · obtain preRelease | build := List.mem_append.mp suffix
    · obtain rfl | allowed := mem_marked isIdentifierChar_of_mem_preReleaseWords preRelease
      · exact .inr rfl
      · exact .inr allowed
    · exact mem_marked isIdentifierChar_of_mem_texts build

end Version

namespace Requirement

theorem readSlot?_number (number : UInt64) {rest : List Char}
    (ends : ∀ c, rest.head? = some c → Text.isDigit c = false) :
    readSlot? ('.' :: (Nat.toDigits 10 number.toNat ++ rest)) = some (.number number, rest) := by
  have read := Version.readNumber?_eq_some_iff.mpr
    ⟨Eq.refl (Nat.toDigits 10 number.toNat ++ rest), ends⟩
  obtain ⟨c, more, shape⟩ := List.exists_cons_of_ne_nil
    (Nat.toDigits_ne_nil (n := number.toNat) (b := 10))
  have digit : Text.isDigit c = true := Text.isDigit_of_mem_toDigits (shape ▸ List.mem_cons_self)
  have noWildcard : isWildcard c = false := by
    rw [isWildcard, Bool.or_eq_false_iff, Bool.or_eq_false_iff]
    refine ⟨⟨?_, ?_⟩, ?_⟩ <;> rw [beq_eq_false_iff_ne] <;> rintro rfl <;> cases digit
  rw [shape, List.cons_append] at read ⊢
  rw [readSlot?, noWildcard, if_neg Bool.false_ne_true, read]
  rfl

theorem readSign_of_compares (compares : bound.Compares sign ordering) {text : List Char}
    (other : text.head? ≠ some '=') : readSign (sign :: text) = (some bound, text) := by
  cases text with
  | nil => cases compares <;> rfl
  | cons c text =>
      have unequal : c ≠ '=' := fun same => other (congrArg some same)
      cases compares <;> simp [readSign, unequal]

theorem dropWhile_space_of_head? {text : List Char} (other : text.head? ≠ some ' ') :
    text.dropWhile (· == ' ') = text := by
  cases text with
  | nil => rfl
  | cons c text =>
      have visible : (c == ' ') = false := beq_eq_false_iff_ne.mpr fun same => other (congrArg some same)
      rw [List.dropWhile_cons, visible]
      rfl

theorem readComparator?_of_compares (compares : bound.Compares sign ordering) (version : Version) :
    readComparator? (sign :: version.display.toList) = some (.atVersion bound version) := by
  have digit : ∀ c, Text.isDigit c = false → version.display.toList.head? ≠ some c := by
    intro c other first
    rw [Version.isDigit_of_head?_display first] at other
    cases other
  have visible : (sign :: version.display.toList).head? ≠ some ' ' := by
    cases compares <;> exact fun same => nomatch same
  have dot : ∀ text : List Char, ∀ c, ('.' :: text).head? = some c → Text.isDigit c = false := by
    rintro text _ ⟨⟩
    rfl
  have suffix : ∀ c, version.suffix.head? = some c → Text.isDigit c = false := fun _ first =>
    Version.isDigit_of_startsSuffix (Version.startsSuffix_of_head?_suffix first)
  unfold readComparator?
  rw [dropWhile_space_of_head? visible, readSign_of_compares compares (digit '=' rfl)]
  dsimp only
  rw [dropWhile_space_of_head? (digit ' ' rfl), Version.toList_display,
    Version.dotted_numbers_append]
  simp only [Option.bind_eq_bind, Version.readNumber?_dot, readSlot?_number _ (dot _),
    readSlot?_number _ suffix, Option.bind_some, Version.readPreRelease?_suffix,
    Version.buildWords, Version.readBuild?_marked]
  rfl

theorem parse?_of_compares (compares : bound.Compares sign ordering) (version : Version) :
    parse? (String.singleton sign ++ version.display) = some ⟨[.atVersion bound version]⟩ := by
  have plain : isWildcard sign = false ∧ Text.isBlank sign = false ∧ sign ≠ ' ' ∧ sign ≠ ',' := by
    cases compares <;> decide
  obtain ⟨noWildcard, visible, noSpace, noComma⟩ := plain
  have whole : (String.singleton sign ++ version.display).toList =
      sign :: version.display.toList := by
    rw [String.toList_append, String.toList_singleton]
    rfl
  have trimmed : Text.Trimmed (String.singleton sign ++ version.display).toList := by
    have front : Text.Trimmed [sign] := Text.trimmed_of_not_blank (by simpa using visible)
    rw [whole]
    exact front.append (Version.trimmed_display version)
  have first : (sign :: version.display.toList).head? ≠ some ' ' := fun same =>
    noSpace (Option.some.inj same)
  have single : Text.splitOn ',' (sign :: version.display.toList) =
      [sign :: version.display.toList] := by
    apply Text.splitOn_of_not_mem
    intro listed
    obtain same | listed := List.mem_cons.mp listed
    · exact noComma same.symm
    · obtain plus | allowed := Version.mem_display listed
      · cases plus
      · cases allowed
  unfold parse?
  rw [Text.trim_of_trimmed trimmed, whole, read?, dropWhile_space_of_head? first]
  dsimp only
  rw [noWildcard, if_neg Bool.false_ne_true, single, List.length_singleton,
    if_neg (by decide : ¬ comparatorsMax < 1), List.mapM_cons, readComparator?_of_compares compares]
  rfl

end Requirement

/-! ## Satisfaction -/

theorem Comparator.order?_atVersion (bound : Bound) (limit version : Version) :
    order? (.atVersion bound limit) version = some (version.precedence limit) := by
  unfold order? atVersion Version.precedence
  dsimp only
  cases compare version.major.toNat limit.major.toNat <;> try rfl
  cases compare version.minor.toNat limit.minor.toNat <;> try rfl
  cases compare version.patch.toNat limit.patch.toNat <;> rfl

theorem Comparator.holds_atVersion (compares : bound.Compares sign ordering)
    (limit version : Version) :
    holds (.atVersion bound limit) version = (some (version.precedence limit) == some ordering) := by
  rw [← order?_atVersion bound]
  cases compares <;> rfl

theorem Requirement.isSatisfiedBy_atVersion (compares : bound.Compares sign ordering)
    (limit : Version) {version : Version} (release : version.preRelease = []) :
    isSatisfiedBy ⟨[.atVersion bound limit]⟩ version =
      (some (version.precedence limit) == some ordering) := by
  unfold isSatisfiedBy
  rw [release, List.isEmpty_nil, Bool.true_or, Bool.and_true, List.all_cons, List.all_nil,
    Bool.and_true, Comparator.holds_atVersion compares]

end Governance
