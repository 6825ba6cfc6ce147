import Governance.Proofs.FieldPath.Scan

/-!
# Paths that read back

The text of a path reads as the path exactly if the path leads somewhere, its keys are plain and it is
not a single key of blanks. Such a key is plain, but its text is refused as blank.
-/

set_option autoImplicit false

namespace Governance

theorem Text.not_isBlank_of_isDigit {c : Char} (digit : isDigit c = true) : isBlank c = false := by
  simp only [isDigit, Bool.and_eq_true, decide_eq_true_eq, Char.le_def, UInt32.le_iff_toNat_le] at digit
  change 48 ≤ c.toNat ∧ c.toNat ≤ 57 at digit
  rw [← Bool.not_eq_true, isBlank]
  simp only [Bool.or_eq_true, Bool.and_eq_true, decide_eq_true_eq, beq_iff_eq]
  omega

/-- A numeral has a digit, so it is not blank. -/
theorem Text.not_denotes_of_blank {text : List Char} (blank : ∀ c ∈ text, isBlank c = true)
    (number : Nat) : ¬ Denotes text number := by
  rintro ⟨_, digits, spelled, some, numeral, _⟩
  obtain ⟨digit, rest, rfl⟩ := List.exists_cons_of_ne_nil some
  have listed : digit ∈ text := by
    rcases spelled with rfl | rfl
    · exact List.mem_cons_self
    · exact List.mem_cons_of_mem _ List.mem_cons_self
  have visible := not_isBlank_of_isDigit (numeral digit List.mem_cons_self)
  rw [blank digit listed] at visible
  cases visible

namespace FieldPath

theorem isPlainKey_of_blank {key : String} (some : key ≠ "") (blank : Text.isBlankText key = true) :
    isPlainKey key = true := by
  have blanks : ∀ c ∈ key.toList, Text.isBlank c = true := List.all_eq_true.mp blank
  apply isPlainKey_iff.mpr
  refine ⟨?_, ?_, ?_, ?_, ?_⟩
  · exact fun empty => some (String.toList_inj.mp empty)
  · exact fun dot => absurd (blanks '.' dot) (by decide)
  · exact fun opening => absurd (blanks '[' opening) (by decide)
  · exact fun closing => absurd (blanks ']' closing) (by decide)
  · exact position?_eq_none_iff.mpr (Text.not_denotes_of_blank blanks)

theorem display_child_root (key : String) : (root.child key).display = key :=
  display_singleton key

theorem forall_mem_keys_child_root_iff {key : String} {holds : String → Prop} :
    (∀ given ∈ (root.child key).keys, holds given) ↔ holds key := by
  change (∀ given ∈ [key], holds given) ↔ holds key
  exact List.forall_mem_singleton

theorem child_root_inj {key other : String} : root.child key = root.child other ↔ key = other := by
  simp [child, root]

theorem parse_display_iff (path : FieldPath) :
    parse path.display = .ok path ↔
      path ≠ root ∧ (∀ key ∈ path.keys, isPlainKey key = true) ∧
        ∀ key, path = root.child key → Text.isBlankText key = false := by
  constructor
  · intro read
    obtain ⟨proper, plain, filled⟩ := legible_of_parse read
    refine ⟨?_, fun key listed => plain key (key_mem_of_mem_keys listed), ?_⟩
    · rintro rfl
      exact proper rfl
    · rintro key rfl
      rwa [display_child_root] at filled
  · rintro ⟨proper, plain, filled⟩
    have proper' : path.segments ≠ [] := fun empty => proper (congrArg mk empty)
    apply parse_display
    refine ⟨proper', fun key listed => plain key ?_, ?_⟩
    · exact List.mem_filterMap.mpr ⟨_, listed, rfl⟩
    · rw [← Bool.not_eq_true]
      intro blank
      obtain ⟨key, single, blankKey⟩ := single_of_isBlankText proper' blank
      rw [filled key (congrArg mk single)] at blankKey
      cases blankKey

theorem parse_child_root_iff {key : String} :
    parse (root.child key).display = .ok (root.child key) ↔
      isPlainKey key = true ∧ Text.isBlankText key = false := by
  rw [parse_display_iff, forall_mem_keys_child_root_iff]
  simp only [child_root_inj, forall_eq']
  exact and_iff_right fun same => nomatch congrArg segments same

theorem parse_of_blank {text : String} (blank : Text.isBlankText text = true) :
    parse text = .error .blank := by
  rw [parse, if_pos blank]

/-- That a key is plain exactly if the path of the key alone reads back holds of every key but those
that are made of blanks: these are plain, and their text is refused as blank. All other paths of plain
keys, with positions anywhere, read back. -/
theorem isPlainKey_readsBack (key : String) (path : FieldPath) :
    ((isPlainKey key = true ↔ parse (root.child key).display = .ok (root.child key)) ↔
      (key = "" ∨ Text.isBlankText key = false)) ∧
    (key ≠ "" → Text.isBlankText key = true →
      isPlainKey key = true ∧ parse (root.child key).display = .error .blank) ∧
    (path ≠ root → (∀ given ∈ path.keys, isPlainKey given = true) →
      (parse path.display = .ok path ↔
        ∀ given, path = root.child given → Text.isBlankText given = false)) := by
  refine ⟨?_, fun some blank => ?_, fun proper plain => ?_⟩
  · rw [parse_child_root_iff]
    by_cases empty : key = ""
    · subst empty
      simp [isPlainKey]
    · cases blank : Text.isBlankText key with
      | false => simp
      | true => simp [empty, isPlainKey_of_blank empty blank]
  · refine ⟨isPlainKey_of_blank some blank, ?_⟩
    rw [display_child_root, parse_of_blank blank]
  · rw [parse_display_iff, and_iff_right proper, and_iff_right plain]

/-- A space is a plain key that cannot stand alone. -/
theorem blank_key_not_readBack :
    isPlainKey " " = true ∧ parse (root.child " ").display = .error .blank ∧
      parse (root.child " ").display ≠ .ok (root.child " ") := by
  decide

theorem isPlainKey_readsBack_mixedPath :
    isPlainKey "a b" = true ∧ parse (root.child "a b").display = .ok (root.child "a b") ∧
      isPlainKey "+7" ≠ true ∧ parse (root.child "+7").display ≠ .ok (root.child "+7") ∧
      parse (((root.index 3).child " ").index 0).display = .ok (((root.index 3).child " ").index 0) ∧
      parse (root.child "\u2003").display = .error .blank := by
  obtain ⟨spaced, _, mixed⟩ := isPlainKey_readsBack "a b" (((root.index 3).child " ").index 0)
  obtain ⟨numeral, _⟩ := isPlainKey_readsBack "+7" root
  obtain ⟨_, blank, _⟩ := isPlainKey_readsBack "\u2003" root
  have signed : isPlainKey "+7" ≠ true := by decide
  refine ⟨by decide, ?_, signed, ?_, ?_, ?_⟩
  · exact (spaced.mpr (.inr (by decide))).mp (by decide)
  · exact fun read => signed ((numeral.mpr (.inr (by decide))).mpr read)
  · apply (mixed (by decide) (by decide)).mpr
    intro key same
    have length : 3 = 1 := congrArg (List.length ∘ segments) same
    cases length
  · exact (blank (by decide) (by decide)).2

end FieldPath

end Governance
