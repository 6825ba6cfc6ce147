import Governance.Proofs.Text.Blank
import Governance.Proofs.Version.Reading

/-!
# Reading versions as tools report them

The lenient reader accepts exactly the texts whose numbers, filled up with zeros to three, make a
version in full. The texts that it reads without filling up are among them and give the same version
either way.
-/

set_option autoImplicit false

namespace Governance

namespace Version

/-! ## The core -/

/-- The parts of a core: one to three, each of them of ASCII digits and not empty. -/
structure IsCore (parts : List (List Char)) : Prop where
  proper : parts ≠ []
  short : parts.length ≤ 3
  filled : ∀ part ∈ parts, part ≠ []
  digit : ∀ part ∈ parts, ∀ c ∈ part, Text.isDigit c = true

theorem IsCore.noDot {parts : List (List Char)} (core : IsCore parts) :
    ∀ part ∈ parts, '.' ∉ part := by
  intro part listed dot
  exact absurd (core.digit part listed '.' dot) (by decide)

theorem isCore_numbers (version : Version) : IsCore version.numbers := by
  have each : ∀ {property : List Char → Prop}, (∀ number, property (Nat.toDigits 10 number)) →
      ∀ part ∈ version.numbers, property part := by
    intro property holds part listed
    simp only [numbers, List.mem_cons, List.not_mem_nil, or_false] at listed
    obtain rfl | rfl | rfl := listed <;> exact holds _
  exact ⟨List.cons_ne_nil _ _, Nat.le_refl 3, each fun _ => Nat.toDigits_ne_nil,
    each fun _ _ => Text.isDigit_of_mem_toDigits⟩

theorem IsCore.mem_dotted {parts : List (List Char)} (core : IsCore parts) {c : Char}
    (listed : c ∈ Text.dotted parts) : c = '.' ∨ Text.isDigit c = true := by
  obtain dot | ⟨part, present, inside⟩ := Text.mem_dotted listed
  · exact .inl dot
  · exact .inr (core.digit part present c inside)

/-! ## Versions hold no blanks -/

theorem not_isBlank_of_isPartsChar {c : Char} (allowed : isPartsChar c = true) :
    Text.isBlank c = false := by
  simp only [isPartsChar, isIdentifierChar, Text.isDigit, Bool.or_eq_true, Bool.and_eq_true,
    decide_eq_true_eq, beq_iff_eq, Char.le_def, UInt32.le_iff_toNat_le] at allowed
  change ((((48 ≤ c.toNat ∧ c.toNat ≤ 57) ∨ (97 ≤ c.toNat ∧ c.toNat ≤ 122)) ∨
    (65 ≤ c.toNat ∧ c.toNat ≤ 90)) ∨ c = '-') ∨ c = '.' at allowed
  have visible : 45 ≤ c.toNat ∧ c.toNat ≤ 122 := by
    obtain (((digit | lower) | upper) | rfl) | rfl := allowed
    · omega
    · omega
    · omega
    · decide
    · decide
  simp only [Text.isBlank, Bool.or_eq_false_iff, Bool.and_eq_false_iff, decide_eq_false_iff_not,
    beq_eq_false_iff_ne]
  omega

theorem IsCore.trimmed {parts : List (List Char)} (core : IsCore parts) :
    Text.Trimmed (Text.dotted parts) := by
  apply Text.trimmed_of_not_blank
  intro c listed
  apply not_isBlank_of_isPartsChar
  obtain rfl | digit := core.mem_dotted listed
  · rfl
  · simp [isPartsChar, isIdentifierChar, digit]

theorem trimmed_marked {mark : Char} (visible : Text.isBlank mark = false)
    {words : List (List Char)} (word : ∀ word ∈ words, ∀ c ∈ word, isIdentifierChar c = true) :
    Text.Trimmed (marked mark words) := by
  apply Text.trimmed_of_not_blank
  intro c listed
  obtain rfl | allowed := mem_marked word listed
  · exact visible
  · exact not_isBlank_of_isPartsChar allowed

theorem trimmed_suffix (version : Version) : Text.Trimmed version.suffix :=
  (trimmed_marked rfl isIdentifierChar_of_mem_preReleaseWords).append
    (trimmed_marked rfl isIdentifierChar_of_mem_texts)

theorem trimmed_display (version : Version) : Text.Trimmed version.display.toList := by
  rw [toList_display]
  exact (isCore_numbers version).trimmed.append (trimmed_suffix version)

/-! ## Filling up -/

/-- A core ends where a pre-release or build metadata starts. -/
theorem IsCore.span {parts : List (List Char)} (core : IsCore parts) {suffix : List Char}
    (starts : ∀ c, suffix.head? = some c → startsSuffix c = true) :
    (Text.dotted parts ++ suffix).takeWhile (fun c => !startsSuffix c) = Text.dotted parts ∧
      (Text.dotted parts ++ suffix).dropWhile (fun c => !startsSuffix c) = suffix := by
  apply Text.span_append
  · intro c listed
    obtain rfl | digit := core.mem_dotted listed
    · rfl
    · rw [Bool.not_eq_true', ← Bool.not_eq_true]
      intro other
      rw [isDigit_of_startsSuffix other] at digit
      cases digit
  · intro c first
    rw [starts c first, Bool.not_true]

def readPadded? (bare : List Char) : Option Version :=
  let parts := Text.splitOn '.' (bare.takeWhile fun c => !startsSuffix c)
  let suffix := bare.dropWhile fun c => !startsSuffix c
  if parts.length ≤ 3 ∧ parts.all (fun part => (Text.decimal? part).isSome) then
    parse? (padCore parts ++ suffix)
  else none

theorem isCore_iff {parts : List (List Char)} (proper : parts ≠ []) :
    (parts.length ≤ 3 ∧ parts.all (fun part => (Text.decimal? part).isSome) = true) ↔
      IsCore parts := by
  simp only [List.all_eq_true, Option.isSome_iff_exists, Text.decimal?_eq_some_iff]
  constructor
  · rintro ⟨short, numerals⟩
    refine ⟨proper, short, fun part listed => ?_, fun part listed => ?_⟩
    · obtain ⟨_, filled, _⟩ := numerals part listed
      exact filled
    · obtain ⟨_, _, digits, _⟩ := numerals part listed
      exact digits
  · intro core
    exact ⟨core.short, fun part listed => ⟨_, core.filled part listed, core.digit part listed, rfl⟩⟩

theorem readPadded?_dotted {parts : List (List Char)} (core : IsCore parts) {suffix : List Char}
    (starts : ∀ c, suffix.head? = some c → startsSuffix c = true) :
    readPadded? (Text.dotted parts ++ suffix) = parse? (padCore parts ++ suffix) := by
  obtain ⟨front, back⟩ := core.span starts
  unfold readPadded?
  dsimp only
  rw [front, back, Text.splitOn_dotted core.proper core.noDot,
    if_pos ((isCore_iff core.proper).mpr core)]

/-- Reading in full and filling up never disagree: a version in full has three numbers already. -/
theorem readPadded?_of_parse? {bare : List Char} {version : Version}
    (full : parse? bare = some version) : readPadded? bare = some version := by
  have written := parse?_eq_some_iff.mp full
  rw [toList_display] at written
  have whole : padCore version.numbers = Text.dotted version.numbers := rfl
  rw [written, readPadded?_dotted (isCore_numbers version) fun c => startsSuffix_of_head?_suffix,
    whole, ← written, full]

theorem parseLenient?_eq_readPadded? (text : String) :
    parseLenient? text = readPadded? (withoutMark (Text.trim text).toList) := by
  unfold parseLenient?
  dsimp only
  cases full : parse? (withoutMark (Text.trim text).toList) with
  | some version => rw [readPadded?_of_parse? full]
  | none => rfl

theorem startsSuffix_of_head?_dropWhile {bare : List Char} {c : Char}
    (first : (bare.dropWhile fun c => !startsSuffix c).head? = some c) : startsSuffix c = true := by
  have stops := Text.eq_false_of_head?_dropWhile first
  exact (Bool.not_eq_false' ..).mp stops

theorem readPadded?_eq_some_iff {bare : List Char} {version : Version} :
    readPadded? bare = some version ↔
      ∃ parts, bare.takeWhile (fun c => !startsSuffix c) = Text.dotted parts ∧ IsCore parts ∧
        parse? (padCore parts ++ bare.dropWhile fun c => !startsSuffix c) = some version := by
  constructor
  · intro read
    unfold readPadded? at read
    dsimp only at read
    split at read
    · rename_i numerals
      exact ⟨_, (Text.intercalate_splitOn '.' _).symm,
        (isCore_iff (Text.splitOn_ne_nil _ _)).mp numerals, read⟩
    · cases read
  · rintro ⟨parts, front, core, read⟩
    rw [← List.takeWhile_append_dropWhile (l := bare), front,
      readPadded?_dotted core fun _ => startsSuffix_of_head?_dropWhile, read]

/-! ## Lenient reading -/

theorem withoutMark_of_head {text : List Char} (lower : text.head? ≠ some 'v')
    (upper : text.head? ≠ some 'V') : withoutMark text = text := by
  unfold withoutMark
  split
  · exact absurd rfl lower
  · exact absurd rfl upper
  · rfl

theorem IsCore.isDigit_of_head? {parts : List (List Char)} (core : IsCore parts)
    {suffix : List Char} {c : Char} (first : (Text.dotted parts ++ suffix).head? = some c) :
    Text.isDigit c = true := by
  obtain ⟨part, others, rfl⟩ := List.exists_cons_of_ne_nil core.proper
  obtain ⟨d, more, rfl⟩ := List.exists_cons_of_ne_nil (core.filled part List.mem_cons_self)
  rw [Text.dotted_cons] at first
  cases first
  exact core.digit _ List.mem_cons_self c List.mem_cons_self

theorem IsCore.withoutMark {parts : List (List Char)} (core : IsCore parts)
    (suffix : List Char) :
    withoutMark (Text.dotted parts ++ suffix) = Text.dotted parts ++ suffix := by
  apply withoutMark_of_head <;> intro first <;> cases core.isDigit_of_head? first

theorem parseLenient?_dotted {parts : List (List Char)} (core : IsCore parts) {suffix : List Char}
    (starts : ∀ c, suffix.head? = some c → startsSuffix c = true) (trimmed : Text.Trimmed suffix) :
    parseLenient? (String.ofList (Text.dotted parts ++ suffix)) =
      parse? (padCore parts ++ suffix) := by
  have whole : Text.Trimmed (String.ofList (Text.dotted parts ++ suffix)).toList := by
    rw [String.toList_ofList]
    exact core.trimmed.append trimmed
  rw [parseLenient?_eq_readPadded?, Text.trim_of_trimmed whole, String.toList_ofList,
    core.withoutMark, readPadded?_dotted core starts]

theorem parseLenient?_display (version : Version) :
    parseLenient? version.display = some version := by
  have written : version.display = String.ofList (Text.dotted version.numbers ++ version.suffix) := by
    rw [← toList_display, String.ofList_toList]
  rw [written, parseLenient?_dotted (isCore_numbers version)
    (fun c => startsSuffix_of_head?_suffix) (trimmed_suffix version)]
  exact parse?_eq_some_iff.mpr (toList_display version).symm

/-- The lenient reader accepts the texts whose core of one to three numbers, filled up with zeros to
three, spells a version together with the suffix, and it reads that version. What is written for a
version is read back as it. -/
theorem parseLenient?_grammar (text : String) (version : Version) :
    let bare := withoutMark (Text.trim text).toList
    let core := bare.takeWhile fun c => !startsSuffix c
    let suffix := bare.dropWhile fun c => !startsSuffix c
    (parseLenient? text = some version ↔
      ∃ parts : List (List Char), core = Text.dotted parts ∧ IsCore parts ∧
        Spells (Text.dotted (parts ++ List.replicate (3 - parts.length) ['0']) ++ suffix)
          version) ∧
      parseLenient? version.display = some version := by
  intro bare core suffix
  refine ⟨?_, parseLenient?_display version⟩
  rw [parseLenient?_eq_readPadded?, readPadded?_eq_some_iff]
  simp only [parse?_eq_some_iff_spells]
  exact Iff.rfl

end Version

end Governance
