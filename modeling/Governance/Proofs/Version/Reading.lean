import Governance.Proofs.Version.Spelling

/-!
# Reading versions in full

Each step of the reader of versions in full takes what is written for a part of the version off the
front of the text. The reader accepts the spellings of versions and nothing else.
-/

set_option autoImplicit false

namespace Governance

namespace Version

/-! ## Numbers -/

theorem readNumber?_eq_some_iff {text rest : List Char} {number : UInt64} :
    readNumber? text = some (number, rest) ↔
      text = Nat.toDigits 10 number.toNat ++ rest ∧
        ∀ c, rest.head? = some c → Text.isDigit c = false := by
  constructor
  · intro read
    unfold readNumber? at read
    dsimp only at read
    split at read
    · cases read
    · rename_i value found
      split at read
      · cases read
      · rename_i admitted
        rw [not_or, Nat.not_lt] at admitted
        cases read
        have numeral := Text.numeral_iff_decimal?.mpr ⟨found, admitted.1⟩
        have fits : (UInt64.ofNat value).toNat = value :=
          UInt64.toNat_ofNat_of_lt' (Nat.lt_succ_of_le admitted.2)
        refine ⟨?_, fun c => Text.eq_false_of_head?_dropWhile⟩
        rw [fits, ← Text.numeral_iff.mp numeral, List.takeWhile_append_dropWhile]
  · rintro ⟨rfl, ends⟩
    have numeral := Text.numeral_iff.mpr (Eq.refl (Nat.toDigits 10 number.toNat))
    obtain ⟨front, back⟩ := Text.span_toDigits number.toNat ends
    have admitted : ¬ ((Nat.toDigits 10 number.toNat).head? = some '0' ∧
        1 < (Nat.toDigits 10 number.toNat).length ∨ Text.wordMax < number.toNat) := by
      rintro (long | large)
      · exact (Text.numeral_iff_decimal?.mp numeral).2 long
      · exact absurd number.toNat_lt (Nat.not_lt.mpr large)
    unfold readNumber?
    simp only [front, back, Text.decimal?_toDigits, admitted, if_false, UInt64.ofNat_toNat]

theorem readDotNumber?_eq_some_iff {text rest : List Char} {number : UInt64} :
    readDotNumber? text = some (number, rest) ↔
      text = '.' :: Nat.toDigits 10 number.toNat ++ rest ∧
        ∀ c, rest.head? = some c → Text.isDigit c = false := by
  unfold readDotNumber?
  split
  · rename_i text
    rw [readNumber?_eq_some_iff]
    simp
  · rename_i other
    refine iff_of_false (fun read => nomatch read) ?_
    rintro ⟨rfl, _⟩
    exact other _ rfl

theorem isDigit_of_startsSuffix {c : Char} (starts : startsSuffix c = true) :
    Text.isDigit c = false := by
  rw [startsSuffix, Bool.or_eq_true, beq_iff_eq, beq_iff_eq] at starts
  obtain rfl | rfl := starts <;> rfl

theorem readNumber?_dot (number : UInt64) (rest : List Char) :
    readNumber? (Nat.toDigits 10 number.toNat ++ '.' :: rest) = some (number, '.' :: rest) := by
  refine readNumber?_eq_some_iff.mpr ⟨rfl, ?_⟩
  rintro _ ⟨⟩
  rfl

theorem readNumber?_suffix (number : UInt64) (version : Version) :
    readNumber? (Nat.toDigits 10 number.toNat ++ version.suffix) =
      some (number, version.suffix) :=
  readNumber?_eq_some_iff.mpr
    ⟨rfl, fun _ first => isDigit_of_startsSuffix (startsSuffix_of_head?_suffix first)⟩

/-! ## Parts -/

theorem readPreReleasePart?_eq_some_iff {piece : List Char} {part : PreReleasePart} :
    readPreReleasePart? piece = some part ↔ piece = part.display.toList := by
  rw [← spellsPart_iff]
  constructor
  · intro read
    unfold readPreReleasePart? at read
    split at read
    · rename_i value found
      split at read
      · cases read
      · rename_i admitted
        cases read
        exact .numeric (Text.numeral_iff_decimal?.mpr ⟨found, admitted⟩)
    · dsimp only at read
      split at read
      · cases read
        have spelled := @SpellsPart.label (String.ofList piece) (by assumption)
        rwa [String.toList_ofList] at spelled
      · cases read
  · intro spelled
    cases spelled with
    | numeric numeral =>
        obtain ⟨found, admitted⟩ := Text.numeral_iff_decimal?.mp numeral
        unfold readPreReleasePart?
        simp only [found, if_neg admitted]
    | @label text valid =>
        have other : Text.decimal? text.toList = none := by
          rw [Text.decimal?, if_neg]
          rintro ⟨_, digits⟩
          simp [digits] at valid
        unfold readPreReleasePart?
        simp only [other, String.ofList_toList]
        exact dif_pos valid

theorem readBuildPart?_eq_some_iff {piece : List Char} {part : BuildPart} :
    readBuildPart? piece = some part ↔ piece = part.text.toList := by
  unfold readBuildPart?
  dsimp only
  constructor
  · intro read
    split at read
    · cases read
      rw [String.toList_ofList]
    · cases read
  · rintro rfl
    simp only [String.ofList_toList]
    exact dif_pos part.valid

/-! ## Dotted parts -/

theorem mapM_eq_some_iff_map {α β : Type} {read : α → Option β} {write : β → α}
    (exact : ∀ {piece : α} {part : β}, read piece = some part ↔ piece = write part)
    {pieces : List α} {parts : List β} :
    pieces.mapM read = some parts ↔ pieces = parts.map write := by
  induction pieces generalizing parts with
  | nil =>
      rw [List.mapM_nil]
      cases parts with
      | nil => exact iff_of_true rfl rfl
      | cons part parts => exact iff_of_false (fun read => nomatch read) (fun same => nomatch same)
  | cons piece pieces ih =>
      simp only [List.mapM_cons, Option.bind_eq_bind, Option.bind_eq_some_iff, exact, ih,
        Option.pure_def]
      cases parts with
      | nil =>
          refine iff_of_false ?_ (fun same => nomatch same)
          rintro ⟨_, _, _, _, same⟩
          cases same
      | cons part parts =>
          constructor
          · rintro ⟨_, first, _, others, same⟩
            cases same
            rw [first, others, List.map_cons]
          · intro same
            obtain ⟨first, others⟩ := List.cons.inj same
            exact ⟨part, first, parts, others, rfl⟩

theorem isPartsChar_of_isIdentifierChar {c : Char} (identifier : isIdentifierChar c = true) :
    isPartsChar c = true := by
  rw [isPartsChar, identifier, Bool.true_or]

/-- Dotted parts reach to the first character that may not stand in them. -/
theorem readParts_eq_some_iff {Part : Type} {read : List Char → Option Part}
    {write : Part → List Char}
    (exact : ∀ {piece : List Char} {part : Part}, read piece = some part ↔ piece = write part)
    (word : ∀ (part : Part), ∀ c ∈ write part, isIdentifierChar c = true)
    {text rest : List Char} {parts : List Part} :
    ((Text.splitOn '.' (text.takeWhile isPartsChar)).mapM read).map
        (fun parts => (parts, text.dropWhile isPartsChar)) = some (parts, rest) ↔
      parts ≠ [] ∧ text = Text.dotted (parts.map write) ++ rest ∧
        ∀ c, rest.head? = some c → isPartsChar c = false := by
  rw [Option.map_eq_some_iff]
  simp only [mapM_eq_some_iff_map exact, Prod.mk.injEq]
  constructor
  · rintro ⟨_, pieces, rfl, rfl⟩
    refine ⟨?_, ?_, fun c => Text.eq_false_of_head?_dropWhile⟩
    · rintro rfl
      exact Text.splitOn_ne_nil _ _ pieces
    · rw [← pieces, Text.dotted, Text.intercalate_splitOn, List.takeWhile_append_dropWhile]
  · rintro ⟨proper, rfl, ends⟩
    have noDot : ∀ piece ∈ parts.map write, '.' ∉ piece := by
      intro piece listed dot
      obtain ⟨part, _, rfl⟩ := List.mem_map.mp listed
      exact absurd (word part '.' dot) (by decide)
    have inside : ∀ c ∈ Text.dotted (parts.map write), isPartsChar c = true := by
      intro c listed
      obtain rfl | ⟨piece, present, within⟩ := Text.mem_dotted listed
      · rfl
      · obtain ⟨part, _, rfl⟩ := List.mem_map.mp present
        exact isPartsChar_of_isIdentifierChar (word part c within)
    obtain ⟨front, back⟩ := Text.span_append inside ends
    rw [front, back, Text.splitOn_dotted (by simpa using proper) noDot]
    exact ⟨parts, rfl, rfl, rfl⟩

theorem isIdentifierChar_of_mem_display {part : PreReleasePart} {c : Char}
    (listed : c ∈ part.display.toList) : isIdentifierChar c = true := by
  cases part with
  | numeric value =>
      rw [toList_display_numeric] at listed
      simp [isIdentifierChar, Text.isDigit_of_mem_toDigits listed]
  | label text valid =>
      rw [Bool.and_eq_true, isLabel, Bool.and_eq_true] at valid
      exact List.all_eq_true.mp valid.1.2 c listed

theorem isIdentifierChar_of_mem_text {part : BuildPart} {c : Char}
    (listed : c ∈ part.text.toList) : isIdentifierChar c = true := by
  have valid := part.valid
  rw [isLabel, Bool.and_eq_true] at valid
  exact List.all_eq_true.mp valid.2 c listed

theorem isIdentifierChar_of_mem_preReleaseWords {version : Version} :
    ∀ word ∈ version.preReleaseWords, ∀ c ∈ word, isIdentifierChar c = true := by
  intro word present c listed
  obtain ⟨part, _, rfl⟩ := List.mem_map.mp present
  exact isIdentifierChar_of_mem_display listed

theorem isIdentifierChar_of_mem_texts {parts : List BuildPart} :
    ∀ word ∈ parts.map (·.text.toList), ∀ c ∈ word, isIdentifierChar c = true := by
  intro word present c listed
  obtain ⟨part, _, rfl⟩ := List.mem_map.mp present
  exact isIdentifierChar_of_mem_text listed

theorem mem_marked {mark c : Char} {words : List (List Char)}
    (word : ∀ word ∈ words, ∀ c ∈ word, isIdentifierChar c = true)
    (listed : c ∈ marked mark words) : c = mark ∨ isPartsChar c = true := by
  by_cases empty : words = []
  · subst empty
    cases listed
  · rw [marked_of_ne_nil mark empty] at listed
    obtain same | listed := List.mem_cons.mp listed
    · exact .inl same
    · obtain rfl | ⟨piece, present, inside⟩ := Text.mem_dotted listed
      · exact .inr rfl
      · exact .inr (isPartsChar_of_isIdentifierChar (word piece present c inside))

/-- A reader of parts behind a mark takes the marked parts off the front of a text. -/
theorem readMarked_eq_some_iff {Part : Type} {mark : Char}
    {reader : List Char → Option (List Part × List Char)} {read : List Char → Option Part}
    {write : Part → List Char}
    (behind : ∀ text, reader (mark :: text) =
      ((Text.splitOn '.' (text.takeWhile isPartsChar)).mapM read).map
        (fun parts => (parts, text.dropWhile isPartsChar)))
    (without : ∀ text, text.head? ≠ some mark → reader text = some ([], text))
    (exact : ∀ {piece : List Char} {part : Part}, read piece = some part ↔ piece = write part)
    (word : ∀ (part : Part), ∀ c ∈ write part, isIdentifierChar c = true)
    {text rest : List Char} {parts : List Part} :
    reader text = some (parts, rest) ↔
      text = marked mark (parts.map write) ++ rest ∧
        ∀ c, rest.head? = some c →
          (parts = [] → c ≠ mark) ∧ (parts ≠ [] → isPartsChar c = false) := by
  by_cases starts : text.head? = some mark
  · obtain ⟨text, rfl⟩ := List.head?_eq_some_iff.mp starts
    rw [behind, readParts_eq_some_iff exact word]
    by_cases empty : parts = []
    · subst empty
      refine iff_of_false (fun read => read.1 rfl) ?_
      rintro ⟨same, ends⟩
      rw [List.map_nil, marked_nil, List.nil_append] at same
      subst same
      exact (ends mark rfl).1 rfl rfl
    · rw [marked_of_ne_nil mark (by simpa using empty)]
      simp [empty]
  · rw [without text starts]
    constructor
    · rintro ⟨⟩
      refine ⟨rfl, fun c first => ⟨?_, fun proper => absurd rfl proper⟩⟩
      rintro - rfl
      exact starts first
    · rintro ⟨rfl, _⟩
      cases parts with
      | nil => rfl
      | cons part parts => exact absurd rfl starts

theorem readPreRelease?_eq_some_iff {text rest : List Char} {parts : List PreReleasePart} :
    readPreRelease? text = some (parts, rest) ↔
      text = marked '-' (parts.map (·.display.toList)) ++ rest ∧
        ∀ c, rest.head? = some c →
          (parts = [] → c ≠ '-') ∧ (parts ≠ [] → isPartsChar c = false) := by
  apply readMarked_eq_some_iff (fun _ => rfl) _ readPreReleasePart?_eq_some_iff
    (fun _ _ => isIdentifierChar_of_mem_display)
  intro text other
  unfold readPreRelease?
  split
  · exact absurd rfl other
  · rfl

theorem readBuild?_eq_some_iff {text rest : List Char} {parts : List BuildPart} :
    readBuild? text = some (parts, rest) ↔
      text = marked '+' (parts.map (·.text.toList)) ++ rest ∧
        ∀ c, rest.head? = some c →
          (parts = [] → c ≠ '+') ∧ (parts ≠ [] → isPartsChar c = false) := by
  apply readMarked_eq_some_iff (fun _ => rfl) _ readBuildPart?_eq_some_iff
    (fun _ _ => isIdentifierChar_of_mem_text)
  intro text other
  unfold readBuild?
  split
  · exact absurd rfl other
  · rfl

/-! ## Versions in full -/

theorem readBuild?_marked (parts : List BuildPart) :
    readBuild? (marked '+' (parts.map (·.text.toList))) = some (parts, []) :=
  readBuild?_eq_some_iff.mpr ⟨(List.append_nil _).symm, fun _ first => nomatch first⟩

theorem readPreRelease?_suffix (version : Version) :
    readPreRelease? version.suffix =
      some (version.preRelease, marked '+' version.buildWords) := by
  refine readPreRelease?_eq_some_iff.mpr ⟨rfl, fun c first => ?_⟩
  rw [← List.append_nil (marked '+' _)] at first
  obtain rfl | none := head?_marked_append first
  · exact ⟨fun _ => by decide, fun _ => by decide⟩
  · cases none

/-- A version in full is read from what is written for it and from no other text. -/
theorem parse?_eq_some_iff {text : List Char} {version : Version} :
    parse? text = some version ↔ text = version.display.toList := by
  rw [toList_display]
  constructor
  · intro read
    simp only [parse?, Option.bind_eq_bind, Option.bind_eq_some_iff, readNumber?_eq_some_iff,
      readDotNumber?_eq_some_iff, Prod.exists, readPreRelease?_eq_some_iff,
      readBuild?_eq_some_iff] at read
    obtain ⟨major, _, ⟨rfl, _⟩, minor, _, ⟨rfl, _⟩, patch, _, ⟨rfl, _⟩, preRelease, _, ⟨rfl, _⟩,
      build, rest, ⟨rfl, _⟩, closed⟩ := read
    split at closed
    · rename_i empty
      cases closed
      rw [List.isEmpty_iff.mp empty]
      simp [numbers, suffix, Text.dotted_cons, preReleaseWords, buildWords]
    · cases closed
  · rintro rfl
    rw [dotted_numbers_append]
    simp only [parse?, Option.bind_eq_bind, readDotNumber?, readNumber?_dot, readNumber?_suffix,
      Option.bind_some, readPreRelease?_suffix, buildWords, readBuild?_marked]
    rfl

theorem parse?_eq_some_iff_spells {text : List Char} {version : Version} :
    parse? text = some version ↔ Spells text version :=
  parse?_eq_some_iff.trans spells_iff.symm

end Version

end Governance
