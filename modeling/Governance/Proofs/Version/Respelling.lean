import Governance.Proofs.Version.Lenient
import Mathlib.Logic.Relation

/-!
# Ways to write one version

Tools write one version in many ways: with blanks around it, with a letter in front, without the zeros
at its end, and with build metadata. Any two of them are read as the same version but for the build
metadata.
-/

set_option autoImplicit false

namespace Governance

namespace Version

/-! ## Respelling -/

/-- One step from a text to another way to write its version. Blanks are a step of their own, so the
other steps start from trimmed texts. -/
inductive Respelling : String → String → Prop where
  | blanks {before text after : String} :
      (∀ c ∈ before.toList, Text.isBlank c = true) → (∀ c ∈ after.toList, Text.isBlank c = true) →
      Respelling text (before ++ text ++ after)
  | mark {mark : Char} {text : List Char} :
      mark = 'v' ∨ mark = 'V' → Text.Trimmed text → text.head? ≠ some 'v' →
      text.head? ≠ some 'V' → Respelling (String.ofList text) (String.ofList (mark :: text))
  | zero {parts : List (List Char)} {suffix : List Char} :
      IsCore parts → parts.length < 3 → (∀ c, suffix.head? = some c → startsSuffix c = true) →
      Text.Trimmed suffix →
      Respelling (String.ofList (Text.dotted parts ++ suffix))
        (String.ofList (Text.dotted (parts ++ [['0']]) ++ suffix))
  | build {text : List Char} {parts : List BuildPart} :
      Text.Trimmed text → '+' ∉ text → parts ≠ [] →
      Respelling (String.ofList text)
        (String.ofList (text ++ '+' :: Text.dotted (parts.map (·.text.toList))))

def Alike : String → String → Prop := Relation.EqvGen Respelling

def withBuild (build : List BuildPart) (version : Version) : Version := { version with build }

def ranked? (text : String) : Option Version := (parseLenient? text).map (withBuild [])

/-! ## Missing zeros -/

theorem IsCore.append_zeros {parts : List (List Char)} (core : IsCore parts) (count : Nat)
    (short : parts.length + count ≤ 3) : IsCore (parts ++ List.replicate count ['0']) := by
  have zero : ∀ part ∈ List.replicate count ['0'], part = ['0'] := fun part listed =>
    (List.mem_replicate.mp listed).2
  refine ⟨List.append_ne_nil_of_left_ne_nil core.proper _, ?_, ?_, ?_⟩
  · rw [List.length_append, List.length_replicate]
    exact short
  · intro part listed
    obtain listed | listed := List.mem_append.mp listed
    · exact core.filled part listed
    · rw [zero part listed]
      exact List.cons_ne_nil _ _
  · intro part listed c inside
    obtain listed | listed := List.mem_append.mp listed
    · exact core.digit part listed c inside
    · rw [zero part listed, List.mem_singleton] at inside
      rw [inside]
      rfl

theorem padCore_snoc_zero {parts : List (List Char)} (short : parts.length < 3) :
    padCore (parts ++ [['0']]) = padCore parts := by
  have missing : 3 - parts.length = 3 - (parts ++ [['0']]).length + 1 := by
    rw [List.length_append, List.length_singleton]
    omega
  rw [padCore, padCore, missing, List.replicate_succ, List.append_assoc]
  rfl

/-! ## Build metadata -/

theorem plus_not_mem_release (version : Version) :
    '+' ∉ Text.dotted version.numbers ++ marked '-' version.preReleaseWords := by
  intro listed
  obtain number | preRelease := List.mem_append.mp listed
  · obtain dot | digit := (isCore_numbers version).mem_dotted number
    · cases dot
    · cases digit
  · obtain dash | allowed := mem_marked isIdentifierChar_of_mem_preReleaseWords preRelease
    · cases dash
    · cases allowed

/-- A text is cut at its first plus sign in one way only. -/
theorem append_marked_inj {front other : List Char} {words others : List (List Char)}
    (release : '+' ∉ front) (release' : '+' ∉ other)
    (same : front ++ marked '+' words = other ++ marked '+' others) :
    front = other ∧ marked '+' words = marked '+' others := by
  have span : ∀ {text : List Char} (words : List (List Char)), '+' ∉ text →
      (text ++ marked '+' words).takeWhile (· != '+') = text ∧
        (text ++ marked '+' words).dropWhile (· != '+') = marked '+' words := by
    intro text words absent
    apply Text.span_append
    · rintro c listed
      exact bne_iff_ne.mpr fun plus => absent (plus ▸ listed)
    · intro c first
      rw [← List.append_nil (marked '+' words)] at first
      obtain rfl | none := head?_marked_append first
      · rfl
      · cases none
  obtain ⟨cut, rest⟩ := span words release
  obtain ⟨cut', rest'⟩ := span others release'
  exact ⟨by rw [← cut, same, cut'], by rw [← rest, same, rest']⟩

theorem parse?_append_build {text : List Char} (release : '+' ∉ text) {parts : List BuildPart}
    (proper : parts ≠ []) :
    parse? (text ++ '+' :: Text.dotted (parts.map (·.text.toList))) =
      (parse? text).map (withBuild parts) := by
  have behind : marked '+' (parts.map (·.text.toList)) =
      '+' :: Text.dotted (parts.map (·.text.toList)) := marked_of_ne_nil '+' (by simpa using proper)
  rw [← behind]
  apply Option.ext
  intro version
  simp only [Option.map_eq_some_iff, parse?_eq_some_iff, toList_display, suffix,
    ← List.append_assoc]
  constructor
  · intro same
    obtain ⟨rfl, build⟩ := append_marked_inj release (plus_not_mem_release version) same
    have parts_eq : some (parts, ([] : List Char)) = some (version.build, []) := by
      rw [← readBuild?_marked, build, buildWords, readBuild?_marked]
    cases parts_eq
    exact ⟨withBuild [] version, (List.append_nil _).symm, rfl⟩
  · rintro ⟨version, rfl, rfl⟩
    have bare : version.buildWords = [] := by
      by_contra words
      rw [marked_of_ne_nil '+' words] at release
      exact release (List.mem_append_right _ List.mem_cons_self)
    rw [bare, marked_nil, List.append_nil]
    rfl

theorem readPadded?_append_build {bare : List Char} (release : '+' ∉ bare)
    {parts : List BuildPart} (proper : parts ≠ []) :
    readPadded? (bare ++ '+' :: Text.dotted (parts.map (·.text.toList))) =
      (readPadded? bare).map (withBuild parts) := by
  have ends : ∀ c, ('+' :: Text.dotted (parts.map (·.text.toList))).head? = some c →
      (!startsSuffix c) = false := by
    rintro _ ⟨⟩
    rfl
  obtain ⟨front, back⟩ := Text.span_append_of_stop bare ends
  unfold readPadded?
  dsimp only
  rw [front, back]
  split
  · rename_i numerals
    have core := (isCore_iff (Text.splitOn_ne_nil _ _)).mp numerals
    have padded := core.append_zeros _ (Nat.add_sub_of_le core.short).le
    rw [← List.append_assoc]
    apply parse?_append_build _ proper
    intro listed
    obtain number | suffix := List.mem_append.mp listed
    · obtain dot | digit := padded.mem_dotted number
      · cases dot
      · cases digit
    · exact release (List.dropWhile_subset _ suffix)
  · rfl

theorem withoutMark_suffix (text : List Char) : withoutMark text <:+ text := by
  unfold withoutMark
  split
  · exact List.suffix_cons _ _
  · exact List.suffix_cons _ _
  · exact List.suffix_refl _

theorem withoutMark_append_plus (text rest : List Char) :
    withoutMark (text ++ '+' :: rest) = withoutMark text ++ '+' :: rest := by
  cases text with
  | nil => rfl
  | cons c text =>
      by_cases lower : c = 'v'
      · subst lower
        rfl
      · by_cases upper : c = 'V'
        · subst upper
          rfl
        · rw [withoutMark_of_head, withoutMark_of_head] <;> simpa

theorem parseLenient?_ofList {text : List Char} (trimmed : Text.Trimmed text) :
    parseLenient? (String.ofList text) = readPadded? (withoutMark text) := by
  rw [parseLenient?_eq_readPadded?, Text.trim_of_trimmed, String.toList_ofList]
  rwa [String.toList_ofList]

/-! ## Alike texts -/

theorem ranked?_of_respelling {text other : String} (step : Respelling text other) :
    ranked? text = ranked? other := by
  unfold ranked?
  cases step with
  | blanks front back =>
      rw [parseLenient?_eq_readPadded?, parseLenient?_eq_readPadded?, Text.trim_surrounded front back]
  | @mark mark text letter trimmed lower upper =>
      have visible : Text.Trimmed [mark] := by
        apply Text.trimmed_of_not_blank
        intro c listed
        rw [List.mem_singleton.mp listed]
        obtain rfl | rfl := letter <;> rfl
      have dropped : withoutMark (mark :: text) = text := by
        obtain rfl | rfl := letter <;> rfl
      have whole := parseLenient?_ofList (visible.append trimmed)
      rw [List.singleton_append, dropped] at whole
      rw [whole, parseLenient?_ofList trimmed, withoutMark_of_head lower upper]
  | @zero parts suffix core short starts trimmed =>
      have longer : IsCore (parts ++ [['0']]) := core.append_zeros 1 short
      rw [parseLenient?_dotted core starts trimmed, parseLenient?_dotted longer starts trimmed,
        padCore_snoc_zero short]
  | @build text parts trimmed release proper =>
      have metadata : Text.Trimmed (marked '+' (parts.map (·.text.toList))) :=
        trimmed_marked rfl isIdentifierChar_of_mem_texts
      rw [marked_of_ne_nil '+' (by simpa using proper)] at metadata
      rw [parseLenient?_ofList trimmed, parseLenient?_ofList (trimmed.append metadata),
        withoutMark_append_plus,
        readPadded?_append_build (fun plus => release ((withoutMark_suffix text).subset plus)) proper,
        Option.map_map]
      rfl

theorem ranked?_of_alike {text other : String} (alike : Alike text other) :
    ranked? text = ranked? other := by
  induction alike with
  | rel text other step => exact ranked?_of_respelling step
  | refl text => rfl
  | symm text other _ ih => exact ih.symm
  | trans text middle other _ _ first second => exact first.trans second

/-! ## Every way to write a version -/

theorem alike_padCore {parts : List (List Char)} (core : IsCore parts) {suffix : List Char}
    (starts : ∀ c, suffix.head? = some c → startsSuffix c = true) (trimmed : Text.Trimmed suffix) :
    Alike (String.ofList (Text.dotted parts ++ suffix))
      (String.ofList (padCore parts ++ suffix)) := by
  -- by the number of zeros that are missing, one step for each
  cases missing : 3 - parts.length with
  | zero =>
      rw [padCore, missing, List.replicate_zero, List.append_nil]
      exact .refl _
  | succ count =>
      have short : parts.length < 3 := by omega
      rw [← padCore_snoc_zero short]
      exact .trans _ _ _ (.rel _ _ (.zero core short starts trimmed))
        (alike_padCore (core.append_zeros 1 short) starts trimmed)
  termination_by 3 - parts.length
  decreasing_by
    rw [List.length_append]
    change 3 - (parts.length + 1) < 3 - parts.length
    omega

theorem alike_withBuild_nil (version : Version) :
    Alike (withBuild [] version).display version.display := by
  by_cases none : version.build = []
  · have same : withBuild [] version = version := by
      rw [withBuild, ← none]
    rw [same]
    exact .refl _
  · have release : (withBuild [] version).display =
        String.ofList (Text.dotted version.numbers ++ marked '-' version.preReleaseWords) := by
      rw [← String.ofList_toList (s := (withBuild [] version).display), toList_display, suffix]
      exact congrArg String.ofList (congrArg (_ ++ ·) (List.append_nil _))
    have whole : version.display =
        String.ofList (Text.dotted version.numbers ++ marked '-' version.preReleaseWords ++
          '+' :: Text.dotted (version.build.map (·.text.toList))) := by
      rw [← String.ofList_toList (s := version.display), toList_display, suffix, buildWords,
        marked_of_ne_nil '+' (by simpa using none), List.append_assoc]
    rw [release, whole]
    refine .rel _ _ (.build ?_ (plus_not_mem_release version) none)
    exact (isCore_numbers version).trimmed.append
      (trimmed_marked rfl isIdentifierChar_of_mem_preReleaseWords)

theorem withoutMark_cases (text : List Char) : withoutMark text = text ∨
    ∃ mark, (mark = 'v' ∨ mark = 'V') ∧ text = mark :: withoutMark text := by
  unfold withoutMark
  split
  · exact .inr ⟨'v', .inl rfl, rfl⟩
  · exact .inr ⟨'V', .inr rfl, rfl⟩
  · exact .inl rfl

theorem alike_trim (text : String) : Alike text (Text.trim text) := by
  obtain ⟨before, after, front, back, whole⟩ := Text.exists_surrounded text
  have step : Respelling (Text.trim text) (before ++ Text.trim text ++ after) :=
    .blanks front back
  rw [← whole] at step
  exact .symm _ _ (.rel _ _ step)

theorem alike_withoutMark {text : List Char} (trimmed : Text.Trimmed (withoutMark text))
    (lower : (withoutMark text).head? ≠ some 'v') (upper : (withoutMark text).head? ≠ some 'V') :
    Alike (String.ofList text) (String.ofList (withoutMark text)) := by
  obtain same | ⟨mark, letter, shape⟩ := withoutMark_cases text
  · rw [same]
    exact .refl _
  · have step : Respelling _ (String.ofList (mark :: withoutMark text)) :=
      .mark letter trimmed lower upper
    rw [← shape] at step
    exact .symm _ _ (.rel _ _ step)

/-- Every text of a version leads to what is written for it without build metadata. -/
theorem alike_display_of_parseLenient? {text : String} {version : Version}
    (accepted : parseLenient? text = some version) :
    Alike text (withBuild [] version).display := by
  rw [parseLenient?_eq_readPadded?, readPadded?_eq_some_iff] at accepted
  obtain ⟨parts, front, core, read⟩ := accepted
  have starts : ∀ c, ((withoutMark (Text.trim text).toList).dropWhile
      fun c => !startsSuffix c).head? = some c → startsSuffix c = true :=
    fun _ => startsSuffix_of_head?_dropWhile
  have trimmed : Text.Trimmed ((withoutMark (Text.trim text).toList).dropWhile
      fun c => !startsSuffix c) := by
    refine ⟨fun c first => ?_, fun c last => ?_⟩
    · have mark := starts c first
      rw [startsSuffix, Bool.or_eq_true, beq_iff_eq, beq_iff_eq] at mark
      obtain rfl | rfl := mark <;> rfl
    · apply (Text.trimmed_trim text).last
      obtain ⟨front, whole⟩ := (List.dropWhile_suffix _).trans
        (withoutMark_suffix (Text.trim text).toList)
      rw [← whole, List.getLast?_append, last]
      rfl
  have split := List.takeWhile_append_dropWhile (p := fun c => !startsSuffix c)
    (l := withoutMark (Text.trim text).toList)
  rw [front] at split
  generalize (withoutMark (Text.trim text).toList).dropWhile (fun c => !startsSuffix c) = suffix
    at split read starts trimmed
  have bare : Alike (Text.trim text) (String.ofList (Text.dotted parts ++ suffix)) := by
    have step := @alike_withoutMark (Text.trim text).toList
    rw [← split, String.ofList_toList] at step
    apply step (core.trimmed.append trimmed) <;> intro first <;> cases core.isDigit_of_head? first
  have padded : Alike (String.ofList (Text.dotted parts ++ suffix)) version.display := by
    rw [← String.ofList_toList (s := version.display), ← parse?_eq_some_iff.mp read]
    exact alike_padCore core starts trimmed
  exact .trans _ _ _ (alike_trim text) (.trans _ _ _ bare
    (.trans _ _ _ padded (.symm _ _ (alike_withBuild_nil version))))

/-- Accepted texts are alike exactly if they are read as one version but for the build metadata. -/
theorem alike_iff {text other : String} (accepted : (parseLenient? text).isSome = true)
    (accepted' : (parseLenient? other).isSome = true) :
    Alike text other ↔ ranked? text = ranked? other := by
  constructor
  · exact ranked?_of_alike
  · intro same
    obtain ⟨version, read⟩ := Option.isSome_iff_exists.mp accepted
    obtain ⟨version', read'⟩ := Option.isSome_iff_exists.mp accepted'
    have rank : withBuild [] version = withBuild [] version' := by
      simpa [ranked?, read, read'] using same
    have there := alike_display_of_parseLenient? read
    rw [rank] at there
    exact .trans _ _ _ there (.symm _ _ (alike_display_of_parseLenient? read'))

end Version

end Governance
