import Governance.Proofs.FieldPath.Reread
import Governance.Proofs.Text.Slice

/-!
# Path text is stable

A path text can be read by cutting it at byte places, one bracket at a time. All cuts lie in the text
and between characters, so this always ends with what the reader of paths gives. A path that has been
read has plain keys, and its own text reads as the path again.
-/

set_option autoImplicit false

namespace Governance

/-- Whether a text is the numeral of a position: decimal digits, perhaps behind a plus sign, of a
number that fits 64 bits. -/
def Text.Denotes (text : List Char) (number : Nat) : Prop :=
  number ≤ wordMax ∧ ∃ digits, (text = digits ∨ text = '+' :: digits) ∧ digits ≠ [] ∧
    (∀ c ∈ digits, isDigit c = true) ∧ ofDigits digits = number

theorem Text.position?_signed (digits : List Char) : position? ('+' :: digits) =
    (decimal? digits).bind fun value => if value ≤ wordMax then some value else none := by
  simp only [position?]
  cases decimal? digits <;> rfl

theorem Text.position?_unsigned {digits : List Char} (unsigned : ∀ rest, digits ≠ '+' :: rest) :
    position? digits =
      (decimal? digits).bind fun value => if value ≤ wordMax then some value else none := by
  unfold position?
  split
  · exact absurd rfl (unsigned _)
  · dsimp only
    cases decimal? digits <;> rfl

theorem Text.position?_eq_some_iff {text : List Char} {number : Nat} :
    position? text = some number ↔ Denotes text number := by
  have bounded : ∀ digits, ((decimal? digits).bind fun value =>
      if value ≤ wordMax then some value else none) = some number ↔
        number ≤ wordMax ∧ decimal? digits = some number := by
    intro digits
    cases decimal? digits with
    | none => simp
    | some value =>
        simp only [Option.bind_some, Option.ite_none_right_eq_some, Option.some.injEq]
        constructor
        · rintro ⟨fits, rfl⟩
          exact ⟨fits, rfl⟩
        · rintro ⟨fits, rfl⟩
          exact ⟨fits, rfl⟩
  by_cases signed : ∃ rest, text = '+' :: rest
  · obtain ⟨rest, rfl⟩ := signed
    rw [position?_signed, bounded, decimal?_eq_some_iff, Denotes]
    refine and_congr_right fun _ => ⟨fun numeral => ⟨rest, .inr rfl, numeral⟩, ?_⟩
    rintro ⟨digits, rfl | same, numeral⟩
    · -- a plus sign is not a digit
      exact absurd (numeral.2.1 '+' List.mem_cons_self) (by decide)
    · cases same
      exact numeral
  · rw [position?_unsigned fun rest same => signed ⟨rest, same⟩, bounded, decimal?_eq_some_iff,
      Denotes]
    refine and_congr_right fun _ => ⟨fun numeral => ⟨text, .inl rfl, numeral⟩, ?_⟩
    rintro ⟨digits, rfl | rfl, numeral⟩
    · exact numeral
    · exact absurd ⟨digits, rfl⟩ signed

namespace FieldPath

theorem position?_eq_none_iff {text : List Char} :
    position? text = none ↔ ∀ number, ¬ Text.Denotes text number := by
  rw [position?, Option.map_eq_none_iff, Option.eq_none_iff_forall_ne_some]
  exact forall_congr' fun number => not_congr Text.position?_eq_some_iff

/-! ## Scanning by places

The outer `none` is a cut that cannot be made. -/

/-- Reads one position in brackets and returns the text behind it. -/
def scanIndex (text : List Char) : Option (Except PathProblem (UInt64 × List Char)) :=
  match Text.placeOf? ']' text with
  | none => some (.error .unbalancedOpen)
  | some closing => do
    let digits ← Text.slice? 1 closing text
    match position? digits with
    | none => some (.error .notAnIndex)
    | some position =>
      let rest ← Text.slice? (closing + 1) (Text.size text) text
      if rest = [] ∨ rest.head? = some '[' then some (.ok (position, rest))
      else some (.error .textAfterIndex)

theorem length_lt_of_scanIndex {text rest : List Char} {position : UInt64}
    (scanned : scanIndex text = some (.ok (position, rest))) : rest.length < text.length := by
  unfold scanIndex at scanned
  split at scanned
  · cases scanned
  · rename_i closing _
    obtain ⟨digits, _, scanned⟩ := Option.bind_eq_some_iff.mp scanned
    split at scanned
    · cases scanned
    · obtain ⟨rest', cut, scanned⟩ := Option.bind_eq_some_iff.mp scanned
      split at scanned
      · cases scanned
        obtain ⟨front, back, rfl, place, _⟩ := Text.slice?_eq_some_iff.mp cut
        have proper : front ≠ [] := by
          rintro rfl
          cases place
        have positive := List.length_pos_iff.mpr proper
        simp only [List.length_append]
        omega
      · cases scanned

def scanIndices (text : List Char) : Option (Except PathProblem (List Segment)) :=
  if text = [] then some (.ok [])
  else match _scanned : scanIndex text with
    | none => none
    | some (.error problem) => some (.error problem)
    | some (.ok (position, rest)) => (scanIndices rest).map (·.map (.index position :: ·))
  termination_by text.length
  decreasing_by exact length_lt_of_scanIndex _scanned

def scanBracket (part : List Char) : Option (List Char × List Char) :=
  match Text.placeOf? '[' part with
  | none => some (part, [])
  | some opening => do
    let name ← Text.slice? 0 opening part
    let rest ← Text.slice? opening (Text.size part) part
    some (name, rest)

def scanPart (part : List Char) : Option (Except PathProblem (List Segment)) := do
  if part = [] then some (.error .emptySegment)
  else
    let (name, rest) ← scanBracket part
    if name = [] ∧ rest = [] then some (.error .emptySegment)
    else match readName name with
      | .error problem => some (.error problem)
      | .ok segments => (scanIndices rest).map (·.map (segments ++ ·))

def scanParts : List (List Char) → Option (Except PathProblem (List Segment))
  | [] => some (.ok [])
  | part :: more =>
    match scanPart part with
    | none => none
    | some (.error problem) => some (.error problem)
    | some (.ok segments) => (scanParts more).map (·.map (segments ++ ·))

def scan (text : String) : Option (Except PathProblem FieldPath) :=
  if Text.isBlankText text then some (.error .blank)
  else (scanParts (Text.splitOn '.' text.toList)).map (·.map FieldPath.mk)

/-! ## All cuts can be made -/

theorem scanIndex_of_not_mem {text : List Char} (absent : ']' ∉ text) :
    scanIndex text = some (.error .unbalancedOpen) := by
  rw [scanIndex, Text.placeOf?_of_not_mem absent]

theorem scanIndex_append {digits : List Char} (absent : ']' ∉ digits) (rest : List Char) :
    scanIndex ('[' :: digits ++ ']' :: rest) = some (match position? digits with
      | none => .error .notAnIndex
      | some position =>
        if rest = [] ∨ rest.head? = some '[' then .ok (position, rest)
        else .error .textAfterIndex) := by
  have absent' : ']' ∉ '[' :: digits := by
    rw [List.mem_cons, not_or]
    exact ⟨by decide, absent⟩
  have inside : Text.slice? 1 (Text.size ('[' :: digits)) ('[' :: digits ++ ']' :: rest)
      = some digits :=
    Text.slice?_eq_some_iff.mpr ⟨['['], ']' :: rest, rfl, rfl, rfl⟩
  have behind : Text.slice? (Text.size ('[' :: digits) + 1)
      (Text.size ('[' :: digits ++ ']' :: rest)) ('[' :: digits ++ ']' :: rest) = some rest := by
    apply Text.slice?_eq_some_iff.mpr
    refine ⟨'[' :: digits ++ [']'], [], ?_, ?_, ?_⟩
    · simp
    · rw [Text.size_append]
      rfl
    · simp [Nat.add_assoc]
  unfold scanIndex
  rw [Text.placeOf?_append absent']
  simp only [inside, behind, Option.bind_eq_bind, Option.bind_some]
  cases position? digits with
  | none => rfl
  | some position => exact (apply_ite some _ _ _).symm

theorem readIndices_of_text {c : Char} (other : c ≠ '[') (text : List Char) :
    readIndices (Text.splitOn ']' (c :: text)) = .error .textAfterIndex := by
  obtain ⟨piece, pieces, shape⟩ := List.exists_cons_of_ne_nil (Text.splitOn_ne_nil ']' text)
  rw [Text.splitOn, shape]
  split
  · simp [readIndices]
  · cases pieces with
    | nil => simp [readIndices, other]
    | cons next more => simp [readIndices, other]

theorem readIndices_opened_cons (digits rest : List Char) :
    readIndices (('[' :: digits) :: Text.splitOn ']' rest) = match position? digits with
      | none => .error .notAnIndex
      | some position => (readIndices (Text.splitOn ']' rest)).map (.index position :: ·) := by
  obtain ⟨piece, pieces, shape⟩ := List.exists_cons_of_ne_nil (Text.splitOn_ne_nil ']' rest)
  rw [shape]
  rfl

theorem scanIndices_nil : scanIndices [] = some (.ok []) := by
  unfold scanIndices
  rfl

theorem scanIndices_cons (c : Char) (text : List Char) :
    scanIndices (c :: text) = match scanIndex (c :: text) with
      | none => none
      | some (.error problem) => some (.error problem)
      | some (.ok (position, rest)) =>
        (scanIndices rest).map (·.map (.index position :: ·)) := by
  rw [scanIndices, if_neg (List.cons_ne_nil _ _)]
  split <;> simp_all

/-- The brackets are read as the pieces between their closing brackets are. -/
theorem scanIndices_eq (text : List Char) (opened : text = [] ∨ text.head? = some '[') :
    scanIndices text = some (readIndices (Text.splitOn ']' text)) := by
  induction length : text.length using Nat.strongRecOn generalizing text with
  | ind count ih =>
      cases text with
      | nil => exact scanIndices_nil
      | cons c text =>
          obtain rfl : c = '[' := by simpa using opened
          rw [scanIndices_cons]
          by_cases closed : ']' ∈ text
          · obtain ⟨digits, rest, rfl, absent⟩ := List.eq_append_cons_of_mem closed
            have absent' : ']' ∉ '[' :: digits := by
              rw [List.mem_cons, not_or]
              exact ⟨by decide, absent⟩
            have shorter : rest.length < count := by
              rw [← length, List.length_cons, List.length_append, List.length_cons]
              omega
            rw [← List.cons_append, scanIndex_append absent, Text.splitOn_append absent',
              readIndices_opened_cons]
            cases position? digits with
            | none => rfl
            | some position =>
                by_cases next : rest = [] ∨ rest.head? = some '['
                · have later := ih rest.length shorter rest next rfl
                  simp only [if_pos next, later]
                  rfl
                · simp only [if_neg next]
                  cases rest with
                  | nil => exact absurd (.inl rfl) next
                  | cons d rest =>
                      have other : d ≠ '[' := fun same => next (.inr (congrArg some same))
                      rw [readIndices_of_text other]
                      rfl
          · have unclosed : ']' ∉ '[' :: text := by
              rw [List.mem_cons, not_or]
              exact ⟨by decide, closed⟩
            rw [scanIndex_of_not_mem unclosed, Text.splitOn_of_not_mem unclosed]
            rfl

theorem scanBracket_eq (part : List Char) :
    scanBracket part = some (part.takeWhile (· ≠ '['), part.dropWhile (· ≠ '[')) := by
  by_cases opened : '[' ∈ part
  · obtain ⟨name, rest, rfl, absent⟩ := List.eq_append_cons_of_mem opened
    have kept : ∀ c ∈ name, (c ≠ '[' : Bool) = true := by
      intro c listed
      rw [decide_eq_true_eq]
      rintro rfl
      exact absent listed
    have before : Text.slice? 0 (Text.size name) (name ++ '[' :: rest) = some name :=
      Text.slice?_eq_some_iff.mpr ⟨[], '[' :: rest, rfl, rfl, Nat.zero_add _⟩
    have behind : Text.slice? (Text.size name) (Text.size (name ++ '[' :: rest))
        (name ++ '[' :: rest) = some ('[' :: rest) :=
      Text.slice?_eq_some_iff.mpr
        ⟨name, [], (List.append_nil _).symm, rfl, (Text.size_append _ _).symm⟩
    unfold scanBracket
    rw [Text.placeOf?_append absent]
    simp only [before, behind, Option.bind_eq_bind, Option.bind_some]
    rw [List.takeWhile_append_of_pos kept, List.dropWhile_append_of_pos kept]
    simp
  · have kept : ∀ c ∈ part, (c ≠ '[' : Bool) = true := by
      intro c listed
      rw [decide_eq_true_eq]
      rintro rfl
      exact opened listed
    unfold scanBracket
    rw [Text.placeOf?_of_not_mem opened, List.takeWhile_eq_self_iff.mpr kept,
      List.dropWhile_eq_nil_iff.mpr kept]

theorem scanPart_eq (part : List Char) : scanPart part = some (readPart part) := by
  unfold scanPart readPart
  cases part with
  | nil => rfl
  | cons c part =>
      have opening := List.head?_dropWhile_not (· ≠ '[') (c :: part)
      have whole := List.takeWhile_append_dropWhile (p := (· ≠ '[')) (l := c :: part)
      rw [scanBracket_eq]
      generalize (c :: part).takeWhile (· ≠ '[') = name at whole ⊢
      generalize (c :: part).dropWhile (· ≠ '[') = rest at whole opening ⊢
      have proper : ¬ (name = [] ∧ rest = []) := by
        rintro ⟨rfl, rfl⟩
        cases whole
      simp only [List.cons_ne_nil, if_false, List.isEmpty_cons, Bool.false_eq_true,
        Option.bind_eq_bind, Option.bind_some, if_neg proper]
      cases readName name with
      | error problem => rfl
      | ok segments =>
          cases rest with
          | nil => simp [scanIndices_nil, Except.map]
          | cons d rest =>
              have opened : d = '[' := by simpa using opening
              rw [scanIndices_eq (d :: rest) (.inr (congrArg some opened))]
              rfl

theorem scanParts_eq (parts : List (List Char)) : scanParts parts = some (readParts parts) := by
  induction parts with
  | nil => rfl
  | cons part more ih =>
      rw [scanParts, readParts, scanPart_eq]
      cases readPart part with
      | error problem => rfl
      | ok segments =>
          simp only [ih]
          rfl

/-- Every text can be scanned, and the outcome is that of the reader. -/
theorem scan_eq (text : String) : scan text = some (parse text) := by
  unfold scan parse
  split
  · rfl
  · rw [scanParts_eq]
    rfl

/-! ## Paths that have been read -/

theorem key_mem_of_mem_keys {path : FieldPath} {key : String} (listed : key ∈ path.keys) :
    .key key ∈ path.segments := by
  obtain ⟨segment, present, named⟩ := List.mem_filterMap.mp listed
  cases segment with
  | key name =>
      cases named
      exact present
  | index position => cases named

/-- Scanning a text never cuts it where it cannot be cut and ends as the reader does. A path that is
read leads somewhere, its keys are not empty, hold no dot or bracket and are no numerals of positions,
and its own text reads as the path. So two texts that are read give one path exactly if the texts of
their paths agree. -/
theorem parse_stable (text : String) :
    scan text = some (parse text) ∧
    ∀ path, parse text = .ok path →
      path ≠ root ∧
      (∀ key ∈ path.keys, key ≠ "" ∧ '.' ∉ key.toList ∧ '[' ∉ key.toList ∧ ']' ∉ key.toList ∧
        ∀ number, ¬ Text.Denotes key.toList number) ∧
      parse path.display = .ok path ∧
      ∀ other path', parse other = .ok path' → (path = path' ↔ path.display = path'.display) := by
  refine ⟨scan_eq text, fun path read => ?_⟩
  have legible := legible_of_parse read
  have again := parse_display legible
  refine ⟨?_, fun key listed => ?_, again, fun other path' read' => ⟨congrArg display, fun same => ?_⟩⟩
  · rintro rfl
    exact legible.proper rfl
  · obtain ⟨nonempty, noDot, noOpening, noClosing, noPosition⟩ :=
      isPlainKey_iff.mp (legible.plain key (key_mem_of_mem_keys listed))
    refine ⟨?_, noDot, noOpening, noClosing, position?_eq_none_iff.mp noPosition⟩
    rintro rfl
    exact nonempty rfl
  · have again' := parse_display_of_parse read'
    rw [← same, again] at again'
    exact Except.ok.inj again'

def stageRoles : FieldPath := ⟨[.key "stages", .index 1, .key " rôles"]⟩

def firstRole : FieldPath := stageRoles.index 0

/-- Positions between dots, with a plus sign or with zeros in front, are written in brackets. -/
theorem parse_stable_firstRole :
    parse "stages.+01. rôles[000]" = .ok firstRole ∧
      scan "stages.+01. rôles[000]" = some (.ok firstRole) ∧
      firstRole ≠ root ∧
      (∀ key ∈ ["stages", " rôles"], ∀ number, ¬ Text.Denotes key.toList number) ∧
      firstRole.display = "stages[1]. rôles[0]" ∧
      parse "stages[1]. rôles[0]" = .ok firstRole ∧
      parse "stages.1. rôles" = .ok stageRoles ∧
      firstRole.display ≠ stageRoles.display := by
  have read : parse "stages.+01. rôles[000]" = .ok firstRole := by decide
  have read' : parse "stages.1. rôles" = .ok stageRoles := by decide
  obtain ⟨scanned, stable⟩ := parse_stable "stages.+01. rôles[000]"
  obtain ⟨proper, plain, again, unique⟩ := stable firstRole read
  have written : firstRole.display = "stages[1]. rôles[0]" := by decide
  have different : firstRole ≠ stageRoles := by decide
  refine ⟨read, scanned.trans (congrArg some read), proper,
    fun key listed => (plain key listed).2.2.2.2, written, written ▸ again, read', ?_⟩
  exact fun same => different ((unique _ stageRoles read').mpr same)

end FieldPath

end Governance
