import Governance.Proofs.FieldPath.Text
import Governance.Proofs.Text.Numeral

/-!
# Paths that have been read

A path text may give positions between dots, with leading zeros or with a plus sign. What is written
for the path that is read is another text in general, but one that reads as the same path.
-/

set_option autoImplicit false

namespace Governance

/-! ## Positions -/

theorem Text.position?_toDigits {number : Nat} (bounded : number ≤ wordMax) :
    position? (Nat.toDigits 10 number) = some number := by
  have read := decimal?_toDigits number
  obtain ⟨c, rest, shape⟩ := List.exists_cons_of_ne_nil (@Nat.toDigits_ne_nil number 10)
  have noSign : c ≠ '+' := by
    rintro rfl
    exact not_mem_toDigits (by decide) number (shape ▸ List.mem_cons_self)
  rw [shape] at read ⊢
  rw [position?]
  split
  · rename_i found
    cases read.symm.trans found
    exact if_pos bounded
  · rename_i failed
    cases read.symm.trans failed
  · intro others equal
    cases equal
    exact noSign rfl

namespace FieldPath

def bracketed (position : UInt64) : List Char := '[' :: Nat.toDigits 10 position.toNat ++ [']']

theorem toList_segmentText_index (position : UInt64) :
    (segmentText (.index position)).toList = bracketed position := by
  simp [segmentText, bracketed, Nat.toString_eq_repr, Nat.repr]

theorem position?_toDigits (position : UInt64) :
    position? (Nat.toDigits 10 position.toNat) = some position := by
  have bounded : position.toNat ≤ Text.wordMax := Nat.le_of_lt_succ position.toNat_lt
  rw [position?, Text.position?_toDigits bounded, Option.map_some, UInt64.ofNat_toNat]

theorem readIndices_bracketed (positions : List UInt64) :
    readIndices (Text.splitOn ']' (positions.flatMap bracketed)) = .ok (positions.map .index) := by
  induction positions with
  | nil => rfl
  | cons position rest ih =>
      have absent : ']' ∉ '[' :: Nat.toDigits 10 position.toNat := by
        rw [List.mem_cons, not_or]
        exact ⟨by decide, Text.not_mem_toDigits (by decide) _⟩
      rw [List.flatMap_cons, bracketed, List.append_assoc, List.singleton_append,
        Text.splitOn_append absent]
      obtain ⟨piece, pieces, shape⟩ := List.exists_cons_of_ne_nil
        (Text.splitOn_ne_nil ']' (rest.flatMap bracketed))
      rw [shape] at ih ⊢
      simp only [readIndices, position?_toDigits, ih, Except.map, List.map_cons]

/-! ## Parts -/

def partText (key : Option String) (positions : List UInt64) : List Char :=
  (key.map String.toList).getD [] ++ positions.flatMap bracketed

def partSegments (key : Option String) (positions : List UInt64) : List Segment :=
  (key.map Segment.key).toList ++ positions.map .index

/-- Whether a part can be read: its key is plain, and it has one or a position. -/
def Part (key : Option String) (positions : List UInt64) : Prop :=
  (∀ name, key = some name → isPlainKey name = true) ∧ (key = none → positions ≠ [])

theorem bracketed_split {positions : List UInt64} {front : List Char}
    (absent : ∀ c ∈ front, (c ≠ '[' : Bool) = true) :
    (front ++ positions.flatMap bracketed).takeWhile (· ≠ '[') = front ∧
      (front ++ positions.flatMap bracketed).dropWhile (· ≠ '[') = positions.flatMap bracketed := by
  have stops : (positions.flatMap bracketed).takeWhile (· ≠ '[') = [] ∧
      (positions.flatMap bracketed).dropWhile (· ≠ '[') = positions.flatMap bracketed := by
    cases positions with
    | nil => exact ⟨rfl, rfl⟩
    | cons position rest =>
        rw [List.flatMap_cons, bracketed, List.cons_append, List.cons_append]
        exact ⟨List.takeWhile_cons_of_neg (by decide), List.dropWhile_cons_of_neg (by decide)⟩
  rw [List.takeWhile_append_of_pos absent, List.dropWhile_append_of_pos absent, stops.1, stops.2,
    List.append_nil]
  exact ⟨rfl, rfl⟩

theorem readName_key {key : Option String}
    (plain : ∀ name, key = some name → isPlainKey name = true) :
    readName ((key.map String.toList).getD []) = .ok (key.map Segment.key).toList := by
  cases key with
  | none => rfl
  | some name =>
      obtain ⟨nonempty, _, _, noClosing, noPosition⟩ := isPlainKey_iff.mp (plain name rfl)
      have noClose : name.toList.contains ']' = false := by simpa using noClosing
      have filled : name.toList.isEmpty = false := List.isEmpty_eq_false_iff.mpr nonempty
      simp only [Option.map_some, Option.getD_some, readName, filled, noClose, noPosition,
        String.ofList_toList, Bool.false_eq_true, if_false]
      rfl

theorem readPart_partText {key : Option String} {positions : List UInt64}
    (part : Part key positions) :
    readPart (partText key positions) = .ok (partSegments key positions) := by
  have absent : ∀ c ∈ (key.map String.toList).getD [], (c ≠ '[' : Bool) = true := by
    cases key with
    | none => exact List.forall_mem_nil _
    | some name =>
        intro c listed
        rw [decide_eq_true_eq]
        rintro rfl
        exact (isPlainKey_iff.mp (part.1 name rfl)).2.2.1 listed
  obtain ⟨front, back⟩ := @bracketed_split positions _ absent
  have filled : (partText key positions).isEmpty = false := by
    rw [List.isEmpty_eq_false_iff, partText]
    intro empty
    obtain ⟨noName, noBrackets⟩ := List.append_eq_nil_iff.mp empty
    cases key with
    | some name => exact (isPlainKey_iff.mp (part.1 name rfl)).1 noName
    | none =>
        obtain ⟨position, rest, shape⟩ := List.exists_cons_of_ne_nil (part.2 rfl)
        rw [shape, List.flatMap_cons, bracketed] at noBrackets
        cases noBrackets
  rw [readPart, filled, if_neg Bool.false_ne_true, partText, front, back, readName_key part.1]
  cases positions with
  | nil => simp [partSegments]
  | cons position rest =>
      have indices := readIndices_bracketed (position :: rest)
      have some : ((position :: rest).flatMap bracketed).isEmpty = false := rfl
      simp only [some, Bool.false_eq_true, if_false, indices]
      rfl

theorem dot_not_mem_partText {key : Option String} {positions : List UInt64}
    (part : Part key positions) : '.' ∉ partText key positions := by
  rw [partText, List.mem_append, not_or]
  constructor
  · cases key with
    | none => exact List.not_mem_nil
    | some name => exact (isPlainKey_iff.mp (part.1 name rfl)).2.1
  · intro listed
    obtain ⟨position, _, inside⟩ := List.mem_flatMap.mp listed
    rw [bracketed, List.mem_append, List.mem_cons, List.mem_singleton] at inside
    rcases inside with (opening | digit) | closing
    · exact absurd opening (by decide)
    · exact Text.not_mem_toDigits (by decide) _ digit
    · exact absurd closing (by decide)

/-! ## Paths -/

/-- Whether the text of a path reads as the path: there are segments, all keys are plain, and the
text is not blank. -/
structure Legible (path : FieldPath) : Prop where
  proper : path.segments ≠ []
  plain : ∀ key, .key key ∈ path.segments → isPlainKey key = true
  filled : Text.isBlankText path.display = false

/-- A part grows by the positions behind it and ends at the next key. -/
theorem readParts_written {segments : List Segment}
    (plain : ∀ key, .key key ∈ segments → isPlainKey key = true) {key : Option String}
    {positions : List UInt64} (part : Part key positions) :
    readParts (Text.splitOn '.'
        (partText key positions ++ segments.flatMap fun segment => (segmentText segment).toList))
      = .ok (partSegments key positions ++ segments) := by
  induction segments generalizing key positions with
  | nil =>
      rw [List.flatMap_nil, List.append_nil, Text.splitOn_of_not_mem (dot_not_mem_partText part),
        readParts, readPart_partText part]
      rfl
  | cons segment rest ih =>
      have plain' : ∀ key, .key key ∈ rest → isPlainKey key = true :=
        fun key listed => plain key (List.mem_cons_of_mem _ listed)
      cases segment with
      | index position =>
          have longer : Part key (positions ++ [position]) :=
            ⟨part.1, by simp⟩
          have followed := ih plain' longer
          rw [List.flatMap_cons, toList_segmentText_index]
          simpa [partText, partSegments] using followed
      | key name =>
          have next : Part (some name) [] :=
            ⟨fun other same => Option.some.inj same ▸ plain name List.mem_cons_self,
              by simp⟩
          have followed := ih plain' next
          have text : (segmentText (.key name)).toList = '.' :: name.toList := by simp [segmentText]
          have start : name.toList ++ (rest.flatMap fun segment => (segmentText segment).toList)
              = partText (some name) [] ++
                rest.flatMap fun segment => (segmentText segment).toList := by
            simp [partText]
          rw [List.flatMap_cons, text, List.cons_append,
            Text.splitOn_append (dot_not_mem_partText part), start, readParts, readPart_partText part,
            followed]
          rfl

theorem toList_display_cons (segment : Segment) (rest : List Segment) :
    (display ⟨segment :: rest⟩).toList =
      (match segment with
        | .key name => partText (some name) []
        | .index position => partText none [position]) ++
      rest.flatMap fun segment => (segmentText segment).toList := by
  cases segment with
  | key name =>
      simp [display, partText, String.toList_append, String.toList_join, List.flatMap_map]
  | index position =>
      simp [display, partText, String.toList_join, List.flatMap_map, toList_segmentText_index]

theorem parse_display {path : FieldPath} (legible : path.Legible) :
    parse path.display = .ok path := by
  obtain ⟨segments⟩ := path
  obtain ⟨proper, plain, filled⟩ := legible
  cases segments with
  | nil => exact absurd rfl proper
  | cons segment rest =>
      have plain' : ∀ key, .key key ∈ rest → isPlainKey key = true :=
        fun key listed => plain key (List.mem_cons_of_mem _ listed)
      have parts : readParts (Text.splitOn '.' (display ⟨segment :: rest⟩).toList)
          = .ok (segment :: rest) := by
        rw [toList_display_cons]
        cases segment with
        | key name =>
            exact readParts_written plain'
              ⟨fun other same => Option.some.inj same ▸ plain name List.mem_cons_self,
                by simp⟩
        | index position =>
            exact readParts_written plain' ⟨by simp, by simp⟩
      rw [parse, filled, parts]
      rfl

/-! ## Reading -/

structure ReadFrom (part : List Char) (segments : List Segment) : Prop where
  proper : segments ≠ []
  plain : ∀ key, .key key ∈ segments → isPlainKey key = true
  key : ∀ key, segments = [.key key] → part = key.toList

theorem readIndices_eq_ok {pieces : List (List Char)} {segments : List Segment}
    (read : readIndices pieces = .ok segments) :
    ∃ positions : List UInt64, segments = positions.map .index := by
  fun_induction readIndices pieces generalizing segments with
  | case1 | case2 =>
      cases read
      exact ⟨[], rfl⟩
  | case3 | case4 | case5 | case7 => cases read
  | case6 more _ digits position _ ih =>
      cases rest : readIndices more with
      | error problem => simp [rest, Except.map] at read
      | ok others =>
          obtain ⟨positions, rfl⟩ := ih rest
          simp only [rest, Except.map, Except.ok.injEq] at read
          exact ⟨position :: positions, read.symm⟩

theorem readIndices_opened {text : List Char} {segments : List Segment}
    (read : readIndices (Text.splitOn ']' ('[' :: text)) = .ok segments) : segments ≠ [] := by
  obtain ⟨piece, pieces, shape⟩ := List.exists_cons_of_ne_nil (Text.splitOn_ne_nil ']' text)
  have opened : Text.splitOn ']' ('[' :: text) = ('[' :: piece) :: pieces := by
    rw [Text.splitOn, if_neg (by decide), shape]
  rw [opened] at read
  cases pieces with
  | nil => cases read
  | cons next more =>
      cases found : position? piece with
      | none => simp [readIndices, found] at read
      | some position =>
          cases rest : readIndices (next :: more) with
          | error problem => simp [readIndices, found, rest, Except.map] at read
          | ok others =>
              simp only [readIndices, found, rest, Except.map, Except.ok.injEq] at read
              rw [← read]
              exact List.cons_ne_nil _ _

theorem readName_eq_ok {name : List Char} {segments : List Segment} (noDot : '.' ∉ name)
    (noOpening : '[' ∉ name) (read : readName name = .ok segments) :
    (name = [] ∧ segments = []) ∨ (∃ position, segments = [.index position]) ∨
      ∃ key, isPlainKey key = true ∧ name = key.toList ∧ segments = [.key key] := by
  rw [readName] at read
  split at read
  · rename_i empty
    cases read
    exact .inl ⟨List.isEmpty_iff.mp empty, rfl⟩
  · rename_i nonempty
    split at read
    · cases read
    · rename_i noClosing
      cases found : position? name with
      | some position =>
          rw [found] at read
          cases read
          exact .inr (.inl ⟨position, rfl⟩)
      | none =>
          rw [found] at read
          cases read
          refine .inr (.inr ⟨String.ofList name, isPlainKey_iff.mpr ?_, ?_, rfl⟩)
          · rw [String.toList_ofList]
            refine ⟨?_, noDot, noOpening, by simpa using noClosing, found⟩
            exact fun empty => nonempty (List.isEmpty_iff.mpr empty)
          · rw [String.toList_ofList]

theorem readFrom_of_readName {name : List Char} {segments : List Segment} (filled : name ≠ [])
    (noDot : '.' ∉ name) (noOpening : '[' ∉ name) (read : readName name = .ok segments) :
    ReadFrom name segments := by
  rcases readName_eq_ok noDot noOpening read with
    ⟨empty, _⟩ | ⟨position, rfl⟩ | ⟨key, plain, rfl, rfl⟩
  · exact absurd empty filled
  · exact ⟨List.cons_ne_nil _ _, by simp, by simp⟩
  · refine ⟨List.cons_ne_nil _ _, fun other listed => ?_, fun other same => ?_⟩
    · cases List.mem_singleton.mp listed
      exact plain
    · cases same
      rfl

theorem readFrom_of_readPart {part : List Char} {segments : List Segment} (noDot : '.' ∉ part)
    (read : readPart part = .ok segments) : ReadFrom part segments := by
  rw [readPart] at read
  split at read
  · cases read
  · rename_i nonempty
    have whole := List.takeWhile_append_dropWhile (p := (· ≠ '[')) (l := part)
    have noDot' : '.' ∉ part.takeWhile (· ≠ '[') := fun listed =>
      noDot ((List.takeWhile_prefix _).subset listed)
    have noOpening : '[' ∉ part.takeWhile (· ≠ '[') := by
      intro listed
      have before := List.mem_takeWhile_imp listed
      simp at before
    have opening := List.head?_dropWhile_not (· ≠ '[') part
    generalize part.takeWhile (· ≠ '[') = name at read whole noDot' noOpening
    generalize part.dropWhile (· ≠ '[') = indices at read whole opening
    subst whole
    cases named : readName name with
    | error problem => simp [named] at read
    | ok front =>
        cases indices with
        | nil =>
            simp only [named, List.isEmpty_nil, if_true, Except.ok.injEq] at read
            subst read
            rw [List.append_nil] at nonempty ⊢
            exact readFrom_of_readName (fun empty => nonempty (List.isEmpty_iff.mpr empty)) noDot'
              noOpening named
        | cons c text =>
            obtain rfl : c = '[' := by simpa using opening
            cases placed : readIndices (Text.splitOn ']' ('[' :: text)) with
            | error problem => simp [named, placed, Except.map] at read
            | ok back =>
                simp only [named, placed, Except.map, List.isEmpty_cons, Bool.false_eq_true,
                  if_false, Except.ok.injEq] at read
                subst read
                have some := readIndices_opened placed
                obtain ⟨positions, rfl⟩ := readIndices_eq_ok placed
                refine ⟨fun empty => some (List.append_eq_nil_iff.mp empty).2, fun key listed => ?_,
                  fun key same => ?_⟩
                · have inFront : .key key ∈ front := by simpa using listed
                  rcases readName_eq_ok noDot' noOpening named with
                    ⟨_, rfl⟩ | ⟨_, rfl⟩ | ⟨other, plain, _, rfl⟩
                  · cases inFront
                  · simp at inFront
                  · cases List.mem_singleton.mp inFront
                    exact plain
                · -- a position stands last
                  have last := congrArg List.getLast? same
                  rw [List.getLast?_append_of_ne_nil _ some] at last
                  simp [List.getLast?_map] at last

theorem readParts_eq_ok {parts : List (List Char)} {segments : List Segment}
    (noDot : ∀ part ∈ parts, '.' ∉ part) (read : readParts parts = .ok segments) :
    (parts ≠ [] → segments ≠ []) ∧ (∀ key, .key key ∈ segments → isPlainKey key = true) ∧
      ∀ key, segments = [.key key] → parts = [key.toList] := by
  induction parts generalizing segments with
  | nil =>
      cases read
      exact ⟨fun some => absurd rfl some, fun key listed => absurd listed List.not_mem_nil,
        fun key same => by cases same⟩
  | cons part more ih =>
      obtain ⟨noDot, noDots⟩ := List.forall_mem_cons.mp noDot
      rw [readParts] at read
      cases first : readPart part with
      | error problem => simp [first] at read
      | ok front =>
          cases later : readParts more with
          | error problem => simp [first, later, Except.map] at read
          | ok back =>
              simp only [first, later, Except.map, Except.ok.injEq] at read
              subst read
              have from_part := readFrom_of_readPart noDot first
              obtain ⟨proper, plain, _⟩ := ih noDots later
              refine ⟨fun _ empty => from_part.proper (List.append_eq_nil_iff.mp empty).1,
                fun key listed => ?_, fun key same => ?_⟩
              · rcases List.mem_append.mp listed with inFront | inBack
                · exact from_part.plain key inFront
                · exact plain key inBack
              · obtain ⟨segment, rest, rfl⟩ := List.exists_cons_of_ne_nil from_part.proper
                obtain ⟨rfl, empty⟩ := List.cons.inj same
                obtain ⟨rfl, rfl⟩ := List.append_eq_nil_iff.mp empty
                have alone : more = [] := by
                  by_contra some
                  exact proper some rfl
                rw [alone, from_part.key key rfl]

/-- Brackets and dots are not blank, so only the text of a single key is. -/
theorem single_of_isBlankText {path : FieldPath} (proper : path.segments ≠ [])
    (blank : Text.isBlankText path.display = true) :
    ∃ key, path.segments = [.key key] ∧ Text.isBlankText key = true := by
  obtain ⟨segments⟩ := path
  obtain ⟨segment, rest, rfl⟩ := List.exists_cons_of_ne_nil proper
  rw [Text.isBlankText, toList_display_cons, List.all_append, Bool.and_eq_true] at blank
  obtain ⟨first, others⟩ := blank
  cases segment with
  | index position => simp [partText, bracketed, show Text.isBlank '[' = false by decide] at first
  | key name =>
      cases rest with
      | nil => exact ⟨name, rfl, by simpa [partText, Text.isBlankText] using first⟩
      | cons next rest =>
          cases next with
          | key other => simp [segmentText, show Text.isBlank '.' = false by decide] at others
          | index position => simp [segmentText, show Text.isBlank '[' = false by decide] at others

theorem legible_of_parse {text : String} {path : FieldPath} (read : parse text = .ok path) :
    path.Legible := by
  rw [parse] at read
  split at read
  · cases read
  · rename_i filled
    cases parts : readParts (Text.splitOn '.' text.toList) with
    | error problem => simp [parts, Except.map] at read
    | ok segments =>
        simp only [parts, Except.map, Except.ok.injEq] at read
        subst read
        obtain ⟨proper, plain, single⟩ :=
          readParts_eq_ok (fun _ => Text.not_mem_of_mem_splitOn) parts
        have proper := proper (Text.splitOn_ne_nil _ _)
        refine ⟨proper, plain, ?_⟩
        rw [← Bool.not_eq_true]
        intro blank
        -- a text that reads as a single key is the key, and is not blank
        obtain ⟨key, rfl, blankKey⟩ := single_of_isBlankText proper blank
        have same := Text.eq_of_splitOn_eq_singleton (single key rfl)
        rw [Text.isBlankText, same] at filled
        exact filled blankKey

theorem parse_display_of_parse {text : String} {path : FieldPath} (read : parse text = .ok path) :
    parse path.display = .ok path := parse_display (legible_of_parse read)

end FieldPath

end Governance
