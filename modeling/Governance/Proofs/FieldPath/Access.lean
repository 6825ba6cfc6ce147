import Governance.FieldPath.Access
import Governance.Proofs.FieldPath.Keys
import Governance.Proofs.Json.Induction

/-!
# Looking up what was inserted

An insertion follows its path one segment at a time. It is refused exactly if a position on the path
is not one of an array that stands in the document, and then it has already been carried out up to
that position. Otherwise the value is found at the path afterwards, and what other paths lead to is
as it was, except where an object has replaced an array.
-/

set_option autoImplicit false

namespace Governance

namespace FieldPath

/-! ## One segment at a time -/

def step? : Segment → Json → Option Json
  | .key name, value => value.member? name
  | .index position, value => value.items?.bind fun items => items[position.toNat]?

theorem follow?_cons (segment : Segment) (rest : List Segment) (value : Json) :
    follow? (segment :: rest) value = (step? segment value).bind (follow? rest) := by
  cases segment <;> cases value <;> rfl

theorem follow?_key (name : String) (rest : List Segment) (value : Json) :
    follow? (.key name :: rest) value = (value.member? name).bind (follow? rest) := by
  cases value <;> rfl

theorem follow?_null {segments : List Segment} (some : segments ≠ []) : follow? segments .null = none := by
  cases segments with
  | nil => exact absurd rfl some
  | cons segment rest => cases segment <;> rfl

theorem bind_follow? {segments : List Segment} (some : segments ≠ []) (reached : Option Json) :
    reached.bind (follow? segments) = follow? segments (reached.getD .null) := by
  cases reached with
  | none => exact (follow?_null some).symm
  | some value => rfl

end FieldPath

namespace Json.Hereditary

variable {holds : Json → Prop} {value part : Json}

theorem step? (hereditary : Hereditary holds) {segment : Segment} (given : holds value)
    (reached : FieldPath.step? segment value = some part) : holds part := by
  cases segment with
  | key name =>
      cases value with
      | obj members => exact hereditary.member given _ (Entries.mem_of_find? reached)
      | null | bool | int | float | str | arr => cases reached
  | index position =>
      cases value with
      | arr items => exact hereditary.items.mp given part (List.mem_of_getElem? reached)
      | null | bool | int | float | str | obj => cases reached

theorem follow? (hereditary : Hereditary holds) {segments : List Segment} (given : holds value)
    (reached : FieldPath.follow? segments value = some part) : holds part := by
  induction segments generalizing value with
  | nil =>
      cases reached
      exact given
  | cons segment rest ih =>
      rw [FieldPath.follow?_cons] at reached
      obtain ⟨inner, first, later⟩ := Option.bind_eq_some_iff.mp reached
      exact ih (hereditary.step? given first) later

end Json.Hereditary

namespace FieldPath

variable {document inner value : Json} {segment other : Segment} {position : UInt64}
  {front rest segments others : List Segment}

/-! ## Writing behind a segment -/

/-- Whether a write can go on behind a segment: an array is not extended. -/
def Enters (segment : Segment) (document : Json) : Prop :=
  segment.key? = none → (step? segment document).isSome = true

def replaced : Segment → Json → Json → Json
  | .key name, document, inner => .obj (Entries.put name inner (membersOf document))
  | .index position, .arr items, inner => .arr (items.set position.toNat inner)
  | .index _, document, _ => document

theorem enters_index_iff :
    Enters (.index position) document ↔
      ∃ items, document = .arr items ∧ position.toNat < items.length := by
  constructor
  · intro enters
    obtain ⟨inner, found⟩ := Option.isSome_iff_exists.mp (enters rfl)
    cases document with
    | null | bool | int | float | str | obj => cases found
    | arr items => exact ⟨items, rfl, (List.getElem?_eq_some_iff.mp found).1⟩
  · rintro ⟨items, rfl, inside⟩ -
    change items[position.toNat]?.isSome = true
    rw [List.getElem?_eq_getElem inside, Option.isSome_some]

theorem find?_membersOf (name : String) (document : Json) :
    Entries.find? name (membersOf document) = document.member? name := by
  cases document <;> rfl

theorem write_of_enters (enters : Enters segment document) :
    write (segment :: rest) document value =
      (replaced segment document (write rest ((step? segment document).getD .null) value).1,
        (write rest ((step? segment document).getD .null) value).2) := by
  cases segment with
  | key name =>
      rw [write, find?_membersOf]
      rfl
  | index position =>
      obtain ⟨items, rfl, inside⟩ := enters_index_iff.mp enters
      have present := List.getElem?_eq_getElem inside
      have found : step? (.index position) (.arr items) = some items[position.toNat] := present
      simp only [write, present, found, Option.getD_some]
      rfl

theorem write_of_not_enters (shut : ¬ Enters segment document) :
    write (segment :: rest) document value = (document, false) := by
  obtain ⟨noKey, missing⟩ := Classical.not_imp.mp shut
  cases segment with
  | key name => cases noKey
  | index position =>
      cases document with
      | null | bool | int | float | str | obj => rfl
      | arr items =>
          have absent : items[position.toNat]? = none := Option.not_isSome_iff_eq_none.mp missing
          simp only [write, absent]

theorem step?_replaced (enters : Enters segment document) :
    step? segment (replaced segment document inner) = some inner := by
  cases segment with
  | key name =>
      change Entries.find? name (Entries.put name inner (membersOf document)) = some inner
      rw [Entries.find?_put, if_pos rfl]
  | index position =>
      obtain ⟨items, rfl, inside⟩ := enters_index_iff.mp enters
      change (items.set position.toNat inner)[position.toNat]? = some inner
      exact List.getElem?_set_self inside

/-- An array gives way to an object where a key is written, so its elements are lost; all else beside
the segment stays. -/
theorem step?_replaced_of_ne (different : segment ≠ other)
    (noTurn : other.key? = none → segment.key? = none) (enters : Enters segment document) :
    step? other (replaced segment document inner) = step? other document := by
  cases segment with
  | key name =>
      cases other with
      | index position => cases noTurn rfl
      | key name' =>
          change Entries.find? name' (Entries.put name inner (membersOf document)) =
            document.member? name'
          rw [Entries.find?_put, find?_membersOf, if_neg]
          rintro rfl
          exact different rfl
  | index position =>
      obtain ⟨items, rfl, _⟩ := enters_index_iff.mp enters
      cases other with
      | key name => rfl
      | index position' =>
          change (items.set position.toNat inner)[position'.toNat]? = items[position'.toNat]?
          apply List.getElem?_set_ne
          intro same
          exact different (congrArg Segment.index (UInt64.toNat_inj.mp same))

/-! ## Positions of a document -/

def HasPosition (document : Json) (front : List Segment) (position : UInt64) : Prop :=
  ∃ items, follow? front document = some (.arr items) ∧ position.toNat < items.length

def HasPositions (document : Json) (segments : List Segment) : Prop :=
  ∀ front position rest, segments = front ++ .index position :: rest →
    HasPosition document front position

theorem hasPosition_nil_iff :
    HasPosition document [] position ↔ Enters (.index position) document := by
  rw [enters_index_iff]
  exact exists_congr fun items => and_congr_left fun _ => Option.some_inj

theorem hasPosition_cons_iff :
    HasPosition document (segment :: front) position ↔
      HasPosition ((step? segment document).getD .null) front position := by
  unfold HasPosition
  rw [follow?_cons]
  cases front with
  | cons next front => rw [bind_follow? (List.cons_ne_nil _ _)]
  | nil => cases step? segment document <;> simp [follow?]

theorem hasPositions_nil (document : Json) : HasPositions document [] := by
  intro front position rest split
  simp at split

theorem hasPositions_cons_iff :
    HasPositions document (segment :: rest) ↔
      Enters segment document ∧ HasPositions ((step? segment document).getD .null) rest := by
  constructor
  · intro has
    constructor
    · intro noKey
      cases segment with
      | key name => cases noKey
      | index position => exact hasPosition_nil_iff.mp (has [] position rest rfl) rfl
    · intro front position after split
      exact hasPosition_cons_iff.mp (has (segment :: front) position after (split ▸ rfl))
  · rintro ⟨enters, has⟩ front position after split
    cases front with
    | nil =>
        cases split
        exact hasPosition_nil_iff.mpr enters
    | cons first front =>
        cases split
        exact hasPosition_cons_iff.mpr (has front position after rfl)

/-! ## Writing -/

theorem write_succeeds_iff :
    (write segments document value).2 = true ↔ HasPositions document segments := by
  induction segments generalizing document with
  | nil => exact iff_of_true rfl (hasPositions_nil document)
  | cons segment rest ih =>
      rw [hasPositions_cons_iff]
      by_cases enters : Enters segment document
      · rw [write_of_enters enters, ih, and_iff_right enters]
      · rw [write_of_not_enters enters]
        exact iff_of_false Bool.false_ne_true fun has => enters has.1

theorem follow?_write (has : HasPositions document segments) :
    follow? segments (write segments document value).1 = some value := by
  induction segments generalizing document with
  | nil => rfl
  | cons segment rest ih =>
      obtain ⟨enters, has⟩ := hasPositions_cons_iff.mp has
      rw [write_of_enters enters, follow?_cons, step?_replaced enters, Option.bind_some, ih has]

/-- Whether paths part, and not at a key of the first one and a position of the other. -/
inductive Beside : List Segment → List Segment → Prop where
  | parting {segment other : Segment} {rest others : List Segment} : segment ≠ other →
      (other.key? = none → segment.key? = none) → Beside (segment :: rest) (other :: others)
  | behind {segment : Segment} {rest others : List Segment} : Beside rest others →
      Beside (segment :: rest) (segment :: others)

theorem Beside.ne_nil (beside : Beside segments others) : others ≠ [] := by
  cases beside <;> exact List.cons_ne_nil _ _

theorem beside_of_apart (notBelow : ¬ segments <+: others) (notAbove : ¬ others <+: segments)
    (noTurn : ∀ front name position rest rest', segments = front ++ .key name :: rest →
      others ≠ front ++ .index position :: rest') : Beside segments others := by
  induction segments generalizing others with
  | nil => exact absurd List.nil_prefix notBelow
  | cons segment rest ih =>
      cases others with
      | nil => exact absurd List.nil_prefix notAbove
      | cons other others =>
          by_cases same : segment = other
          · subst same
            apply Beside.behind
            apply ih
            · exact fun below => notBelow (List.cons_prefix_cons.mpr ⟨rfl, below⟩)
            · exact fun above => notAbove (List.cons_prefix_cons.mpr ⟨rfl, above⟩)
            · intro front name position after after' split split'
              exact noTurn (segment :: front) name position after after' (split ▸ rfl) (split' ▸ rfl)
          · apply Beside.parting same
            intro noKey
            cases other with
            | key name => cases noKey
            | index position =>
                cases segment with
                | index position' => rfl
                | key name => exact absurd rfl (noTurn [] name position rest others rfl)

theorem follow?_write_of_beside (beside : Beside segments others)
    (has : HasPositions document segments) :
    follow? others (write segments document value).1 = follow? others document := by
  induction beside generalizing document with
  | parting different noTurn =>
      obtain ⟨enters, _⟩ := hasPositions_cons_iff.mp has
      rw [write_of_enters enters, follow?_cons, step?_replaced_of_ne different noTurn enters,
        follow?_cons]
  | behind beside ih =>
      obtain ⟨enters, has⟩ := hasPositions_cons_iff.mp has
      rw [write_of_enters enters, follow?_cons, step?_replaced enters, Option.bind_some, ih has,
        follow?_cons, bind_follow? beside.ne_nil]

/-- An insertion succeeds exactly if every position on the path is one of an array that stands in the
document. Then the value is found at the path, and another path leads to what it led to before if
neither of the two begins with the other and they do not part at a key of the inserted path and a
position of the other. -/
theorem insert_lookup (path : FieldPath) (document value : Json) :
    ((path.insert document value).2 = true ↔
      ∀ front position rest, path.segments = front ++ .index position :: rest →
        ∃ items, (mk front).lookup? document = some (.arr items) ∧ position.toNat < items.length) ∧
    ((path.insert document value).2 = true →
      path.lookup? (path.insert document value).1 = some value ∧
      ∀ other : FieldPath, other.startsWith path = false → path.startsWith other = false →
        (∀ common : FieldPath, ∀ name position, path.startsWith (common.child name) = true →
          other.startsWith (common.index position) = false) →
        other.lookup? (path.insert document value).1 = other.lookup? document) := by
  refine ⟨write_succeeds_iff, fun inserted => ?_⟩
  have has := write_succeeds_iff.mp inserted
  refine ⟨follow?_write has, fun other notBelow notAbove noTurn => ?_⟩
  apply follow?_write_of_beside _ has
  rw [← Bool.not_eq_true, startsWith_iff] at notBelow notAbove
  apply beside_of_apart notBelow notAbove
  intro front name position rest rest' split split'
  have turned := noTurn ⟨front⟩ name position (startsWith_iff.mpr ⟨rest, by simp [child, split]⟩)
  rw [← Bool.not_eq_true, startsWith_iff] at turned
  exact turned ⟨rest', by simp [index, split']⟩

/-! ### Review stages -/

def staged : Json :=
  .obj [("limit", .int 5),
    ("stages", .arr [.obj [("role", .str "legal")], .obj [("role", .str "brand")]])]

def stage (position : UInt64) (name : String) : FieldPath :=
  ((ofKeys ["stages"]).index position).child name

theorem insert_lookup_secondStage :
    (((stage 1 "owner").child "name").insert staged (.str "ada")).2 = true ∧
      ((stage 1 "owner").child "name").lookup?
        (((stage 1 "owner").child "name").insert staged (.str "ada")).1 = some (.str "ada") ∧
      (stage 1 "role").lookup? (((stage 1 "owner").child "name").insert staged (.str "ada")).1
        = some (.str "brand") ∧
      ((stage 2 "owner").insert staged (.str "ada")).2 ≠ true := by
  obtain ⟨succeeds, agrees⟩ := insert_lookup ((stage 1 "owner").child "name") staged (.str "ada")
  obtain ⟨refused, _⟩ := insert_lookup (stage 2 "owner") staged (.str "ada")
  have inserted : (((stage 1 "owner").child "name").insert staged (.str "ada")).2 = true := by decide
  obtain ⟨found, frame⟩ := agrees inserted
  refine ⟨inserted, found, ?_, fun inserted' => ?_⟩
  · rw [frame (stage 1 "role") (by decide) (by decide)]
    · decide
    · -- the paths part at two keys
      intro common name position along
      rw [← Bool.not_eq_true, startsWith_iff]
      rw [startsWith_iff] at along
      intro along'
      obtain ⟨_ | ⟨first, _ | ⟨second, _ | ⟨third, more⟩⟩⟩⟩ := common <;>
        simp [stage, child, index, ofKeys] at along along'
  · obtain ⟨items, reached, inside⟩ := refused.mp inserted' [.key "stages"] 2 [.key "owner"] rfl
    cases reached
    exact absurd inside (by decide)

/-- A key that is written where an array stands takes the place of the array. -/
example : ((ofKeys ["stages"]).index 0).lookup?
    ((ofKeys ["stages", "owner"]).insert staged (.str "ada")).1 = none := by decide

/-! ## Walks that end early -/

theorem exists_missing (lacks : ¬ HasPositions document segments) :
    ∃ front position rest, segments = front ++ .index position :: rest ∧
      HasPositions document front ∧ ¬ HasPosition document front position := by
  induction segments generalizing document with
  | nil => exact absurd (hasPositions_nil document) lacks
  | cons segment rest ih =>
      rw [hasPositions_cons_iff] at lacks
      by_cases enters : Enters segment document
      · obtain ⟨front, position, after, rfl, has, missing⟩ := ih fun has => lacks ⟨enters, has⟩
        refine ⟨segment :: front, position, after, rfl, ?_, ?_⟩
        · exact hasPositions_cons_iff.mpr ⟨enters, has⟩
        · exact fun present => missing (hasPosition_cons_iff.mp present)
      · cases segment with
        | key name => exact absurd (fun noKey => nomatch noKey) enters
        | index position =>
            refine ⟨[], position, rest, rfl, hasPositions_nil document, fun present => ?_⟩
            exact enters (hasPosition_nil_iff.mp present)

/-- A walk that ends at a missing position has written what is in front of it, or `null`. -/
theorem write_of_missing (has : HasPositions document front)
    (missing : ¬ HasPosition document front position) :
    write (front ++ .index position :: rest) document value =
      ((write front document ((follow? front document).getD .null)).1, false) := by
  induction front generalizing document with
  | nil =>
      rw [List.nil_append, write_of_not_enters fun enters => missing (hasPosition_nil_iff.mpr enters)]
      rfl
  | cons segment front ih =>
      obtain ⟨enters, has⟩ := hasPositions_cons_iff.mp has
      have reached : (follow? (segment :: front) document).getD .null =
          (follow? front ((step? segment document).getD .null)).getD .null := by
        rw [follow?_cons]
        cases front with
        | nil => cases step? segment document <;> rfl
        | cons next front => rw [bind_follow? (List.cons_ne_nil _ _)]
      rw [List.cons_append, write_of_enters enters, write_of_enters enters, reached,
        ih has fun present => missing (hasPosition_cons_iff.mpr present)]

theorem replaced_step? (known : document.WellFormed) (found : step? segment document = some inner) :
    replaced segment document inner = document := by
  cases segment with
  | key name =>
      cases document with
      | null | bool | int | float | str | arr => cases found
      | obj members =>
          have ascending := (Json.wellFormed_obj.mp known).1
          exact congrArg Json.obj (Entries.put_of_find? ascending found)
  | index position =>
      cases document with
      | null | bool | int | float | str | obj => cases found
      | arr items =>
          obtain ⟨inside, rfl⟩ := List.getElem?_eq_some_iff.mp found
          exact congrArg Json.arr (List.set_getElem_self inside)

/-- Writing what is there changes nothing. -/
theorem write_follow? (known : document.WellFormed) (found : follow? segments document = some inner) :
    (write segments document inner).1 = document := by
  induction segments generalizing document with
  | nil =>
      cases found
      rfl
  | cons segment rest ih =>
      rw [follow?_cons] at found
      obtain ⟨below, first, later⟩ := Option.bind_eq_some_iff.mp found
      have enters : Enters segment document := fun _ => Option.isSome_iff_exists.mpr ⟨below, first⟩
      have known' := Json.hereditary_wellFormed.step? known first
      rw [write_of_enters enters, first, Option.getD_some, ih known' later,
        replaced_step? known first]

/-- An insertion that is refused has been carried out in front of the first position that is missing:
what the path leads to there has been written, or `null` if it led to nothing. So it changes nothing
exactly if the path leads to a value there. -/
theorem insert_refused (path : FieldPath) {document : Json} (known : document.WellFormed)
    (value : Json) (refused : (path.insert document value).2 = false) :
    ∃ front position rest, path.segments = front ++ .index position :: rest ∧
      HasPositions document front ∧ ¬ HasPosition document front position ∧
      (path.insert document value).1 =
        ((mk front).insert document (((mk front).lookup? document).getD .null)).1 ∧
      ((path.insert document value).1 = document ↔
        ((mk front).lookup? document).isSome = true) := by
  have lacks : ¬ HasPositions document path.segments := by
    rw [← write_succeeds_iff, Bool.not_eq_true]
    exact refused
  obtain ⟨front, position, rest, split, has, missing⟩ := exists_missing lacks
  have done : (path.insert document value).1 =
      (write front document ((follow? front document).getD .null)).1 := by
    rw [insert, split, write_of_missing has missing]
  refine ⟨front, position, rest, split, has, missing, done, ?_⟩
  rw [done, lookup?]
  cases found : follow? front document with
  | some inner => exact iff_of_true (write_follow? known found) rfl
  | none =>
      refine iff_of_false (fun same => ?_) Bool.false_ne_true
      -- the value written in front is found, and was not there
      have written := @follow?_write document .null front has
      rw [Option.getD_none] at same
      rw [same, found] at written
      cases written

def limited : Json := .obj [("limits", .arr [.int 5])]

def firstDaily : FieldPath := (ofKeys ["limits", "daily"]).index 0

/-- Keys in front of a missing position are written before it is found to be missing, and what stood
in their way is lost. -/
theorem refused_insertion_overwrites :
    limited.WellFormed ∧ (firstDaily.insert limited (.int 1)).2 = false ∧
      (firstDaily.insert limited (.int 1)).1 = .obj [("limits", .obj [("daily", .null)])] ∧
      (firstDaily.insert limited (.int 1)).1 ≠ limited := by
  decide

theorem insert_refused_thirdStage :
    staged.WellFormed ∧ ((stage 2 "role").insert staged (.str "ada")).2 = false ∧
      ((stage 2 "role").insert staged (.str "ada")).1 = staged := by
  have known : staged.WellFormed := by decide
  have refused : ((stage 2 "role").insert staged (.str "ada")).2 = false := by decide
  obtain ⟨front, position, rest, split, _, _, _, unchanged⟩ :=
    insert_refused (stage 2 "role") known (.str "ada") refused
  refine ⟨known, refused, unchanged.mpr ?_⟩
  have atStages : front = [.key "stages"] := by
    obtain _ | ⟨first, _ | ⟨second, _ | ⟨third, more⟩⟩⟩ := front <;>
      simp_all [stage, child, index, ofKeys]
  rw [atStages]
  decide

end FieldPath

end Governance
