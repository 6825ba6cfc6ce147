import Governance.Proofs.Conflict.Strictness
import Governance.Proofs.Json.Equality

/-!
# Which elements a stricter array keeps

An array that is stricter because it has more elements has all elements of the inherited one, be it
a set or a sequence. A set that is stricter because it has fewer elements has no element that the
inherited one does not have. For sequences that is not so: one is stricter exactly if it goes on
after the inherited one, also where fewer elements should be stricter.
-/

set_option autoImplicit false

namespace Governance

namespace Json

variable {items others : List Json}

theorem exists_same_of_allIn (within : allIn items others = true) :
    ∀ item ∈ items, ∃ other ∈ others, item.same other = true := by
  intro item listed
  exact List.any_eq_true.mp (List.all_eq_true.mp within item listed)

theorem length_of_sameItems (equal : sameItems items others = true) :
    items.length = others.length := by
  induction items generalizing others with
  | nil =>
      cases others with
      | nil => rfl
      | cons => cases equal
  | cons item rest ih =>
      cases others with
      | nil => cases equal
      | cons other others => exact congrArg (· + 1) (ih (Bool.and_eq_true_iff.mp equal).2)

theorem beginsWith_iff_sameItems :
    beginsWith items others = true ↔
      ∃ front more, items = front ++ more ∧ sameItems front others = true := by
  induction items generalizing others with
  | nil =>
      cases others with
      | nil => exact iff_of_true rfl ⟨[], [], rfl, rfl⟩
      | cons other others =>
          refine iff_of_false nofun ?_
          rintro ⟨front, more, split, equal⟩
          obtain ⟨rfl, _⟩ := List.append_eq_nil_iff.mp split.symm
          cases equal
  | cons item rest ih =>
      cases others with
      | nil => exact iff_of_true rfl ⟨[], item :: rest, rfl, rfl⟩
      | cons other others =>
          rw [beginsWith, Bool.and_eq_true, ih]
          constructor
          · rintro ⟨first, front, more, rfl, equal⟩
            exact ⟨item :: front, more, rfl, Bool.and_eq_true_iff.mpr ⟨first, equal⟩⟩
          · rintro ⟨front, more, split, equal⟩
            cases front with
            | nil => cases equal
            | cons start front =>
                cases split
                obtain ⟨first, equal⟩ := Bool.and_eq_true_iff.mp equal
                exact ⟨first, front, more, rfl, equal⟩

theorem exists_same_of_sameItems (equal : sameItems items others = true) :
    ∀ other ∈ others, ∃ item ∈ items, other.same item = true := by
  induction items generalizing others with
  | nil =>
      cases others with
      | nil => exact List.forall_mem_nil _
      | cons => cases equal
  | cons item rest ih =>
      cases others with
      | nil => cases equal
      | cons other others =>
          obtain ⟨first, later⟩ := Bool.and_eq_true_iff.mp equal
          refine List.forall_mem_cons.mpr ⟨⟨item, List.mem_cons_self, same_symm first⟩, ?_⟩
          intro value listed
          obtain ⟨found, present, same⟩ := ih later value listed
          exact ⟨found, List.mem_cons_of_mem _ present, same⟩

end Json

theorem ValueKind.accepts_nil {kind : ValueKind} (array : kind.isArray = true) :
    kind.accepts (.arr []) = true := by
  cases kind with
  | boolean | number => cases array
  | stringArray | objectArray => rfl

theorem ValueKind.exists_accepts_singleton {kind : ValueKind} (array : kind.isArray = true) :
    ∃ item, kind.accepts (.arr [item]) = true := by
  cases kind with
  | boolean | number => cases array
  | stringArray => exact ⟨.str "", rfl⟩
  | objectArray => exact ⟨.obj [], rfl⟩

/-! ## Stricter arrays -/

namespace ConflictClassification

variable {directive : FieldDirective} {parent child : List Json}

theorem exists_same_of_ofSets (moreIsStricter : Bool)
    (stricter : ofSets moreIsStricter parent child = some .stricter) :
    if moreIsStricter = true then ∀ item ∈ parent, ∃ other ∈ child, item.same other = true
    else ∀ item ∈ child, ∃ other ∈ parent, item.same other = true := by
  obtain ⟨within, _⟩ := (grades_allIn moreIsStricter parent child).eq_stricter_iff.mp stricter
  cases moreIsStricter with
  | false | true => exact Json.exists_same_of_allIn within

/-- A sequence is stricter exactly if it goes on where the inherited one ends. -/
theorem ofSequences_eq_stricter_iff :
    ofSequences parent child = some .stricter ↔
      ∃ front more, child = front ++ more ∧ more ≠ [] ∧ Json.sameItems front parent = true := by
  constructor
  · intro stricter
    unfold ofSequences at stricter
    split at stricter
    · cases stricter
    · split at stricter
      · rename_i extended
        obtain ⟨longer, begins⟩ := Bool.and_eq_true_iff.mp extended
        obtain ⟨front, more, rfl, equal⟩ := Json.beginsWith_iff_sameItems.mp begins
        refine ⟨front, more, rfl, ?_, equal⟩
        rintro rfl
        have length := Json.length_of_sameItems equal
        simp [length] at longer
      · cases stricter
  · rintro ⟨front, more, rfl, further, equal⟩
    have length := Json.length_of_sameItems equal
    have longer : parent.length < (front ++ more).length := by
      rw [List.length_append, length]
      exact Nat.lt_add_of_pos_right (List.length_pos_iff.mpr further)
    have different : ¬ Json.sameItems parent (front ++ more) = true := fun same =>
      Nat.ne_of_lt longer (Json.length_of_sameItems same)
    have begins := Json.beginsWith_iff_sameItems.mpr ⟨front, more, rfl, equal⟩
    rw [ofSequences, if_neg different, if_pos]
    exact Bool.and_eq_true_iff.mpr ⟨decide_eq_true longer, begins⟩

theorem exists_same_of_ofSequences (stricter : ofSequences parent child = some .stricter) :
    ∀ item ∈ parent, ∃ other ∈ child, item.same other = true := by
  obtain ⟨front, more, rfl, _, equal⟩ := ofSequences_eq_stricter_iff.mp stricter
  intro item listed
  obtain ⟨found, present, same⟩ := Json.exists_same_of_sameItems equal item listed
  exact ⟨found, List.mem_append_left _ present, same⟩

theorem classify_arrays (accepted : directive.kind.accepts (.arr parent) = true)
    (accepted' : directive.kind.accepts (.arr child) = true) :
    classify (some directive) (.arr parent) (.arr child)
      = ofKind directive (.arr parent) (.arr child) := by
  rw [classify, accepted, accepted']
  rfl

theorem ofKind_sequence (direction : directive.strictness = .fewerIsStricter)
    (sequence : directive.isOrderless = false) (parent child : List Json) :
    ofKind directive (.arr parent) (.arr child) = ofSequences parent child := by
  rw [ofKind, direction, sequence]
  rfl

/-- Where more elements are stricter, a stricter array has all inherited elements. Where fewer are,
a stricter array has inherited elements only, provided that the array is a set; a stricter sequence
then goes on after the inherited one all the same. -/
theorem classify_polarity (directive : FieldDirective) (array : directive.kind.isArray = true) :
    (directive.strictness = .moreIsStricter → ∀ parent child,
      directive.kind.accepts (.arr parent) = true → directive.kind.accepts (.arr child) = true →
      classify (some directive) (.arr parent) (.arr child) = some .stricter →
      ∀ item ∈ parent, ∃ other ∈ child, item.same other = true) ∧
    (directive.strictness = .fewerIsStricter →
      ((∀ parent child,
        directive.kind.accepts (.arr parent) = true → directive.kind.accepts (.arr child) = true →
        classify (some directive) (.arr parent) (.arr child) = some .stricter →
        ∀ item ∈ child, ∃ other ∈ parent, item.same other = true) ↔
      directive.isOrderless = true)) ∧
    (directive.strictness = .fewerIsStricter → directive.isOrderless = false → ∀ parent child,
      directive.kind.accepts (.arr parent) = true → directive.kind.accepts (.arr child) = true →
      (classify (some directive) (.arr parent) (.arr child) = some .stricter ↔
        ∃ front more, child = front ++ more ∧ more ≠ [] ∧ Json.sameItems front parent = true)) := by
  refine ⟨fun direction parent child accepted accepted' stricter => ?_, fun direction => ?_,
    fun direction sequence parent child accepted accepted' => ?_⟩
  · rw [classify_arrays accepted accepted', ofKind, direction] at stricter
    cases order : directive.isOrderless with
    | true =>
        rw [order] at stricter
        exact exists_same_of_ofSets true stricter
    | false =>
        rw [order] at stricter
        exact exists_same_of_ofSequences stricter
  · constructor
    · intro kept
      cases order : directive.isOrderless with
      | true => rfl
      | false =>
          -- the empty sequence is made stricter by whatever is put into it
          obtain ⟨item, accepted⟩ := ValueKind.exists_accepts_singleton array
          have empty := ValueKind.accepts_nil array
          have stricter : classify (some directive) (.arr []) (.arr [item]) = some .stricter := by
            rw [classify_arrays empty accepted, ofKind_sequence direction order]
            rfl
          obtain ⟨other, listed, _⟩ := kept [] [item] empty accepted stricter item
            List.mem_cons_self
          cases listed
    · intro order parent child accepted accepted' stricter
      rw [classify_arrays accepted accepted', ofKind, direction, order] at stricter
      exact exists_same_of_ofSets false stricter
  · rw [classify_arrays accepted accepted', ofKind_sequence direction sequence,
      ofSequences_eq_stricter_iff]

/-! ### Channels and approvals -/

def channelSequence : FieldDirective := ⟨.stringArray, .ordered, .append, .fewerIsStricter⟩

/-- A sequence that admits one more channel is stricter. -/
theorem widened_sequence_stricter :
    channelSequence.kind.isArray = true ∧ channelSequence.strictness = .fewerIsStricter ∧
      channelSequence.kind.accepts (.arr [.str "email"]) = true ∧
      channelSequence.kind.accepts (.arr [.str "email", .str "web"]) = true ∧
      classify (some channelSequence) (.arr [.str "email"]) (.arr [.str "email", .str "web"])
        = some .stricter ∧
      ¬ ∀ item ∈ [Json.str "email", Json.str "web"],
        ∃ other ∈ [Json.str "email"], item.same other = true := by
  decide

theorem classify_polarity_approvals :
    (classify (some (.sequence .stringArray)) (.arr [.str "legal"])
        (.arr [.str "legal", .str "medical"]) = some .stricter ∧
      ∀ item ∈ [Json.str "legal"],
        ∃ other ∈ [Json.str "legal", Json.str "medical"], item.same other = true) ∧
    (classify (some (.set .stringArray .fewerIsStricter)) (.arr [.str "email", .str "web"])
        (.arr [.str "web", .str "web"]) = some .stricter ∧
      ∀ item ∈ [Json.str "web", Json.str "web"],
        ∃ other ∈ [Json.str "email", Json.str "web"], item.same other = true) ∧
    classify (some channelSequence) (.arr [.str "email"]) (.arr [.str "email", .str "web"])
      = some .stricter := by
  obtain ⟨kept, _⟩ := classify_polarity (.sequence .stringArray) rfl
  obtain ⟨_, within, _⟩ := classify_polarity (.set .stringArray .fewerIsStricter) rfl
  obtain ⟨_, _, further⟩ := classify_polarity channelSequence rfl
  have extended : classify (some (.sequence .stringArray)) (.arr [.str "legal"])
      (.arr [.str "legal", .str "medical"]) = some .stricter := by
    decide
  have narrowed : classify (some (.set .stringArray .fewerIsStricter))
      (.arr [.str "email", .str "web"]) (.arr [.str "web", .str "web"]) = some .stricter := by
    decide
  refine ⟨⟨extended, kept rfl _ _ rfl rfl extended⟩,
    ⟨narrowed, (within rfl).mpr rfl _ _ rfl rfl narrowed⟩, ?_⟩
  exact (further rfl rfl _ _ rfl rfl).mpr ⟨[.str "email"], [.str "web"], rfl, by simp, by decide⟩

end ConflictClassification

end Governance
