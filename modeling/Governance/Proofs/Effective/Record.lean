import Governance.Effective.Basic
import Governance.Proofs.FieldPath.Text
import Governance.Proofs.Wire.Record

/-!
# Records of effective policies

Reading the record of an effective policy gives the policy back, members in whatever order, with
one exception. The sources are listed by the texts of their fields, and a field whose text is blank
cannot be read. The first such field is then reported.
-/

set_option autoImplicit false

namespace Governance

/-! ## Sources -/

theorem ofName?_name_inheritanceMode (mode : InheritanceMode) :
    Wire.ofName? InheritanceMode (Wire.Named.name mode) = some mode := by
  cases mode <;> decide

namespace FieldProvenance

theorem ofJson_obj {source : FieldProvenance} {members : List (String × Json)}
    (distinct : (members.map Prod.fst).Nodup)
    (scope : Entries.find? "scope_id" members = some (.str source.scope.text))
    (policy : Entries.find? "policy_id" members = some (.str source.policy.text))
    (mode : Entries.find? "mode" members = some (.str (Wire.Named.name source.mode)))
    (isOverride : Entries.find? "override" members = some (.bool source.isOverride)) :
    ofJson (.obj members) = .ok source := by
  have named := Wire.named_name (ofName?_name_inheritanceMode source.mode)
  have flagged : Wire.flag (.bool source.isOverride) = .ok source.isOverride := rfl
  refine Wire.record_obj ?_
  simp only [Wire.Given.field,
    Wire.Given.fieldOr_byName distinct scope (Wire.identifier_text source.scope),
    Wire.Given.fieldOr_byName distinct policy (Wire.identifier_text source.policy),
    Wire.Given.fieldOr_byName distinct mode named,
    Wire.Given.fieldOr_byName distinct isOverride flagged]
  rfl

theorem ofJson_toJson (source : FieldProvenance) : ofJson source.toJson = .ok source :=
  ofJson_obj (by simp) rfl rfl rfl rfl

theorem ofJson_normalized_toJson (source : FieldProvenance) :
    ofJson source.toJson.normalized = .ok source := by
  have put : ∀ key, Entries.find? key (Json.normalizedMembers [
      ("scope_id", .str source.scope.text), ("policy_id", .str source.policy.text),
      ("mode", .str (Wire.Named.name source.mode)), ("override", .bool source.isOverride)]).entries
      = _ := Json.find?_normalizedMembers (by simp)
  rw [toJson, Json.normalized]
  exact ofJson_obj (Entries.nodup_keys (Json.normalizedMembers _).ascending) (put _) (put _)
    (put _) (put _)

end FieldProvenance

/-! ## Fields as names -/

def FieldPath.IsPlain (field : FieldPath) : Prop :=
  ∃ key keys, field = .ofKeys (key :: keys) ∧ ∀ given ∈ key :: keys, isPlainKey given = true

namespace EffectivePolicy

theorem fieldOfName_display {field : FieldPath} (plain : field.IsPlain) :
    fieldOfName field.display =
      if Text.isBlankText field.display then .error (.invalidFieldPath field.display .blank)
      else .ok field := by
  obtain ⟨key, keys, rfl, plain⟩ := plain
  cases blank : Text.isBlankText (FieldPath.ofKeys (key :: keys)).display with
  | true => simp [fieldOfName, Wire.fieldPath, Wire.text, FieldPath.parse, blank, Except.mapError]
  | false =>
      simp [fieldOfName, Wire.fieldPath, Wire.text, FieldPath.parse_display_ofKeys plain blank,
        Except.mapError]

def blankField? (policy : EffectivePolicy) : Option FieldPath :=
  policy.provenance.keys.find? fun field => Text.isBlankText field.display

variable {policy : EffectivePolicy}

theorem eq_of_blankField? (plain : ∀ field ∈ policy.provenance.keys, field.IsPlain)
    {field : FieldPath} (blank : policy.blankField? = some field) :
    ∃ key, field = .ofKeys [key] ∧ Text.isBlankText key = true := by
  obtain ⟨key, keys, rfl, _⟩ := plain field (List.mem_of_find?_eq_some blank)
  have isBlank : Text.isBlankText (FieldPath.ofKeys (key :: keys)).display = true := by
    simpa using List.find?_some blank
  obtain ⟨rfl, blankKey⟩ := FieldPath.isBlankText_display_iff.mp isBlank
  exact ⟨key, rfl, blankKey⟩

def sourceMembers (policy : EffectivePolicy) : List (String × Json) :=
  policy.provenance.entries.map fun entry => (entry.1.display, entry.2.toJson)

theorem fieldOfName_of_filled (plain : ∀ field ∈ policy.provenance.keys, field.IsPlain)
    (filled : policy.blankField? = none) {entry : FieldPath × FieldProvenance}
    (listed : entry ∈ policy.provenance.entries) :
    fieldOfName entry.1.display = .ok entry.1 := by
  have present : entry.1 ∈ policy.provenance.keys := List.mem_map_of_mem listed
  have filled := List.find?_eq_none.mp filled entry.1 present
  rw [fieldOfName_display (plain entry.1 present), if_neg filled]

/-- The sources are read from their records in any order, each as written or with its members put
in order. -/
theorem map_sources {members : List (String × Json)}
    (plain : ∀ field ∈ policy.provenance.keys, field.IsPlain) (filled : policy.blankField? = none)
    (each : ∀ member ∈ members, ∃ entry ∈ policy.provenance.entries, member.1 = entry.1.display ∧
      (member.2 = entry.2.toJson ∨ member.2 = entry.2.toJson.normalized))
    (all : ∀ entry ∈ policy.provenance.entries, ∃ member ∈ members, member.1 = entry.1.display) :
    Wire.map fieldOfName FieldProvenance.ofJson (.obj members) = .ok policy.provenance := by
  refine Wire.map_eq_ok (fun member listed => ?_) fun entry present => ?_
  · obtain ⟨entry, present, name, shape⟩ := each member listed
    refine ⟨entry, present, name ▸ fieldOfName_of_filled plain filled present, ?_⟩
    rcases shape with shape | shape
    · rw [shape, FieldProvenance.ofJson_toJson]
    · rw [shape, FieldProvenance.ofJson_normalized_toJson]
  · obtain ⟨member, listed, name⟩ := all entry present
    exact ⟨member, listed, name ▸ fieldOfName_of_filled plain filled present⟩

theorem map_sourceMembers (plain : ∀ field ∈ policy.provenance.keys, field.IsPlain)
    (filled : policy.blankField? = none) :
    Wire.map fieldOfName FieldProvenance.ofJson (.obj policy.sourceMembers)
      = .ok policy.provenance := by
  refine map_sources plain filled (fun member listed => ?_) fun entry present => ?_
  · obtain ⟨entry, present, rfl⟩ := List.mem_map.mp listed
    exact ⟨entry, present, rfl, .inl rfl⟩
  · exact ⟨_, List.mem_map_of_mem present, rfl⟩

theorem nodup_sourceMembers (plain : ∀ field ∈ policy.provenance.keys, field.IsPlain)
    (filled : policy.blankField? = none) : (policy.sourceMembers.map Prod.fst).Nodup := by
  rw [sourceMembers, List.map_map]
  refine List.pairwise_map.mpr (policy.provenance.ascending.imp_of_mem ?_)
  intro entry other listed listed' less same
  -- both fields are what their common text is read as
  have read := fieldOfName_of_filled plain filled listed
  rw [show entry.1.display = other.1.display from same,
    fieldOfName_of_filled plain filled listed'] at read
  exact KeyOrder.irrefl entry.1 (Except.ok.inj read ▸ less)

theorem map_sourceMembers_normalized (plain : ∀ field ∈ policy.provenance.keys, field.IsPlain)
    (filled : policy.blankField? = none) :
    Wire.map fieldOfName FieldProvenance.ofJson (Json.obj policy.sourceMembers).normalized
      = .ok policy.provenance := by
  have distinct := nodup_sourceMembers plain filled
  rw [Json.normalized]
  refine map_sources plain filled (fun member listed => ?_) fun entry present => ?_
  · have found := SortedMap.find?_eq_some_iff.mpr listed
    obtain ⟨written, listed, same⟩ :=
      List.mem_map.mp ((Json.find?_normalizedMembers_iff distinct).mp found)
    obtain ⟨entry, present, rfl⟩ := List.mem_map.mp listed
    obtain ⟨name, value⟩ := Prod.ext_iff.mp same
    exact ⟨entry, present, name.symm, .inr value.symm⟩
  · refine ⟨(entry.1.display, entry.2.toJson.normalized), SortedMap.find?_eq_some_iff.mp ?_, rfl⟩
    rw [Json.find?_normalizedMembers_iff distinct]
    exact List.mem_map.mpr ⟨_, List.mem_map_of_mem present, rfl⟩

theorem map_sourceMembers_refused (plain : ∀ field ∈ policy.provenance.keys, field.IsPlain)
    {field : FieldPath} (blank : policy.blankField? = some field) :
    Wire.map fieldOfName FieldProvenance.ofJson (.obj policy.sourceMembers)
      = .error (.invalidFieldPath field.display .blank) := by
  obtain ⟨isBlank, front, back, shape, filled⟩ := List.find?_eq_some_iff_append.mp blank
  obtain ⟨before, rest, entries, rfl, cut⟩ := List.map_eq_append_iff.mp shape
  obtain ⟨entry, after, rfl, rfl, rfl⟩ := List.map_eq_cons_iff.mp cut
  have present : ∀ other ∈ before ++ entry :: after, other.1 ∈ policy.provenance.keys :=
    fun other listed => List.mem_map_of_mem (entries ▸ listed)
  rw [sourceMembers, entries, List.map_append, List.map_cons]
  refine Wire.map_refused ?_ fun given listed => ?_
  · rw [fieldOfName_display (plain entry.1 (present entry (by simp))), if_pos isBlank]
  · obtain ⟨other, earlier, rfl⟩ := List.mem_map.mp listed
    refine ⟨other.1, other.2, ?_, FieldProvenance.ofJson_toJson other.2⟩
    have filled := filled other.1 (List.mem_map_of_mem earlier)
    rw [fieldOfName_display (plain other.1 (present other (List.mem_append_left _ earlier))),
      if_neg (by simpa using filled)]

/-! ## Policies -/

/-- The members of a record of a policy in any order, with its sources listed in some way. -/
structure Lists (policy : EffectivePolicy) (members : List (String × Json)) (sources : Json) :
    Prop where
  distinct : (members.map Prod.fst).Nodup
  scope : Entries.find? "scope_id" members = some (.str policy.scope.text)
  values : ∃ values, Entries.find? "values" members = some values ∧
    values.normalized = policy.values
  sources : Entries.find? "provenance" members = some sources
  contentHash : Entries.find? "content_hash" members = some (.str policy.contentHash.display)
  version : Entries.find? "version" members = some (.int policy.version.toNat)

theorem ofJson_of_lists {members : List (String × Json)} {sources : Json}
    (lists : policy.Lists members sources) :
    ofJson (.obj members) = (Wire.map fieldOfName FieldProvenance.ofJson sources).map
      fun provenance => { policy with provenance } := by
  obtain ⟨values, given, normal⟩ := lists.values
  have valuesRead : Wire.value values = .ok policy.values := congrArg Except.ok normal
  have digestRead := Wire.digest_display policy.contentHash
  have versionRead := Wire.word64_toNat "u64" policy.version
  cases read : Wire.map fieldOfName FieldProvenance.ofJson sources with
  | ok provenance =>
      refine Wire.record_obj ?_
      simp only [Wire.Given.field,
        Wire.Given.fieldOr_byName lists.distinct lists.scope (Wire.identifier_text policy.scope),
        Wire.Given.fieldOr_byName lists.distinct given valuesRead,
        Wire.Given.fieldOr_byName lists.distinct lists.sources read,
        Wire.Given.fieldOr_byName lists.distinct lists.contentHash digestRead,
        Wire.Given.fieldOr_byName lists.distinct lists.version versionRead]
      rfl
  | error refusal =>
      obtain ⟨first, refused⟩ := @Wire.Given.fieldOr_refused _ _ none 2 _ _ _ _ _ lists.distinct
        lists.sources read
      refine @Wire.record_obj_refused _ _ _ _ _ first _ ?_
      simp only [Wire.Given.field,
        Wire.Given.fieldOr_byName lists.distinct lists.scope (Wire.identifier_text policy.scope),
        Wire.Given.fieldOr_byName lists.distinct given valuesRead, refused,
        Wire.Given.fieldOr_byName lists.distinct lists.contentHash digestRead,
        Wire.Given.fieldOr_byName lists.distinct lists.version versionRead]
      rfl

theorem Lists.normalized {members : List (String × Json)} {sources : Json}
    (lists : policy.Lists members sources) (known : policy.values.WellFormed) :
    policy.Lists (Json.normalizedMembers members).entries sources.normalized := by
  have put : ∀ {key value}, Entries.find? key members = some value →
      Entries.find? key (Json.normalizedMembers members).entries = some value.normalized := by
    intro key value given
    exact (Json.find?_normalizedMembers lists.distinct key).trans (by rw [given, Option.map_some])
  obtain ⟨values, given, normal⟩ := lists.values
  refine ⟨Entries.nodup_keys (Json.normalizedMembers members).ascending, put lists.scope,
    ⟨_, put given, ?_⟩, put lists.sources, put lists.contentHash, put lists.version⟩
  rw [normal, Json.normalized_of_wellFormed known]

def recordMembers (policy : EffectivePolicy) : List (String × Json) :=
  [("scope_id", .str policy.scope.text), ("values", policy.values),
    ("provenance", .obj policy.sourceMembers), ("content_hash", .str policy.contentHash.display),
    ("version", .int policy.version.toNat)]

theorem toJson_eq (policy : EffectivePolicy) : policy.toJson = .obj policy.recordMembers := rfl

theorem lists_recordMembers (known : policy.values.WellFormed) :
    policy.Lists policy.recordMembers (.obj policy.sourceMembers) :=
  ⟨by simp [recordMembers], rfl, ⟨policy.values, rfl, Json.normalized_of_wellFormed known⟩, rfl, rfl, rfl⟩

/-- The record of a policy is read as the policy, unless the text of a field is blank. -/
theorem ofJson_toJson (known : policy.values.WellFormed)
    (plain : ∀ field ∈ policy.provenance.keys, field.IsPlain) :
    ofJson policy.toJson = match policy.blankField? with
      | none => .ok policy
      | some field => .error (.invalidFieldPath field.display .blank) := by
  rw [toJson_eq, ofJson_of_lists (lists_recordMembers known)]
  cases blank : policy.blankField? with
  | none => rw [map_sourceMembers plain blank, Except.map]
  | some field => rw [map_sourceMembers_refused plain blank, Except.map]

/-- Members in order hide no field: where a text is blank, the record cannot be read. -/
theorem ofJson_normalized_toJson_iff (known : policy.values.WellFormed)
    (plain : ∀ field ∈ policy.provenance.keys, field.IsPlain) :
    ofJson policy.toJson.normalized = .ok policy ↔ policy.blankField? = none := by
  rw [toJson_eq, Json.normalized, ofJson_of_lists ((lists_recordMembers known).normalized known)]
  constructor
  · intro read
    -- which blank field is reported depends on the order of the members, but one of them is
    refine List.find?_eq_none.mpr fun field listed blank => ?_
    obtain ⟨entry, present, rfl⟩ := List.mem_map.mp listed
    cases sources : Wire.map fieldOfName FieldProvenance.ofJson
        (Json.obj policy.sourceMembers).normalized with
    | error refusal => simp [sources, Except.map] at read
    | ok provenance =>
        have named : entry.1.display ∈
            (Json.normalizedMembers policy.sourceMembers).entries.map Prod.fst := by
          rw [Json.mem_keys_normalizedMembers, sourceMembers, List.map_map]
          exact List.mem_map_of_mem present
        obtain ⟨member, given, name⟩ := List.mem_map.mp named
        obtain ⟨k, legible⟩ := Wire.keys_of_map_eq_ok sources member given
        rw [name, fieldOfName_display (plain entry.1 listed), if_pos blank] at legible
        cases legible
  · intro filled
    rw [map_sourceMembers_normalized plain filled, Except.map]

end EffectivePolicy

end Governance
