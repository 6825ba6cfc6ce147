import Governance.Proofs.Effective.Declared

/-!
# Flawed documents

What is wrong with a document of a policy that cannot be read, stated without the reader: it is no
object, an object that is visited has a key that is not plain, or a registered field holds a value
of another kind. A document is refused exactly if it has such a flaw, and the error names one.
-/

set_option autoImplicit false

namespace Governance

/-- The objects that are visited below an object at a sequence of keys, with the keys that they
stand at: the object itself, and further down every object of a visited one at a place that is not
registered. -/
inductive FieldRegistry.Visited (registry : FieldRegistry) (keys : List String)
    (members : List (String × Json)) : List String → List (String × Json) → Prop where
  | top : Visited registry keys members keys members
  | inside {place : List String} {found inner : List (String × Json)} {name : String} :
      Visited registry keys members place found → (name, .obj inner) ∈ found →
      registry.directiveForKeys? (place ++ [name]) = none →
      Visited registry keys members (place ++ [name]) inner

inductive ScopedPolicy.Flaw (policy : ScopedPolicy) (registry : FieldRegistry)
    (part : PolicySection) : Json → ValidationError → Prop where
  | notObject {document : Json} :
      document.isObject = false →
      Flaw policy registry part document (.ruleSetNotObject policy.id part)
  | key {members found : List (String × Json)} {place : List String} {member : String × Json} :
      registry.Visited [] members place found → member ∈ found →
      FieldPath.isPlainKey member.1 = false →
      Flaw policy registry part (.obj members) (.invalidFieldPath
        (FieldPath.ofKeys (place ++ [member.1])).display (.keyNotPlain member.1))
  | kind {members found : List (String × Json)} {place : List String} {member : String × Json}
      {directive : FieldDirective} :
      registry.Visited [] members place found → member ∈ found →
      registry.directiveForKeys? (place ++ [member.1]) = some directive →
      directive.kind.accepts member.2 = false →
      Flaw policy registry part (.obj members) (.fieldKindMismatch policy.id
        (.ofKeys (place ++ [member.1])) directive.kind member.2)

namespace FieldRegistry

variable {registry : FieldRegistry} {keys place : List String}
  {members found : List (String × Json)}

theorem Visited.trans {keys' place' : List String} {members' found' : List (String × Json)}
    (first : registry.Visited keys members keys' members')
    (second : registry.Visited keys' members' place' found') :
    registry.Visited keys members place' found' := by
  induction second with
  | top => exact first
  | inside _ listed unregistered ih => exact .inside ih listed unregistered

theorem Visited.of_member {name : String} {inner : List (String × Json)}
    (listed : (name, .obj inner) ∈ members)
    (unregistered : registry.directiveForKeys? (keys ++ [name]) = none)
    (visited : registry.Visited (keys ++ [name]) inner place found) :
    registry.Visited keys members place found :=
  (Visited.inside .top listed unregistered).trans visited

theorem visited_of_within {name : String} {value leaf : Json} {field : FieldPath}
    (listed : (name, value) ∈ members)
    (within : registry.Within (keys ++ [name]) value field leaf) :
    ∃ place found last, registry.Visited keys members place found ∧ last ∈ found ∧
      field = .ofKeys (place ++ [last.1]) ∧ leaf = last.2 := by
  generalize shape : keys ++ [name] = keys' at within
  induction within generalizing keys members name with
  | here => exact ⟨keys, members, (name, _), .top, listed, by rw [shape], rfl⟩
  | @under _ inner member field leaf unregistered present _ _ ih =>
      subst shape
      obtain ⟨place, found, last, visited, rest⟩ := ih present rfl
      exact ⟨place, found, last, .of_member listed unregistered visited, rest⟩

end FieldRegistry

namespace Leaves

open FieldRegistry

variable {registry : FieldRegistry} {keepEmpty : Bool} {keys place : List String}
  {members found : List (String × Json)} {leaves : Leaves} {problem : ValidationError}

/-! ## Cutting a document -/

/-- Whether an object that is visited has a key that is not plain, and the error that names it. -/
def UnplainKey (registry : FieldRegistry) (keys : List String) (members : List (String × Json))
    (problem : ValidationError) : Prop :=
  ∃ place found member, registry.Visited keys members place found ∧ member ∈ found ∧
    FieldPath.isPlainKey member.1 = false ∧ problem = .invalidFieldPath
      (FieldPath.ofKeys (place ++ [member.1])).display (.keyNotPlain member.1)

theorem unplainKey_of_ofMembers
    (each : ∀ member ∈ members, ∀ keys problem,
      ofValue registry keepEmpty (.ofKeys keys) member.2 = .error problem →
        ∃ inner, member.2 = .obj inner ∧ registry.directiveForKeys? keys = none ∧
          UnplainKey registry keys inner problem)
    (failed : ofMembers registry keepEmpty (.ofKeys keys) members = .error problem) :
    UnplainKey registry keys members problem := by
  -- by induction on what is left of the members, while visiting starts from all of them
  suffices inside : ∀ rest ⊆ members,
      ofMembers registry keepEmpty (.ofKeys keys) rest = .error problem →
        UnplainKey registry keys members problem from inside members (List.Subset.refl _) failed
  intro rest within failed
  induction rest with
  | nil => cases failed
  | cons member rest ih =>
      obtain ⟨listed, within⟩ := List.cons_subset.mp within
      rw [ofMembers, FieldPath.child_ofKeys] at failed
      cases plain : FieldPath.isPlainKey member.1 with
      | false =>
          simp only [plain, Bool.not_false, if_true, Except.error.injEq] at failed
          exact ⟨keys, members, member, .top, listed, plain, failed.symm⟩
      | true =>
          simp only [plain, Bool.not_true, Bool.false_eq_true, if_false] at failed
          cases first : ofValue registry keepEmpty (.ofKeys (keys ++ [member.1])) member.2 with
          | error problem' =>
              simp only [first, Except.error.injEq] at failed
              subst failed
              obtain ⟨inner, shape, unregistered, place, found, last, visited, rest⟩ :=
                each member listed _ _ first
              have entered : (member.1, .obj inner) ∈ members := shape ▸ listed
              exact ⟨place, found, last, .of_member entered unregistered visited, rest⟩
          | ok front =>
              cases later : ofMembers registry keepEmpty (.ofKeys keys) rest with
              | error problem' =>
                  simp only [first, later, Except.map, Except.error.injEq] at failed
                  exact ih within (failed ▸ later)
              | ok back => simp [first, later, Except.map] at failed

theorem unplainKey_of_ofValue {value : Json}
    (failed : ofValue registry keepEmpty (.ofKeys keys) value = .error problem) :
    ∃ members, value = .obj members ∧ registry.directiveForKeys? keys = none ∧
      UnplainKey registry keys members problem := by
  induction value using Json.induct generalizing keys problem with
  | null | bool | int | float | str | arr => cases failed
  | obj members ih =>
      rw [ofValue, FieldRegistry.directive?_ofKeys] at failed
      cases registered : registry.directiveForKeys? keys with
      | some directive => simp [registered] at failed
      | none =>
          simp only [registered, Option.isSome_none, Bool.false_eq_true, if_false] at failed
          split at failed
          · cases failed
          · exact ⟨members, rfl, rfl,
              unplainKey_of_ofMembers (fun member listed _ _ => ih member listed) failed⟩

/-- Every key of an object that is visited is plain if the document can be cut, and what stands at a
registered place is among the leaves. -/
theorem listed_of_ofMembers
    (cut : ofMembers registry keepEmpty (.ofKeys keys) members = .ok leaves) :
    ∀ member ∈ members, FieldPath.isPlainKey member.1 = true ∧ ∃ inner,
      ofValue registry keepEmpty (.ofKeys (keys ++ [member.1])) member.2 = .ok inner ∧
        inner ⊆ leaves := by
  induction members generalizing leaves with
  | nil => exact List.forall_mem_nil _
  | cons member rest ih =>
      obtain ⟨plain, front, back, first, later, rfl⟩ := ofMembers_cons_eq_ok cut
      rw [FieldPath.child_ofKeys] at first
      refine List.forall_mem_cons.mpr ⟨⟨plain, front, first, List.subset_append_left _ _⟩, ?_⟩
      intro other listed
      obtain ⟨plain, inner, cut, within⟩ := ih later other listed
      exact ⟨plain, inner, cut, List.Subset.trans within (List.subset_append_right _ _)⟩

theorem ofValue_of_registered {value : Json}
    (registered : (registry.directiveForKeys? keys).isSome = true) :
    ofValue registry keepEmpty (.ofKeys keys) value = .ok [(.ofKeys keys, value)] := by
  cases value with
  | null | bool | int | float | str | arr => rfl
  | obj members => rw [ofValue, FieldRegistry.directive?_ofKeys, if_pos registered]

theorem cut_of_visited (cut : ofMembers registry keepEmpty (.ofKeys keys) members = .ok leaves)
    (visited : registry.Visited keys members place found) :
    found = [] ∨ ∃ inner, ofMembers registry keepEmpty (.ofKeys place) found = .ok inner ∧
      inner ⊆ leaves := by
  induction visited with
  | top => exact .inr ⟨leaves, cut, List.Subset.refl _⟩
  | @inside place found inner name _ listed unregistered ih =>
      rcases ih with rfl | ⟨above, cut, within⟩
      · cases listed
      · obtain ⟨_, below, entered, within'⟩ := listed_of_ofMembers cut _ listed
        rw [ofValue, FieldRegistry.directive?_ofKeys, unregistered] at entered
        cases inner with
        | nil => exact .inl rfl
        | cons member rest =>
            simp only [Option.isSome_none, Bool.false_eq_true, if_false, List.isEmpty_cons]
              at entered
            exact .inr ⟨below, entered, List.Subset.trans within' within⟩

theorem plain_of_visited (cut : ofMembers registry keepEmpty (.ofKeys keys) members = .ok leaves)
    (visited : registry.Visited keys members place found) {member : String × Json}
    (listed : member ∈ found) : FieldPath.isPlainKey member.1 = true := by
  rcases cut_of_visited cut visited with rfl | ⟨inner, cut, _⟩
  · cases listed
  · exact (listed_of_ofMembers cut member listed).1

theorem mem_of_visited (cut : ofMembers registry keepEmpty (.ofKeys keys) members = .ok leaves)
    (visited : registry.Visited keys members place found) {member : String × Json}
    (listed : member ∈ found)
    (registered : (registry.directiveForKeys? (place ++ [member.1])).isSome = true) :
    (.ofKeys (place ++ [member.1]), member.2) ∈ leaves := by
  rcases cut_of_visited cut visited with rfl | ⟨inner, cut, within⟩
  · cases listed
  · obtain ⟨_, alone, entered, within'⟩ := listed_of_ofMembers cut member listed
    rw [ofValue_of_registered registered, Except.ok.injEq] at entered
    subst entered
    exact within (within' List.mem_cons_self)

end Leaves

namespace ScopedPolicy

variable {policy : ScopedPolicy} {registry : FieldRegistry} {part : PolicySection}
  {document : Json} {leaves : Leaves} {problem : ValidationError}

/-! ## Reading a document -/

theorem checkKinds_eq_ok_iff :
    policy.checkKinds registry leaves = .ok () ↔ ∀ leaf ∈ leaves, ∀ directive,
      registry.directive? leaf.1 = some directive → directive.kind.accepts leaf.2 = true := by
  induction leaves with
  | nil => simp [checkKinds]
  | cons leaf rest ih =>
      rw [checkKinds, List.forall_mem_cons, ← ih]
      cases registry.directive? leaf.1 with
      | none => simp
      | some directive => cases accepted : directive.kind.accepts leaf.2 <;> simp [accepted]

theorem exists_of_checkKinds_eq_error
    (failed : policy.checkKinds registry leaves = .error problem) :
    ∃ leaf ∈ leaves, ∃ directive, registry.directive? leaf.1 = some directive ∧
      directive.kind.accepts leaf.2 = false ∧
      problem = .fieldKindMismatch policy.id leaf.1 directive.kind leaf.2 := by
  induction leaves with
  | nil => cases failed
  | cons leaf rest ih =>
      rw [checkKinds] at failed
      cases registered : registry.directive? leaf.1 with
      | none =>
          rw [registered] at failed
          obtain ⟨other, listed, given⟩ := ih failed
          exact ⟨other, List.mem_cons_of_mem _ listed, given⟩
      | some directive =>
          cases accepted : directive.kind.accepts leaf.2 with
          | true =>
              simp only [registered, accepted, if_true] at failed
              obtain ⟨other, listed, given⟩ := ih failed
              exact ⟨other, List.mem_cons_of_mem _ listed, given⟩
          | false =>
              simp only [registered, accepted, Bool.false_eq_true, if_false, Except.error.injEq]
                at failed
              exact ⟨leaf, List.mem_cons_self, directive, registered, accepted, failed.symm⟩

/-- The error for a document that is refused names a flaw of it. -/
theorem flaw_of_leaves_eq_error (failed : policy.leaves registry part document = .error problem) :
    policy.Flaw registry part document problem := by
  cases document with
  | null | bool | int | float | str | arr =>
      cases failed
      exact .notObject rfl
  | obj members =>
      rw [ScopedPolicy.leaves, ← FieldPath.ofKeys_nil] at failed
      cases cut : Leaves.ofMembers registry (part == .rules && policy.mode == .replace)
          (.ofKeys []) members with
      | error problem' =>
          simp only [cut, Except.error.injEq] at failed
          subst failed
          obtain ⟨place, found, member, visited, listed, unplain, rfl⟩ :=
            Leaves.unplainKey_of_ofMembers (fun _ _ _ _ => Leaves.unplainKey_of_ofValue) cut
          exact .key visited listed unplain
      | ok leaves =>
          cases checked : policy.checkKinds registry leaves with
          | ok => simp [cut, checked, Except.map] at failed
          | error problem' =>
              simp only [cut, checked, Except.map, Except.error.injEq] at failed
              subst failed
              obtain ⟨leaf, listed, directive, registered, refused, rfl⟩ :=
                exists_of_checkKinds_eq_error checked
              rw [FieldPath.ofKeys_nil] at cut
              obtain ⟨member, present, _, within⟩ := Leaves.within_of_ofMembers cut leaf listed
              rw [← List.nil_append [member.1]] at within
              obtain ⟨place, found, last, visited, listed, field, value⟩ :=
                FieldRegistry.visited_of_within present within
              rw [field] at registered ⊢
              rw [value] at refused ⊢
              exact .kind visited listed (FieldRegistry.directive?_ofKeys ▸ registered) refused

theorem not_flaw_of_leaves_eq_ok (read : policy.leaves registry part document = .ok leaves) :
    ¬ policy.Flaw registry part document problem := by
  obtain ⟨members, keepEmpty, rfl, cut, checked⟩ := leaves_eq_ok read
  rw [← FieldPath.ofKeys_nil] at cut
  intro flaw
  cases flaw with
  | notObject other => cases other
  | key visited listed unplain =>
      rw [Leaves.plain_of_visited cut visited listed] at unplain
      cases unplain
  | @kind _ _ place member directive visited listed registered refused =>
      have listed := Leaves.mem_of_visited cut visited listed (by rw [registered]; rfl)
      have accepted := checkKinds_eq_ok_iff.mp checked _ listed directive
        (FieldRegistry.directive?_ofKeys.trans registered)
      rw [refused] at accepted
      cases accepted

/-! ## Reading a policy -/

def IsFlawed (policy : ScopedPolicy) (registry : FieldRegistry) : Prop :=
  (∃ problem, policy.Flaw registry .rules policy.rules problem) ∨
    ∃ overrides, policy.overrides = some overrides ∧
      ∃ problem, policy.Flaw registry .overrides overrides problem

/-- The error that reading a policy reports: the one for its rules or, if these can be read, the one
for its overrides. -/
inductive Reports (policy : ScopedPolicy) (registry : FieldRegistry) (problem : ValidationError) :
    Prop where
  | rules : policy.declared registry = .error problem →
      policy.Flaw registry .rules policy.rules problem → Reports policy registry problem
  | overrides {declared : Leaves} {overrides : Json} : policy.declared registry = .ok declared →
      policy.overrides = some overrides → policy.overridden registry = .error problem →
      policy.Flaw registry .overrides overrides problem → Reports policy registry problem

theorem flaw_of_overridden_eq_error (failed : policy.overridden registry = .error problem) :
    ∃ overrides, policy.overrides = some overrides ∧
      policy.Flaw registry .overrides overrides problem := by
  rw [overridden] at failed
  cases given : policy.overrides with
  | none => simp [given] at failed
  | some overrides =>
      rw [given] at failed
      exact ⟨overrides, rfl, flaw_of_leaves_eq_error failed⟩

theorem Reports.isFlawed (reports : policy.Reports registry problem) :
    policy.IsFlawed registry := by
  cases reports with
  | rules _ flaw => exact .inl ⟨problem, flaw⟩
  | overrides _ given _ flaw => exact .inr ⟨_, given, problem, flaw⟩

theorem read_or_reports (policy : ScopedPolicy) (registry : FieldRegistry) :
    (∃ declared overridden, policy.declared registry = .ok declared ∧
        policy.overridden registry = .ok overridden) ∨
      ∃ problem, policy.Reports registry problem := by
  cases rules : policy.declared registry with
  | error problem => exact .inr ⟨problem, .rules rules (flaw_of_leaves_eq_error rules)⟩
  | ok declared =>
      cases overrides : policy.overridden registry with
      | error problem =>
          obtain ⟨document, given, flaw⟩ := flaw_of_overridden_eq_error overrides
          exact .inr ⟨problem, .overrides rules given overrides flaw⟩
      | ok overridden => exact .inl ⟨declared, overridden, rfl, rfl⟩

theorem not_isFlawed_of_read {declared overridden : Leaves}
    (rules : policy.declared registry = .ok declared)
    (overrides : policy.overridden registry = .ok overridden) : ¬ policy.IsFlawed registry := by
  rintro (⟨problem, flaw⟩ | ⟨document, given, problem, flaw⟩)
  · exact not_flaw_of_leaves_eq_ok rules flaw
  · rw [ScopedPolicy.overridden, given] at overrides
    exact not_flaw_of_leaves_eq_ok overrides flaw

theorem isFlawed_iff_reports :
    policy.IsFlawed registry ↔ ∃ problem, policy.Reports registry problem := by
  refine ⟨fun flawed => ?_, fun ⟨_, reports⟩ => reports.isFlawed⟩
  rcases policy.read_or_reports registry with ⟨_, _, rules, overrides⟩ | reports
  · exact absurd flawed (not_isFlawed_of_read rules overrides)
  · exact reports

end ScopedPolicy

end Governance
