import Governance.Proofs.Effective.Parties

/-!
# Settling the conflicts of an outcome

The conflicts of an outcome are settled by calls, one at a time and in any order. The history of a
conflict holds the calls on it that succeeded, each of them further on than the one before. A
refused call changes nothing, and no call changes anything but the status and the history of its
conflict, so an outcome that no longer blocks activation never blocks it again.
-/

set_option autoImplicit false

namespace Governance

/-! ## Statuses -/

namespace ResolutionStatus

def level : ResolutionStatus → Nat
  | .unresolved => 0
  | .acknowledged => 1
  | .resolved => 2

theorem canBecome_iff {status target : ResolutionStatus} :
    status.canBecome target = true ↔ status.level < target.level := by
  cases status <;> cases target <;> decide

theorem level_le_two (status : ResolutionStatus) : status.level ≤ 2 := by
  cases status <;> decide

theorem not_canBecome_resolved (target : ResolutionStatus) :
    ResolutionStatus.resolved.canBecome target = false := by
  cases target <;> rfl

end ResolutionStatus

/-! ## Calls -/

inductive SettlementKind where
  | acknowledgement
  | resolution
  deriving DecidableEq, Repr

def SettlementKind.target : SettlementKind → ResolutionStatus
  | .acknowledgement => .acknowledged
  | .resolution => .resolved

structure SettlementCall where
  place : Nat
  kind : SettlementKind
  actor : String
  note : String
  time : Timestamp
  deriving DecidableEq, Repr

namespace SettlementCall

def apply (call : SettlementCall) (conflict : PolicyConflict) :
    Except InvalidTransition PolicyConflict :=
  match call.kind with
  | .acknowledgement => conflict.acknowledge call.actor call.note call.time
  | .resolution => conflict.resolve call.actor call.note call.time

def record (call : SettlementCall) : ResolutionRecord :=
  ⟨call.kind.target, call.actor, call.note, call.time⟩

variable {call : SettlementCall} {conflict settled : PolicyConflict}

theorem apply_eq_ok_iff :
    call.apply conflict = .ok settled ↔ conflict.status.level < call.kind.target.level ∧
      settled = { conflict with
        status := call.kind.target
        steps := conflict.steps ++ [call.record] } := by
  have advanced : call.apply conflict =
      conflict.advance call.kind.target call.actor call.note call.time := by
    rw [apply]
    cases call.kind <;> rfl
  rw [advanced, PolicyConflict.advance, ← ResolutionStatus.canBecome_iff]
  cases conflict.status.canBecome call.kind.target with
  | false => simp
  | true => simp [record, eq_comm]

theorem isBlocking_of_apply (applied : call.apply conflict = .ok settled)
    (blocks : settled.isBlocking = true) : conflict.isBlocking = true := by
  obtain ⟨further, rfl⟩ := apply_eq_ok_iff.mp applied
  rw [← ResolutionStatus.canBecome_iff] at further
  simp only [PolicyConflict.isBlocking, Bool.and_eq_true, Bool.not_eq_true', beq_eq_false_iff_ne]
    at blocks ⊢
  refine ⟨blocks.1, fun resolved => ?_⟩
  rw [resolved, ResolutionStatus.not_canBecome_resolved] at further
  cases further

end SettlementCall

namespace EffectiveOutcome

def answer? (outcome : EffectiveOutcome) (call : SettlementCall) : Option PolicyConflict :=
  outcome.conflicts[call.place]?.bind fun conflict => (call.apply conflict).toOption

/-- Makes a call. A call that does not succeed is dropped. -/
def settle (outcome : EffectiveOutcome) (call : SettlementCall) : EffectiveOutcome :=
  match outcome.answer? call with
  | none => outcome
  | some settled => { outcome with conflicts := outcome.conflicts.set call.place settled }

def settleAll (outcome : EffectiveOutcome) (calls : List SettlementCall) : EffectiveOutcome :=
  calls.foldl settle outcome

def accepted (outcome : EffectiveOutcome) : List SettlementCall → List SettlementCall
  | [] => []
  | call :: rest =>
    if (outcome.answer? call).isSome then call :: (outcome.settle call).accepted rest
    else (outcome.settle call).accepted rest

variable {outcome : EffectiveOutcome} {call : SettlementCall} {calls : List SettlementCall}

/-! ## One call -/

theorem answer?_eq_some_iff {settled : PolicyConflict} :
    outcome.answer? call = some settled ↔ ∃ conflict,
      outcome.conflicts[call.place]? = some conflict ∧ call.apply conflict = .ok settled := by
  rw [answer?, Option.bind_eq_some_iff]
  refine exists_congr fun conflict => and_congr_right fun _ => ?_
  cases call.apply conflict <;> simp [Except.toOption]

theorem settle_of_refused (refused : outcome.answer? call = none) :
    outcome.settle call = outcome := by
  rw [settle, refused]

theorem policy_settle : (outcome.settle call).policy = outcome.policy := by
  rw [settle]
  cases outcome.answer? call <;> rfl

theorem length_settle :
    (outcome.settle call).conflicts.length = outcome.conflicts.length := by
  rw [settle]
  cases outcome.answer? call with
  | none => rfl
  | some settled => exact List.length_set

theorem getElem?_settle (place : Nat) :
    (outcome.settle call).conflicts[place]? =
      if call.place = place then (outcome.answer? call).or outcome.conflicts[place]?
      else outcome.conflicts[place]? := by
  rw [settle]
  cases answer : outcome.answer? call with
  | none => simp
  | some settled =>
      obtain ⟨conflict, found, _⟩ := answer?_eq_some_iff.mp answer
      obtain ⟨inside, _⟩ := List.getElem?_eq_some_iff.mp found
      simp [List.getElem?_set, inside]

theorem blocksActivation_iff :
    outcome.blocksActivation = true ↔
      ∃ conflict ∈ outcome.conflicts, conflict.severity = .error ∧ conflict.status ≠ .resolved := by
  simp [blocksActivation, PolicyConflict.isBlocking]

theorem blocksActivation_of_settle (blocks : (outcome.settle call).blocksActivation = true) :
    outcome.blocksActivation = true := by
  obtain ⟨conflict, listed, blocking⟩ := List.any_eq_true.mp blocks
  refine List.any_eq_true.mpr ?_
  rw [settle] at listed
  cases answer : outcome.answer? call with
  | none =>
      rw [answer] at listed
      exact ⟨conflict, listed, blocking⟩
  | some settled =>
      rw [answer] at listed
      rcases List.mem_or_eq_of_mem_set listed with other | rfl
      · exact ⟨conflict, other, blocking⟩
      · obtain ⟨before, found, applied⟩ := answer?_eq_some_iff.mp answer
        exact ⟨before, List.mem_of_getElem? found, call.isBlocking_of_apply applied blocking⟩

end EffectiveOutcome

/-! ## The history of one conflict -/

/-- What successful calls on a conflict, from first to last, have made of it. -/
structure PolicyConflict.SettledBy (initial : PolicyConflict) (calls : List SettlementCall)
    (settled : PolicyConflict) : Prop where
  same : settled = { initial with status := settled.status, steps := settled.steps }
  steps : settled.steps = calls.map SettlementCall.record
  status : settled.status =
    (settled.steps.getLast?.map ResolutionRecord.status).getD .unresolved
  ascending : settled.steps.Pairwise fun earlier later => earlier.status.level < later.status.level
  reached : ∀ step ∈ settled.steps, step.status.level ≤ settled.status.level
  few : settled.steps.length ≤ settled.status.level

namespace PolicyConflict.SettledBy

variable {initial settled next : PolicyConflict} {calls : List SettlementCall}
  {call : SettlementCall}

theorem refl (status : initial.status = .unresolved) (steps : initial.steps = []) :
    initial.SettledBy [] initial := by
  constructor
  · rfl
  · exact steps
  · rw [steps, status]
    rfl
  · rw [steps]
    exact List.Pairwise.nil
  · rw [steps]
    exact List.forall_mem_nil _
  · rw [steps]
    exact Nat.zero_le _

theorem snoc (before : initial.SettledBy calls settled) (applied : call.apply settled = .ok next) :
    initial.SettledBy (calls ++ [call]) next := by
  obtain ⟨further, rfl⟩ := SettlementCall.apply_eq_ok_iff.mp applied
  constructor
  · rw [before.same]
  · rw [before.steps, List.map_append, List.map_singleton]
  · rw [List.getLast?_concat]
    rfl
  · refine List.pairwise_append.mpr ⟨before.ascending, List.pairwise_singleton _ _, ?_⟩
    intro earlier listed later only
    rw [List.mem_singleton.mp only]
    exact Nat.lt_of_le_of_lt (before.reached earlier listed) further
  · intro step listed
    rcases List.mem_append.mp listed with old | new
    · exact (Nat.le_of_lt (Nat.lt_of_le_of_lt (before.reached step old) further))
    · rw [List.mem_singleton.mp new]
      exact Nat.le_refl _
  · rw [List.length_append, List.length_singleton]
    exact Nat.succ_le_of_lt (Nat.lt_of_le_of_lt before.few further)

theorem length_le_two (settles : initial.SettledBy calls settled) : settled.steps.length ≤ 2 :=
  settles.few.trans settled.status.level_le_two

end PolicyConflict.SettledBy

/-! ## Runs -/

namespace EffectiveOutcome

variable {outcome : EffectiveOutcome} {call : SettlementCall} {calls : List SettlementCall}

theorem policy_settleAll : (outcome.settleAll calls).policy = outcome.policy := by
  induction calls generalizing outcome with
  | nil => rfl
  | cons call rest ih => exact ih.trans policy_settle

theorem length_settleAll :
    (outcome.settleAll calls).conflicts.length = outcome.conflicts.length := by
  induction calls generalizing outcome with
  | nil => rfl
  | cons call rest ih => exact ih.trans length_settle

theorem blocksActivation_of_settleAll (blocks : (outcome.settleAll calls).blocksActivation = true) :
    outcome.blocksActivation = true := by
  induction calls generalizing outcome with
  | nil => exact blocks
  | cons call rest ih => exact blocksActivation_of_settle (ih blocks)

theorem settledBy_settleAll {place : Nat} {initial settled : PolicyConflict}
    {earlier : List SettlementCall} (found : outcome.conflicts[place]? = some settled)
    (before : initial.SettledBy earlier settled) :
    ∃ final, (outcome.settleAll calls).conflicts[place]? = some final ∧
      initial.SettledBy (earlier ++ (outcome.accepted calls).filter fun call => call.place = place)
        final := by
  -- what the conflict has become, and the calls that made it so, go along with the rest of the calls
  induction calls generalizing outcome earlier settled with
  | nil => exact ⟨settled, found, by rwa [accepted, List.filter_nil, List.append_nil]⟩
  | cons call rest ih =>
      have next := @getElem?_settle outcome call place
      rw [accepted]
      cases answer : outcome.answer? call with
      | none =>
          rw [answer, Option.none_or, ite_self, found] at next
          exact ih next before
      | some changed =>
          obtain ⟨conflict, there, applied⟩ := answer?_eq_some_iff.mp answer
          by_cases here : call.place = place
          · rw [here, found] at there
            cases there
            rw [if_pos here, answer, Option.some_or] at next
            obtain ⟨final, reached, settles⟩ := ih next (before.snoc applied)
            refine ⟨final, reached, ?_⟩
            rw [List.append_assoc] at settles
            simpa [here] using settles
          · rw [if_neg here, found] at next
            obtain ⟨final, reached, settles⟩ := ih next before
            exact ⟨final, reached, by simpa [here] using settles⟩

end EffectiveOutcome

namespace InheritanceSettings

variable {settings : InheritanceSettings} {policy : ScopedPolicy} {isOverride : Bool}
  {conflict : PolicyConflict} {displaced : SortedMap FieldPath MergedField} {leaves : Leaves}
  {leaf : FieldPath × Json} {state final : MergeState}

/-! ## Computed outcomes -/

theorem unsettled_of_declareAll
    (recorded : conflict ∈
      (settings.declareAll policy isOverride displaced leaves state).conflicts) :
    conflict ∈ state.conflicts ∨ conflict.status = .unresolved ∧ conflict.steps = [] := by
  induction leaves generalizing state with
  | nil => exact .inl recorded
  | cons first rest ih =>
      rcases ih recorded with earlier | unsettled
      · rcases mem_conflicts_applyLeaf_iff.mp earlier with old | ⟨_, _, _, opposes⟩
        · exact .inl old
        · cases opposes <;> exact .inr ⟨rfl, rfl⟩
      · exact .inr unsettled

theorem unsettled_of_applyRules
    (recorded : conflict ∈ (settings.applyRules policy leaves state).conflicts) :
    conflict ∈ state.conflicts ∨ conflict.status = .unresolved ∧ conflict.steps = [] := by
  by_cases replacing : policy.mode = .replace
  · rw [applyRules_of_replace replacing] at recorded
    rcases List.mem_append.mp recorded with declared | dropped
    · rw [replaced, applyDeclared_eq_declareAll] at declared
      exact (unsettled_of_declareAll declared).imp_left id
    · obtain ⟨_, _, rfl⟩ := List.mem_map.mp dropped
      exact .inr ⟨rfl, rfl⟩
  · rw [applyRules_of_not_replace replacing] at recorded
    exact unsettled_of_declareAll recorded

theorem unsettled_of_applyAll {ordered : List ScopedPolicy}
    (applied : settings.applyAll ordered state = .ok final)
    (recorded : conflict ∈ final.conflicts) :
    conflict ∈ state.conflicts ∨ conflict.status = .unresolved ∧ conflict.steps = [] := by
  induction ordered generalizing state with
  | nil =>
      cases applied
      exact .inl recorded
  | cons policy rest ih =>
      obtain ⟨middle, first, later⟩ := applyAll_cons_eq_ok applied
      obtain ⟨declared, overridden, _, _, rfl⟩ := applyPolicy_eq_ok first
      rcases ih later with earlier | unsettled
      · rw [applyOverridden_eq_declareAll] at earlier
        rcases unsettled_of_declareAll earlier with byRules | unsettled
        · exact unsettled_of_applyRules byRules
        · exact .inr unsettled
      · exact .inr unsettled

variable {target : ScopeId} {chain : List Scope} {policies : List ScopedPolicy}
  {outcome : EffectiveOutcome}

theorem unsettled_of_compute (computed : settings.compute target chain policies = .ok outcome) :
    ∀ conflict ∈ outcome.conflicts, conflict.status = .unresolved ∧ conflict.steps = [] := by
  obtain ⟨ordered, final, run⟩ := run_of_compute computed
  intro conflict recorded
  rw [run.conflicts] at recorded
  exact (unsettled_of_applyAll run.applied recorded).resolve_left (List.not_mem_nil)

/-- Whatever calls settle the conflicts of a computed outcome, every conflict shows exactly the
calls on it that succeeded, nothing else changes, and activation is blocked while an error is not
resolved, and never again after that. -/
theorem compute_settles (settings : InheritanceSettings) (target : ScopeId) (chain : List Scope)
    (policies : List ScopedPolicy) (outcome : EffectiveOutcome)
    (computed : settings.compute target chain policies = .ok outcome) (calls : List SettlementCall) :
    (outcome.settleAll calls).policy = outcome.policy ∧
      (outcome.settleAll calls).conflicts.length = outcome.conflicts.length ∧
      (∀ (place : Nat) (initial : PolicyConflict), outcome.conflicts[place]? = some initial →
        ∃ settled, (outcome.settleAll calls).conflicts[place]? = some settled ∧
          initial.SettledBy ((outcome.accepted calls).filter fun call => call.place = place) settled ∧
          settled.steps.length ≤ 2) ∧
      (∀ call, (outcome.settleAll calls).answer? call = none →
        (outcome.settleAll calls).settle call = outcome.settleAll calls) ∧
      (∀ call place, call.place ≠ place →
        ((outcome.settleAll calls).settle call).conflicts[place]? =
          (outcome.settleAll calls).conflicts[place]?) ∧
      ((outcome.settleAll calls).blocksActivation = true ↔
        ∃ conflict ∈ (outcome.settleAll calls).conflicts,
          conflict.severity = .error ∧ conflict.status ≠ .resolved) ∧
      ((outcome.settleAll calls).blocksActivation = false → ∀ more,
        (outcome.settleAll (calls ++ more)).blocksActivation = false) := by
  refine ⟨EffectiveOutcome.policy_settleAll, EffectiveOutcome.length_settleAll,
    fun place initial found => ?_, fun call => EffectiveOutcome.settle_of_refused,
    fun call place elsewhere => ?_, EffectiveOutcome.blocksActivation_iff, fun free more => ?_⟩
  · obtain ⟨status, steps⟩ := unsettled_of_compute computed initial (List.mem_of_getElem? found)
    obtain ⟨settled, reached, settles⟩ :=
      EffectiveOutcome.settledBy_settleAll found (.refl status steps)
    exact ⟨settled, reached, settles, settles.length_le_two⟩
  · rw [EffectiveOutcome.getElem?_settle, if_neg elsewhere]
  · rw [← Bool.not_eq_true] at free ⊢
    rw [EffectiveOutcome.settleAll, List.foldl_append]
    exact fun blocks => free (EffectiveOutcome.blocksActivation_of_settleAll blocks)

/-! ### A looser value that counts as an error -/

def approvalConflict : PolicyConflict :=
  InheritanceSettings.conflict { conflicts := ⟨.error⟩ } fewerApprovals (.ofKeys ["min_approvals"])
    .looser ⟨.int 2, companyApprovals.source false⟩ (.int 1)

theorem compute_strict_approvals : ∃ policy,
    compute { conflicts := ⟨.error⟩ } brandScope.id brandChain approvalPolicies
      = .ok ⟨policy, [approvalConflict]⟩ := by
  obtain ⟨state, applied, settled, free, recorded⟩ : ∃ state,
      InheritanceSettings.applyAll { conflicts := ⟨.error⟩ } approvalPolicies {} = .ok state ∧
        state.incompatible? = none ∧ state.document.floatFree = true ∧
        state.conflicts = [approvalConflict] :=
    ⟨_, rfl, by decide, by decide, rfl⟩
  obtain ⟨⟨policy, conflicts⟩, computed, _, _, same⟩ :=
    @compute_of_applyAll { conflicts := ⟨.error⟩ } brandScope.id brandChain approvalPolicies
      approvalPolicies state (by decide) (applicationOrder_brandChain rfl rfl) applied settled free
  obtain rfl : conflicts = [approvalConflict] := same.trans recorded
  exact ⟨policy, computed⟩

/-- The conflict is acknowledged, acknowledged again in vain, and resolved. -/
def approvalCalls : List SettlementCall :=
  [⟨0, .acknowledgement, "admin", "looking", ⟨0, 0⟩⟩, ⟨0, .acknowledgement, "admin", "", ⟨1, 0⟩⟩,
    ⟨0, .resolution, "admin", "accepted", ⟨2, 0⟩⟩]

theorem compute_settles_approvalCalls : ∃ outcome settled,
    compute { conflicts := ⟨.error⟩ } brandScope.id brandChain approvalPolicies = .ok outcome ∧
      (outcome.settleAll approvalCalls).conflicts[0]? = some settled ∧
      approvalConflict.SettledBy (approvalCalls.eraseIdx 1) settled ∧
      (outcome.settleAll (approvalCalls.take 2)).blocksActivation = true ∧
      (outcome.settleAll approvalCalls).blocksActivation = false := by
  obtain ⟨policy, computed⟩ := compute_strict_approvals
  obtain ⟨_, _, settles, _⟩ := compute_settles { conflicts := ⟨.error⟩ } brandScope.id
    brandChain approvalPolicies _ computed approvalCalls
  obtain ⟨settled, reached, settles, _⟩ := settles 0 approvalConflict rfl
  exact ⟨_, settled, computed, reached, settles, rfl, rfl⟩

end InheritanceSettings

end Governance
