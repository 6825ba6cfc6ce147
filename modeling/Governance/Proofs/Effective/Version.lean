import Governance.Proofs.Effective.Coherence

/-!
# Versions

The version of an effective policy counts the changes of its digest. Below the greatest version the
count is exact, so that of the policies that have been on record at a scope, two with one version
have one digest. The greatest version has no successor: it stays, whatever becomes of the digest.
-/

set_option autoImplicit false

namespace Governance

/-! ## The next version -/

namespace EffectivePolicy

theorem nextVersion_of_eq_wordMax {version : UInt64} (greatest : version.toNat = Text.wordMax) :
    nextVersion version = version :=
  if_pos greatest

theorem toNat_nextVersion {version : UInt64} (below : version.toNat < Text.wordMax) :
    (nextVersion version).toNat = version.toNat + 1 := by
  have room : version.toNat + 1 < 2 ^ 64 := by
    rw [Text.wordMax] at below
    omega
  rw [nextVersion, if_neg below.ne, UInt64.toNat_add]
  exact Nat.mod_eq_of_lt room

end EffectivePolicy

def EffectiveOutcome.after (previous : EffectivePolicy) (outcome : EffectiveOutcome) :
    EffectiveOutcome :=
  { outcome with
    policy := { outcome.policy with
      version :=
        if outcome.policy.contentHash = previous.contentHash then previous.version
        else EffectivePolicy.nextVersion previous.version } }

namespace EffectiveOutcome

variable {previous : EffectivePolicy} {outcome : EffectiveOutcome}

@[simp]
theorem contentHash_after :
    (outcome.after previous).policy.contentHash = outcome.policy.contentHash :=
  rfl

theorem version_after_of_eq (same : outcome.policy.contentHash = previous.contentHash) :
    (outcome.after previous).policy.version = previous.version :=
  if_pos same

theorem version_after_of_ne (changed : outcome.policy.contentHash ≠ previous.contentHash) :
    (outcome.after previous).policy.version = EffectivePolicy.nextVersion previous.version :=
  if_neg changed

end EffectiveOutcome

/-! ## Computing again -/

namespace InheritanceSettings

variable {settings : InheritanceSettings} {previous : EffectivePolicy} {target : ScopeId}
  {chain : List Scope} {policies : List ScopedPolicy} {outcome : EffectiveOutcome}

/-- For the scope of the previous policy, computing again is computing, with another version. -/
theorem recompute_eq_map (same : previous.scope = target) :
    settings.recompute previous target chain policies
      = (settings.compute target chain policies).map (EffectiveOutcome.after previous) := by
  rw [recompute, if_neg (not_not_intro same)]
  cases settings.compute target chain policies with
  | error problem => rfl
  | ok outcome => rfl

theorem recompute_eq_ok
    (computed : settings.recompute previous target chain policies = .ok outcome) :
    ∃ fresh, settings.compute target chain policies = .ok fresh ∧ outcome = fresh.after previous := by
  by_cases same : previous.scope = target
  · rw [recompute_eq_map same] at computed
    cases found : settings.compute target chain policies with
    | error problem =>
        rw [found] at computed
        cases computed
    | ok fresh =>
        rw [found] at computed
        cases computed
        exact ⟨fresh, rfl, rfl⟩
  · rw [recompute, if_pos same] at computed
    cases computed

theorem version_recompute_of_eq
    (computed : settings.recompute previous target chain policies = .ok outcome)
    (same : outcome.policy.contentHash = previous.contentHash) :
    outcome.policy.version = previous.version := by
  obtain ⟨fresh, _, rfl⟩ := recompute_eq_ok computed
  rw [EffectiveOutcome.contentHash_after] at same
  exact EffectiveOutcome.version_after_of_eq same

theorem version_recompute_of_ne
    (computed : settings.recompute previous target chain policies = .ok outcome)
    (changed : outcome.policy.contentHash ≠ previous.contentHash) :
    outcome.policy.version = EffectivePolicy.nextVersion previous.version := by
  obtain ⟨fresh, _, rfl⟩ := recompute_eq_ok computed
  rw [EffectiveOutcome.contentHash_after] at changed
  exact EffectiveOutcome.version_after_of_ne changed

theorem version_recompute_eq_iff
    (computed : settings.recompute previous target chain policies = .ok outcome)
    (below : previous.version.toNat < Text.wordMax) :
    outcome.policy.version = previous.version
      ↔ outcome.policy.contentHash = previous.contentHash := by
  refine ⟨fun stays => ?_, version_recompute_of_eq computed⟩
  by_contra changed
  have next := EffectivePolicy.toNat_nextVersion below
  rw [← version_recompute_of_ne computed changed, stays] at next
  omega

theorem version_recompute_of_eq_wordMax
    (computed : settings.recompute previous target chain policies = .ok outcome)
    (greatest : previous.version.toNat = Text.wordMax) :
    outcome.policy.version = previous.version := by
  by_cases same : outcome.policy.contentHash = previous.contentHash
  · exact version_recompute_of_eq computed same
  · rw [version_recompute_of_ne computed same]
    exact EffectivePolicy.nextVersion_of_eq_wordMax greatest

end InheritanceSettings

/-! ## Policies on record -/

structure Recomputation where
  settings : InheritanceSettings
  target : ScopeId
  chain : List Scope
  policies : List ScopedPolicy

namespace EffectivePolicy

/-- The policies that are on record in turn, from a stored one on. A computation that fails leaves
the record as it is. -/
def history (stored : EffectivePolicy) : List Recomputation → List EffectivePolicy
  | [] => [stored]
  | call :: rest =>
    match call.settings.recompute stored call.target call.chain call.policies with
    | .error _ => history stored rest
    | .ok outcome => stored :: history outcome.policy rest

variable {first second third : EffectivePolicy}

/-- Whether the version tells the digests of two policies apart, short of the greatest version. -/
def ToldApart (first second : EffectivePolicy) : Prop :=
  first.version = second.version → first.version.toNat < Text.wordMax →
    first.contentHash = second.contentHash

theorem ToldApart.symm (apart : ToldApart first second) : ToldApart second first := by
  intro same below
  rw [same] at below
  exact (apart same.symm below).symm

structure LeadsTo (earlier later : EffectivePolicy) : Prop where
  counts : earlier.version.toNat ≤ later.version.toNat
  apart : ToldApart earlier later

namespace LeadsTo

theorem refl : LeadsTo first first :=
  ⟨le_rfl, fun _ _ => rfl⟩

theorem trans (before : LeadsTo first second) (after : LeadsTo second third) :
    LeadsTo first third := by
  refine ⟨before.counts.trans after.counts, fun same below => ?_⟩
  -- the version in between is the same one
  have between : first.version = second.version := by
    refine UInt64.toNat_inj.mp (le_antisymm before.counts ?_)
    rw [same]
    exact after.counts
  exact (before.apart between below).trans
    (after.apart (between.symm.trans same) (between ▸ below))

theorem of_recompute {settings : InheritanceSettings} {target : ScopeId} {chain : List Scope}
    {policies : List ScopedPolicy} {outcome : EffectiveOutcome}
    (computed : settings.recompute first target chain policies = .ok outcome) :
    LeadsTo first outcome.policy := by
  refine ⟨?_, fun same below =>
    ((InheritanceSettings.version_recompute_eq_iff computed below).mp same.symm).symm⟩
  rcases (Nat.lt_succ_iff.mp first.version.toNat_lt).lt_or_eq with below | greatest
  · by_cases same : outcome.policy.contentHash = first.contentHash
    · rw [InheritanceSettings.version_recompute_of_eq computed same]
    · rw [InheritanceSettings.version_recompute_of_ne computed same, toNat_nextVersion below]
      exact Nat.le_succ _
  · rw [InheritanceSettings.version_recompute_of_eq_wordMax computed greatest]

end LeadsTo

variable {stored : EffectivePolicy}

theorem leadsTo_of_mem_history {calls : List Recomputation} {later : EffectivePolicy}
    (recorded : later ∈ stored.history calls) : LeadsTo stored later := by
  induction calls generalizing stored with
  | nil =>
      rw [List.mem_singleton.mp recorded]
      exact .refl
  | cons call rest ih =>
      rw [history] at recorded
      cases computed : call.settings.recompute stored call.target call.chain call.policies with
      | error problem =>
          rw [computed] at recorded
          exact ih recorded
      | ok outcome =>
          rw [computed] at recorded
          rcases List.mem_cons.mp recorded with rfl | recorded
          · exact .refl
          · exact (LeadsTo.of_recompute computed).trans (ih recorded)

theorem pairwise_history {calls : List Recomputation} :
    (stored.history calls).Pairwise LeadsTo := by
  induction calls generalizing stored with
  | nil => exact List.pairwise_singleton _ _
  | cons call rest ih =>
      rw [history]
      cases computed : call.settings.recompute stored call.target call.chain call.policies with
      | error problem => exact ih
      | ok outcome =>
          exact List.pairwise_cons.mpr ⟨fun later recorded =>
            (LeadsTo.of_recompute computed).trans (leadsTo_of_mem_history recorded), ih⟩

theorem toldApart_of_mem_history {calls : List Recomputation} {earlier later : EffectivePolicy}
    (recorded : earlier ∈ stored.history calls) (recorded' : later ∈ stored.history calls) :
    ToldApart earlier later := by
  have inOrder : (stored.history calls).Pairwise ToldApart := pairwise_history.imp LeadsTo.apart
  have inReverse : (stored.history calls).Pairwise (flip ToldApart) := inOrder.imp ToldApart.symm
  exact inOrder.forall_of_forall_of_flip (fun _ _ _ _ => rfl) inReverse recorded recorded'

/-- A policy that is computed again keeps its version exactly if it keeps its digest, and takes the
next version otherwise, as long as there is a next version. No two policies that a run puts on
record have the same version, short of the greatest one, and different digests. -/
theorem version_counts_changes (previous : EffectivePolicy) :
    (∀ (settings : InheritanceSettings) (target : ScopeId) (chain : List Scope)
      (policies : List ScopedPolicy) (outcome : EffectiveOutcome),
      settings.recompute previous target chain policies = .ok outcome →
        (previous.version.toNat < Text.wordMax →
          (outcome.policy.version = previous.version
            ↔ outcome.policy.contentHash = previous.contentHash) ∧
          (outcome.policy.contentHash ≠ previous.contentHash →
            outcome.policy.version.toNat = previous.version.toNat + 1)) ∧
        (previous.version.toNat = Text.wordMax → outcome.policy.version = previous.version)) ∧
    ∀ calls, ∀ earlier ∈ previous.history calls, ∀ later ∈ previous.history calls,
      earlier.version = later.version → earlier.version.toNat < Text.wordMax →
        earlier.contentHash = later.contentHash := by
  refine ⟨fun settings target chain policies outcome computed => ⟨fun below => ⟨?_, ?_⟩, ?_⟩,
    fun calls earlier recorded later recorded' => toldApart_of_mem_history recorded recorded'⟩
  · exact InheritanceSettings.version_recompute_eq_iff computed below
  · intro changed
    rw [InheritanceSettings.version_recompute_of_ne computed changed, toNat_nextVersion below]
  · exact InheritanceSettings.version_recompute_of_eq_wordMax computed

/-! ### The approvals of a company -/

open InheritanceSettings (companyScope companyApprovals applicationOrder_companyScope)

theorem compute_companyApprovals : ∃ outcome,
    InheritanceSettings.compute {} companyScope.id [companyScope] [companyApprovals]
      = .ok outcome := by
  obtain ⟨state, applied, settled, free⟩ : ∃ state,
      InheritanceSettings.applyAll {} [companyApprovals] {} = .ok state ∧
        state.incompatible? = none ∧ state.document.floatFree = true :=
    ⟨_, rfl, by decide, by decide⟩
  obtain ⟨outcome, computed, _⟩ := @InheritanceSettings.compute_of_applyAll {} companyScope.id
    [companyScope] [companyApprovals] _ _ (by decide) (applicationOrder_companyScope rfl) applied
    settled free
  exact ⟨outcome, computed⟩

def storedApprovals (byte : UInt8) (version : UInt64) : EffectivePolicy where
  scope := companyScope.id
  values := .obj [("min_approvals", .int 2)]
  provenance := {}
  contentHash := ⟨List.replicate 32 byte, List.length_replicate⟩
  version

theorem version_storedApprovals {byte : UInt8} {version : UInt64} :
    (storedApprovals byte version).version = version :=
  rfl

theorem exists_contentHash_ne (digest : ContentDigest) (version : UInt64) :
    ∃ byte, digest ≠ (storedApprovals byte version).contentHash := by
  by_contra same
  push Not at same
  have clash := (same 0).symm.trans (same 1)
  simp [storedApprovals] at clash

theorem recompute_storedApprovals (version : UInt64) : ∃ byte outcome,
    InheritanceSettings.recompute {} (storedApprovals byte version) companyScope.id [companyScope]
        [companyApprovals] = .ok outcome ∧
      outcome.policy.contentHash ≠ (storedApprovals byte version).contentHash := by
  obtain ⟨fresh, computed⟩ := compute_companyApprovals
  obtain ⟨byte, changed⟩ := exists_contentHash_ne fresh.policy.contentHash version
  refine ⟨byte, fresh.after (storedApprovals byte version), ?_, changed⟩
  have same : (storedApprovals byte version).scope = companyScope.id := rfl
  rw [InheritanceSettings.recompute_eq_map same, computed]
  rfl

theorem version_counts_changes_storedApprovals : ∃ byte outcome,
    InheritanceSettings.recompute {} (storedApprovals byte 7) companyScope.id [companyScope]
        [companyApprovals] = .ok outcome ∧
      outcome.policy.version.toNat = 8 := by
  obtain ⟨byte, outcome, computed, changed⟩ := recompute_storedApprovals 7
  obtain ⟨step, _⟩ := version_counts_changes (storedApprovals byte 7)
  obtain ⟨next, _⟩ := step {} companyScope.id [companyScope] [companyApprovals] outcome computed
  rw [version_storedApprovals] at next
  exact ⟨byte, outcome, computed, (next (by decide)).2 changed⟩

/-- The digest can change under the greatest version. -/
theorem greatest_version_stays : ¬ ∀ previous : EffectivePolicy,
    (∀ (settings : InheritanceSettings) (target : ScopeId) (chain : List Scope)
      (policies : List ScopedPolicy) (outcome : EffectiveOutcome),
      settings.recompute previous target chain policies = .ok outcome →
        (outcome.policy.version = previous.version
          ↔ outcome.policy.contentHash = previous.contentHash) ∧
        (outcome.policy.contentHash ≠ previous.contentHash →
          outcome.policy.version.toNat = previous.version.toNat + 1)) ∧
    ∀ calls, ∀ earlier ∈ previous.history calls, ∀ later ∈ previous.history calls,
      earlier.version = later.version → earlier.contentHash = later.contentHash := by
  intro tracks
  obtain ⟨byte, outcome, computed, changed⟩ := recompute_storedApprovals 18446744073709551615
  obtain ⟨step, _⟩ := tracks (storedApprovals byte 18446744073709551615)
  have greatest : (storedApprovals byte 18446744073709551615).version.toNat = Text.wordMax := rfl
  have stays := InheritanceSettings.version_recompute_of_eq_wordMax computed greatest
  exact changed ((step _ _ _ _ _ computed).1.mp stays)

end EffectivePolicy

end Governance
