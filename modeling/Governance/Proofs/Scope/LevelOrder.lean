import Governance.Proofs.Scope.Descendants

/-!
# The order of a walk down

The scopes under a scope are listed level by level: the scope itself first, every other one behind
its parent, nearer scopes before farther ones, and the scopes directly below one scope next to each
other. The walk that lists them needs no bound on its visits.
-/

set_option autoImplicit false

namespace Governance.ScopeTree

inductive Distance (tree : ScopeTree) (top : ScopeId) : ScopeId → Nat → Prop where
  | self {scope : Scope} : tree.find? top = some scope → Distance tree top top 0
  | child {id parent : ScopeId} {scope : Scope} {links : Nat} : tree.find? id = some scope →
      scope.parent = some parent → Distance tree top parent links →
      Distance tree top id (links + 1)

/-- What the order of the scopes under a scope satisfies. -/
structure LevelOrder (tree : ScopeTree) (top : ScopeId) (order : List ScopeId) : Prop where
  walked : tree.Walk [top] order
  distinct : order.Nodup
  complete : ∀ id, id ∈ order ↔
    ∃ chain, tree.ancestorChain id = .ok chain ∧ top ∈ chain.map Scope.id
  first : order.head? = some top
  parentFirst : ∀ id ∈ order, id ≠ top → ∃ scope parent,
    tree.find? id = some scope ∧ scope.parent = some parent ∧ [parent, id].Sublist order
  measured : ∀ id ∈ order, ∃! links, tree.Distance top id links
  levels : order.Pairwise fun earlier later => ∀ near far,
    tree.Distance top earlier near → tree.Distance top later far → near ≤ far
  siblings : ∀ parent ∈ order, ∃ front group back, order = front ++ group ++ back ∧
    group.Pairwise (· < ·) ∧
    ∀ id, id ∈ group ↔ ∃ scope, tree.find? id = some scope ∧ scope.parent = some parent

variable {tree : ScopeTree} {top : ScopeId}

/-! ## Distances -/

theorem Distance.under {id : ScopeId} {links : Nat} (distance : tree.Distance top id links) :
    tree.Under top id := by
  induction distance with
  | self found => exact .self found
  | child found named _ ih => exact .child found named ih

theorem Under.exists_distance {id : ScopeId} (under : tree.Under top id) :
    ∃ links, tree.Distance top id links := by
  induction under with
  | self found => exact ⟨0, .self found⟩
  | child found named _ ih =>
      obtain ⟨links, distance⟩ := ih
      exact ⟨links + 1, .child found named distance⟩

theorem Under.not_child (formed : tree.Formed) {parent : ScopeId} (under : tree.Under top parent)
    {scope : Scope} (found : tree.find? top = some scope) : scope.parent ≠ some parent := by
  intro named
  obtain ⟨above, stored, higher⟩ := formed.linked _ _ _ found named
  exact Nat.not_le_of_lt higher (under.depth_le formed stored found)

theorem Distance.unique (formed : tree.Formed) {id : ScopeId} {links other : Nat}
    (distance : tree.Distance top id links) (distance' : tree.Distance top id other) :
    links = other := by
  induction distance generalizing other with
  | self found =>
      cases distance' with
      | self => rfl
      | child found' named above => exact absurd named (above.under.not_child formed found')
  | child found named above ih =>
      cases distance' with
      | self found' => exact absurd named (above.under.not_child formed found)
      | child found' named' above' =>
          cases found.symm.trans found'
          cases named.symm.trans named'
          rw [ih above']

theorem exists_distances (tree : ScopeTree) (top : ScopeId) : ∃ distance : ScopeId → Nat,
    ∀ id, tree.Under top id → tree.Distance top id (distance id) := by
  have total : ∀ id, ∃ links, tree.Under top id → tree.Distance top id links := by
    intro id
    by_cases under : tree.Under top id
    · exact under.exists_distance.imp fun _ distance _ => distance
    · exact ⟨0, fun above => absurd above under⟩
  exact Classical.skolem.mp total

/-! ## Levels on the way -/

/-- How far a walk down has listed scopes in order: the waiting scopes span two levels at most. -/
structure Leveled (tree : ScopeTree) (top : ScopeId) (distance : ScopeId → Nat)
    (visited waiting : List ScopeId) : Prop extends tree.Frontier top visited waiting where
  first : (visited ++ waiting).head? = some top
  parentFirst : ∀ id ∈ visited ++ waiting, id ≠ top →
    ∃ parent, id ∈ tree.childIds parent ∧ [parent, id].Sublist (visited ++ waiting)
  levels : (visited ++ waiting).Pairwise fun earlier later => distance earlier ≤ distance later
  spread : ∀ near ∈ waiting, ∀ far ∈ waiting, distance far ≤ distance near + 1
  siblings : ∀ parent ∈ visited, tree.childIds parent <:+: visited ++ waiting

variable {distance : ScopeId → Nat}

theorem leveled_start {scope : Scope} (found : tree.find? top = some scope) :
    tree.Leveled top distance [] [top] := by
  refine ⟨frontier_start found, rfl, fun id listed different => ?_, List.pairwise_singleton _ _,
    fun near listed far listed' => ?_, List.forall_mem_nil _⟩
  · exact absurd (List.mem_singleton.mp listed) different
  · cases List.mem_singleton.mp listed
    cases List.mem_singleton.mp listed'
    exact Nat.le_succ _

section Visit

variable {id : ScopeId} {visited waiting : List ScopeId}

theorem Leveled.distance_child (formed : tree.Formed)
    (measured : ∀ id, tree.Under top id → tree.Distance top id (distance id))
    (leveled : tree.Leveled top distance visited (id :: waiting)) :
    ∀ child ∈ tree.childIds id, distance child = distance id + 1 := by
  intro child below
  obtain ⟨scope, found, named⟩ := (formed.below _ _).mp below
  have under := leveled.under id (List.mem_append_right _ List.mem_cons_self)
  exact (measured child (.child found named under)).unique formed
    (.child found named (measured id under))

/-- No listed scope is farther away than the scopes directly below the first waiting one. -/
theorem Leveled.distance_le (leveled : tree.Leveled top distance visited (id :: waiting)) :
    ∀ other ∈ visited ++ id :: waiting, distance other ≤ distance id + 1 := by
  intro other listed
  rcases List.mem_append.mp listed with done | waits
  · have near := (List.pairwise_append.mp leveled.levels).2.2 other done id List.mem_cons_self
    exact Nat.le_succ_of_le near
  · exact leveled.spread id List.mem_cons_self other waits

theorem Leveled.visit (formed : tree.Formed)
    (measured : ∀ id, tree.Under top id → tree.Distance top id (distance id))
    (leveled : tree.Leveled top distance visited (id :: waiting)) :
    tree.Leveled top distance (visited ++ [id]) (waiting ++ tree.childIds id) := by
  have farther := leveled.distance_child formed measured
  have nearest : ∀ other ∈ waiting, distance id ≤ distance other :=
    (List.pairwise_cons.mp (List.pairwise_append.mp leveled.levels).2.1).1
  have waits : ∀ other ∈ waiting, distance other ≤ distance id + 1 := fun other listed =>
    leveled.spread id List.mem_cons_self other (List.mem_cons_of_mem _ listed)
  have listing : (visited ++ [id]) ++ (waiting ++ tree.childIds id)
      = (visited ++ id :: waiting) ++ tree.childIds id := by simp
  refine ⟨leveled.toFrontier.visit formed, ?_, ?_, ?_, ?_, ?_⟩
  · rw [listing, List.head?_append, leveled.first, Option.some_or]
  · rw [listing]
    intro other listed different
    rcases List.mem_append.mp listed with old | below
    · obtain ⟨parent, below, behind⟩ := leveled.parentFirst other old different
      exact ⟨parent, below, behind.trans (List.sublist_append_left _ _)⟩
    · have before : [id].Sublist (visited ++ id :: waiting) :=
        List.singleton_sublist.mpr (List.mem_append_right _ List.mem_cons_self)
      exact ⟨id, below, before.append (List.singleton_sublist.mpr below)⟩
  · -- children come behind all that is listed, and nothing listed is farther away than they are
    rw [listing]
    refine List.pairwise_append.mpr ⟨leveled.levels, List.pairwise_of_forall_mem_list ?_, ?_⟩
    · intro child below child' below'
      exact Nat.le_of_eq ((farther child below).trans (farther child' below').symm)
    · intro other listed child below
      rw [farther child below]
      exact leveled.distance_le other listed
  · -- what waited lies between the visited scope and its children
    intro near listed far listed'
    rcases List.mem_append.mp listed with old | below
    · have lower := nearest near old
      rcases List.mem_append.mp listed' with old' | below'
      · have upper := waits far old'
        omega
      · rw [farther far below']
        omega
    · rw [farther near below]
      rcases List.mem_append.mp listed' with old' | below'
      · have upper := waits far old'
        omega
      · rw [farther far below']
        omega
  · rw [listing]
    intro parent done
    rcases List.mem_append.mp done with earlier | last
    · exact (leveled.siblings parent earlier).trans (List.prefix_append _ _).isInfix
    · cases List.mem_singleton.mp last
      exact (List.suffix_append _ _).isInfix

end Visit

theorem Walk.leveled (formed : tree.Formed)
    (measured : ∀ id, tree.Under top id → tree.Distance top id (distance id))
    {visited waiting rest : List ScopeId} (walk : tree.Walk waiting rest)
    (leveled : tree.Leveled top distance visited waiting) :
    tree.Leveled top distance (visited ++ rest) [] := by
  induction walk generalizing visited with
  | done => rwa [List.append_nil]
  | visit _ ih =>
      have later := ih (leveled.visit formed measured)
      rwa [List.append_assoc, List.singleton_append] at later

/-! ## The whole order -/

theorem under_iff_ancestorChain (formed : tree.Formed) {id : ScopeId} :
    tree.Under top id ↔
      ∃ chain, tree.ancestorChain id = .ok chain ∧ top ∈ chain.map Scope.id := by
  cases stored : tree.find? id with
  | none =>
      refine ⟨fun under => ?_, fun ⟨chain, found, _⟩ => ?_⟩
      · obtain ⟨scope, found⟩ := under.stored
        cases found.symm.trans stored
      · cases found.symm.trans (ancestorChain_eq_error stored)
  | some scope =>
      obtain ⟨chain, up, _, climbed⟩ := formed.chainAbove stored
      have found : tree.ancestorChain id = .ok chain := climbed _ (Nat.le_refl _)
      simp only [found, Except.ok.injEq, exists_eq_left']
      exact under_iff_mem_chain formed up

/-- The order of the scopes that are computed again after a change. -/
theorem ofList_levelOrder {list : List Scope} (built : ofList list = .ok tree) {scope : Scope}
    (found : tree.find? top = some scope) :
    ∃ order, tree.invalidationOrder top = .ok order ∧ tree.LevelOrder top order := by
  have formed := (ofList_eq_ok built).1
  obtain ⟨order, listed, distinct, members⟩ := invalidationOrder_eq_ok formed found
  obtain rfl := Except.ok.inj ((invalidationOrder_of_find? found).symm.trans listed)
  obtain ⟨distance, measured⟩ := exists_distances tree top
  have walk := walk_visit formed found
  obtain ⟨_, first, parentFirst, levels, _, siblings⟩ :=
    walk.leveled formed measured (leveled_start found)
  simp only [List.nil_append, List.append_nil] at first parentFirst levels siblings
  have unique : ∀ id ∈ tree.visit tree.size [top], ∀ links, tree.Distance top id links →
      links = distance id := fun id visited links distance' =>
    distance'.unique formed (measured id ((members id).mp visited))
  refine ⟨_, listed, walk, distinct, fun id => ?_, first, ?_, ?_, ?_, ?_⟩
  · exact (members id).trans (under_iff_ancestorChain formed)
  · intro id visited different
    obtain ⟨parent, below, behind⟩ := parentFirst id visited different
    obtain ⟨scope, stored, named⟩ := (formed.below _ _).mp below
    exact ⟨scope, parent, stored, named, behind⟩
  · intro id visited
    exact ⟨distance id, measured id ((members id).mp visited), unique id visited⟩
  · refine levels.imp_of_mem fun visited visited' nearer near far distance' distance'' => ?_
    rw [unique _ visited near distance', unique _ visited' far distance'']
    exact nearer
  · intro parent visited
    obtain ⟨front, back, split⟩ := siblings parent visited
    exact ⟨front, tree.childIds parent, back, split.symm, ascending_childIds parent,
      fun id => formed.below parent id⟩

def regionalScopes : List Scope :=
  [{ id := ⟨"alpha", by decide⟩, type := .brand, parent := some ⟨"west", by decide⟩,
     location := "" },
   { id := ⟨"beta", by decide⟩, type := .country, parent := some ⟨"east", by decide⟩,
     location := "" },
   { id := ⟨"west", by decide⟩, type := .region, parent := some ⟨"world", by decide⟩,
     location := "" },
   { id := ⟨"world", by decide⟩, type := .enterprise, parent := none, location := "" },
   { id := ⟨"east", by decide⟩, type := .region, parent := some ⟨"world", by decide⟩,
     location := "" }]

theorem ofList_levelOrder_regionalScopes :
    ∃ tree order, ofList regionalScopes = .ok tree ∧
      tree.invalidationOrder ⟨"world", by decide⟩ = .ok order ∧
      order.map Identifier.text = ["world", "east", "west", "beta", "alpha"] ∧
      tree.LevelOrder ⟨"world", by decide⟩ order := by
  obtain ⟨tree, built⟩ : ∃ tree, ofList regionalScopes = .ok tree := ⟨_, rfl⟩
  obtain ⟨scope, found⟩ := find?_of_mem built
    (show (⟨"world", by decide⟩ : ScopeId) ∈ regionalScopes.map Scope.id by decide)
  obtain ⟨order, walked, leveled⟩ := ofList_levelOrder built found
  refine ⟨tree, order, built, walked, ?_, leveled⟩
  cases built
  cases walked
  decide

end Governance.ScopeTree
