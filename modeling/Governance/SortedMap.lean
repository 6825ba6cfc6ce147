/-!
# Maps in key order

Finite maps whose entries are listed in strictly ascending key order, so that two maps with the
same look-ups are the same value. The operations on bare entry lists come first, because the
members of a JSON object are such a list without the proof.
-/

set_option autoImplicit false

namespace Governance

class KeyOrder (κ : Type) extends LT κ where
  irrefl : ∀ a : κ, ¬ a < a
  trans : ∀ {a b c : κ}, a < b → b < c → a < c
  total : ∀ {a b : κ}, ¬ a < b → ¬ b < a → a = b

instance : KeyOrder String where
  irrefl := String.lt_irrefl
  trans := String.lt_trans
  total := fun notLess notGreater =>
    String.le_antisymm (String.not_lt.mp notGreater) (String.not_lt.mp notLess)

instance {κ : Type} [order : KeyOrder κ] : KeyOrder (List κ) where
  lt := List.Lex (· < ·)
  irrefl := by
    intro a
    induction a with
    | nil => exact fun less => nomatch less
    | cons head rest ih =>
        intro less
        cases less with
        | cons tail => exact ih tail
        | rel smaller => exact order.irrefl _ smaller
  trans := by
    intro a b c
    induction a generalizing b c with
    | nil =>
        intro _ right
        cases right with
        | nil => exact .nil
        | cons _ => exact .nil
        | rel _ => exact .nil
    | cons head rest ih =>
        intro left right
        cases left with
        | cons tail =>
            cases right with
            | cons tail' => exact .cons (ih tail tail')
            | rel smaller => exact .rel smaller
        | rel smaller =>
            cases right with
            | cons _ => exact .rel smaller
            | rel smaller' => exact .rel (order.trans smaller smaller')
  total := by
    intro a
    induction a with
    | nil =>
        intro b notLess _
        cases b with
        | nil => rfl
        | cons _ _ => exact absurd .nil notLess
    | cons head rest ih =>
        intro b notLess notGreater
        cases b with
        | nil => exact absurd .nil notGreater
        | cons head' rest' =>
            have same : head = head' :=
              order.total (fun less => notLess (.rel less)) (fun less => notGreater (.rel less))
            subst same
            rw [ih (fun less => notLess (.cons less)) (fun less => notGreater (.cons less))]

instance decidableListLT {κ : Type} [KeyOrder κ] [DecidableEq κ] [DecidableLT κ] :
    DecidableLT (List κ) :=
  List.decidableLT

/-! ## Entry lists -/

namespace Entries

variable {κ ν : Type}

def find? [DecidableEq κ] (key : κ) : List (κ × ν) → Option ν
  | [] => none
  | (candidate, value) :: rest => if candidate = key then some value else find? key rest

/-- Puts a value under a key, in front of the first greater key and in place of an equal one. -/
def put [LT κ] [DecidableLT κ] (key : κ) (value : ν) : List (κ × ν) → List (κ × ν)
  | [] => [(key, value)]
  | (candidate, old) :: rest =>
    if key < candidate then (key, value) :: (candidate, old) :: rest
    else if candidate < key then (candidate, old) :: put key value rest
    else (key, value) :: rest

def erase [DecidableEq κ] (key : κ) (entries : List (κ × ν)) : List (κ × ν) :=
  entries.filter fun entry => entry.1 ≠ key

def Ascending [LT κ] (entries : List (κ × ν)) : Prop :=
  entries.Pairwise fun earlier later => earlier.1 < later.1

theorem mem_put [LT κ] [DecidableLT κ] {key : κ} {value : ν} {entry : κ × ν}
    {entries : List (κ × ν)} (member : entry ∈ put key value entries) :
    entry = (key, value) ∨ entry ∈ entries := by
  induction entries with
  | nil => exact .inl (List.mem_singleton.mp member)
  | cons head rest ih =>
      obtain ⟨candidate, old⟩ := head
      simp only [put] at member
      split at member
      · simpa only [List.mem_cons] using member
      · split at member
        · rcases List.mem_cons.mp member with same | later
          · exact .inr (same ▸ List.mem_cons_self)
          · exact (ih later).imp id (List.mem_cons_of_mem _)
        · rcases List.mem_cons.mp member with same | later
          · exact .inl same
          · exact .inr (List.mem_cons_of_mem _ later)

theorem put_ascending [order : KeyOrder κ] [DecidableLT κ] {key : κ} {value : ν}
    {entries : List (κ × ν)} (ascending : Ascending entries) :
    Ascending (put key value entries) := by
  induction entries with
  | nil => exact List.pairwise_singleton _ _
  | cons head rest ih =>
      obtain ⟨candidate, old⟩ := head
      obtain ⟨first, others⟩ := List.pairwise_cons.mp ascending
      simp only [put]
      split
      · rename_i less
        refine List.pairwise_cons.mpr ⟨fun entry member => ?_, ascending⟩
        rcases List.mem_cons.mp member with same | later
        · exact same ▸ less
        · exact order.trans less (first entry later)
      · split
        · rename_i greater
          refine List.pairwise_cons.mpr ⟨fun entry member => ?_, ih others⟩
          rcases mem_put member with same | later
          · exact same ▸ greater
          · exact first entry later
        · rename_i notLess notGreater
          have same : key = candidate := order.total notLess notGreater
          subst same
          exact List.pairwise_cons.mpr ⟨first, others⟩

theorem erase_ascending [LT κ] [DecidableEq κ] {key : κ} {entries : List (κ × ν)}
    (ascending : Ascending entries) : Ascending (erase key entries) :=
  List.Pairwise.sublist List.filter_sublist ascending

end Entries

/-! ## Maps -/

structure SortedMap (κ ν : Type) [KeyOrder κ] where
  entries : List (κ × ν)
  ascending : Entries.Ascending entries

namespace SortedMap

variable {κ ν : Type} [KeyOrder κ]

def empty : SortedMap κ ν := ⟨[], List.Pairwise.nil⟩

instance : EmptyCollection (SortedMap κ ν) := ⟨empty⟩

instance : Inhabited (SortedMap κ ν) := ⟨empty⟩

instance [DecidableEq κ] [DecidableEq ν] : DecidableEq (SortedMap κ ν) := fun left right =>
  match left, right with
  | ⟨entries, _⟩, ⟨entries', _⟩ =>
    if same : entries = entries' then isTrue (by subst same; rfl)
    else isFalse fun equal => same (congrArg SortedMap.entries equal)

def find? [DecidableEq κ] (map : SortedMap κ ν) (key : κ) : Option ν :=
  Entries.find? key map.entries

def contains [DecidableEq κ] (map : SortedMap κ ν) (key : κ) : Bool :=
  (map.find? key).isSome

def insert [DecidableLT κ] (map : SortedMap κ ν) (key : κ) (value : ν) : SortedMap κ ν :=
  ⟨Entries.put key value map.entries, Entries.put_ascending map.ascending⟩

def erase [DecidableEq κ] (map : SortedMap κ ν) (key : κ) : SortedMap κ ν :=
  ⟨Entries.erase key map.entries, Entries.erase_ascending map.ascending⟩

def filter (map : SortedMap κ ν) (keep : κ → ν → Bool) : SortedMap κ ν :=
  ⟨map.entries.filter fun entry => keep entry.1 entry.2,
    List.Pairwise.sublist List.filter_sublist map.ascending⟩

def map {μ : Type} (map : SortedMap κ ν) (change : ν → μ) : SortedMap κ μ :=
  ⟨map.entries.map fun entry => (entry.1, change entry.2),
    List.pairwise_map.mpr (map.ascending.imp id)⟩

def ofList [DecidableLT κ] (entries : List (κ × ν)) : SortedMap κ ν :=
  entries.foldl (fun map entry => map.insert entry.1 entry.2) empty

def keys (map : SortedMap κ ν) : List κ := map.entries.map Prod.fst

def keysFrom [DecidableLT κ] (map : SortedMap κ ν) (first : κ) : List κ :=
  map.keys.dropWhile (· < first)

def values (map : SortedMap κ ν) : List ν := map.entries.map Prod.snd

def size (map : SortedMap κ ν) : Nat := map.entries.length

def isEmpty (map : SortedMap κ ν) : Bool := map.entries.isEmpty

end SortedMap

end Governance
