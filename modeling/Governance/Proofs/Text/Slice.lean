import Governance.Proofs.Text.Split

/-!
# Cutting at byte places

Places in a text count its bytes. A text can be cut at a place only if the place is not behind its
end and not within a character.
-/

set_option autoImplicit false

namespace Governance.Text

def size : List Char → Nat
  | [] => 0
  | c :: rest => c.utf8Size + size rest

@[simp] theorem size_nil : size [] = 0 := rfl

@[simp] theorem size_cons (c : Char) (rest : List Char) :
    size (c :: rest) = c.utf8Size + size rest := rfl

@[simp] theorem size_append (front back : List Char) : size (front ++ back) = size front + size back := by
  induction front with
  | nil => rw [List.nil_append, size_nil, Nat.zero_add]
  | cons c front ih => rw [List.cons_append, size_cons, size_cons, ih, Nat.add_assoc]

theorem eq_nil_of_size_eq_zero {text : List Char} (empty : size text = 0) : text = [] := by
  cases text with
  | nil => rfl
  | cons c rest =>
      have positive := c.utf8Size_pos
      rw [size_cons] at empty
      omega

def cut? : Nat → List Char → Option (List Char × List Char)
  | 0, text => some ([], text)
  | _ + 1, [] => none
  | place + 1, c :: rest =>
    if c.utf8Size ≤ place + 1 then
      (cut? (place + 1 - c.utf8Size) rest).map fun (front, back) => (c :: front, back)
    else none

def slice? (start stop : Nat) (text : List Char) : Option (List Char) :=
  if start ≤ stop then do
    let (_, rest) ← cut? start text
    let (piece, _) ← cut? (stop - start) rest
    some piece
  else none

def placeOf? (c : Char) : List Char → Option Nat
  | [] => none
  | d :: rest => if d = c then some 0 else (placeOf? c rest).map (d.utf8Size + ·)

/-! ## Cuts -/

theorem cut?_append (front back : List Char) : cut? (size front) (front ++ back) = some (front, back) := by
  induction front with
  | nil =>
      rw [size_nil, List.nil_append]
      unfold cut?
      rfl
  | cons c front ih =>
      have positive := c.utf8Size_pos
      obtain ⟨place, shape⟩ : ∃ place, size (c :: front) = place + 1 :=
        Nat.exists_eq_add_one.mpr (by rw [size_cons]; omega)
      have fits : c.utf8Size ≤ place + 1 := by rw [← shape, size_cons]; omega
      have left : place + 1 - c.utf8Size = size front := by rw [← shape, size_cons]; omega
      rw [shape, List.cons_append, cut?, if_pos fits, left, ih]
      rfl

theorem cut?_eq_some_iff {place : Nat} {text front back : List Char} :
    cut? place text = some (front, back) ↔ text = front ++ back ∧ size front = place := by
  constructor
  · intro parts
    fun_induction cut? place text generalizing front back with
    | case1 text =>
        cases parts
        exact ⟨rfl, rfl⟩
    | case2 => cases parts
    | case3 place c rest fits ih =>
        obtain ⟨⟨front', back'⟩, inner, shape⟩ := Option.map_eq_some_iff.mp parts
        cases shape
        obtain ⟨rfl, sized⟩ := ih inner
        refine ⟨rfl, ?_⟩
        rw [size_cons, sized]
        omega
    | case4 => cases parts
  · rintro ⟨rfl, rfl⟩
    exact cut?_append front back

/-! ## Slices -/

theorem slice?_eq_some_iff {start stop : Nat} {text piece : List Char} :
    slice? start stop text = some piece ↔
      ∃ front back, text = front ++ piece ++ back ∧ size front = start ∧
        size front + size piece = stop := by
  constructor
  · intro sliced
    unfold slice? at sliced
    split at sliced
    · rename_i ordered
      obtain ⟨⟨front, rest⟩, first, sliced⟩ := Option.bind_eq_some_iff.mp sliced
      obtain ⟨⟨piece', back⟩, second, same⟩ := Option.bind_eq_some_iff.mp sliced
      cases same
      obtain ⟨rfl, rfl⟩ := cut?_eq_some_iff.mp first
      obtain ⟨rfl, sized⟩ := cut?_eq_some_iff.mp second
      refine ⟨front, back, (List.append_assoc ..).symm, rfl, ?_⟩
      omega
    · cases sliced
  · rintro ⟨front, back, rfl, rfl, rfl⟩
    unfold slice?
    rw [if_pos (Nat.le_add_right _ _), Nat.add_sub_cancel_left, List.append_assoc, cut?_append]
    simp [cut?_append]

theorem slice?_behind (front rest : List Char) (count : Nat) :
    slice? (size front) (size front + count) (front ++ rest) = (cut? count rest).map Prod.fst := by
  unfold slice?
  rw [if_pos (Nat.le_add_right _ _), Nat.add_sub_cancel_left, cut?_append]
  simp only [Option.bind_eq_bind, Option.bind_some]
  cases cut? count rest <;> rfl

/-! ## Places of characters -/

theorem placeOf?_of_not_mem {c : Char} {text : List Char} (absent : c ∉ text) :
    placeOf? c text = none := by
  induction text with
  | nil => rfl
  | cons d rest ih =>
      rw [placeOf?, if_neg (Ne.symm (List.ne_of_not_mem_cons absent)),
        ih (List.not_mem_of_not_mem_cons absent)]
      rfl

theorem placeOf?_append {c : Char} {front : List Char} (absent : c ∉ front) (back : List Char) :
    placeOf? c (front ++ c :: back) = some (size front) := by
  induction front with
  | nil => rw [List.nil_append, placeOf?, if_pos rfl, size_nil]
  | cons d front ih =>
      rw [List.cons_append, placeOf?, if_neg (Ne.symm (List.ne_of_not_mem_cons absent)),
        ih (List.not_mem_of_not_mem_cons absent)]
      rfl

end Governance.Text
