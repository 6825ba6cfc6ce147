import Governance.Canonical
import Governance.Proofs.Json.Reading
import Governance.Proofs.Text.Split

/-!
# Canonical texts are told apart

Canonical text needs no separators of its own: where two values without floats are written in front
of something that does not go on with a digit, the texts agree only if they end at the same place.
So the text of an array determines the texts of its elements, and the text of an object determines
its members up to their order.
-/

set_option autoImplicit false

namespace Governance.Canonical

/-! ## Companions on lists -/

theorem itemTexts_eq_map (items : List Json) : itemTexts items = items.map text := by
  induction items with
  | nil => rfl
  | cons item rest ih => rw [itemTexts, ih, List.map_cons]

theorem memberTexts_eq_map (members : List (String × Json)) :
    memberTexts members = members.map fun member => (Json.quoted member.1, text member.2) := by
  induction members with
  | nil => rfl
  | cons member rest ih => rw [memberTexts, ih, List.map_cons]

def sortedTexts (members : List (String × Json)) : List (String × String) :=
  (memberTexts members).mergeSort fun a b => decide (a.1 ≤ b.1)

theorem sortedTexts_perm (members : List (String × Json)) :
    (sortedTexts members).Perm (memberTexts members) :=
  List.mergeSort_perm _ _

def memberWord (member : String × String) : List Char :=
  member.1.toList ++ ':' :: member.2.toList

theorem toList_text_arr (items : List Json) :
    (text (.arr items)).toList
      = '[' :: ([','].intercalate ((items.map text).map String.toList) ++ [']']) := by
  simp [text, itemTexts_eq_map, String.toList_intercalate]

theorem toList_text_obj (members : List (String × Json)) :
    (text (.obj members)).toList
      = '\x7b' :: ([','].intercalate ((sortedTexts members).map memberWord) ++ ['\x7d']) := by
  simp [text, sortedTexts, String.toList_intercalate, Function.comp_def,
    show memberWord = fun member => member.1.toList ++ ':' :: member.2.toList from rfl]

/-! ## First characters -/

def kind : Json → Nat
  | .null => 0
  | .bool _ => 1
  | .int _ => 2
  | .float _ => 3
  | .str _ => 4
  | .arr _ => 5
  | .obj _ => 6

/-- The kind of the values whose texts begin with a character; no text begins with a closing
bracket. -/
def kindOf (c : Char) : Nat :=
  if c = 'n' then 0
  else if c = 't' ∨ c = 'f' then 1
  else if c = '"' then 4
  else if c = '[' then 5
  else if c = '\x7b' then 6
  else if c = ']' ∨ c = '\x7d' then 7
  else 2

theorem kindOf_of_isDigit {c : Char} (digit : c.isDigit = true) : kindOf c = 2 := by
  have apart : ∀ d : Char, d.isDigit = false → c ≠ d := by
    intro d noDigit equal
    subst equal
    simp [digit] at noDigit
  simp [kindOf, apart]

theorem isDigit_of_mem_toDigits {number : Nat} {c : Char} (member : c ∈ Nat.toDigits 10 number) :
    c.isDigit = true :=
  Nat.isDigit_of_mem_toDigits (by decide) (by decide) member

theorem digits_ne_sign (number : Nat) (rest others : List Char) :
    Nat.toDigits 10 number ++ rest ≠ '-' :: others := by
  intro same
  obtain ⟨c, more, shape⟩ := List.exists_cons_of_ne_nil
    (Nat.toDigits_ne_nil (n := number) (b := 10))
  have digit := isDigit_of_mem_toDigits (shape ▸ List.mem_cons_self : c ∈ Nat.toDigits 10 number)
  rw [shape, List.cons_append, List.cons.injEq] at same
  rw [same.1] at digit
  cases digit

theorem toDigits_injective {number other : Nat}
    (same : Nat.toDigits 10 number = Nat.toDigits 10 other) : number = other := by
  rw [← Nat.ofDigitChars_ten_toDigits (n := number), same, Nat.ofDigitChars_ten_toDigits]

theorem exists_first {value : Json} (free : value.floatFree = true) :
    ∃ c rest, (text value).toList = c :: rest ∧ kindOf c = kind value := by
  cases value with
  | null => exact ⟨'n', _, rfl, rfl⟩
  | bool flag => cases flag <;> exact ⟨_, _, rfl, rfl⟩
  | int number =>
      rw [text, Json.toList_toString_int]
      split
      · obtain ⟨c, rest, shape⟩ := List.exists_cons_of_ne_nil
          (Nat.toDigits_ne_nil (n := number.toNat) (b := 10))
        have digit := isDigit_of_mem_toDigits
          (shape ▸ List.mem_cons_self : c ∈ Nat.toDigits 10 number.toNat)
        exact ⟨c, rest, shape, kindOf_of_isDigit digit⟩
      · exact ⟨'-', _, rfl, rfl⟩
  | float => cases free
  | str string => exact ⟨'"', _, Json.toList_quoted string, rfl⟩
  | arr items => exact ⟨'[', _, toList_text_arr items, rfl⟩
  | obj members => exact ⟨'\x7b', _, toList_text_obj members, rfl⟩

/-- Texts that agree at the front belong to values of one kind. -/
theorem kind_eq_of_append_eq {value other : Json} (free : value.floatFree = true)
    (free' : other.floatFree = true) {rest others : List Char}
    (same : (text value).toList ++ rest = (text other).toList ++ others) :
    kind value = kind other := by
  obtain ⟨c, more, shape, first⟩ := exists_first free
  obtain ⟨c', more', shape', first'⟩ := exists_first free'
  rw [shape, shape', List.cons_append, List.cons_append, List.cons.injEq] at same
  rw [← first, ← first', same.1]

/-! ## Where words end -/

/-- A rest of text that does not go on with a digit. -/
def Delimits (rest : List Char) : Prop := ∀ c more, rest = c :: more → c.isDigit = false

theorem delimits_cons {c : Char} (noDigit : c.isDigit = false) (rest : List Char) :
    Delimits (c :: rest) := by
  intro c' more shape
  cases shape
  exact noDigit

/-- A word that stands in front of a delimiting rest is the only one of a family there. -/
def Cuts (family : List Char → Prop) (word : List Char) : Prop :=
  ∀ other, family other → ∀ rest others, Delimits rest → Delimits others →
    word ++ rest = other ++ others → word = other ∧ rest = others

theorem digits_cut {digits digits' rest others : List Char} (all : ∀ c ∈ digits, c.isDigit = true)
    (all' : ∀ c ∈ digits', c.isDigit = true) (ends : Delimits rest) (ends' : Delimits others)
    (same : digits ++ rest = digits' ++ others) : digits = digits' ∧ rest = others := by
  induction digits generalizing digits' with
  | nil =>
      cases digits' with
      | nil => exact ⟨rfl, same⟩
      | cons c digits' =>
          have digit := all' c List.mem_cons_self
          rw [ends c _ same] at digit
          cases digit
  | cons c digits ih =>
      cases digits' with
      | nil =>
          have digit := all c List.mem_cons_self
          rw [ends' c _ same.symm] at digit
          cases digit
      | cons c' digits' =>
          obtain ⟨rfl, later⟩ := List.cons.inj same
          obtain ⟨rfl, tails⟩ := ih (fun d member => all d (List.mem_cons_of_mem _ member))
            (fun d member => all' d (List.mem_cons_of_mem _ member)) later
          exact ⟨rfl, tails⟩

/-- Lists of words behind commas agree word by word. -/
theorem tail_cut {family : List Char → Prop} {close : Char} (noComma : close ≠ ',')
    (noDigit : close.isDigit = false) {words others : List (List Char)}
    (cuts : ∀ word ∈ words, Cuts family word) (known : ∀ word ∈ others, family word)
    {rest more : List Char}
    (same : words.flatMap (',' :: ·) ++ close :: rest = others.flatMap (',' :: ·) ++ close :: more) :
    words = others ∧ rest = more := by
  have ends : ∀ (list : List (List Char)) (rest : List Char),
      Delimits (list.flatMap (',' :: ·) ++ close :: rest) := by
    intro list rest
    cases list with
    | nil => exact delimits_cons noDigit rest
    | cons word list => exact delimits_cons (by decide) _
  induction words generalizing others with
  | nil =>
      cases others with
      | nil => exact ⟨rfl, (List.cons.inj same).2⟩
      | cons word others => exact absurd (List.cons.inj same).1 noComma
  | cons word words ih =>
      cases others with
      | nil => exact absurd (List.cons.inj same).1.symm noComma
      | cons word' others =>
          simp only [List.flatMap_cons, List.cons_append, List.append_assoc, List.cons.injEq,
            true_and] at same
          obtain ⟨rfl, later⟩ := cuts word List.mem_cons_self word' (known word' List.mem_cons_self)
            _ _ (ends words rest) (ends others more) same
          obtain ⟨rfl, tails⟩ := ih (fun w member => cuts w (List.mem_cons_of_mem _ member))
            (fun w member => known w (List.mem_cons_of_mem _ member)) later
          exact ⟨rfl, tails⟩

theorem intercalate_comma_cons (word : List Char) (words : List (List Char)) :
    [','].intercalate (word :: words) = word ++ words.flatMap (',' :: ·) :=
  Text.intercalate_cons [','] word words

/-- Lists of words between commas, up to a closing bracket, agree word by word. -/
theorem joined_cut {family : List Char → Prop} {close : Char} (noComma : close ≠ ',')
    (noDigit : close.isDigit = false)
    (opened : ∀ word, family word → ∃ c rest, word = c :: rest ∧ c ≠ close)
    {words others : List (List Char)} (cuts : ∀ word ∈ words, family word ∧ Cuts family word)
    (known : ∀ word ∈ others, family word) {rest more : List Char}
    (same : [','].intercalate words ++ close :: rest
      = [','].intercalate others ++ close :: more) :
    words = others ∧ rest = more := by
  cases words with
  | nil =>
      cases others with
      | nil => exact ⟨rfl, (List.cons.inj same).2⟩
      | cons word others =>
          obtain ⟨c, shape, rfl, apart⟩ := opened word (known word List.mem_cons_self)
          rw [intercalate_comma_cons] at same
          exact absurd (List.cons.inj same).1.symm apart
  | cons word words =>
      cases others with
      | nil =>
          obtain ⟨c, shape, rfl, apart⟩ := opened word (cuts word List.mem_cons_self).1
          rw [intercalate_comma_cons] at same
          exact absurd (List.cons.inj same).1 apart
      | cons word' others =>
          -- a comma in front makes the first word like the others
          refine tail_cut noComma noDigit (fun w member => (cuts w member).2) known ?_
          rw [intercalate_comma_cons, intercalate_comma_cons] at same
          simp only [List.flatMap_cons, List.cons_append, same]

/-! ## Texts of values -/

def IsText (word : List Char) : Prop :=
  ∃ value : Json, value.floatFree = true ∧ word = (text value).toList

def IsMember (word : List Char) : Prop :=
  ∃ key, ∃ value : Json, value.floatFree = true ∧ word = memberWord (Json.quoted key, text value)

theorem int_cut {value other : Int} {rest others : List Char} (ends : Delimits rest)
    (ends' : Delimits others)
    (same : (toString value).toList ++ rest = (toString other).toList ++ others) :
    value = other ∧ rest = others := by
  have digits : ∀ number : Nat, ∀ c ∈ Nat.toDigits 10 number, c.isDigit = true :=
    fun _ _ => isDigit_of_mem_toDigits
  rw [Json.toList_toString_int, Json.toList_toString_int] at same
  split at same <;> split at same
  · obtain ⟨sameDigits, tails⟩ := digits_cut (digits _) (digits _) ends ends' same
    exact ⟨by have := toDigits_injective sameDigits; omega, tails⟩
  · exact absurd same (digits_ne_sign _ _ _)
  · exact absurd same.symm (digits_ne_sign _ _ _)
  · obtain ⟨sameDigits, tails⟩ := digits_cut (digits _) (digits _) ends ends'
      (List.cons.inj same).2
    exact ⟨by have := toDigits_injective sameDigits; omega, tails⟩

theorem bool_cut {flag other : Bool} {rest others : List Char}
    (same : (Json.boolText flag).toList ++ rest = (Json.boolText other).toList ++ others) :
    flag = other ∧ rest = others := by
  cases flag <;> cases other
  · exact ⟨rfl, List.append_cancel_left same⟩
  · exact absurd (List.cons.inj same).1 (by decide)
  · exact absurd (List.cons.inj same).1 (by decide)
  · exact ⟨rfl, List.append_cancel_left same⟩

theorem member_cuts {key : String} {value : Json} (cuts : Cuts IsText (text value).toList) :
    Cuts IsMember (memberWord (Json.quoted key, text value)) := by
  intro _ given rest others ends ends' same
  obtain ⟨key', value', free', rfl⟩ := given
  simp only [memberWord, List.append_assoc, List.cons_append] at same ⊢
  obtain ⟨rfl, behind⟩ := Json.quoted_cut same
  obtain ⟨sameText, tails⟩ := cuts _ ⟨value', free', rfl⟩ rest others ends ends'
    (List.cons.inj behind).2
  exact ⟨by rw [sameText], tails⟩

theorem isText_opened (word : List Char) (known : IsText word) :
    ∃ c rest, word = c :: rest ∧ c ≠ ']' := by
  obtain ⟨value, free, rfl⟩ := known
  obtain ⟨c, rest, shape, first⟩ := exists_first free
  refine ⟨c, rest, shape, ?_⟩
  intro equal
  subst equal
  cases value <;> cases first

theorem isMember_opened (word : List Char) (known : IsMember word) :
    ∃ c rest, word = c :: rest ∧ c ≠ '\x7d' := by
  obtain ⟨key, value, _, rfl⟩ := known
  rw [memberWord, Json.toList_quoted, List.cons_append]
  exact ⟨'"', _, rfl, by decide⟩

theorem isText_map {items : List Json} (free : ∀ item ∈ items, item.floatFree = true) :
    ∀ word ∈ (items.map text).map String.toList, IsText word := by
  intro word member
  obtain ⟨_, listed, rfl⟩ := List.mem_map.mp member
  obtain ⟨item, present, rfl⟩ := List.mem_map.mp listed
  exact ⟨item, free item present, rfl⟩

theorem mem_sortedTexts {members : List (String × Json)} {written : String × String} :
    written ∈ sortedTexts members ↔
      ∃ member ∈ members, (Json.quoted member.1, text member.2) = written := by
  rw [(sortedTexts_perm members).mem_iff, memberTexts_eq_map, List.mem_map]

theorem isMember_map {members : List (String × Json)}
    (free : ∀ member ∈ members, member.2.floatFree = true) :
    ∀ word ∈ (sortedTexts members).map memberWord, IsMember word := by
  intro word present
  obtain ⟨written, listed, rfl⟩ := List.mem_map.mp present
  obtain ⟨member, given, rfl⟩ := mem_sortedTexts.mp listed
  exact ⟨member.1, member.2, free member given, rfl⟩

/-- The elements of an array and what stands behind it are determined by the text. -/
theorem items_cut {items others : List Json} (free : ∀ item ∈ items, item.floatFree = true)
    (free' : ∀ item ∈ others, item.floatFree = true)
    (cuts : ∀ item ∈ items, Cuts IsText (text item).toList) {rest more : List Char}
    (same : (text (.arr items)).toList ++ rest = (text (.arr others)).toList ++ more) :
    items.map text = others.map text ∧ rest = more := by
  simp only [toList_text_arr, List.cons_append, List.append_assoc, List.nil_append,
    List.cons.injEq, true_and] at same
  have known := isText_map free
  obtain ⟨sameWords, tails⟩ := joined_cut (by decide) (by decide) isText_opened
    (fun word member => ⟨known word member, by
      obtain ⟨_, listed, rfl⟩ := List.mem_map.mp member
      obtain ⟨item, present, rfl⟩ := List.mem_map.mp listed
      exact cuts item present⟩) (isText_map free') same
  exact ⟨(List.map_inj_right fun _ _ => String.toList_inj.mp).mp sameWords, tails⟩

/-- The members of an object, as they are written, and what stands behind it are determined by the
text. -/
theorem members_cut {members others : List (String × Json)}
    (free : ∀ member ∈ members, member.2.floatFree = true)
    (free' : ∀ member ∈ others, member.2.floatFree = true)
    (cuts : ∀ member ∈ members, Cuts IsText (text member.2).toList) {rest more : List Char}
    (same : (text (.obj members)).toList ++ rest = (text (.obj others)).toList ++ more) :
    (sortedTexts members).map memberWord = (sortedTexts others).map memberWord ∧ rest = more := by
  simp only [toList_text_obj, List.cons_append, List.append_assoc, List.nil_append,
    List.cons.injEq, true_and] at same
  have known := isMember_map free
  exact joined_cut (by decide) (by decide) isMember_opened
    (fun word member => ⟨known word member, by
      obtain ⟨written, listed, rfl⟩ := List.mem_map.mp member
      obtain ⟨given, present, rfl⟩ := mem_sortedTexts.mp listed
      exact member_cuts (cuts given present)⟩) (isMember_map free') same

/-- The text of a value ends where it has to. -/
theorem text_cuts {value : Json} (free : value.floatFree = true) :
    Cuts IsText (text value).toList := by
  induction value using Json.induct with
  | null =>
      intro _ given rest others _ _ same
      obtain ⟨other, free', rfl⟩ := given
      have agree := kind_eq_of_append_eq free free' same
      cases other <;> simp [kind] at agree
      exact ⟨rfl, List.append_cancel_left same⟩
  | bool flag =>
      intro _ given rest others _ _ same
      obtain ⟨other, free', rfl⟩ := given
      have agree := kind_eq_of_append_eq free free' same
      cases other <;> simp [kind] at agree
      obtain ⟨rfl, tails⟩ := bool_cut same
      exact ⟨rfl, tails⟩
  | int number =>
      intro _ given rest others ends ends' same
      obtain ⟨other, free', rfl⟩ := given
      have agree := kind_eq_of_append_eq free free' same
      cases other <;> simp [kind] at agree
      obtain ⟨rfl, tails⟩ := int_cut ends ends' same
      exact ⟨rfl, tails⟩
  | float => cases free
  | str string =>
      intro _ given rest others _ _ same
      obtain ⟨other, free', rfl⟩ := given
      have agree := kind_eq_of_append_eq free free' same
      cases other <;> simp [kind] at agree
      obtain ⟨rfl, tails⟩ := Json.quoted_cut same
      exact ⟨rfl, tails⟩
  | arr items ih =>
      intro _ given rest others _ _ same
      obtain ⟨other, free', rfl⟩ := given
      have agree := kind_eq_of_append_eq free free' same
      cases other <;> simp [kind] at agree
      rename_i items'
      have free := Json.floatFree_arr.mp free
      obtain ⟨sameTexts, tails⟩ := items_cut free (Json.floatFree_arr.mp free')
        (fun item present => ih item present (free item present)) same
      exact ⟨by rw [text, text, itemTexts_eq_map, itemTexts_eq_map, sameTexts], tails⟩
  | obj members ih =>
      intro _ given rest others _ _ same
      obtain ⟨other, free', rfl⟩ := given
      have agree := kind_eq_of_append_eq free free' same
      cases other <;> simp [kind] at agree
      rename_i members'
      have free := Json.floatFree_obj.mp free
      obtain ⟨sameWords, tails⟩ := members_cut free (Json.floatFree_obj.mp free')
        (fun member present => ih member present (free member present)) same
      exact ⟨by rw [toList_text_obj, toList_text_obj, sameWords], tails⟩

/-! ## What equal texts have in common -/

theorem kind_eq_of_text_eq {value other : Json} (free : value.floatFree = true)
    (free' : other.floatFree = true) (same : text value = text other) : kind value = kind other := by
  have behind : (text value).toList ++ [] = (text other).toList ++ [] := by rw [same]
  exact kind_eq_of_append_eq free free' behind

theorem text_int_injective {value other : Int} (same : text (.int value) = text (.int other)) :
    value = other := by
  have ends : Delimits [] := fun _ _ shape => nomatch shape
  exact (int_cut ends ends (by rw [← text, ← text, same])).1

theorem text_bool_injective {flag other : Bool} (same : text (.bool flag) = text (.bool other)) :
    flag = other := by
  have behind : (Json.boolText flag).toList ++ [] = (Json.boolText other).toList ++ [] := by
    rw [← text, ← text, same]
  exact (bool_cut behind).1

theorem text_arr_eq_iff {items others : List Json}
    (free : ∀ item ∈ items, item.floatFree = true)
    (free' : ∀ item ∈ others, item.floatFree = true) :
    text (.arr items) = text (.arr others) ↔ items.map text = others.map text := by
  constructor
  · intro same
    have behind : (text (.arr items)).toList ++ [] = (text (.arr others)).toList ++ [] := by
      rw [same]
    exact (items_cut free free' (fun item present => text_cuts (free item present)) behind).1
  · intro same
    rw [text, text, itemTexts_eq_map, itemTexts_eq_map, same]

/-- The quoted key of a written member ends where its quotes close. -/
theorem memberWord_injective {members others : List (String × Json)}
    (same : (sortedTexts members).map memberWord = (sortedTexts others).map memberWord) :
    sortedTexts members = sortedTexts others := by
  have quotedKeys : ∀ (members : List (String × Json)), ∀ written ∈ sortedTexts members,
      ∃ key, written.1 = Json.quoted key := by
    intro members written listed
    obtain ⟨member, _, rfl⟩ := mem_sortedTexts.mp listed
    exact ⟨member.1, rfl⟩
  have first := quotedKeys members
  have second := quotedKeys others
  generalize sortedTexts members = left at *
  generalize sortedTexts others = right at *
  induction left generalizing right with
  | nil => exact (List.map_eq_nil_iff.mp same.symm).symm
  | cons written left ih =>
      obtain ⟨written', right, rfl, sameWord, later⟩ := List.map_eq_cons_iff.mp same.symm
      obtain ⟨key, named⟩ := first written List.mem_cons_self
      obtain ⟨key', named'⟩ := second written' List.mem_cons_self
      rw [memberWord, memberWord, named, named'] at sameWord
      obtain ⟨rfl, behind⟩ := Json.quoted_cut sameWord
      have sameText := String.toList_inj.mp (List.cons.inj behind).2
      rw [ih (fun w member => first w (List.mem_cons_of_mem _ member)) right
        (fun w member => second w (List.mem_cons_of_mem _ member)) later.symm,
        Prod.ext (named'.trans named.symm) sameText]

/-- Objects with the same text have the same members, as they are written. -/
theorem memberTexts_perm_of_text_eq {members others : List (String × Json)}
    (free : ∀ member ∈ members, member.2.floatFree = true)
    (free' : ∀ member ∈ others, member.2.floatFree = true)
    (same : text (.obj members) = text (.obj others)) :
    (memberTexts members).Perm (memberTexts others) := by
  have behind : (text (.obj members)).toList ++ [] = (text (.obj others)).toList ++ [] := by
    rw [same]
  have sameWords :=
    (members_cut free free' (fun member present => text_cuts (free member present)) behind).1
  have sameSorted := memberWord_injective sameWords
  exact (sortedTexts_perm members).symm.trans (sameSorted ▸ sortedTexts_perm others)

end Governance.Canonical
