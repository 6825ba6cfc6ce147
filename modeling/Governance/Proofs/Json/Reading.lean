import Governance.Proofs.Json.Induction
import Governance.Proofs.Json.Quoted
import Governance.Proofs.Text.Numeral
import Mathlib.Data.List.TakeWhile

/-!
# Reading back what is written

Words that are read as they were written: integers up to where their digits end, arrays and objects
with the same blanks in front of every element, unless they are nested deeper than the reader goes.
The members of an object come back in the order in which they are written. Three steps for every
character are enough, which is the bound that the reader sets itself.
-/

set_option autoImplicit false

namespace Governance.Json

/-! ## Nesting -/

mutual

def nesting : Json → Nat
  | .arr items => nestingItems items + 1
  | .obj members => nestingMembers members + 1
  | _ => 0
  termination_by structural value => value

def nestingItems : List Json → Nat
  | [] => 0
  | item :: rest => max (nesting item) (nestingItems rest)
  termination_by structural items => items

def nestingMembers : List (String × Json) → Nat
  | [] => 0
  | (_, value) :: rest => max (nesting value) (nestingMembers rest)
  termination_by structural members => members

end

theorem nestingItems_le_iff {items : List Json} {depth : Nat} :
    nestingItems items ≤ depth ↔ ∀ item ∈ items, item.nesting ≤ depth := by
  induction items with
  | nil => simp [nestingItems]
  | cons item rest ih => rw [nestingItems, Nat.max_le, ih, List.forall_mem_cons]

theorem nestingMembers_le_iff {members : List (String × Json)} {depth : Nat} :
    nestingMembers members ≤ depth ↔ ∀ member ∈ members, member.2.nesting ≤ depth := by
  induction members with
  | nil => simp [nestingMembers]
  | cons member rest ih => rw [nestingMembers, Nat.max_le, ih, List.forall_mem_cons]

theorem nesting_arr_le_iff {items : List Json} {depth : Nat} :
    (arr items).nesting ≤ depth ↔ ∃ inner, depth = inner + 1 ∧ ∀ item ∈ items, item.nesting ≤ inner := by
  cases depth with
  | zero => simp [nesting]
  | succ inner => simp [nesting, nestingItems_le_iff]

theorem nesting_obj_le_iff {members : List (String × Json)} {depth : Nat} :
    (obj members).nesting ≤ depth ↔
      ∃ inner, depth = inner + 1 ∧ ∀ member ∈ members, member.2.nesting ≤ inner := by
  cases depth with
  | zero => simp [nesting]
  | succ inner => simp [nesting, nestingMembers_le_iff]

/-! ## Integers -/

theorem toList_toString_int (value : Int) :
    (toString value).toList
      = if 0 ≤ value then Nat.toDigits 10 value.toNat else '-' :: Nat.toDigits 10 (-value).toNat := by
  rw [Int.toString_eq_repr, Int.repr_eq_if]
  split <;> simp

def EndsNumber (rest : List Char) : Prop :=
  ∀ c more, rest = c :: more → Text.isDigit c = false ∧ c ≠ '.' ∧ c ≠ 'e' ∧ c ≠ 'E'

theorem endsNumber_nil : EndsNumber [] := fun _ _ shape => nomatch shape

theorem endsNumber_cons {c : Char} (rest : List Char)
    (apart : Text.isDigit c = false ∧ c ≠ '.' ∧ c ≠ 'e' ∧ c ≠ 'E') : EndsNumber (c :: rest) := by
  intro c' more shape
  cases shape
  exact apart

theorem takeWhile_toDigits (number : Nat) {rest : List Char} (ends : EndsNumber rest) :
    (Nat.toDigits 10 number ++ rest).takeWhile Text.isDigit = Nat.toDigits 10 number := by
  refine (Text.span_toDigits number fun c first => ?_).1
  obtain ⟨more, shape⟩ := List.head?_eq_some_iff.mp first
  exact (ends c more shape).1

theorem readNumeral?_toDigits (number : Nat) {rest : List Char} (ends : EndsNumber rest) :
    readNumeral? (Nat.toDigits 10 number ++ rest)
      = some (⟨Nat.toDigits 10 number, [], none⟩, rest) := by
  have noFraction : readFraction? rest = some ([], rest) := by
    cases rest with
    | nil => rfl
    | cons c more =>
        rw [readFraction?]
        intro _ shape
        exact (ends c more rfl).2.1 (List.cons.inj shape).1
  have noExponent : readExponent? rest = some (none, rest) := by
    cases rest with
    | nil => rfl
    | cons c more =>
        rw [readExponent?]
        · exact fun _ shape => (ends c more rfl).2.2.1 (List.cons.inj shape).1
        · exact fun _ shape => (ends c more rfl).2.2.2 (List.cons.inj shape).1
  have noZero : ¬ ((Nat.toDigits 10 number).isEmpty = true ∨
      (Nat.toDigits 10 number).head? = some '0' ∧ 1 < (Nat.toDigits 10 number).length) := by
    rintro (empty | ⟨zero, long⟩)
    · exact Nat.toDigits_ne_nil (List.isEmpty_iff.mp empty)
    · rw [Text.eq_zero_of_head?_toDigits zero] at long
      exact absurd long (by decide)
  simp only [readNumeral?, takeWhile_toDigits number ends, noZero, if_false, List.drop_left',
    noFraction, noExponent, Option.bind_eq_bind, Option.bind_some]

theorem readNumber?_positive {number : Nat} (bounded : (number : Int) ≤ intMax) {rest : List Char}
    (ends : EndsNumber rest) :
    readNumber? false (Nat.toDigits 10 number ++ rest) = some (.int number, rest) := by
  have magnitude := Text.ofDigits_toDigits number
  have above : intMin ≤ (number : Int) := by simp [intMin]
  simp [readNumber?, readNumeral?_toDigits number ends, Numeral.value?, magnitude, above, bounded]

theorem readNumber?_negative {number : Nat} (bounded : intMin ≤ -(number : Int))
    (proper : number ≠ 0) {rest : List Char} (ends : EndsNumber rest) :
    readNumber? true (Nat.toDigits 10 number ++ rest) = some (.int (-number), rest) := by
  have magnitude := Text.ofDigits_toDigits number
  have below : -(number : Int) ≤ intMax := by simp [intMax]
  simp [readNumber?, readNumeral?_toDigits number ends, Numeral.value?, magnitude, below, bounded,
    proper]

/-! ## Words -/

/-- A word that is read as a value, with its members as they are written, in front of everything
that does not go on with a number, as long as the reader may go deep enough and has three steps for
every character. -/
structure Spells (word : List Char) (value : Json) : Prop where
  opened : ∃ c more, word = c :: more ∧ isSpace c = false ∧ c ≠ ']'
  read : ∀ (depth steps : Nat) (rest : List Char), value.nesting ≤ depth →
    3 * word.length ≤ steps → EndsNumber rest →
      readValue? steps depth .any (word ++ rest) = some (value, rest)

theorem skipSpaces_cons {c : Char} (noSpace : isSpace c = false) (rest : List Char) :
    skipSpaces (c :: rest) = c :: rest :=
  List.dropWhile_cons_of_neg (by simp [noSpace])

/-- The first character decides what is read, and takes a step. -/
theorem Spells.of_first {c : Char} {more : List Char} {value : Json} (noSpace : isSpace c = false)
    (noClose : c ≠ ']')
    (read : ∀ (depth steps : Nat) (rest : List Char), value.nesting ≤ depth →
      3 * more.length < steps → EndsNumber rest →
        readValue? (steps + 1) depth .any (c :: (more ++ rest)) = some (value, rest)) :
    Spells (c :: more) value := by
  refine ⟨⟨c, more, rfl, noSpace, noClose⟩, ?_⟩
  intro depth steps rest shallow enough ends
  rw [List.length_cons] at enough
  obtain ⟨steps, rfl⟩ := Nat.exists_eq_add_one.mpr (show 0 < steps by omega)
  exact read depth steps rest shallow (by omega) ends

/-! ### Scalars -/

theorem readWord?_append (word : String) (rest : List Char) :
    readWord? word (word.toList ++ rest) = some rest := by
  have begins : word.toList.isPrefixOf (word.toList ++ rest) = true :=
    List.isPrefixOf_iff_prefix.mpr (List.prefix_append _ _)
  rw [readWord?, if_pos begins, ← String.length_toList, List.drop_left]

theorem spells_word {c : Char} {word : String} {value : Json} (noSpace : isSpace c = false)
    (noClose : c ≠ ']')
    (opens : ∀ depth steps rest, readValue? (steps + 1) depth .any (c :: rest)
      = (readWord? word rest).map fun rest => (value, rest)) :
    Spells (c :: word.toList) value := by
  refine Spells.of_first noSpace noClose fun depth steps rest _ _ _ => ?_
  rw [opens, readWord?_append, Option.map_some]

theorem spells_null : Spells ('n' :: "ull".toList) .null := by
  refine spells_word (by decide) (by decide) fun depth steps rest => ?_
  rw [readValue?, skipSpaces_cons (by decide)]
  rfl

theorem spells_true : Spells ('t' :: "rue".toList) (.bool true) := by
  refine spells_word (by decide) (by decide) fun depth steps rest => ?_
  rw [readValue?, skipSpaces_cons (by decide)]
  rfl

theorem spells_false : Spells ('f' :: "alse".toList) (.bool false) := by
  refine spells_word (by decide) (by decide) fun depth steps rest => ?_
  rw [readValue?, skipSpaces_cons (by decide)]
  rfl

theorem length_le_escaped (body : List Char) : body.length ≤ (body.flatMap escapeChar).length := by
  induction body with
  | nil => exact Nat.le_refl _
  | cons c body ih =>
      have one : 1 ≤ (escapeChar c).length := by
        rcases escapeChar_cases c with ⟨plain, _⟩ | ⟨escape, shape, _⟩
        · rw [plain]
          exact Nat.le_refl _
        · rw [shape]
          exact Nat.le_add_left _ _
      rw [List.flatMap_cons, List.length_append, List.length_cons]
      omega

theorem spells_str (text : String) : Spells (quoted text).toList (.str text) := by
  rw [toList_quoted]
  refine Spells.of_first (by decide) (by decide) fun depth steps rest _ enough _ => ?_
  have room : text.toList.length < steps := by
    have longer := length_le_escaped text.toList
    rw [List.length_append] at enough
    omega
  rw [readValue?, skipSpaces_cons (by decide), List.append_assoc]
  change (readString? steps (text.toList.flatMap escapeChar ++ '"' :: rest)).map _ = _
  rw [readString?_escaped _ _ room, Option.map_some]
  simp only [String.ofList_toList]

theorem spells_positive (number : Nat) (bounded : (number : Int) ≤ intMax) :
    Spells (Nat.toDigits 10 number) (.int number) := by
  obtain ⟨c, more, shape⟩ := List.exists_cons_of_ne_nil (Nat.toDigits_ne_nil (n := number) (b := 10))
  have digit : Text.isDigit c = true :=
    Nat.isDigit_of_mem_toDigits (by decide) (by decide) (shape ▸ List.mem_cons_self)
  have apart : ∀ d : Char, Text.isDigit d = false → c ≠ d := by
    intro d noDigit equal
    subst equal
    cases digit.symm.trans noDigit
  have noSpace : isSpace c = false := by
    simp [isSpace, apart ' ' rfl, apart '\n' rfl, apart '\r' rfl, apart '\t' rfl]
  rw [shape]
  refine Spells.of_first noSpace (apart ']' rfl) fun depth steps rest _ _ ends => ?_
  rw [← readNumber?_positive bounded ends, shape, readValue?, skipSpaces_cons noSpace]
  rw [List.cons_append]
  -- a digit is none of the characters that open another kind of value
  split
  case h_9 => rfl
  case h_1 same => cases same
  all_goals
    rename_i same
    exact absurd (List.cons.inj same).1 (apart _ rfl)

theorem spells_negative (number : Nat) (bounded : intMin ≤ -(number : Int)) (proper : number ≠ 0) :
    Spells ('-' :: Nat.toDigits 10 number) (.int (-number)) := by
  refine Spells.of_first (by decide) (by decide) fun depth steps rest _ _ ends => ?_
  rw [← readNumber?_negative bounded proper ends, readValue?, skipSpaces_cons (by decide)]
  rfl

theorem spells_int {value : Int} (above : intMin ≤ value) (below : value ≤ intMax) :
    Spells (toString value).toList (.int value) := by
  rw [toList_toString_int]
  split
  · rename_i positive
    have same : (value.toNat : Int) = value := Int.toNat_of_nonneg positive
    have spelt := spells_positive value.toNat (by rwa [same])
    rwa [same] at spelt
  · rename_i negative
    have same : -((-value).toNat : Int) = value := by omega
    have spelt := spells_negative (-value).toNat (by rwa [same]) (by omega)
    rwa [same] at spelt

/-! ### Blanks -/

def Blank (gap : List Char) : Prop := ∀ c ∈ gap, isSpace c = true

theorem blank_nil : Blank [] := List.forall_mem_nil _

theorem skipSpaces_blank {gap : List Char} (blank : Blank gap) (rest : List Char) :
    skipSpaces (gap ++ rest) = skipSpaces rest :=
  List.dropWhile_append_of_pos blank

theorem readValue?_blank {gap : List Char} (blank : Blank gap) (steps depth : Nat) (shape : Shape)
    (rest : List Char) :
    readValue? steps depth shape (gap ++ rest) = readValue? steps depth shape rest := by
  cases steps with
  | zero => rw [readValue?, readValue?]
  | succ steps => rw [readValue?, readValue?, skipSpaces_blank blank]

theorem endsNumber_blank {gap rest : List Char} (blank : Blank gap) (ends : EndsNumber rest) :
    EndsNumber (gap ++ rest) := by
  cases gap with
  | nil => exact ends
  | cons c gap =>
      refine endsNumber_cons _ ?_
      have space := blank c List.mem_cons_self
      simp only [isSpace, Bool.or_eq_true, beq_iff_eq] at space
      rcases space with ((rfl | rfl) | rfl) | rfl <;> decide

/-! ### Arrays -/

section Containers

variable {write : Json → List Char} {lead gap close : List Char}

theorem Shape.item_any (place : Nat) : Shape.item .any place = .any := rfl

theorem readValue?_bracket (steps depth : Nat) (text : List Char) :
    readValue? (steps + 1) (depth + 1) .any ('[' :: text) =
      match skipSpaces text with
      | ']' :: rest => some (.arr [], rest)
      | rest => (readItems? steps depth .any 0 rest).map fun (items, rest) => (.arr items, rest) := by
  rw [readValue?, skipSpaces_cons (by decide)]
  rfl

theorem readItems?_written {item : Json} {items : List Json} (depth steps place : Nat)
    (rest : List Char) (blankLead : Blank lead) (blank : Blank gap) (blankClose : Blank close)
    (spelt : ∀ given ∈ item :: items, Spells (write given) given)
    (shallow : ∀ given ∈ item :: items, given.nesting ≤ depth)
    (enough : 3 * (write item ++ items.flatMap fun given => ',' :: (gap ++ write given)).length
      < steps) :
    readItems? steps depth .any place
        (lead ++ (write item ++ ((items.flatMap fun given => ',' :: (gap ++ write given))
          ++ (close ++ ']' :: rest))))
      = some (item :: items, rest) := by
  induction items generalizing item steps place lead with
  | nil =>
      obtain ⟨steps, rfl⟩ := Nat.exists_eq_add_one.mpr (Nat.zero_lt_of_lt enough)
      rw [List.length_append] at enough
      have closes : EndsNumber (close ++ ']' :: rest) :=
        endsNumber_blank blankClose (endsNumber_cons rest (by decide))
      have first := (spelt item List.mem_cons_self).read depth steps _
        (shallow item List.mem_cons_self) (by omega) closes
      rw [List.flatMap_nil, List.nil_append, readItems?, Shape.item_any, readValue?_blank blankLead,
        first]
      simp only [skipSpaces_blank blankClose, skipSpaces_cons (show isSpace ']' = false by decide)]
  | cons next items ih =>
      obtain ⟨steps, rfl⟩ := Nat.exists_eq_add_one.mpr (Nat.zero_lt_of_lt enough)
      rw [List.flatMap_cons, List.length_append, List.length_append, List.length_cons,
        List.length_append] at enough
      have later := @ih gap next steps (place + 1) blank (List.forall_mem_cons.mp spelt).2
        (List.forall_mem_cons.mp shallow).2 (by rw [List.length_append]; omega)
      rw [List.flatMap_cons, List.append_assoc, List.cons_append, List.append_assoc, readItems?,
        Shape.item_any, readValue?_blank blankLead, (spelt item List.mem_cons_self).read depth steps _
          (shallow item List.mem_cons_self) (by omega) (endsNumber_cons _ (by decide))]
      simp only [skipSpaces_cons (show isSpace ',' = false by decide), later, Option.map_some]

theorem spells_arr_nil : Spells ['[', ']'] (.arr []) := by
  refine Spells.of_first (by decide) (by decide) fun depth steps rest shallow _ _ => ?_
  obtain ⟨inner, rfl, _⟩ := nesting_arr_le_iff.mp shallow
  rw [readValue?_bracket, List.cons_append, skipSpaces_cons (by decide)]
  rfl

theorem spells_arr {item : Json} {items : List Json} (blank : Blank gap) (blankClose : Blank close)
    (spelt : ∀ given ∈ item :: items, Spells (write given) given) :
    Spells ('[' :: (gap ++ (write item ++ ((items.flatMap fun given => ',' :: (gap ++ write given))
        ++ (close ++ [']'])))))
      (.arr (item :: items)) := by
  refine Spells.of_first (by decide) (by decide) fun depth steps rest shallow enough _ => ?_
  obtain ⟨inner, rfl, within⟩ := nesting_arr_le_iff.mp shallow
  have read := @readItems?_written write [] gap close item items inner steps 0 rest blank_nil blank
    blankClose spelt within (by simp only [List.length_append] at enough ⊢; omega)
  obtain ⟨c, more, first, noSpace, noClose⟩ := (spelt item List.mem_cons_self).opened
  rw [List.nil_append, first, List.cons_append] at read
  rw [first, readValue?_bracket]
  simp only [List.append_assoc, List.cons_append, List.nil_append, skipSpaces_blank blank,
    skipSpaces_cons noSpace]
  split
  · rename_i same
    exact absurd (List.cons.inj same).1 noClose
  · rw [read]
    rfl

/-! ### Objects -/

def writeMember (write : Json → List Char) (lead : List Char) (member : String × Json) : List Char :=
  (quoted member.1).toList ++ ':' :: (lead ++ write member.2)

theorem length_writeMember (member : String × Json) :
    member.1.toList.length + (write member.2).length + 3 ≤ (writeMember write lead member).length := by
  have escaped := length_le_escaped member.1.toList
  simp only [writeMember, toList_quoted, List.length_append, List.length_cons, List.length_nil]
  omega

theorem Shape.member?_any (name : String) : Shape.member? .any name = some .any := rfl

theorem readValue?_brace (steps depth : Nat) (text : List Char) :
    readValue? (steps + 1) (depth + 1) .any ('\x7b' :: text) =
      match skipSpaces text with
      | '\x7d' :: rest => some (.obj [], rest)
      | rest => (readMembers? steps depth .any rest).map fun (members, rest) =>
          (.obj members, rest) := by
  rw [readValue?, skipSpaces_cons (by decide)]
  rfl

/-- The members of an object from one on that was read, by the text behind it. -/
def membersFrom (steps depth : Nat) (found : List (String × Json)) :
    List Char → Option (List (String × Json) × List Char)
  | ',' :: rest => (readMembers? steps depth .any rest).map fun (members, rest) =>
      (found ++ members, rest)
  | '\x7d' :: rest => some (found, rest)
  | _ => none

theorem readMembers?_step {member : String × Json} {depth steps : Nat} {rest before : List Char}
    (blankBefore : Blank before) (blankLead : Blank lead) (spelt : Spells (write member.2) member.2)
    (shallow : member.2.nesting ≤ depth)
    (enough : 3 * (writeMember write lead member).length ≤ steps) (ends : EndsNumber rest) :
    readMembers? (steps + 1) depth .any (before ++ (writeMember write lead member ++ rest))
      = membersFrom steps depth [member] (skipSpaces rest) := by
  have longer := @length_writeMember write lead member
  obtain ⟨steps, rfl⟩ := Nat.exists_eq_add_one.mpr (show 0 < steps by omega)
  have value := spelt.read depth steps rest shallow (by omega) ends
  have read : readMember? (steps + 1) depth .any member.1 (lead ++ (write member.2 ++ rest))
      = some ([member], rest) := by
    rw [readMember?, Shape.member?_any]
    change (readValue? steps depth .any (lead ++ (write member.2 ++ rest))).map _ = _
    rw [readValue?_blank blankLead, value]
    rfl
  rw [writeMember, toList_quoted, readMembers?, skipSpaces_blank blankBefore, List.cons_append,
    List.cons_append, skipSpaces_cons (by decide)]
  simp only [List.append_assoc, List.cons_append, List.nil_append]
  rw [readString?_escaped _ _ (show member.1.toList.length < steps + 1 by omega)]
  simp only [skipSpaces_cons (show isSpace ':' = false by decide), String.ofList_toList, read]
  rfl

/-- The members of an object behind its opening brace, at least one. -/
theorem readMembers?_written {member : String × Json} {members : List (String × Json)}
    {before : List Char} (depth steps : Nat) (rest : List Char) (blankBefore : Blank before)
    (blankLead : Blank lead) (blank : Blank gap) (blankClose : Blank close)
    (spelt : ∀ given ∈ member :: members, Spells (write given.2) given.2)
    (shallow : ∀ given ∈ member :: members, given.2.nesting ≤ depth)
    (enough : 3 * (writeMember write lead member
      ++ members.flatMap fun given => ',' :: (gap ++ writeMember write lead given)).length < steps) :
    readMembers? steps depth .any
        (before ++ (writeMember write lead member
          ++ ((members.flatMap fun given => ',' :: (gap ++ writeMember write lead given))
            ++ (close ++ '\x7d' :: rest))))
      = some (member :: members, rest) := by
  induction members generalizing member steps before with
  | nil =>
      obtain ⟨steps, rfl⟩ := Nat.exists_eq_add_one.mpr (Nat.zero_lt_of_lt enough)
      rw [List.length_append] at enough
      have closes : EndsNumber (close ++ '\x7d' :: rest) :=
        endsNumber_blank blankClose (endsNumber_cons rest (by decide))
      rw [List.flatMap_nil, List.nil_append, readMembers?_step blankBefore blankLead
        (spelt member List.mem_cons_self) (shallow member List.mem_cons_self) (by omega) closes,
        skipSpaces_blank blankClose, skipSpaces_cons (by decide)]
      rfl
  | cons next members ih =>
      obtain ⟨steps, rfl⟩ := Nat.exists_eq_add_one.mpr (Nat.zero_lt_of_lt enough)
      rw [List.flatMap_cons, List.length_append, List.length_append, List.length_cons,
        List.length_append] at enough
      have later := @ih next gap steps blank (List.forall_mem_cons.mp spelt).2
        (List.forall_mem_cons.mp shallow).2 (by rw [List.length_append]; omega)
      rw [List.flatMap_cons, List.append_assoc, List.cons_append, List.append_assoc,
        readMembers?_step blankBefore blankLead (spelt member List.mem_cons_self)
          (shallow member List.mem_cons_self) (by omega) (endsNumber_cons _ (by decide)),
        skipSpaces_cons (by decide), membersFrom, later]
      rfl

theorem spells_obj_nil : Spells ['\x7b', '\x7d'] (.obj []) := by
  refine Spells.of_first (by decide) (by decide) fun depth steps rest shallow _ _ => ?_
  obtain ⟨inner, rfl, _⟩ := nesting_obj_le_iff.mp shallow
  rw [readValue?_brace, List.cons_append, skipSpaces_cons (by decide)]
  rfl

theorem spells_obj {member : String × Json} {members : List (String × Json)} (blankLead : Blank lead)
    (blank : Blank gap) (blankClose : Blank close)
    (spelt : ∀ given ∈ member :: members, Spells (write given.2) given.2) :
    Spells ('\x7b' :: (gap ++ (writeMember write lead member
        ++ ((members.flatMap fun given => ',' :: (gap ++ writeMember write lead given))
          ++ (close ++ ['\x7d'])))))
      (.obj (member :: members)) := by
  refine Spells.of_first (by decide) (by decide) fun depth steps rest shallow enough _ => ?_
  obtain ⟨inner, rfl, within⟩ := nesting_obj_le_iff.mp shallow
  have read := @readMembers?_written write lead gap close member members [] inner steps rest
    blank_nil blankLead blank blankClose spelt within
    (by simp only [List.length_append] at enough ⊢; omega)
  obtain ⟨more, first⟩ : ∃ more, writeMember write lead member = '"' :: more :=
    ⟨_, by rw [writeMember, toList_quoted, List.cons_append]⟩
  rw [List.nil_append, first, List.cons_append] at read
  rw [first, readValue?_brace]
  simp only [List.append_assoc, List.cons_append, List.nil_append, skipSpaces_blank blank,
    skipSpaces_cons (show isSpace '"' = false by decide)]
  change (readMembers? steps inner .any _).map _ = _
  rw [read]
  rfl

end Containers

/-! ## Whole texts -/

/-- A text that is one word in front of blanks reads as what the word spells, unless that is nested
too deep. -/
theorem parse?_of_spells {text : String} {word gap : List Char} {value : Json}
    (shape : text.toList = word ++ gap) (spelt : Spells word value) (blank : Blank gap)
    (shallow : value.nesting ≤ nestingMax) : parse? .any text = some value := by
  have ends : EndsNumber gap := List.append_nil gap ▸ endsNumber_blank blank endsNumber_nil
  have read := spelt.read nestingMax (3 * text.toList.length + 3) gap shallow
    (by rw [shape, List.length_append]; omega) ends
  have rest : skipSpaces gap = [] := List.dropWhile_eq_nil_iff.mpr blank
  simp only [parse?, shape] at read ⊢
  rw [read]
  simp [rest]

def ReadsAs (word : List Char) (value : Json) : Prop :=
  ∃ listing, Spells word listing ∧ listing.nesting ≤ value.nesting ∧ listing.normalized = value

theorem parseValue?_of_readsAs {text : String} {value : Json} (reads : ReadsAs text.toList value)
    (shallow : value.nesting ≤ nestingMax) : parseValue? text = some value := by
  obtain ⟨listing, spelt, deep, normal⟩ := reads
  rw [parseValue?, parse?_of_spells (List.append_nil _).symm spelt blank_nil (by omega),
    Option.map_some, normal]

end Governance.Json
