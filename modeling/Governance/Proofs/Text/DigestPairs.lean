import Governance.Proofs.Text.Digest
import Governance.Proofs.Text.Slice

/-!
# Texts of digests

A text is read as a digest two characters at a time. The reader takes exactly 64 hexadecimal digits in
either case, and besides a plus sign in place of the first digit of a pair, where it counts as a zero.
-/

set_option autoImplicit false

namespace Governance

/-! ## Hexadecimal digits -/

namespace Text

def IsHex (c : Char) : Prop := c ∈ "0123456789abcdefABCDEF".toList

instance (c : Char) : Decidable (IsHex c) := inferInstanceAs (Decidable (c ∈ _))

theorem toNat_lt_of_hexValue? {c : Char} {value : Nat} (denotes : hexValue? c = some value) :
    c.toNat < 128 := by
  have bound : ∀ {d : Char}, c ≤ d → c.toNat ≤ d.toNat := fun le => le
  unfold hexValue? at denotes
  split at denotes
  · rename_i digit
    unfold isDigit at digit
    simp only [Bool.and_eq_true, decide_eq_true_eq] at digit
    exact Nat.lt_of_le_of_lt (bound digit.2) (by decide)
  · split at denotes
    · rename_i letter
      exact Nat.lt_of_le_of_lt (bound letter.2) (by decide)
    · split at denotes
      · rename_i letter
        exact Nat.lt_of_le_of_lt (bound letter.2) (by decide)
      · cases denotes

theorem exists_hexValue?_iff {c : Char} : (∃ value, hexValue? c = some value) ↔ IsHex c := by
  constructor
  · rintro ⟨value, denotes⟩
    have table : ∀ code < 128, (hexValue? (Char.ofNat code)).isSome = true →
        IsHex (Char.ofNat code) := by
      decide
    have listed := table c.toNat (toNat_lt_of_hexValue? denotes)
    rw [Char.ofNat_toNat, denotes] at listed
    exact listed rfl
  · intro hex
    have table : "0123456789abcdefABCDEF".toList.all (fun d => (hexValue? d).isSome) = true := by
      decide
    exact Option.isSome_iff_exists.mp (List.all_eq_true.mp table c hex)

theorem hexDigit_of_hexValue? {c : Char} {value : Nat} (denotes : hexValue? c = some value) :
    value < 16 ∧ hexDigit value = c.toLower ∧ c.utf8Size = 1 ∧ c ≠ '+' ∧ c ≠ ':' := by
  have table : "0123456789abcdefABCDEF".toList.all (fun d => (hexValue? d).all fun number =>
      decide (number < 16 ∧ hexDigit number = d.toLower ∧ d.utf8Size = 1 ∧ d ≠ '+' ∧ d ≠ ':')) =
        true := by
    decide
  have checked := List.all_eq_true.mp table c (exists_hexValue?_iff.mp ⟨value, denotes⟩)
  rw [denotes] at checked
  exact of_decide_eq_true checked

end Text

namespace ContentDigest

/-! ## Pairs -/

def withoutName (text : List Char) : List Char :=
  if (algorithm ++ ":").toList.isPrefixOf text then text.drop (algorithm ++ ":").length else text

/-- Whether a text has 64 characters, all of them hexadecimal digits but for plus signs that start
a pair. -/
def Paired (digits : List Char) : Prop :=
  digits.length = 64 ∧ ∀ place c, digits[place]? = some c →
    Text.IsHex c ∨ (place % 2 = 0 ∧ c = '+')

def settled (c : Char) : Char := if c = '+' then '0' else c.toLower

/-- The bytes that a text spells, a pair of characters for each. -/
inductive Spells : List Char → List UInt8 → Prop where
  | nil : Spells [] []
  | pair {first second : Char} {rest : List Char} {byte : UInt8} {bytes : List UInt8} :
      pairValue? first second = some byte → Spells rest bytes →
      Spells (first :: second :: rest) (byte :: bytes)

theorem exists_pairValue?_iff {first second : Char} :
    (∃ byte, pairValue? first second = some byte) ↔
      (Text.IsHex first ∨ first = '+') ∧ Text.IsHex second := by
  unfold pairValue?
  rw [← Text.exists_hexValue?_iff, ← Text.exists_hexValue?_iff]
  cases low : Text.hexValue? second with
  | none => simp
  | some value =>
      by_cases plus : first = '+'
      · simp [plus]
      · cases high : Text.hexValue? first with
        | none => simp [plus]
        | some value' => simp [plus]

theorem pairValue?_facts {first second : Char} {byte : UInt8}
    (denotes : pairValue? first second = some byte) :
    Text.byteHex byte = [settled first, settled second] ∧ first.utf8Size = 1 ∧
      second.utf8Size = 1 ∧ first ≠ ':' ∧ second ≠ ':' := by
  unfold pairValue? at denotes
  obtain ⟨low, second', denotes⟩ := Option.bind_eq_some_iff.mp denotes
  obtain ⟨small, digit, narrow, noPlus, noColon⟩ := Text.hexDigit_of_hexValue? second'
  have back : settled second = Text.hexDigit low := by rw [settled, if_neg noPlus, digit]
  split at denotes
  · rename_i plus
    cases denotes
    have value : (UInt8.ofNat low).toNat = low := by
      rw [UInt8.toNat_ofNat']
      omega
    subst plus
    refine ⟨?_, by decide, narrow, by decide, noColon⟩
    rw [Text.byteHex, value, Nat.div_eq_of_lt small, Nat.mod_eq_of_lt small, back]
    rfl
  · rename_i noPlus'
    obtain ⟨high, first', denotes⟩ := Option.bind_eq_some_iff.mp denotes
    cases denotes
    obtain ⟨small', digit', narrow', _, noColon'⟩ := Text.hexDigit_of_hexValue? first'
    have value : (UInt8.ofNat (16 * high + low)).toNat = 16 * high + low := by
      rw [UInt8.toNat_ofNat']
      omega
    have front : settled first = Text.hexDigit high := by rw [settled, if_neg noPlus', digit']
    have first'' : (16 * high + low) / 16 = high := by omega
    have second'' : (16 * high + low) % 16 = low := by omega
    refine ⟨?_, narrow', narrow, noColon', noColon⟩
    rw [Text.byteHex, value, first'', second'', front, back]

theorem readPairs_eq_ok_iff {place : Nat} {digits : List Char} {bytes : List UInt8} :
    readPairs place digits = .ok bytes ↔ Spells digits bytes := by
  constructor
  · intro read
    fun_induction readPairs place digits generalizing bytes with
    | case1 =>
        cases read
        exact .nil
    | case2 | case3 | case5 | case6 | case7 => cases read
    | case4 place first _ second rest _ byte denotes ih =>
        cases later : readPairs (place + 2) rest with
        | error problem => simp [later, Except.map] at read
        | ok others =>
            simp only [later, Except.map, Except.ok.injEq] at read
            subst read
            exact .pair denotes (ih later)
  · intro spelled
    induction spelled generalizing place with
    | nil => rfl
    | pair denotes _ ih =>
        obtain ⟨_, narrow, narrow', _⟩ := pairValue?_facts denotes
        rw [readPairs, if_pos narrow]
        simp only [narrow', if_true, denotes, ih, Except.map]

theorem exists_spells_iff (count : Nat) {digits : List Char} :
    (∃ bytes, Spells digits bytes ∧ bytes.length = count) ↔
      digits.length = 2 * count ∧ ∀ place c, digits[place]? = some c →
        Text.IsHex c ∨ (place % 2 = 0 ∧ c = '+') := by
  induction count generalizing digits with
  | zero =>
      constructor
      · rintro ⟨bytes, spelled, empty⟩
        obtain rfl := List.length_eq_zero_iff.mp empty
        cases spelled
        exact ⟨rfl, by simp⟩
      · rintro ⟨empty, _⟩
        obtain rfl := List.length_eq_zero_iff.mp empty
        exact ⟨[], .nil, rfl⟩
  | succ count ih =>
      constructor
      · rintro ⟨bytes, spelled, length⟩
        cases spelled with
        | nil => cases length
        | @pair first second rest byte bytes denotes others =>
            obtain ⟨even, digits⟩ := ih.mp ⟨bytes, others, Nat.succ.inj length⟩
            obtain ⟨front, back⟩ := exists_pairValue?_iff.mp ⟨byte, denotes⟩
            refine ⟨by simp only [List.length_cons]; omega, fun place c found => ?_⟩
            match place with
            | 0 =>
                cases found
                exact front.imp_right fun plus => ⟨rfl, plus⟩
            | 1 =>
                cases found
                exact .inl back
            | place + 2 =>
                rw [Nat.add_mod_right]
                exact digits place c found
      · rintro ⟨even, digits'⟩
        match digits, even with
        | first :: second :: rest, even =>
            have length : rest.length = 2 * count := by
              simp only [List.length_cons] at even
              omega
            obtain ⟨bytes, spelled, sized⟩ := ih.mpr ⟨length, fun place c found => by
              have digit := digits' (place + 2) c found
              rwa [Nat.add_mod_right] at digit⟩
            have front := digits' 0 first rfl
            have back := digits' 1 second rfl
            obtain ⟨byte, denotes⟩ := exists_pairValue?_iff.mpr
              ⟨front.imp_right And.right, back.resolve_right fun odd => nomatch odd.1⟩
            exact ⟨byte :: bytes, .pair denotes spelled, congrArg (· + 1) sized⟩
        | [_], even =>
            simp only [List.length_cons, List.length_nil] at even
            omega

theorem hex_of_spells {digits : List Char} {bytes : List UInt8} (spelled : Spells digits bytes) :
    bytes.flatMap Text.byteHex = digits.map settled := by
  induction spelled with
  | nil => rfl
  | pair denotes _ ih => rw [List.flatMap_cons, (pairValue?_facts denotes).1, ih]; rfl

theorem size_of_spells {digits : List Char} {bytes : List UInt8} (spelled : Spells digits bytes) :
    Text.size digits = 2 * bytes.length := by
  induction spelled with
  | nil => rfl
  | pair denotes _ ih =>
      obtain ⟨_, narrow, narrow', _⟩ := pairValue?_facts denotes
      rw [Text.size_cons, Text.size_cons, narrow, narrow', ih, List.length_cons]
      omega

theorem colon_not_mem_of_spells {digits : List Char} {bytes : List UInt8}
    (spelled : Spells digits bytes) : ':' ∉ digits := by
  induction spelled with
  | nil => exact List.not_mem_nil
  | pair denotes _ ih =>
      obtain ⟨_, _, _, noColon, noColon'⟩ := pairValue?_facts denotes
      simp [noColon.symm, noColon'.symm, ih]

/-! ## Digests -/

theorem size_eq_foldl (digits : List Char) :
    digits.foldl (· + ·.utf8Size) 0 = Text.size digits := by
  have general : ∀ start, digits.foldl (· + ·.utf8Size) start = start + Text.size digits := by
    induction digits with
    | nil => exact fun start => rfl
    | cons c rest ih =>
        intro start
        rw [List.foldl_cons, ih, Text.size_cons, Nat.add_assoc]
  rw [general, Nat.zero_add]

theorem readHex_eq_ok_iff {digits : List Char} {digest : ContentDigest} :
    readHex digits = .ok digest ↔ Spells digits digest.bytes := by
  unfold readHex
  dsimp only
  rw [size_eq_foldl]
  constructor
  · intro read
    split at read
    · cases read
    · split at read
      · cases read
      · rename_i bytes pairs
        split at read
        · cases read
          exact readPairs_eq_ok_iff.mp pairs
        · cases read
  · intro spelled
    have sized := size_of_spells spelled
    rw [digest.length_eq] at sized
    rw [if_neg fun other => other sized, readPairs_eq_ok_iff.mpr spelled]
    exact dif_pos digest.length_eq

theorem withoutName_named (digits : List Char) :
    withoutName (algorithm.toList ++ ':' :: digits) = digits := by
  have named : (algorithm ++ ":").toList.isPrefixOf (algorithm.toList ++ ':' :: digits) = true := by
    rw [List.isPrefixOf_iff_prefix, String.toList_append]
    exact ⟨digits, List.append_assoc ..⟩
  rw [withoutName, if_pos named]
  rfl

/-- A text from which no name is taken holds no colon, or another name before the first one. -/
theorem withoutName_eq_self {text : List Char}
    (unnamed : ∀ digits, text ≠ algorithm.toList ++ ':' :: digits) : withoutName text = text := by
  unfold withoutName
  split
  · rename_i named
    obtain ⟨digits, shape⟩ := List.isPrefixOf_iff_prefix.mp named
    rw [String.toList_append, List.append_assoc] at shape
    exact absurd shape.symm (unnamed digits)
  · rfl

theorem parse_eq_ok_iff {text : String} {digest : ContentDigest} :
    parse text = .ok digest ↔ Spells (withoutName text.toList) digest.bytes := by
  have apart : ':' ∉ algorithm.toList := by decide
  unfold parse
  by_cases colon : ':' ∈ text.toList
  · obtain ⟨name, digits, shape, absent⟩ := List.eq_append_cons_of_mem colon
    rw [shape, Text.splitOnce?_append absent]
    by_cases named : String.ofList name = algorithm
    · obtain rfl : name = algorithm.toList := by rw [← named, String.toList_ofList]
      simp only [named, if_true]
      rw [readHex_eq_ok_iff, withoutName_named]
    · simp only [named, if_false]
      refine iff_of_false (fun read => nomatch read) fun spelled => ?_
      rw [withoutName_eq_self] at spelled
      · exact colon_not_mem_of_spells spelled (shape ▸ colon)
      · intro others same
        have first := Text.splitOnce?_append absent digits
        rw [same, Text.splitOnce?_append apart] at first
        cases first
        exact named String.ofList_toList
  · rw [Text.splitOnce?_of_not_mem colon, withoutName_eq_self, readHex_eq_ok_iff]
    rintro digits same
    exact colon (same ▸ List.mem_append_right _ List.mem_cons_self)

/-! ## Reading by places -/

def byteOf? (text : List Char) : Option UInt8 :=
  let digits := if text.head? = some '+' then text.tail else text
  if digits = [] then none
  else (digits.foldlM (fun value c => (Text.hexValue? c).map (16 * value + ·)) 0).bind fun value =>
    if value < 256 then some (UInt8.ofNat value) else none

def readPlace (digits : List Char) (place : Nat) : Except DigestError UInt8 :=
  match Text.slice? place (place + 2) digits with
  | none => .error (.splitCharacter place)
  | some pair => match byteOf? pair with
    | none => .error (.invalidDigit place)
    | some byte => .ok byte

def readPlaces (digits : List Char) (place : Nat) : Nat → Except DigestError (List UInt8)
  | 0 => .ok []
  | count + 1 =>
    match readPlace digits place with
    | .error problem => .error problem
    | .ok byte => (readPlaces digits (place + 2) count).map (byte :: ·)

theorem byteOf?_pair {first second : Char} :
    byteOf? [first, second] = pairValue? first second := by
  have small : ∀ {c value}, Text.hexValue? c = some value → value < 16 := fun denotes =>
    (Text.hexDigit_of_hexValue? denotes).1
  unfold byteOf? pairValue?
  by_cases plus : first = '+'
  · cases low : Text.hexValue? second with
    | none => simp [plus, low]
    | some value =>
        have fits : value < 256 := Nat.lt_trans (small low) (by decide)
        simp [plus, low, fits]
  · cases low : Text.hexValue? second with
    | none =>
        cases high : Text.hexValue? first with
        | none => simp [plus, high]
        | some value => simp [plus, low, high]
    | some value =>
        cases high : Text.hexValue? first with
        | none => simp [plus, high]
        | some value' =>
            have fits : 16 * value' + value < 256 := by
              have := small low
              have := small high
              omega
            simp [plus, low, high, fits]

theorem byteOf?_wide {c : Char} (wide : c.utf8Size ≠ 1) : byteOf? [c] = none := by
  have noDigit : Text.hexValue? c = none := by
    cases denotes : Text.hexValue? c with
    | none => rfl
    | some value => exact absurd (Text.hexDigit_of_hexValue? denotes).2.2.1 wide
  have noPlus : c ≠ '+' := by
    rintro rfl
    exact wide (by decide)
  simp [byteOf?, noPlus, noDigit]

/-- Reading in pairs is reading place by place. -/
theorem readPairs_eq_readPlaces (front rest : List Char) {count : Nat}
    (sized : Text.size rest = 2 * count) :
    readPairs (Text.size front) rest = readPlaces (front ++ rest) (Text.size front) count := by
  induction count generalizing front rest with
  | zero =>
      obtain rfl := Text.eq_nil_of_size_eq_zero sized
      rfl
  | succ count ih =>
      cases rest with
      | nil => cases sized
      | cons first more =>
          have positive := first.utf8Size_pos
          rw [Text.size_cons] at sized
          unfold readPairs readPlaces readPlace
          rw [Text.slice?_behind]
          by_cases narrow : first.utf8Size = 1
          · cases more with
            | nil =>
                rw [Text.size_nil] at sized
                omega
            | cons second rest =>
                by_cases narrow' : second.utf8Size = 1
                · have next := ih (front ++ [first, second]) rest (by
                    rw [Text.size_cons] at sized
                    omega)
                  have place : Text.size (front ++ [first, second]) = Text.size front + 2 := by
                    simp [narrow, narrow']
                  have cut : Text.cut? 2 (first :: second :: rest) = some ([first, second], rest) :=
                    Text.cut?_eq_some_iff.mpr ⟨rfl, by simp [narrow, narrow']⟩
                  rw [List.append_assoc, place] at next
                  simp only [narrow, narrow', if_true, cut, Option.map_some, byteOf?_pair]
                  cases pairValue? first second with
                  | none => rfl
                  | some byte => exact congrArg (·.map (byte :: ·)) next
                · have cut : ¬ second.utf8Size ≤ 1 := by
                    have := second.utf8Size_pos
                    omega
                  simp [Text.cut?, narrow, narrow', cut]
          · by_cases double : first.utf8Size = 2
            · simp [Text.cut?, double, byteOf?_wide narrow]
            · have cut : ¬ first.utf8Size ≤ 2 := by omega
              simp [Text.cut?, narrow, double, cut]

/-- Digits are read place by place: a place where a pair would cut a character, or whose pair denotes
no byte, is named by the error. -/
theorem readHex_eq_readPlaces (digits : List Char) :
    (readHex digits).map bytes =
      if Text.size digits = 64 then readPlaces digits 0 32
      else .error (.wrongLength (Text.size digits)) := by
  unfold readHex
  dsimp only
  rw [size_eq_foldl]
  by_cases sized : Text.size digits = 64
  · have places := readPairs_eq_readPlaces [] digits (show Text.size digits = 2 * 32 from sized)
    rw [if_pos sized, if_neg fun other => other sized]
    rw [Text.size_nil, List.nil_append] at places
    rw [← places]
    cases pairs : readPairs 0 digits with
    | error problem => rfl
    | ok bytes =>
        have length : bytes.length = 32 := by
          have twice := size_of_spells (readPairs_eq_ok_iff.mp pairs)
          omega
        simp only [length, dif_pos]
        rfl
  · rw [if_neg sized, if_pos sized]
    rfl

/-! ## What is read -/

theorem parse_of_spells {digits : List Char} {digest : ContentDigest}
    (spelled : Spells digits digest.bytes) : parse (String.ofList digits) = .ok digest := by
  apply parse_eq_ok_iff.mpr
  rw [String.toList_ofList, withoutName_eq_self]
  · exact spelled
  · rintro others rfl
    exact colon_not_mem_of_spells spelled (List.mem_append_right _ List.mem_cons_self)

theorem parse_hex (digest : ContentDigest) : parse digest.hex = .ok digest :=
  parse_of_spells (readHex_eq_ok_iff.mp (readHex_byteHex digest))

theorem exists_parse_iff {text : String} :
    (∃ digest, parse text = .ok digest) ↔ Paired (withoutName text.toList) := by
  rw [Paired, ← exists_spells_iff 32]
  constructor
  · rintro ⟨digest, read⟩
    exact ⟨digest.bytes, parse_eq_ok_iff.mp read, digest.length_eq⟩
  · rintro ⟨bytes, spelled, length⟩
    exact ⟨⟨bytes, length⟩, parse_eq_ok_iff.mpr spelled⟩

theorem hex_of_parse {text : String} {digest : ContentDigest} (read : parse text = .ok digest) :
    digest.hex.toList = (withoutName text.toList).map settled := by
  rw [hex, String.toList_ofList]
  exact hex_of_spells (parse_eq_ok_iff.mp read)

theorem paired_iff_of_plus_not_mem {digits : List Char} (unsigned : '+' ∉ digits) :
    Paired digits ↔ digits.length = 64 ∧ ∀ c ∈ digits, Text.IsHex c := by
  refine and_congr_right fun _ => ?_
  constructor
  · intro paired c listed
    obtain ⟨place, found⟩ := List.mem_iff_getElem?.mp listed
    refine (paired place c found).resolve_right ?_
    rintro ⟨_, rfl⟩
    exact unsigned listed
  · intro hex place c found
    exact .inl (hex c (List.mem_of_getElem? found))

theorem plus_not_mem_of_isHex {digits : List Char} (hex : ∀ c ∈ digits, Text.IsHex c) :
    '+' ∉ digits :=
  fun listed => absurd (hex '+' listed) (by decide)

/-- A text is a digest exactly if it has, without the name of the algorithm, 64 characters that are
hexadecimal digits or plus signs at the start of a pair; the digest is written as that text in lower
case with zeros for the plus signs. So the texts of 64 hexadecimal digits are those that are read and
hold no plus sign. The texts of a digest, with the name and without, read as the digest. Reading takes
two bytes at a time and is refused where they are cut off or cut a character. -/
theorem parse_accepts_pairs (text : String) :
    ((∃ digest, parse text = .ok digest) ↔ Paired (withoutName text.toList)) ∧
    (∀ digest, parse text = .ok digest →
      digest.hex.toList = (withoutName text.toList).map settled) ∧
    (((withoutName text.toList).length = 64 ∧ ∀ c ∈ withoutName text.toList, Text.IsHex c) ↔
      (∃ digest, parse text = .ok digest) ∧ '+' ∉ withoutName text.toList) ∧
    ('+' ∉ withoutName text.toList → ∀ digest, parse text = .ok digest →
      digest.hex.toList = (withoutName text.toList).map Char.toLower) ∧
    (∀ digest : ContentDigest, parse digest.display = .ok digest ∧ parse digest.hex = .ok digest) ∧
    ∀ digits, (readHex digits).map bytes =
      if Text.size digits = 64 then readPlaces digits 0 32
      else .error (.wrongLength (Text.size digits)) := by
  refine ⟨exists_parse_iff, fun digest => hex_of_parse, ?_, fun unsigned digest read => ?_,
    fun digest => ⟨parse_display digest, parse_hex digest⟩, readHex_eq_readPlaces⟩
  · rw [exists_parse_iff]
    constructor
    · intro digits
      have unsigned := plus_not_mem_of_isHex digits.2
      exact ⟨(paired_iff_of_plus_not_mem unsigned).mpr digits, unsigned⟩
    · rintro ⟨paired, unsigned⟩
      exact (paired_iff_of_plus_not_mem unsigned).mp paired
  · rw [hex_of_parse read]
    refine List.map_congr_left fun c listed => if_neg ?_
    rintro rfl
    exact unsigned listed

/-! ### Plus signs -/

theorem spells_replicate {first second : Char} {byte : UInt8}
    (denotes : pairValue? first second = some byte) (count : Nat) :
    Spells (List.replicate count [first, second]).flatten (List.replicate count byte) := by
  induction count with
  | zero => exact .nil
  | succ count ih => exact .pair denotes ih

def repeated (first second : Char) : String :=
  String.ofList (List.replicate 32 [first, second]).flatten

/-- Plus signs are taken for digits. -/
theorem signed_pairs_accepted :
    parse (repeated '+' 'f') = .ok ⟨List.replicate 32 15, rfl⟩ ∧
      ¬ ∀ c ∈ withoutName (repeated '+' 'f').toList, Text.IsHex c := by
  constructor
  · exact parse_of_spells (spells_replicate rfl 32)
  · intro hex
    exact absurd (hex '+' (by decide)) (by decide)

theorem parse_accepts_pairs_repeated :
    parse (repeated '+' 'f') = .ok ⟨List.replicate 32 15, rfl⟩ ∧
      (ContentDigest.mk (List.replicate 32 15) rfl).hex.toList
        = (withoutName (repeated '+' 'f').toList).map settled ∧
      '+' ∉ withoutName (repeated 'a' 'F').toList ∧
      parse (repeated 'a' 'F') = .ok ⟨List.replicate 32 0xAF, rfl⟩ ∧
      (ContentDigest.mk (List.replicate 32 0xAF) rfl).hex.toList
        = (withoutName (repeated 'a' 'F').toList).map Char.toLower := by
  have signed : parse (repeated '+' 'f') = .ok ⟨List.replicate 32 15, rfl⟩ :=
    parse_of_spells (spells_replicate rfl 32)
  have mixed : parse (repeated 'a' 'F') = .ok ⟨List.replicate 32 0xAF, rfl⟩ :=
    parse_of_spells (spells_replicate rfl 32)
  have unsigned : '+' ∉ withoutName (repeated 'a' 'F').toList := by decide
  obtain ⟨_, written, _⟩ := parse_accepts_pairs (repeated '+' 'f')
  obtain ⟨_, _, _, lower, _⟩ := parse_accepts_pairs (repeated 'a' 'F')
  exact ⟨signed, written _ signed, unsigned, mixed, lower unsigned _ mixed⟩

end ContentDigest

end Governance
