import Governance.Proofs.Json.Quoted

/-!
# The order of quoted strings

Quoting does not keep the order of strings. A string that another one goes on from is written after
it if the next character is below the closing quote, and strings that part at two characters are
written in the order of the escapes of these.
-/

set_option autoImplicit false

namespace Governance.Json

/-- Whether a string that comes before another one is written after it. -/
inductive Crosses : List Char → List Char → Prop where
  | shorter {c : Char} {rest : List Char} : c = ' ' ∨ c = '!' → Crosses [] (c :: rest)
  | parting {c d : Char} {rest others : List Char} : c < d → escapeChar d < escapeChar c →
      Crosses (c :: rest) (d :: others)
  | behind {c : Char} {rest others : List Char} : Crosses rest others →
      Crosses (c :: rest) (c :: others)

/-! ## Escapes side by side -/

theorem append_lt_append_iff {front rest others : List Char} :
    front ++ rest < front ++ others ↔ rest < others := by
  induction front with
  | nil => rfl
  | cons c front ih =>
      rw [List.cons_append, List.cons_append, List.cons_lt_cons_iff, ih]
      simp

/-- Words of which none goes on from the other compare whatever follows them. -/
theorem append_lt_append {word other : List Char} (less : word < other) (apart : ¬ word <+: other)
    (rest others : List Char) : word ++ rest < other ++ others := by
  induction less with
  | nil => exact absurd (List.nil_prefix) apart
  | rel less => exact .rel less
  | cons _ ih =>
      refine .cons (ih fun further => apart ?_)
      exact List.cons_prefix_cons.mpr ⟨rfl, further⟩

/-- A text begins with one escape only. -/
theorem escapeChar_cut {c d : Char} {rest others : List Char}
    (same : escapeChar c ++ rest = escapeChar d ++ others) : c = d := by
  rcases escapeChar_cases c with ⟨plain, _, noSlash, _⟩ | ⟨escape, shape, read⟩
  · rcases escapeChar_cases d with ⟨plain', _⟩ | ⟨escape', shape', _⟩
    · rw [plain, plain'] at same
      exact (List.cons.inj same).1
    · rw [plain, shape'] at same
      exact absurd (List.cons.inj same).1 noSlash
  · rcases escapeChar_cases d with ⟨plain', _, noSlash', _⟩ | ⟨escape', shape', read'⟩
    · rw [shape, plain'] at same
      exact absurd (List.cons.inj same).1.symm noSlash'
    · rw [shape, shape'] at same
      have again : some (c, rest) = some (d, others) := by
        rw [← read rest, ← read' others]
        exact congrArg readEscape? (List.cons.inj same).2
      exact (Prod.mk.inj (Option.some.inj again)).1

theorem not_prefix_escapeChar {c d : Char} (different : c ≠ d) :
    ¬ escapeChar c <+: escapeChar d := by
  intro further
  obtain ⟨rest, shape⟩ := further
  exact different (escapeChar_cut (shape.trans (List.append_nil _).symm))

theorem escapeChar_append_lt_iff {c d : Char} (different : c ≠ d) (rest others : List Char) :
    escapeChar d ++ others < escapeChar c ++ rest ↔ escapeChar d < escapeChar c := by
  constructor
  · intro less
    by_cases greater : escapeChar c < escapeChar d
    · have turned := append_lt_append greater (not_prefix_escapeChar different) rest others
      exact absurd turned (List.lt_asymm less)
    · by_cases turned : escapeChar d < escapeChar c
      · exact turned
      · have same : escapeChar c = escapeChar d :=
          List.le_antisymm (List.not_lt.mp turned) (List.not_lt.mp greater)
        exact absurd (same ▸ List.prefix_refl _) (not_prefix_escapeChar different)
  · exact fun less => append_lt_append less (not_prefix_escapeChar different.symm) others rest

/-- A string goes on from nothing with a character below the quote if the character is a blank or an
exclamation mark; controls are escaped. -/
theorem escapeChar_append_lt_quote_iff {c : Char} {rest : List Char} :
    escapeChar c ++ rest < ['"'] ↔ c = ' ' ∨ c = '!' := by
  have bounds : ∀ d : Char, d < '"' ↔ d.toNat < 34 := fun d => Iff.rfl
  have same : ∀ d : Char, c.toNat = d.toNat ↔ c = d := fun d => Char.toNat_inj
  rcases escapeChar_cases c with ⟨plain, noQuote, _, large⟩ | ⟨escape, shape, _⟩
  · rw [plain, List.singleton_append, List.cons_lt_cons_iff, bounds, ← same ' ', ← same '!']
    have blank : ' '.toNat = 32 := rfl
    have mark : '!'.toNat = 33 := rfl
    simp only [noQuote, false_and, or_false]
    omega
  · have escaped : ∀ d : Char, escapeChar d = [d] → c ≠ d := by
      intro d plain equal
      subst equal
      rw [plain] at shape
      obtain ⟨rfl, _⟩ := List.cons.inj shape
      cases plain
    rw [shape, List.cons_append, List.cons_lt_cons_iff]
    have above : ¬ '\\' < '"' := by decide
    simp [above, escaped ' ' rfl, escaped '!' rfl]

/-! ## Strings -/

theorem escaped_lt_escaped_iff {text other : List Char} (less : text < other) :
    other.flatMap escapeChar ++ ['"'] < text.flatMap escapeChar ++ ['"'] ↔ Crosses text other := by
  -- the induction goes along the common front, up to the place where the strings part
  induction less with
  | nil =>
      rw [List.flatMap_cons, List.append_assoc, List.flatMap_nil, List.nil_append,
        escapeChar_append_lt_quote_iff]
      constructor
      · exact .shorter
      · intro crosses
        cases crosses with
        | shorter next => exact next
  | @rel c rest d others less =>
      have different : c ≠ d := fun same => Char.lt_irrefl d (same ▸ less)
      rw [List.flatMap_cons, List.flatMap_cons, List.append_assoc, List.append_assoc,
        escapeChar_append_lt_iff different]
      constructor
      · exact .parting less
      · intro crosses
        cases crosses with
        | parting _ turned => exact turned
        | behind => exact absurd rfl different
  | @cons c rest others less ih =>
      rw [List.flatMap_cons, List.flatMap_cons, List.append_assoc, List.append_assoc,
        append_lt_append_iff, ih]
      constructor
      · exact .behind
      · intro crosses
        cases crosses with
        | parting less _ => exact absurd less (Char.lt_irrefl c)
        | behind crosses => exact crosses

/-- Strings in order are written the other way round exactly if they cross. -/
theorem quoted_lt_quoted_iff {text other : String} (less : text < other) :
    quoted other < quoted text ↔ Crosses text.toList other.toList := by
  change (quoted other).toList < (quoted text).toList ↔ _
  rw [toList_quoted, toList_quoted, List.cons_lt_cons_iff, escaped_lt_escaped_iff less]
  simp

end Governance.Json
