import Mathlib.Algebra.Order.BigOperators.Group.List
import InferSched.Library.JsonLiterals

/-! # Fields written between quotes

A text that is assembled from quoted fields is read back wrongly as soon as a
field needs an escape. `Json.Field` places a field between its quotes in a text;
a literal that escapes something inside a field cannot be longer than the field
(`Json.Field.body_length_le`), because it can neither start before the opening
quote nor end after the closing one.
-/

namespace InferSched.Library.Json

/-- What may follow the closing quote of a field: the end of the object, or the
key of the next member. -/
def FieldEnd (after : List Char) : Prop :=
  after = ['}'] ∨ ∃ letter rest, after = ',' :: '"' :: letter :: rest ∧
    isSpace letter = false ∧ letter ≠ ',' ∧ letter ≠ '}'

/-- A field stands in a text as the string value of a member. -/
structure Field (text field : List Char) where
  front : List Char
  back : List Char
  shape : text = front ++ ':' :: '"' :: (field ++ '"' :: back)
  ends : FieldEnd back

namespace Field

variable {text field : List Char} (place : Field text field)

/-- The index of the first character. -/
def start : ℕ :=
  place.front.length + 2

theorem get_colon : text[place.start - 2]? = some ':' := by
  obtain ⟨front, back, rfl, _⟩ := place
  simp [start]

theorem get_quote : text[place.start - 1]? = some '"' := by
  obtain ⟨front, back, rfl, _⟩ := place
  simp [start]

theorem get_field {index : ℕ} (inside : index < field.length) :
    text[place.start + index]? = field[index]? := by
  obtain ⟨front, back, rfl, _⟩ := place
  change (front ++ ':' :: '"' :: (field ++ '"' :: back))[front.length + 2 + index]? = _
  rw [List.getElem?_append_right (by omega),
    show front.length + 2 + index - front.length = index + 1 + 1 by omega]
  simp only [List.getElem?_cons_succ]
  exact List.getElem?_append_left inside

theorem get_back (index : ℕ) :
    text[place.start + field.length + 1 + index]? = place.back[index]? := by
  obtain ⟨front, back, rfl, _⟩ := place
  change (front ++ ':' :: '"' :: (field ++ '"' :: back))[front.length + 2 + field.length + 1 +
    index]? = back[index]?
  rw [List.getElem?_append_right (by omega), show front.length + 2 + field.length + 1 + index -
    front.length = field.length + 1 + index + 1 + 1 by omega]
  simp only [List.getElem?_cons_succ]
  rw [List.getElem?_append_right (by omega),
    show field.length + 1 + index - field.length = index + 1 by omega, List.getElem?_cons_succ]

end Field

/-- A literal of a text, with what follows its closing quote. -/
structure Quoted (text body : List Char) where
  before : List Char
  after : List Char
  shape : text = before ++ '"' :: (body ++ '"' :: after)
  follower : Char
  later : List Char
  spaced : skipSpace after = follower :: later
  ends : follower = ',' ∨ follower = '}'

namespace Quoted

variable {text body : List Char} (place : Quoted text body)

/-- The index of the first character after the opening quote. -/
def start : ℕ :=
  place.before.length + 1

theorem get_body {index : ℕ} (inside : index < body.length) :
    text[place.start + index]? = body[index]? := by
  obtain ⟨before, after, rfl, _⟩ := place
  change (before ++ '"' :: (body ++ '"' :: after))[before.length + 1 + index]? = _
  rw [List.getElem?_append_right (by omega),
    show before.length + 1 + index - before.length = index + 1 by omega,
    List.getElem?_cons_succ, List.getElem?_append_left inside]

theorem get_close : text[place.start + body.length]? = some '"' := by
  obtain ⟨before, after, rfl, _⟩ := place
  change (before ++ '"' :: (body ++ '"' :: after))[before.length + 1 + body.length]? = _
  rw [List.getElem?_append_right (by omega),
    show before.length + 1 + body.length - before.length = body.length + 1 by omega,
    List.getElem?_cons_succ, List.getElem?_append_right le_rfl, Nat.sub_self]
  rfl

theorem get_after (index : ℕ) :
    text[place.start + body.length + 1 + index]? = place.after[index]? := by
  obtain ⟨before, after, rfl, _⟩ := place
  change (before ++ '"' :: (body ++ '"' :: after))[before.length + 1 + body.length + 1 + index]? =
    after[index]?
  rw [List.getElem?_append_right (by omega), show before.length + 1 + body.length + 1 + index -
    before.length = body.length + 1 + index + 1 by omega,
    List.getElem?_cons_succ, List.getElem?_append_right (by omega),
    show body.length + 1 + index - body.length = index + 1 by omega, List.getElem?_cons_succ]

/-- A quote inside a literal has a backslash before it. -/
theorem slash_before {pieces : List Piece} (literal : Literal body pieces) {index : ℕ}
    (first : place.start ≤ index) (last : index < place.start + body.length)
    (quote : text[index]? = some '"') : text[index - 1]? = some '\\' := by
  obtain ⟨inner, rfl⟩ := Nat.exists_eq_add_of_le first
  rw [place.get_body (by omega)] at quote
  obtain ⟨positive, slash⟩ := literal.quote_escaped inner quote
  rw [Nat.add_sub_assoc positive, place.get_body (by omega)]
  exact slash

end Quoted

/-- A literal with an escape inside a field is no longer than the field. -/
theorem Field.body_length_le {text field body : List Char} {pieces : List Piece}
    (place : Field text field) (quoted : Quoted text body) (literal : Literal body pieces)
    {index : ℕ} (first : place.start ≤ index) (last : index < place.start + field.length)
    (after : quoted.start ≤ index) (before : index < quoted.start + body.length) :
    body.length ≤ field.length := by
  by_contra longer
  have opens : place.start ≤ quoted.start := by
    by_contra earlier
    have slash := quoted.slash_before literal (by omega) (by omega)
      place.get_quote
    rw [Nat.sub_sub, place.get_colon] at slash
    cases slash
  have second := place.get_back 1
  have close := quoted.get_close
  have head := place.get_back 0
  rcases place.ends with single | ⟨letter, rest, shape, solid, notComma, notBrace⟩
  · rw [single] at head second
    by_cases next : quoted.start + body.length = place.start + field.length + 1
    · rw [next] at close
      exact absurd (head.symm.trans close) (by decide)
    · have outside : text.length ≤ quoted.start + body.length := by
        have none := List.getElem?_eq_none_iff.mp second
        omega
      rw [List.getElem?_eq_none outside] at close
      cases close
  · rw [shape] at head second
    rcases Nat.lt_trichotomy (quoted.start + body.length) (place.start + field.length + 2)
      with less | equal | more
    · rw [show quoted.start + body.length = place.start + field.length + 1 + 0 by omega, head]
        at close
      cases close
    · have third := place.get_back 2
      rw [shape, show place.start + field.length + 1 + 2 = quoted.start + body.length + 1 + 0 by
        omega, quoted.get_after] at third
      have spaced := quoted.spaced
      cases rest' : quoted.after with
      | nil =>
          rw [rest'] at third
          cases third
      | cons c cs =>
          rw [rest'] at third spaced
          cases third
          rw [skipSpace, List.dropWhile_cons_of_neg (by simp [solid])] at spaced
          cases spaced
          exact quoted.ends.elim notComma notBrace
    · have slash := quoted.slash_before literal
        (by omega) more second
      rw [show place.start + field.length + 2 - 1 = place.start + field.length + 1 + 0 by omega,
        head] at slash
      cases slash

/-- A list in which every element has a larger one is empty. -/
theorem eq_nil_of_ascending {α : Type} (size : α → ℕ) {items : List α}
    (ascending : ∀ item ∈ items, ∃ larger ∈ items, size item < size larger) : items = [] := by
  by_contra inhabited
  obtain ⟨first, member⟩ := List.exists_mem_of_ne_nil items inhabited
  have reach : ∀ bound : ℕ, ∃ item ∈ items, bound ≤ size item := by
    intro bound
    induction bound with
    | zero => exact ⟨first, member, Nat.zero_le _⟩
    | succ bound ih =>
        obtain ⟨item, inside, large⟩ := ih
        obtain ⟨larger, inside', less⟩ := ascending item inside
        exact ⟨larger, inside', by omega⟩
  obtain ⟨item, inside, large⟩ := reach ((items.map size).sum + 1)
  have small := List.le_sum_of_mem (List.mem_map_of_mem (f := size) inside)
  omega

/-! ### Templates -/

/-- A text with a fixed part before every field and one after the last. -/
def fill : List (List Char × List Char) → List Char → List Char
  | [], last => last
  | (fixed, field) :: rest, last => fixed ++ (field ++ fill rest last)

/-- The fixed parts of a template have no backslash and put every field between
the quotes of a string value. -/
def Quotes : List (List Char × List Char) → List Char → Prop
  | [], last => '\\' ∉ last
  | (fixed, _) :: rest, last =>
      '\\' ∉ fixed ∧ (∃ front, fixed = front ++ [':', '"']) ∧
        (∃ back, fill rest last = '"' :: back ∧ FieldEnd back) ∧ Quotes rest last

/-- Every backslash of a filled template is in a field. -/
theorem slash_in_field {text last : List Char} {segments : List (List Char × List Char)}
    (quotes : Quotes segments last) {front : List Char} (shape : text = front ++ fill segments last)
    {index : ℕ} (first : front.length ≤ index) (slash : text[index]? = some '\\') :
    ∃ segment ∈ segments, ∃ place : Field text segment.2,
      place.start ≤ index ∧ index < place.start + segment.2.length := by
  induction segments generalizing front with
  | nil =>
      rw [shape, List.getElem?_append_right first] at slash
      exact absurd (List.mem_of_getElem? slash) quotes
  | cons segment rest ih =>
      obtain ⟨fixed, field⟩ := segment
      obtain ⟨clean, ⟨start, opens⟩, ⟨back, closes, ends⟩, quotes⟩ := quotes
      by_cases inFixed : index < front.length + fixed.length
      · rw [shape, List.getElem?_append_right first, fill,
          List.getElem?_append_left (by omega)] at slash
        exact absurd (List.mem_of_getElem? slash) clean
      · by_cases inField : index < front.length + fixed.length + field.length
        · refine ⟨(fixed, field), List.mem_cons_self, ⟨front ++ start, back, ?_, ends⟩, ?_⟩
          · rw [shape, fill, closes, opens]
            simp
          · simp only [Field.start, List.length_append]
            rw [opens, List.length_append] at inFixed inField
            simp only [List.length_cons, List.length_nil] at inFixed inField
            omega
        · have shape' : text = (front ++ (fixed ++ field)) ++ fill rest last := by
            rw [shape, fill]
            simp only [List.append_assoc]
          obtain ⟨segment, member, found⟩ := ih quotes shape' (by
            simp only [List.length_append]
            omega)
          exact ⟨segment, List.mem_cons_of_mem _ member, found⟩

/-- A template whose fields are read back has no field that needs an escape: the
literal of such a field would be longer than the field, and its escape would lie
in a field that is longer still. -/
theorem plain_of_read {segments : List (List Char × List Char)} {last : List Char}
    (quotes : Quotes segments last) {value : Json}
    (decoded : loads (fill segments last) = some value)
    (read : ∀ segment ∈ segments, ∃ key, value.get? key = some (.string (codes segment.2))) :
    ∀ segment ∈ segments, ∀ c ∈ segment.2, Plain c := by
  have none : segments.filter (fun segment => decide (∃ c ∈ segment.2, ¬ Plain c)) = [] := by
    apply eq_nil_of_ascending fun segment => segment.2.length
    intro segment member
    obtain ⟨member, special⟩ := List.mem_filter.mp member
    rw [decide_eq_true_eq] at special
    obtain ⟨key, found⟩ := read segment member
    obtain ⟨before, body, after, pieces, follower, later, shape, literal, joined, spaced, ends⟩ :=
      loads_string_occurs decoded found
    obtain ⟨escaped, longer⟩ := literal.longer joined special
    let quoted : Quoted (fill segments last) body :=
      ⟨before, after, by rw [shape]; simp, follower, later, spaced, ends⟩
    obtain ⟨inner, slash⟩ := List.mem_iff_getElem?.mp escaped
    have inside : inner < body.length := (List.getElem?_eq_some_iff.mp slash).1
    have slash' : (fill segments last)[quoted.start + inner]? = some '\\' := by
      rw [quoted.get_body inside, slash]
    obtain ⟨other, isMember, place, first, last⟩ := slash_in_field quotes (List.nil_append _).symm
      (Nat.zero_le _) slash'
    have bounded := place.body_length_le quoted literal first last (Nat.le_add_right _ _) (by omega)
    refine ⟨other, List.mem_filter.mpr ⟨isMember, ?_⟩, by omega⟩
    rw [decide_eq_true_eq]
    obtain ⟨index, position⟩ := Nat.exists_eq_add_of_le first
    rw [position, place.get_field (by omega)] at slash'
    exact ⟨'\\', List.mem_of_getElem? slash', fun plain => plain.2.1 rfl⟩
  intro segment member c inside
  by_contra special
  have listed : segment ∈ segments.filter fun segment => decide (∃ c ∈ segment.2, ¬ Plain c) :=
    List.mem_filter.mpr ⟨member, decide_eq_true ⟨c, inside, special⟩⟩
  rw [none] at listed
  exact absurd listed List.not_mem_nil

end InferSched.Library.Json
