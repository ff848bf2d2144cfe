import Mathlib.Data.List.TakeDrop
import Mathlib.Tactic.IntervalCases
import InferSched.Library.Json

/-! # String literals in JSON text

`Json.Literal` relates the text between the quotes of a string literal to the
pieces it stands for. A literal without backslash stands for itself, and one with
a backslash is longer than the string it names. `Json.loads_string_occurs` traces
a string value of a decoded object back to the place of its literal, which a
comma or a closing brace follows. In the other direction, text without quotes,
backslashes and control characters can be written between quotes as it is
(`Json.scanString_plain`), and a decimal number is read back as its value
(`Json.scanValue_decimal`).
-/

namespace InferSched.Library.Json

/-- A character that a literal can contain as it is. -/
def Plain (c : Char) : Prop :=
  c ≠ '"' ∧ c ≠ '\\' ∧ 0x20 ≤ c.toNat

instance (c : Char) : Decidable (Plain c) :=
  inferInstanceAs (Decidable (_ ∧ _ ∧ _))

/-- The text between the quotes of a literal, and its pieces. -/
inductive Literal : List Char → List Piece → Prop
  | nil : Literal [] []
  | plain {c : Char} {body : List Char} {pieces : List Piece} (plain : Plain c)
      (rest : Literal body pieces) : Literal (c :: body) (.plain c.toNat :: pieces)
  | simple {c : Char} {code : ℕ} {body : List Char} {pieces : List Piece}
      (known : simpleEscape c = some code) (rest : Literal body pieces) :
      Literal ('\\' :: c :: body) (.plain code :: pieces)
  | unit {a b c d : Char} {code : ℕ} {body : List Char} {pieces : List Piece}
      (known : hexUnit a b c d = some code) (rest : Literal body pieces) :
      Literal ('\\' :: 'u' :: a :: b :: c :: d :: body) (.unit code :: pieces)

theorem push_eq_some {piece : Piece} {scanned : Option (List Piece × List Char)}
    {pieces : List Piece} {rest : List Char} (pushed : push piece scanned = some (pieces, rest)) :
    ∃ later, scanned = some (later, rest) ∧ pieces = piece :: later := by
  unfold push at pushed
  obtain ⟨⟨later, after⟩, found, equal⟩ := Option.map_eq_some_iff.mp pushed
  cases equal
  exact ⟨later, found, rfl⟩

/-- A scanned literal is the text up to its closing quote. -/
theorem scanPieces_literal {text : List Char} {pieces : List Piece} {rest : List Char}
    (scanned : scanPieces text = some (pieces, rest)) :
    ∃ body, text = body ++ '"' :: rest ∧ Literal body pieces := by
  fun_induction scanPieces text generalizing pieces with
  | case1 => cases scanned
  | case2 after => cases scanned; exact ⟨[], rfl, .nil⟩
  | case3 a b c d after unknown => cases scanned
  | case4 a b c d after code known ih =>
      obtain ⟨later, found, rfl⟩ := push_eq_some scanned
      obtain ⟨body, rfl, literal⟩ := ih found
      exact ⟨_, rfl, .unit known literal⟩
  | case5 escaped after _ unknown => cases scanned
  | case6 escaped after _ code known ih =>
      obtain ⟨later, found, rfl⟩ := push_eq_some scanned
      obtain ⟨body, rfl, literal⟩ := ih found
      exact ⟨_, rfl, .simple known literal⟩
  | case7 c after _ _ _ control => cases scanned
  | case8 c after quote unit simple printable ih =>
      obtain ⟨later, found, rfl⟩ := push_eq_some scanned
      obtain ⟨body, rfl, literal⟩ := ih found
      refine ⟨c :: body, rfl, .plain ⟨quote, ?_, Nat.le_of_not_lt printable⟩ literal⟩
      rintro rfl
      cases body with
      | nil => exact simple _ _ rfl rfl
      | cons escaped body => exact simple _ _ rfl rfl

namespace Literal

variable {body : List Char} {pieces : List Piece}

/-- The named string is no longer than its pieces. -/
theorem joinPieces_length (pieces : List Piece) : (joinPieces pieces).length ≤ pieces.length := by
  fun_induction joinPieces pieces with
  | case1 => exact le_rfl
  | case2 code rest ih => exact Nat.succ_le_succ ih
  | case3 high low rest pair ih => exact Nat.succ_le_succ (Nat.le_succ_of_le ih)
  | case4 high low rest single ih => exact Nat.succ_le_succ ih
  | case5 code rest _ ih => exact Nat.succ_le_succ ih

/-- A literal has a character for every piece, and more when it escapes one. -/
theorem pieces_length (literal : Literal body pieces) :
    pieces.length ≤ body.length ∧ ('\\' ∈ body → pieces.length < body.length) := by
  induction literal with
  | nil => exact ⟨le_rfl, fun escaped => absurd escaped List.not_mem_nil⟩
  | @plain c body pieces plain rest ih =>
      refine ⟨Nat.succ_le_succ ih.1, fun escaped => Nat.succ_lt_succ (ih.2 ?_)⟩
      rcases List.mem_cons.mp escaped with same | later
      · exact absurd same.symm plain.2.1
      · exact later
  | simple known rest ih =>
      simp only [List.length_cons]
      omega
  | unit known rest ih =>
      simp only [List.length_cons]
      omega

/-- A literal without backslash consists of plain characters and names itself. -/
theorem eq_of_unescaped (literal : Literal body pieces) (unescaped : '\\' ∉ body) :
    joinPieces pieces = codes body ∧ ∀ c ∈ body, Plain c := by
  induction literal with
  | nil => exact ⟨rfl, fun c member => absurd member List.not_mem_nil⟩
  | @plain c body pieces plain rest ih =>
      obtain ⟨named, all⟩ := ih fun later => unescaped (List.mem_cons_of_mem _ later)
      refine ⟨congrArg (c.toNat :: ·) named, ?_⟩
      intro other member
      rcases List.mem_cons.mp member with rfl | later
      · exact plain
      · exact all other later
  | simple known rest ih => exact absurd List.mem_cons_self unescaped
  | unit known rest ih => exact absurd List.mem_cons_self unescaped

theorem hexValue_quote : hexValue '"' = none := by decide

/-- A hexadecimal digit is not a quote. -/
theorem hexUnit_noQuote {a b c d : Char} {code : ℕ} (known : hexUnit a b c d = some code) :
    '"' ∉ [a, b, c, d] := by
  intro member
  simp only [hexUnit, Option.bind_eq_some_iff, Option.map_eq_some_iff] at known
  obtain ⟨first, isFirst, second, isSecond, third, isThird, fourth, isFourth, _⟩ := known
  simp only [List.mem_cons, List.not_mem_nil, or_false] at member
  rcases member with rfl | rfl | rfl | rfl
  · exact absurd (hexValue_quote.symm.trans isFirst) (by simp)
  · exact absurd (hexValue_quote.symm.trans isSecond) (by simp)
  · exact absurd (hexValue_quote.symm.trans isThird) (by simp)
  · exact absurd (hexValue_quote.symm.trans isFourth) (by simp)

/-- What follows a backslash still does after more text in front. -/
theorem escaped_append {body : List Char} {index : ℕ} (front : List Char)
    (escaped : 0 < index ∧ body[index - 1]? = some '\\') :
    0 < index + front.length ∧ (front ++ body)[index + front.length - 1]? = some '\\' := by
  obtain ⟨positive, slash⟩ := escaped
  have position : index + front.length - 1 = front.length + (index - 1) := by omega
  refine ⟨by omega, ?_⟩
  rw [position, List.getElem?_append_right (by omega), Nat.add_sub_cancel_left, slash]

/-- A quote inside a literal follows a backslash. -/
theorem quote_escaped (literal : Literal body pieces) (index : ℕ)
    (quote : body[index]? = some '"') : 0 < index ∧ body[index - 1]? = some '\\' := by
  induction literal generalizing index with
  | nil => cases quote
  | plain plain rest ih =>
      cases index with
      | zero =>
          cases quote
          exact absurd rfl plain.1
      | succ index => exact escaped_append [_] (ih index quote)
  | simple known rest ih =>
      match index, quote with
      | 0, quote => cases quote
      | 1, quote => exact ⟨Nat.one_pos, rfl⟩
      | index + 2, quote => exact escaped_append ['\\', _] (ih index quote)
  | @unit a b c d code body pieces known rest ih =>
      have digits := hexUnit_noQuote known
      simp only [List.mem_cons, List.not_mem_nil, or_false, not_or] at digits
      match index, quote with
      | 0, quote => cases quote
      | 1, quote => cases quote
      | 2, quote => exact absurd (Option.some.inj quote).symm digits.1
      | 3, quote => exact absurd (Option.some.inj quote).symm digits.2.1
      | 4, quote => exact absurd (Option.some.inj quote).symm digits.2.2.1
      | 5, quote => exact absurd (Option.some.inj quote).symm digits.2.2.2
      | index + 6, quote => exact escaped_append ['\\', 'u', a, b, c, d] (ih index quote)

/-- A literal for a string with a character that is not plain escapes it, so it
is longer than the string. -/
theorem longer (literal : Literal body pieces) {text : List Char}
    (named : joinPieces pieces = codes text) (special : ∃ c ∈ text, ¬ Plain c) :
    '\\' ∈ body ∧ text.length < body.length := by
  have sizes : text.length ≤ pieces.length := by
    have joined := joinPieces_length pieces
    rw [named, codes, List.length_map] at joined
    exact joined
  have escaped : '\\' ∈ body := by
    by_contra unescaped
    obtain ⟨itself, all⟩ := literal.eq_of_unescaped unescaped
    have same : text = body := by
      have injective : Function.Injective Char.toNat := fun left right equal => Char.ext
        (UInt32.toNat_inj.mp equal)
      exact List.map_injective_iff.mpr injective (named.symm.trans itself)
    obtain ⟨c, member, notPlain⟩ := special
    exact notPlain (all c (same ▸ member))
  exact ⟨escaped, lt_of_le_of_lt sizes (literal.pieces_length.2 escaped)⟩

end Literal

/-! ### Where string values stand -/

theorem skipSpace_suffix (text : List Char) : skipSpace text <:+ text :=
  List.dropWhile_suffix isSpace

theorem scanString_suffix {text : List Char} {named : List ℕ} {rest : List Char}
    (scanned : scanString text = some (named, rest)) : rest <:+ text := by
  obtain ⟨⟨pieces, after⟩, found, equal⟩ := Option.map_eq_some_iff.mp scanned
  cases equal
  obtain ⟨body, rfl, _⟩ := scanPieces_literal found
  exact ⟨body ++ ['"'], by simp⟩

theorem span_suffix (text : List Char) : (text.span Char.isDigit).2 <:+ text := by
  rw [List.span_eq_takeWhile_dropWhile]
  exact List.dropWhile_suffix _

theorem scanDigits_suffix {text digits rest : List Char}
    (scanned : scanDigits text = some (digits, rest)) : rest <:+ text := by
  unfold scanDigits at scanned
  split at scanned
  · cases scanned
    exact List.suffix_cons _ _
  · have suffix := span_suffix text
    split at scanned
    · cases scanned
    · next spanned =>
        cases scanned
        rw [spanned] at suffix
        exact suffix

theorem scanFraction_suffix (text : List Char) : (scanFraction text).2 <:+ text := by
  unfold scanFraction
  split
  · next rest =>
      have suffix := span_suffix rest
      split
      · exact List.suffix_rfl
      · next spanned =>
          rw [spanned] at suffix
          exact suffix.trans (List.suffix_cons _ _)
  · exact List.suffix_rfl

theorem scanExponent_suffix (text : List Char) : (scanExponent text).2 <:+ text := by
  unfold scanExponent
  split
  · exact List.suffix_rfl
  · next mark rest =>
      split
      · have suffix := (span_suffix (rest.drop (min (rest.takeWhile
          fun c => c = '+' || c = '-').length 1))).trans (List.drop_suffix _ _)
        dsimp only
        split
        · exact List.suffix_rfl
        · next spanned =>
            rw [spanned] at suffix
            exact suffix.trans (List.suffix_cons _ _)
      · exact List.suffix_rfl

theorem scanNumber_suffix {negative : Bool} {text : List Char} {value : Json} {rest : List Char}
    (scanned : scanNumber negative text = some (value, rest)) : rest <:+ text := by
  obtain ⟨⟨digits, after⟩, found, equal⟩ := Option.map_eq_some_iff.mp scanned
  have whole := scanDigits_suffix found
  have fraction := scanFraction_suffix after
  have exponent := scanExponent_suffix (scanFraction after).2
  dsimp only at equal
  split at equal
  · cases equal
    exact whole
  · cases equal
    exact (exponent.trans fraction).trans whole

/-- A value that is neither a string nor a container. -/
def IsAtom : Json → Prop
  | .string _ => False
  | .array _ => False
  | .object _ => False
  | _ => True

theorem scanNumber_isAtom {negative : Bool} {text : List Char} {value : Json} {rest : List Char}
    (scanned : scanNumber negative text = some (value, rest)) : value.IsAtom := by
  obtain ⟨⟨digits, after⟩, found, equal⟩ := Option.map_eq_some_iff.mp scanned
  dsimp only at equal
  split at equal
  · cases equal
    trivial
  · cases equal
    trivial

theorem strip_suffix {word text rest : List Char} (stripped : strip word text = some rest) :
    rest <:+ text := by
  unfold strip at stripped
  split at stripped
  · cases stripped
    exact List.drop_suffix _ _
  · cases stripped

/-- The atom scanner leaves a suffix and gives an atom. -/
theorem scanAtom_spec {text : List Char} {value : Json} {rest : List Char}
    (scanned : scanAtom text = some (value, rest)) : rest <:+ text ∧ value.IsAtom := by
  have word : ∀ {word : List Char} {atom : Json}, atom.IsAtom →
      ((strip word text).map fun after => (atom, after)) = some (value, rest) →
      rest <:+ text ∧ value.IsAtom := by
    intro word atom isAtom found
    obtain ⟨after, stripped, equal⟩ := Option.map_eq_some_iff.mp found
    cases equal
    exact ⟨strip_suffix stripped, isAtom⟩
  unfold scanAtom at scanned
  simp only [Option.orElse_eq_orElse, Option.orElse_eq_or, Option.or_eq_some_iff] at scanned
  rcases scanned with found | ⟨_, found | ⟨_, found | ⟨_, found | ⟨_, found | ⟨_, found |
    ⟨_, found⟩⟩⟩⟩⟩⟩
  · exact word (by trivial) found
  · exact word (by trivial) found
  · exact word (by trivial) found
  · exact word (by trivial) found
  · exact word (by trivial) found
  · exact word (by trivial) found
  · split at found
    · exact ⟨(scanNumber_suffix found).trans (List.suffix_cons _ _), scanNumber_isAtom found⟩
    · exact ⟨scanNumber_suffix found, scanNumber_isAtom found⟩

/-- What a value leaves, if the scanners below it leave suffixes. -/
theorem scanValue_suffix {fuel : ℕ}
    (memberLists : ∀ text members rest, scanMembers fuel text = some (members, rest) →
      rest <:+ text)
    (itemLists : ∀ text items rest, scanItems fuel text = some (items, rest) → rest <:+ text)
    {text rest : List Char} {value : Json}
    (scanned : scanValue (fuel + 1) text = some (value, rest)) : rest <:+ text := by
  unfold scanValue at scanned
  split at scanned
  · obtain ⟨⟨named, after⟩, found, equal⟩ := Option.map_eq_some_iff.mp scanned
    cases equal
    exact (scanString_suffix found).trans (List.suffix_cons _ _)
  · next inner =>
      have space := (skipSpace_suffix inner).trans (List.suffix_cons '{' inner)
      split at scanned
      · next spaced =>
          cases scanned
          exact (List.suffix_cons _ _).trans (spaced ▸ space)
      · next spaced =>
          obtain ⟨⟨members, after⟩, found, equal⟩ := Option.map_eq_some_iff.mp scanned
          cases equal
          exact ((memberLists _ _ _ found).trans (List.suffix_cons _ _)).trans (spaced ▸ space)
      · cases scanned
  · next inner =>
      have space := (skipSpace_suffix inner).trans (List.suffix_cons '[' inner)
      split at scanned
      · next spaced =>
          cases scanned
          exact (List.suffix_cons _ _).trans (spaced ▸ space)
      · obtain ⟨⟨items, after⟩, found, equal⟩ := Option.map_eq_some_iff.mp scanned
        cases equal
        exact (itemLists _ _ _ found).trans space
  · exact (scanAtom_spec scanned).1

theorem scanMembers_suffix {fuel : ℕ}
    (values : ∀ text value rest, scanValue fuel text = some (value, rest) → rest <:+ text)
    (memberLists : ∀ text members rest, scanMembers fuel text = some (members, rest) →
      rest <:+ text)
    {text rest : List Char} {members : List (List ℕ × Json)}
    (scanned : scanMembers (fuel + 1) text = some (members, rest)) : rest <:+ text := by
  unfold scanMembers at scanned
  obtain ⟨⟨key, afterKey⟩, foundKey, scanned⟩ := Option.bind_eq_some_iff.mp scanned
  have keySuffix := (skipSpace_suffix afterKey).trans (scanString_suffix foundKey)
  split at scanned
  · next afterColon colon =>
      obtain ⟨⟨value, afterValue⟩, foundValue, scanned⟩ := Option.bind_eq_some_iff.mp scanned
      have valueSuffix : skipSpace afterValue <:+ text :=
        ((((skipSpace_suffix afterValue).trans (values _ _ _ foundValue)).trans
          (skipSpace_suffix afterColon)).trans (List.suffix_cons ':' _)).trans
            (colon ▸ keySuffix)
      split at scanned
      · next spaced =>
          cases scanned
          exact (List.suffix_cons _ _).trans (spaced ▸ valueSuffix)
      · next afterComma spaced =>
          have commaSuffix : skipSpace afterComma <:+ text :=
            ((skipSpace_suffix afterComma).trans (List.suffix_cons ',' _)).trans
              (spaced ▸ valueSuffix)
          split at scanned
          · next quoted =>
              obtain ⟨⟨later, after⟩, found, equal⟩ := Option.map_eq_some_iff.mp scanned
              cases equal
              exact ((memberLists _ _ _ found).trans (List.suffix_cons _ _)).trans
                (quoted ▸ commaSuffix)
          · cases scanned
      · cases scanned
  · cases scanned

theorem scanItems_suffix {fuel : ℕ}
    (values : ∀ text value rest, scanValue fuel text = some (value, rest) → rest <:+ text)
    (itemLists : ∀ text items rest, scanItems fuel text = some (items, rest) → rest <:+ text)
    {text rest : List Char} {items : List Json}
    (scanned : scanItems (fuel + 1) text = some (items, rest)) : rest <:+ text := by
  unfold scanItems at scanned
  obtain ⟨⟨item, afterItem⟩, foundItem, scanned⟩ := Option.bind_eq_some_iff.mp scanned
  have itemSuffix := (skipSpace_suffix afterItem).trans (values _ _ _ foundItem)
  split at scanned
  · next spaced =>
      cases scanned
      exact (List.suffix_cons _ _).trans (spaced ▸ itemSuffix)
  · next afterComma spaced =>
      obtain ⟨⟨later, after⟩, found, equal⟩ := Option.map_eq_some_iff.mp scanned
      cases equal
      exact (((itemLists _ _ _ found).trans (skipSpace_suffix _)).trans
        (List.suffix_cons _ _)).trans (spaced ▸ itemSuffix)
  · cases scanned

/-- Every scanner leaves a suffix of its text. -/
theorem scan_suffix (fuel : ℕ) :
    (∀ text value rest, scanValue fuel text = some (value, rest) → rest <:+ text) ∧
    (∀ text members rest, scanMembers fuel text = some (members, rest) → rest <:+ text) ∧
    ∀ text items rest, scanItems fuel text = some (items, rest) → rest <:+ text := by
  induction fuel with
  | zero =>
      refine ⟨?_, ?_, ?_⟩
      · intro text value rest scanned
        cases scanned
      · intro text members rest scanned
        cases scanned
      · intro text items rest scanned
        cases scanned
  | succ fuel ih =>
      obtain ⟨values, memberLists, itemLists⟩ := ih
      refine ⟨?_, ?_, ?_⟩
      · intro text value rest scanned
        exact scanValue_suffix memberLists itemLists scanned
      · intro text members rest scanned
        exact scanMembers_suffix values memberLists scanned
      · intro text items rest scanned
        exact scanItems_suffix values itemLists scanned

/-- A literal that names a string stands in a text, with a comma or a closing
brace after it. -/
def Occurs (text : List Char) (named : List ℕ) : Prop :=
  ∃ before body after pieces follower later,
    text = before ++ '"' :: body ++ '"' :: after ∧ Literal body pieces ∧
    joinPieces pieces = named ∧ skipSpace after = follower :: later ∧
    (follower = ',' ∨ follower = '}')

theorem Occurs.of_suffix {text suffix : List Char} {named : List ℕ}
    (occurs : Occurs suffix named) (isSuffix : suffix <:+ text) : Occurs text named := by
  obtain ⟨front, rfl⟩ := isSuffix
  obtain ⟨before, body, after, pieces, follower, later, rfl, literal, joined, space, ends⟩ := occurs
  exact ⟨front ++ before, body, after, pieces, follower, later, by simp, literal, joined, space,
    ends⟩

/-- A scanned string value is a literal at the front of the text. -/
theorem scanValue_string {fuel : ℕ} {text : List Char} {named : List ℕ} {rest : List Char}
    (scanned : scanValue fuel text = some (.string named, rest)) :
    ∃ body pieces, text = '"' :: body ++ '"' :: rest ∧ Literal body pieces ∧
      joinPieces pieces = named := by
  cases fuel with
  | zero => cases scanned
  | succ fuel =>
      unfold scanValue at scanned
      split at scanned
      · obtain ⟨⟨decoded, after⟩, found, equal⟩ := Option.map_eq_some_iff.mp scanned
        cases equal
        obtain ⟨⟨pieces, _⟩, foundPieces, equal⟩ := Option.map_eq_some_iff.mp found
        cases equal
        obtain ⟨body, rfl, literal⟩ := scanPieces_literal foundPieces
        exact ⟨body, pieces, rfl, literal, rfl⟩
      · split at scanned
        · cases scanned
        · obtain ⟨_, _, equal⟩ := Option.map_eq_some_iff.mp scanned
          cases equal
        · cases scanned
      · split at scanned
        · cases scanned
        · obtain ⟨_, _, equal⟩ := Option.map_eq_some_iff.mp scanned
          cases equal
      · exact (scanAtom_spec scanned).2.elim

theorem scanMembers_occurs (fuel : ℕ) (text : List Char) (members : List (List ℕ × Json))
    (rest : List Char) (scanned : scanMembers fuel text = some (members, rest)) (key named : List ℕ)
    (member : (key, Json.string named) ∈ members) : Occurs text named := by
  induction fuel generalizing text members with
  | zero => cases scanned
  | succ fuel ih =>
      unfold scanMembers at scanned
      obtain ⟨⟨first, afterKey⟩, foundKey, scanned⟩ := Option.bind_eq_some_iff.mp scanned
      have keySuffix := (skipSpace_suffix afterKey).trans (scanString_suffix foundKey)
      split at scanned
      · next afterColon colon =>
          obtain ⟨⟨value, afterValue⟩, foundValue, scanned⟩ := Option.bind_eq_some_iff.mp scanned
          have colonSuffix : skipSpace afterColon <:+ text :=
            ((skipSpace_suffix afterColon).trans (List.suffix_cons ':' _)).trans (colon ▸ keySuffix)
          have here : ∀ follower later, skipSpace afterValue = follower :: later →
              (follower = ',' ∨ follower = '}') → value = .string named → Occurs text named := by
            intro follower later space ends isString
            subst isString
            obtain ⟨body, pieces, shape, literal, joined⟩ := scanValue_string foundValue
            exact Occurs.of_suffix ⟨[], body, afterValue, pieces, follower, later, shape, literal,
              joined, space, ends⟩ colonSuffix
          split at scanned
          · next spaced =>
              cases scanned
              exact here _ _ spaced (Or.inr rfl)
                (congrArg Prod.snd (List.mem_singleton.mp member)).symm
          · next afterComma spaced =>
              have valueSuffix := ((scan_suffix fuel).1 _ _ _ foundValue).trans colonSuffix
              have commaSuffix : skipSpace afterComma <:+ text :=
                ((skipSpace_suffix afterComma).trans (List.suffix_cons ',' _)).trans
                  (spaced ▸ (skipSpace_suffix afterValue).trans valueSuffix)
              split at scanned
              · next quoted =>
                  obtain ⟨⟨later, after⟩, found, equal⟩ := Option.map_eq_some_iff.mp scanned
                  cases equal
                  rcases List.mem_cons.mp member with same | tail
                  · exact here _ _ spaced (Or.inl rfl) (congrArg Prod.snd same).symm
                  · exact (ih _ _ found tail).of_suffix
                      ((List.suffix_cons _ _).trans (quoted ▸ commaSuffix))
              · cases scanned
          · cases scanned
      · cases scanned

theorem lookup_mem {key : List ℕ} {value : Json} {members : List (List ℕ × Json)}
    (found : members.lookup key = some value) : (key, value) ∈ members := by
  induction members with
  | nil => cases found
  | cons member rest ih =>
      obtain ⟨name, stored⟩ := member
      rw [List.lookup_cons] at found
      split at found
      · next same =>
          cases found
          rw [eq_of_beq same]
          exact List.mem_cons_self
      · exact List.mem_cons_of_mem _ (ih found)

theorem lookup_of_mem {key : List ℕ} {value : Json} {members : List (List ℕ × Json)}
    (distinct : (members.map Prod.fst).Nodup) (member : (key, value) ∈ members) :
    members.lookup key = some value := by
  induction members with
  | nil => exact absurd member List.not_mem_nil
  | cons first rest ih =>
      rw [List.map_cons, List.nodup_cons] at distinct
      rcases List.mem_cons.mp member with rfl | later
      · exact List.lookup_cons_self
      · have different : (key == first.1) = false := by
          rw [beq_eq_false_iff_ne]
          intro same
          exact distinct.1 (same ▸ List.mem_map_of_mem later)
        rw [List.lookup_cons, different]
        exact ih distinct.2 later

/-- An object with distinct keys gives every key its only value. -/
theorem get?_of_mem {members : List (List ℕ × Json)} (distinct : (members.map Prod.fst).Nodup)
    {key : List Char} {value : Json} (member : (codes key, value) ∈ members) :
    (Json.object members).get? key = some value := by
  apply lookup_of_mem
  · exact ((List.reverse_perm members).map Prod.fst).nodup_iff.mpr distinct
  · exact List.mem_reverse.mpr member

theorem string?_eq_some {value : Json} {named : List ℕ} (read : value.string? = some named) :
    value = .string named := by
  cases value with
  | string codes => exact congrArg Json.string (Option.some.inj read)
  | _ => cases read

/-- A string member of a decoded text is a literal of that text. -/
theorem loads_string_occurs {text key : List Char} {value : Json} {named : List ℕ}
    (decoded : loads text = some value) (read : value.get? key = some (.string named)) :
    Occurs text named := by
  unfold loads at decoded
  split at decoded
  · next scannedValue rest scanned =>
      split at decoded
      · cases decoded
        unfold get? at read
        split at read
        · next members =>
            have member := List.mem_reverse.mp (lookup_mem read)
            unfold scanValue at scanned
            split at scanned
            · obtain ⟨_, _, equal⟩ := Option.map_eq_some_iff.mp scanned
              cases equal
            · next inner shape =>
                have space : skipSpace inner <:+ text := ((skipSpace_suffix inner).trans
                  (List.suffix_cons '{' _)).trans (shape ▸ skipSpace_suffix text)
                split at scanned
                · cases scanned
                  exact absurd member List.not_mem_nil
                · next quoted =>
                    obtain ⟨⟨found, after⟩, foundMembers, equal⟩ :=
                      Option.map_eq_some_iff.mp scanned
                    cases equal
                    exact (scanMembers_occurs _ _ _ _ foundMembers _ _ member).of_suffix
                      ((List.suffix_cons _ _).trans (quoted ▸ space))
                · cases scanned
            · split at scanned
              · cases scanned
              · obtain ⟨_, _, equal⟩ := Option.map_eq_some_iff.mp scanned
                cases equal
            · exact (scanAtom_spec scanned).2.elim
        · cases read
      · cases decoded
  · cases decoded

/-! ### Plain text and decimal numbers -/

theorem scanPieces_cons {c : Char} (plain : Plain c) (text : List Char) :
    scanPieces (c :: text) = push (.plain c.toNat) (scanPieces text) := by
  obtain ⟨quote, slash, printable⟩ := plain
  rw [scanPieces.eq_def]
  split
  · next nil => cases nil
  · next equal =>
      cases equal
      exact absurd rfl quote
  · next equal =>
      cases equal
      exact absurd rfl slash
  · next equal =>
      cases equal
      exact absurd rfl slash
  · next equal =>
      cases equal
      exact if_neg (Nat.not_lt.mpr printable)

/-- Plain text is read back as it was written. -/
theorem scanString_plain {text : List Char} (plain : ∀ c ∈ text, Plain c) (rest : List Char) :
    scanString (text ++ '"' :: rest) = some (codes text, rest) := by
  have pieces : scanPieces (text ++ '"' :: rest) =
      some (text.map fun c => .plain c.toNat, rest) := by
    induction text with
    | nil => rfl
    | cons c text ih =>
        rw [List.cons_append, scanPieces_cons (plain c List.mem_cons_self),
          ih fun other member => plain other (List.mem_cons_of_mem _ member)]
        rfl
  have joined : ∀ text : List Char,
      joinPieces (text.map fun c => .plain c.toNat) = codes text := by
    intro text
    induction text with
    | nil => rfl
    | cons c text ih => exact congrArg (c.toNat :: ·) ih
  rw [scanString, pieces, Option.map_some, joined]

/-- A nonzero number is not written with a leading zero. -/
theorem toDigits_head (value : ℕ) (positive : 0 < value) :
    (Nat.toDigits 10 value).head? ≠ some '0' := by
  induction value using Nat.strong_induction_on with
  | _ value ih =>
      by_cases small : value < 10
      · rw [Nat.toDigits_of_lt_base small]
        interval_cases value <;> decide
      · rw [Nat.toDigits_of_base_le (by decide) (Nat.le_of_not_lt small), List.head?_append]
        have shorter := ih (value / 10) (by omega) (by omega)
        cases head : (Nat.toDigits 10 (value / 10)).head? with
        | none => exact absurd (List.head?_eq_none_iff.mp head) Nat.toDigits_ne_nil
        | some c => simpa [head] using shorter

/-- The digits of a number, up to the first character that is none. -/
theorem scanDigits_decimal (value : ℕ) {follower : Char} (notDigit : follower.isDigit = false)
    (rest : List Char) :
    scanDigits (Nat.toDigits 10 value ++ follower :: rest) =
      some (Nat.toDigits 10 value, follower :: rest) := by
  rcases Nat.eq_zero_or_pos value with rfl | positive
  · rfl
  · have digits : ∀ c ∈ Nat.toDigits 10 value, c.isDigit = true := fun c member =>
      Nat.isDigit_of_mem_toDigits (by decide) (by decide) member
    have spanned : (Nat.toDigits 10 value ++ follower :: rest).span Char.isDigit =
        (Nat.toDigits 10 value, follower :: rest) := by
      rw [List.span_eq_takeWhile_dropWhile, List.takeWhile_append_of_pos digits,
        List.dropWhile_append_of_pos digits]
      simp [notDigit]
    have head := toDigits_head value positive
    unfold scanDigits
    split
    · next text rest' equal =>
        cases shape : Nat.toDigits 10 value with
        | nil => exact absurd shape Nat.toDigits_ne_nil
        | cons c cs =>
            rw [shape] at equal head
            cases equal
            exact absurd rfl head
    · rw [spanned]
      split
      · next equal =>
          exact absurd (congrArg Prod.fst equal) Nat.toDigits_ne_nil
      · next equal =>
          cases equal
          rfl

/-- A number is none of the named constants. -/
theorem strip_digit {first c : Char} (digit : c.isDigit = true) (word text : List Char)
    (letter : first.isDigit = false) : strip (first :: word) (c :: text) = none := by
  have different : (first == c) = false := by
    rw [beq_eq_false_iff_ne]
    rintro rfl
    exact Bool.false_ne_true (letter.symm.trans digit)
  simp [strip, List.isPrefixOf, different]

/-- A decimal number before a comma is read back as its value. -/
theorem scanValue_decimal (fuel value : ℕ) (rest : List Char) :
    scanValue (fuel + 1) (Nat.toDigits 10 value ++ ',' :: rest) =
      some (.integer value, ',' :: rest) := by
  have number : scanNumber false (Nat.toDigits 10 value ++ ',' :: rest) =
      some (.integer value, ',' :: rest) := by
    rw [scanNumber, scanDigits_decimal value (by decide) rest]
    simp [scanFraction, scanExponent, Nat.ofDigitChars_ten_toDigits]
  cases shape : Nat.toDigits 10 value with
  | nil => exact absurd shape Nat.toDigits_ne_nil
  | cons c cs =>
      have digit : c.isDigit = true := Nat.isDigit_of_mem_toDigits (by decide) (by decide)
        (shape ▸ List.mem_cons_self : c ∈ Nat.toDigits 10 value)
      have other : ∀ letter : Char, letter.isDigit = false → c ≠ letter := by
        rintro letter notDigit rfl
        exact Bool.false_ne_true (notDigit.symm.trans digit)
      have atom : scanAtom (c :: (cs ++ ',' :: rest)) =
          scanNumber false (c :: (cs ++ ',' :: rest)) := by
        unfold scanAtom
        rw [show "null".toList = 'n' :: "ull".toList by rfl,
          show "true".toList = 't' :: "rue".toList by rfl,
          show "false".toList = 'f' :: "alse".toList by rfl,
          show "NaN".toList = 'N' :: "aN".toList by rfl,
          show "Infinity".toList = 'I' :: "nfinity".toList by rfl,
          show "-Infinity".toList = '-' :: "Infinity".toList by rfl]
        simp only [strip_digit digit _ _ (show 'n'.isDigit = false by decide),
          strip_digit digit _ _ (show 't'.isDigit = false by decide),
          strip_digit digit _ _ (show 'f'.isDigit = false by decide),
          strip_digit digit _ _ (show 'N'.isDigit = false by decide),
          strip_digit digit _ _ (show 'I'.isDigit = false by decide),
          strip_digit digit _ _ (show '-'.isDigit = false by decide), Option.map_none]
        split
        · next equal =>
            cases equal
            exact absurd rfl (other '-' (by decide))
        · rfl
      rw [shape, List.cons_append] at number
      rw [List.cons_append]
      unfold scanValue
      split
      · next equal =>
          cases equal
          exact absurd rfl (other '"' (by decide))
      · next equal =>
          cases equal
          exact absurd rfl (other '{' (by decide))
      · next equal =>
          cases equal
          exact absurd rfl (other '[' (by decide))
      · rw [atom, number]

/-! ### Members of an object -/

section Members

variable {key : List Char} (plainKey : ∀ c ∈ key, Plain c) (fuel : ℕ)
include plainKey

theorem scanMembers_key (text : List Char) :
    scanMembers (fuel + 1) (key ++ '"' :: ':' :: text) =
      (scanValue fuel (skipSpace text)).bind fun value =>
        match skipSpace value.2 with
        | '}' :: later => some ([(codes key, value.1)], later)
        | ',' :: later =>
            match skipSpace later with
            | '"' :: next => (scanMembers fuel next).map fun members =>
                ((codes key, value.1) :: members.1, members.2)
            | _ => none
        | _ => none := by
  rw [scanMembers, scanString_plain plainKey]
  rfl

/-- A string member that another member follows. -/
theorem scanMembers_string {value : List Char} (plain : ∀ c ∈ value, Plain c) (rest : List Char) :
    scanMembers (fuel + 2) (key ++ '"' :: ':' :: '"' :: (value ++ '"' :: ',' :: '"' :: rest)) =
      (scanMembers (fuel + 1) rest).map fun members =>
        ((codes key, .string (codes value)) :: members.1, members.2) := by
  rw [scanMembers_key plainKey]
  change (scanValue (fuel + 1) ('"' :: (value ++ '"' :: ',' :: '"' :: rest))).bind _ = _
  rw [scanValue, scanString_plain plain]
  rfl

/-- The last member of an object, a string. -/
theorem scanMembers_string_last {value : List Char} (plain : ∀ c ∈ value, Plain c)
    (rest : List Char) :
    scanMembers (fuel + 2) (key ++ '"' :: ':' :: '"' :: (value ++ '"' :: '}' :: rest)) =
      some ([(codes key, .string (codes value))], rest) := by
  rw [scanMembers_key plainKey]
  change (scanValue (fuel + 1) ('"' :: (value ++ '"' :: '}' :: rest))).bind _ = _
  rw [scanValue, scanString_plain plain]
  rfl

/-- A decimal number that another member follows. -/
theorem scanMembers_decimal (value : ℕ) (rest : List Char) :
    scanMembers (fuel + 2) (key ++ '"' :: ':' :: (Nat.toDigits 10 value ++ ',' :: '"' :: rest)) =
      (scanMembers (fuel + 1) rest).map fun members =>
        ((codes key, .integer value) :: members.1, members.2) := by
  have unspaced : skipSpace (Nat.toDigits 10 value ++ ',' :: '"' :: rest) =
      Nat.toDigits 10 value ++ ',' :: '"' :: rest := by
    cases shape : Nat.toDigits 10 value with
    | nil => exact absurd shape Nat.toDigits_ne_nil
    | cons c cs =>
        have digit : c.isDigit = true := Nat.isDigit_of_mem_toDigits (by decide) (by decide)
          (shape ▸ List.mem_cons_self : c ∈ Nat.toDigits 10 value)
        have solid : isSpace c = false := by
          rw [Bool.eq_false_iff]
          intro space
          simp only [isSpace, Bool.or_eq_true, decide_eq_true_eq] at space
          rcases space with ((rfl | rfl) | rfl) | rfl <;> exact absurd digit (by decide)
        rw [List.cons_append, skipSpace, List.dropWhile_cons_of_neg (by simp [solid])]
  rw [scanMembers_key plainKey, unspaced, scanValue_decimal]
  rfl

end Members

/-- A text that is an object with members and nothing after it. -/
theorem loads_object {text : List Char} {members : List (List ℕ × Json)}
    (scanned : scanMembers (text.length + 2) text = some (members, [])) :
    loads ('{' :: '"' :: text) = some (.object members) := by
  have value : scanValue (text.length + 3) ('{' :: '"' :: text) = some (.object members, []) := by
    rw [scanValue]
    change (scanMembers (text.length + 2) text).map _ = _
    rw [scanned]
    rfl
  have unspaced : skipSpace ('{' :: '"' :: text) = '{' :: '"' :: text := rfl
  rw [loads, unspaced, List.length_cons, List.length_cons, value]
  rfl

end InferSched.Library.Json
