import Mathlib.Data.Char
import Mathlib.Data.Int.Notation
import Mathlib.Data.List.Basic

/-! # Decoding JSON text

The decoder of Python's `json.loads` on text: whitespace, objects, arrays,
strings with their escapes, numbers, and the constants it adds to the standard.
Decoded strings are lists of code points, since an escape can name a lone
surrogate. The members of an object are in the order of the text, and
`Json.get?` reads the last one of a key, as a dictionary built from them does.
-/

namespace InferSched.Library

inductive Json
  | null
  | bool (value : Bool)
  | integer (value : ℤ)
  | float (literal : List Char)
  | constant (name : List Char)
  | string (codes : List ℕ)
  | array (items : List Json)
  | object (members : List (List ℕ × Json))

namespace Json

/-- The code points of a text. -/
def codes (text : List Char) : List ℕ :=
  text.map Char.toNat

/-- The last member of a key. -/
def get? (value : Json) (key : List Char) : Option Json :=
  match value with
  | .object members => members.reverse.lookup (codes key)
  | _ => none

/-- The code points of a string value. -/
def string? : Json → Option (List ℕ)
  | .string codes => some codes
  | _ => none

def isSpace (c : Char) : Bool :=
  c = ' ' || c = '\t' || c = '\n' || c = '\r'

def skipSpace (text : List Char) : List Char :=
  text.dropWhile isSpace

def hexValue (c : Char) : Option ℕ :=
  if '0' ≤ c ∧ c ≤ '9' then some (c.toNat - '0'.toNat)
  else if 'a' ≤ c ∧ c ≤ 'f' then some (c.toNat - 'a'.toNat + 10)
  else if 'A' ≤ c ∧ c ≤ 'F' then some (c.toNat - 'A'.toNat + 10)
  else none

/-- The four digits of a `\u` escape. -/
def hexUnit (a b c d : Char) : Option ℕ :=
  (hexValue a).bind fun first => (hexValue b).bind fun second =>
    (hexValue c).bind fun third => (hexValue d).map fun fourth =>
      ((first * 16 + second) * 16 + third) * 16 + fourth

def isHighSurrogate (unit : ℕ) : Bool :=
  0xd800 ≤ unit && unit ≤ 0xdbff

def isLowSurrogate (unit : ℕ) : Bool :=
  0xdc00 ≤ unit && unit ≤ 0xdfff

def joinSurrogates (high low : ℕ) : ℕ :=
  0x10000 + (high - 0xd800) * 0x400 + (low - 0xdc00)

/-- The escapes of one letter. -/
def simpleEscape (c : Char) : Option ℕ :=
  if c = '"' ∨ c = '\\' ∨ c = '/' then some c.toNat
  else if c = 'b' then some 8
  else if c = 'f' then some 12
  else if c = 'n' then some 10
  else if c = 'r' then some 13
  else if c = 't' then some 9
  else none

/-- One character of a string literal: written out, or a `\u` escape. -/
inductive Piece
  | plain (code : ℕ)
  | unit (code : ℕ)
deriving DecidableEq, Repr

/-- Put a piece in front of a scanned literal. -/
def push (piece : Piece) (scanned : Option (List Piece × List Char)) :
    Option (List Piece × List Char) :=
  scanned.map fun result => (piece :: result.1, result.2)

/-- The literal whose opening quote has been read: its pieces and the text after
its closing quote. -/
def scanPieces : List Char → Option (List Piece × List Char)
  | [] => none
  | '"' :: rest => some ([], rest)
  | '\\' :: 'u' :: a :: b :: c :: d :: rest =>
      match hexUnit a b c d with
      | none => none
      | some code => push (.unit code) (scanPieces rest)
  | '\\' :: escaped :: rest =>
      match simpleEscape escaped with
      | none => none
      | some code => push (.plain code) (scanPieces rest)
  | c :: rest => if c.toNat < 0x20 then none else push (.plain c.toNat) (scanPieces rest)

/-- Adjacent escapes of a high and a low surrogate name one code point. -/
def joinPieces : List Piece → List ℕ
  | [] => []
  | .plain code :: rest => code :: joinPieces rest
  | .unit high :: .unit low :: rest =>
      if isHighSurrogate high && isLowSurrogate low then
        joinSurrogates high low :: joinPieces rest
      else high :: joinPieces (.unit low :: rest)
  | .unit code :: rest => code :: joinPieces rest

/-- The string literal whose opening quote has been read: its code points and
the text after its closing quote. -/
def scanString (text : List Char) : Option (List ℕ × List Char) :=
  (scanPieces text).map fun scanned => (joinPieces scanned.1, scanned.2)

/-- The digits of an integer part: a lone zero, or digits that do not start with
one. -/
def scanDigits : List Char → Option (List Char × List Char)
  | '0' :: rest => some (['0'], rest)
  | text => match text.span Char.isDigit with
    | ([], _) => none
    | (digits, rest) => some (digits, rest)

/-- A fraction, if one follows. -/
def scanFraction (text : List Char) : List Char × List Char :=
  match text with
  | '.' :: rest => match rest.span Char.isDigit with
    | ([], _) => ([], text)
    | (digits, later) => ('.' :: digits, later)
  | _ => ([], text)

/-- An exponent, if one follows. -/
def scanExponent (text : List Char) : List Char × List Char :=
  match text with
  | [] => ([], text)
  | mark :: rest =>
      if mark = 'e' ∨ mark = 'E' then
        let sign := rest.takeWhile fun c => c = '+' || c = '-'
        match (rest.drop (min sign.length 1)).span Char.isDigit with
        | ([], _) => ([], text)
        | (digits, later) => (mark :: sign.take 1 ++ digits, later)
      else ([], text)

/-- A number after its sign. -/
def scanNumber (negative : Bool) (text : List Char) : Option (Json × List Char) :=
  (scanDigits text).map fun scanned =>
    let fraction := scanFraction scanned.2
    let exponent := scanExponent fraction.2
    if fraction.1 = [] ∧ exponent.1 = [] then
      let value : ℤ := Nat.ofDigitChars 10 scanned.1 0
      (.integer (if negative then -value else value), scanned.2)
    else
      (.float ((if negative then ['-'] else []) ++ scanned.1 ++ fraction.1 ++ exponent.1),
        exponent.2)

/-- Strip a word from the front of a text. -/
def strip (word text : List Char) : Option (List Char) :=
  if word.isPrefixOf text then some (text.drop word.length) else none

/-- A value that is neither a string nor a container. -/
def scanAtom (text : List Char) : Option (Json × List Char) :=
  ((strip "null".toList text).map fun rest => (.null, rest)) <|>
  ((strip "true".toList text).map fun rest => (.bool true, rest)) <|>
  ((strip "false".toList text).map fun rest => (.bool false, rest)) <|>
  ((strip "NaN".toList text).map fun rest => (.constant "NaN".toList, rest)) <|>
  ((strip "Infinity".toList text).map fun rest => (.constant "Infinity".toList, rest)) <|>
  ((strip "-Infinity".toList text).map fun rest => (.constant "-Infinity".toList, rest)) <|>
  match text with
  | '-' :: rest => scanNumber true rest
  | _ => scanNumber false text

mutual

/-- One value; `fuel` bounds the calls, each of which reads a character. -/
def scanValue : ℕ → List Char → Option (Json × List Char)
  | 0, _ => none
  | fuel + 1, text =>
      match text with
      | '"' :: rest => (scanString rest).map fun scanned => (.string scanned.1, scanned.2)
      | '{' :: rest =>
          match skipSpace rest with
          | '}' :: later => some (.object [], later)
          | '"' :: later =>
              (scanMembers fuel later).map fun scanned => (.object scanned.1, scanned.2)
          | _ => none
      | '[' :: rest =>
          match skipSpace rest with
          | ']' :: later => some (.array [], later)
          | other => (scanItems fuel other).map fun scanned => (.array scanned.1, scanned.2)
      | _ => scanAtom text

/-- The members of an object, from after the opening quote of a key. -/
def scanMembers : ℕ → List Char → Option (List (List ℕ × Json) × List Char)
  | 0, _ => none
  | fuel + 1, text =>
      (scanString text).bind fun key =>
        match skipSpace key.2 with
        | ':' :: rest =>
            (scanValue fuel (skipSpace rest)).bind fun value =>
              match skipSpace value.2 with
              | '}' :: later => some ([(key.1, value.1)], later)
              | ',' :: later =>
                  match skipSpace later with
                  | '"' :: next => (scanMembers fuel next).map fun members =>
                      ((key.1, value.1) :: members.1, members.2)
                  | _ => none
              | _ => none
        | _ => none

/-- The items of an array, from the first character of an item. -/
def scanItems : ℕ → List Char → Option (List Json × List Char)
  | 0, _ => none
  | fuel + 1, text =>
      (scanValue fuel text).bind fun item =>
        match skipSpace item.2 with
        | ']' :: later => some ([item.1], later)
        | ',' :: later => (scanItems fuel (skipSpace later)).map fun items =>
            (item.1 :: items.1, items.2)
        | _ => none

end

/-- Decode a text that is one value, with whitespace around it. -/
def loads (text : List Char) : Option Json :=
  match scanValue (text.length + 1) (skipSpace text) with
  | some (value, rest) => if skipSpace rest = [] then some value else none
  | none => none

end Json
end InferSched.Library
