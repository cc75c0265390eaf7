import Mustache.Json.Basic
import Mustache.Number.Numeral
import Mustache.Text.Search

namespace Mustache.Json
open Text

-- A JSON text as it is written: numbers are not yet evaluated, and a string with an escape that
-- stands for half a surrogate pair has no value.
inductive Written where
  | null
  | bool (value : Bool)
  | number (value : Numeral)
  | string (value : Option String)
  | array (items : List Written)
  | object (entries : List (Option String × Written))

def isGap (c : Char) : Bool := c = ' ' || c = '\n' || c = '\t' || c = '\r'

def skipGap (text : List Char) : List Char := text.dropWhile isGap

def hexValue? (c : Char) : Option Nat :=
  if c.isDigit then some (c.toNat - 48)
  else if 'a' ≤ c && c ≤ 'f' then some (c.toNat - 87)
  else if 'A' ≤ c && c ≤ 'F' then some (c.toNat - 55)
  else none

def unit? (a b c d : Char) : Option Nat :=
  match hexValue? a, hexValue? b, hexValue? c, hexValue? d with
  | some a, some b, some c, some d => some (((a * 16 + b) * 16 + c) * 16 + d)
  | _, _, _, _ => none

def isLeading (unit : Nat) : Bool := 0xD800 ≤ unit && unit < 0xDC00

def isTrailing (unit : Nat) : Bool := 0xDC00 ≤ unit && unit < 0xE000

def joined (leading trailing : Nat) : Char :=
  Char.ofNat (0x10000 + (leading - 0xD800) * 0x400 + (trailing - 0xDC00))

def letter? : Char → Option Char
  | '"' => some '"'
  | '\\' => some '\\'
  | '/' => some '/'
  | 'b' => some '\x08'
  | 'f' => some '\x0C'
  | 'n' => some '\n'
  | 'r' => some '\r'
  | 't' => some '\t'
  | _ => none

def string? (done : List Char) (sound : Bool) : List Char → Option (Option String × List Char)
  | '"' :: text => some (if sound then some (String.ofList done.reverse) else none, text)
  | '\\' :: 'u' :: a :: b :: c :: d :: text =>
    match unit? a b c d with
    | none => none
    | some unit =>
      if isLeading unit then
        match text with
        | '\\' :: 'u' :: e :: f :: g :: h :: more =>
          match unit? e f g h with
          | none => none
          | some next =>
            if isTrailing next then string? (joined unit next :: done) sound more
            else string? done false more
        | other => string? done false other
      else if isTrailing unit then string? done false text
      else string? (Char.ofNat unit :: done) sound text
  | '\\' :: c :: text =>
    match letter? c with
    | none => none
    | some c => string? (c :: done) sound text
  | c :: text => if c = '\\' || c.toNat < 0x20 then none else string? (c :: done) sound text
  | [] => none
termination_by text => text.length

-- Reading goes at most `depth` calls deep. Each of them is behind a character of its own, so the
-- length of the text is depth enough.
mutual
def value? : Nat → List Char → Option (Written × List Char)
  | 0, _ => none
  | depth + 1, text =>
    match text with
    | '"' :: rest => (string? [] true rest).map fun found => (.string found.1, found.2)
    | '[' :: rest =>
      match skipGap rest with
      | ']' :: rest => some (.array [], rest)
      | rest => items? depth [] rest
    | '\x7b' :: rest =>
      match skipGap rest with
      | '\x7d' :: rest => some (.object [], rest)
      | rest => entries? depth [] rest
    | _ =>
      match strip? "null".toList text, strip? "true".toList text, strip? "false".toList text with
      | some rest, _, _ => some (.null, rest)
      | _, some rest, _ => some (.bool true, rest)
      | _, _, some rest => some (.bool false, rest)
      | _, _, _ => (Numeral.read? text).map fun found => (.number found.1, found.2)
def items? : Nat → List Written → List Char → Option (Written × List Char)
  | 0, _, _ => none
  | depth + 1, done, text =>
    match value? depth (skipGap text) with
    | none => none
    | some (item, rest) =>
      match skipGap rest with
      | ',' :: rest => items? depth (item :: done) rest
      | ']' :: rest => some (.array (item :: done).reverse, rest)
      | _ => none
def entries? : Nat → List (Option String × Written) → List Char → Option (Written × List Char)
  | 0, _, _ => none
  | depth + 1, done, text =>
    match skipGap text with
    | '"' :: rest =>
      match string? [] true rest with
      | none => none
      | some (key, rest) =>
        match skipGap rest with
        | ':' :: rest =>
          match value? depth (skipGap rest) with
          | none => none
          | some (value, rest) =>
            match skipGap rest with
            | ',' :: rest => entries? depth ((key, value) :: done) rest
            | '\x7d' :: rest => some (.object ((key, value) :: done).reverse, rest)
            | _ => none
        | _ => none
    | _ => none
end

def Written.read? (text : List Char) : Option Written :=
  match value? (2 * text.length + 2) (skipGap text) with
  | none => none
  | some (value, rest) => if (skipGap rest).isEmpty then some value else none

mutual
def Written.toJson? : Written → Option Json
  | .null => some .null
  | .bool value => some (.bool value)
  | .number value => value.toNumber?.map .number
  | .string value => value.map .string
  | .array items => (itemsToJson? items).map .array
  | .object entries => (entriesToJson? entries).map .object
def itemsToJson? : List Written → Option (List Json)
  | [] => some []
  | item :: rest =>
    match item.toJson?, itemsToJson? rest with
    | some item, some rest => some (item :: rest)
    | _, _ => none
def entriesToJson? : List (Option String × Written) → Option (List (String × Json))
  | [] => some []
  | (some key, value) :: rest =>
    match value.toJson?, entriesToJson? rest with
    | some value, some rest => some ((key, value) :: rest)
    | _, _ => none
  | (none, _) :: _ => none
end

def parse? (text : String) : Option Json := (Written.read? text.toList).bind Written.toJson?

end Mustache.Json
