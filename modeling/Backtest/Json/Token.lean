import Backtest.Json.Numeral

/-!
Tokens of JSON text. A string may name characters by sixteen-bit units; it has a value only if
the units of each pair stand together.
-/

namespace Backtest.Json

inductive Token where
  | openArray
  | closeArray
  | openObject
  | closeObject
  | comma
  | colon
  | null
  | bool (b : Bool)
  | numeral (n : Numeral)
  /-- A string, without a value where a unit has lost its partner. -/
  | string (value : Option String)
  deriving DecidableEq, Repr

/-- The blanks of JSON, which are fewer than those of Unicode. -/
def isSpace (c : Char) : Bool := c = ' ' || c = '\t' || c = '\n' || c = '\r'

def hexDigit? (c : Char) : Option Nat :=
  if c.isDigit then some (c.toNat - '0'.toNat)
  else if 'a' ≤ c && c ≤ 'f' then some (c.toNat - 'a'.toNat + 10)
  else if 'A' ≤ c && c ≤ 'F' then some (c.toNat - 'A'.toNat + 10)
  else none

def ofHex? (digits : List Char) : Option Nat :=
  digits.foldlM (fun n c => (hexDigit? c).map (16 * n + ·)) 0

def escaped? : Char → Option Char
  | '"' => some '"'
  | '\\' => some '\\'
  | '/' => some '/'
  | 'b' => some '\x08'
  | 'f' => some '\x0c'
  | 'n' => some '\n'
  | 'r' => some '\r'
  | 't' => some '\t'
  | _ => none

/-- The rest of a string up to its closing quote, as code points and units, and what follows.
`units` holds what was read before, the last first. -/
def takeString? (units : List Nat) : List Char → Option (List Nat × List Char)
  | '"' :: rest => some (units.reverse, rest)
  | '\\' :: 'u' :: a :: b :: c :: d :: rest =>
    match ofHex? [a, b, c, d] with
    | some unit => takeString? (unit :: units) rest
    | none => none
  | '\\' :: c :: rest =>
    match escaped? c with
    | some c => takeString? (c.toNat :: units) rest
    | none => none
  | c :: rest => if c.toNat < 0x20 then none else takeString? (c.toNat :: units) rest
  | [] => none

def isHighUnit (n : Nat) : Bool := 0xD800 ≤ n && n < 0xDC00

def isLowUnit (n : Nat) : Bool := 0xDC00 ≤ n && n < 0xE000

def ofPair (high low : Nat) : Char :=
  Char.ofNat (0x10000 + (high - 0xD800) * 0x400 + (low - 0xDC00))

def joined? (chars : List Char) : List Nat → Option (List Char)
  | [] => some chars.reverse
  | unit :: units =>
    if isHighUnit unit then
      match units with
      | [] => none
      | low :: units => if isLowUnit low then joined? (ofPair unit low :: chars) units else none
    else if isLowUnit unit then none
    else joined? (Char.ofNat unit :: chars) units

def Token.take? : List Char → Option (Token × List Char)
  | '[' :: rest => some (openArray, rest)
  | ']' :: rest => some (closeArray, rest)
  | '\x7b' :: rest => some (openObject, rest)
  | '\x7d' :: rest => some (closeObject, rest)
  | ',' :: rest => some (comma, rest)
  | ':' :: rest => some (colon, rest)
  | 'n' :: 'u' :: 'l' :: 'l' :: rest => some (null, rest)
  | 't' :: 'r' :: 'u' :: 'e' :: rest => some (bool true, rest)
  | 'f' :: 'a' :: 'l' :: 's' :: 'e' :: rest => some (bool false, rest)
  | '"' :: rest => (takeString? [] rest).map fun (units, rest) =>
    (string ((joined? [] units).map String.ofList), rest)
  | cs => (Numeral.take? cs).map fun (n, rest) => (numeral n, rest)

def tokensFrom? : Nat → List Token → List Char → Option (List Token)
  | 0, _, _ => none
  | count + 1, tokens, cs =>
    match cs.dropWhile isSpace with
    | [] => some tokens.reverse
    | cs =>
      match Token.take? cs with
      | none => none
      | some (token, rest) => tokensFrom? count (token :: tokens) rest

/-- The tokens of a text. Each takes one character at least, which bounds their number. -/
def tokens? (cs : List Char) : Option (List Token) := tokensFrom? (cs.length + 1) [] cs

end Backtest.Json
