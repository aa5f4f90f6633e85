import Mathlib.Data.List.Basic
import TapMysql.Lib.Digits

/-!
# JSON texts

Documents, the text that a writer of ASCII gives them, and a reader of any JSON text. A character
outside the printable ASCII is written as one or two UTF-16 units. How doubles are written and
read is a parameter.
-/

namespace Json

/-! ### Documents -/

/-- A number is an integer or a double; the members of an object keep their order. -/
inductive Doc (F : Type) where
  | null
  | bool (b : Bool)
  | int (n : Int)
  | double (x : F)
  | string (s : String)
  | array (xs : List (Doc F))
  | object (members : List (String × Doc F))

variable {F : Type}

/-- The same document: the order of the members of an object does not matter. -/
inductive Doc.Same : Doc F → Doc F → Prop
  | refl (d) : Same d d
  | members {ms ns} (h : ms.Perm ns) : Same (.object ms) (.object ns)
  | element (xs ys) {d d'} (h : Same d d') : Same (.array (xs ++ d :: ys)) (.array (xs ++ d' :: ys))
  | member (ms ns) (k) {d d'} (h : Same d d') :
      Same (.object (ms ++ (k, d) :: ns)) (.object (ms ++ (k, d') :: ns))
  | trans {d d' d''} (h : Same d d') (h' : Same d' d'') : Same d d''

/-! ### Numbers -/

def isNumberChar (c : Char) : Bool := c.isDigit || ['-', '+', '.', 'e', 'E'].contains c

def isDigits (ds : List Char) : Bool := !ds.isEmpty && ds.all Char.isDigit

/-- Digits without a leading zero. -/
def isWhole (ds : List Char) : Bool := isDigits ds && (ds.head? != some '0' || ds.length == 1)

/-- What follows the sign. -/
def unsigned : List Char → List Char
  | [] => []
  | c :: cs => if c = '-' then cs else c :: cs

def isExponent : List Char → Bool
  | [] => true
  | c :: cs => (c = 'e' || c = 'E') &&
      match cs with
      | [] => false
      | s :: ds => if s = '+' || s = '-' then isDigits ds else isDigits (s :: ds)

def isFraction : List Char → Bool
  | [] => true
  | c :: cs =>
    if c = '.' then
      isDigits (cs.takeWhile Char.isDigit) && isExponent (cs.dropWhile Char.isDigit)
    else isExponent (c :: cs)

def isInteger (cs : List Char) : Bool := isWhole (unsigned cs)

def isNumber (cs : List Char) : Bool :=
  isWhole ((unsigned cs).takeWhile Char.isDigit) &&
    isFraction ((unsigned cs).dropWhile Char.isDigit)

def integerValue (cs : List Char) : Int :=
  if cs.head? = some '-' then -(Digits.value (unsigned cs) : Int) else Digits.value (unsigned cs)

/-- How doubles are written, as numbers that are not integers, and read back. -/
structure Doubles (F : Type) where
  write : F → List Char
  read : List Char → Option F
  isNumber_write : ∀ x, isNumber (write x) = true
  isInteger_write : ∀ x, isInteger (write x) = false
  read_write : ∀ x, read (write x) = some x

def readNumber (D : Doubles F) (token : List Char) : Option (Doc F) :=
  if isInteger token then some (.int (integerValue token))
  else if isNumber token then (D.read token).map .double
  else none

/-! ### Strings -/

def quoteMark : Char := '\x22'

def backslash : Char := '\x5c'

/-- The letter of a short escape. -/
def escapeLetter (c : Char) : Option Char :=
  if c = quoteMark then some quoteMark
  else if c = backslash then some backslash
  else if c = '\n' then some 'n'
  else if c = '\r' then some 'r'
  else if c = '\t' then some 't'
  else if c = '\x0c' then some 'f'
  else if c = '\x08' then some 'b'
  else none

def escapedChar (e : Char) : Option Char :=
  if e = quoteMark then some quoteMark
  else if e = backslash then some backslash
  else if e = '/' then some '/'
  else if e = 'n' then some '\n'
  else if e = 'r' then some '\r'
  else if e = 't' then some '\t'
  else if e = 'f' then some '\x0c'
  else if e = 'b' then some '\x08'
  else none

/-- The UTF-16 units of a character. -/
def units (c : Char) : List ℕ :=
  if c.toNat < 0x10000 then [c.toNat]
  else [0xd800 + (c.toNat - 0x10000) / 0x400, 0xdc00 + (c.toNat - 0x10000) % 0x400]

/-- `\uXXXX`. -/
def unicodeEscape (u : ℕ) : List Char :=
  [backslash, 'u', Nat.digitChar (u / 0x1000), Nat.digitChar (u / 0x100 % 16),
    Nat.digitChar (u / 0x10 % 16), Nat.digitChar (u % 16)]

def quoteChar (c : Char) : List Char :=
  match escapeLetter c with
  | some e => [backslash, e]
  | none =>
    if 0x20 ≤ c.toNat ∧ c.toNat < 0x7f then [c] else (units c).flatMap unicodeEscape

def quote (cs : List Char) : List Char := quoteMark :: (cs.flatMap quoteChar ++ [quoteMark])

def hexValue₄ (a b c d : Char) : Option ℕ :=
  match Digits.hexValue a, Digits.hexValue b, Digits.hexValue c, Digits.hexValue d with
  | some a, some b, some c, some d => some (((a * 16 + b) * 16 + c) * 16 + d)
  | _, _, _, _ => none

/-- The units up to the closing quotation mark, and the text after it. -/
def readUnits : List Char → Option (List ℕ × List Char)
  | [] => none
  | c :: cs =>
    if c = quoteMark then some ([], cs)
    else if c = backslash then
      match cs with
      | [] => none
      | e :: cs =>
        if e = 'u' then
          match cs with
          | x :: y :: z :: w :: cs =>
            match hexValue₄ x y z w with
            | none => none
            | some u => (readUnits cs).map fun r => (u :: r.1, r.2)
          | _ => none
        else
          match escapedChar e with
          | none => none
          | some c => (readUnits cs).map fun r => (c.toNat :: r.1, r.2)
    else if c.toNat < 0x20 then none
    else (readUnits cs).map fun r => (c.toNat :: r.1, r.2)

/-- The characters of the units; a surrogate without its other half is an error. -/
def joinUnits : List ℕ → Option (List Char)
  | [] => some []
  | u :: us =>
    if 0xd800 ≤ u ∧ u < 0xdc00 then
      match us with
      | [] => none
      | v :: us =>
        if 0xdc00 ≤ v ∧ v < 0xe000 then
          (joinUnits us).map (Char.ofNat (0x10000 + (u - 0xd800) * 0x400 + (v - 0xdc00)) :: ·)
        else none
    else if 0xdc00 ≤ u ∧ u < 0xe000 then none
    else (joinUnits us).map (Char.ofNat u :: ·)

def readString (cs : List Char) : Option (String × List Char) :=
  match readUnits cs with
  | none => none
  | some (us, rest) => (joinUnits us).map fun s => (String.ofList s, rest)

/-! ### Writing -/

def separator : List Char := [',', ' ']

mutual

def Doc.text (D : Doubles F) : Doc F → List Char
  | .null => ['n', 'u', 'l', 'l']
  | .bool true => ['t', 'r', 'u', 'e']
  | .bool false => ['f', 'a', 'l', 's', 'e']
  | .int n => (toString n).toList
  | .double x => D.write x
  | .string s => quote s.toList
  | .array xs => '[' :: (separator.intercalate (texts D xs) ++ [']'])
  | .object ms => '{' :: (separator.intercalate (memberTexts D ms) ++ ['}'])

def texts (D : Doubles F) : List (Doc F) → List (List Char)
  | [] => []
  | d :: ds => d.text D :: texts D ds

def memberTexts (D : Doubles F) : List (String × Doc F) → List (List Char)
  | [] => []
  | m :: ms => memberText D m :: memberTexts D ms

def memberText (D : Doubles F) : String × Doc F → List Char
  | (k, d) => quote k.toList ++ (':' :: ' ' :: d.text D)

end

/-! ### Reading -/

def isSpace (c : Char) : Bool := [' ', '\t', '\n', '\r'].contains c

def skipSpaces (cs : List Char) : List Char := cs.dropWhile isSpace

/-- Items with commas between them, up to the closing bracket. -/
def parseItems {α : Type} (item : List Char → Option (α × List Char)) (close : Char) :
    ℕ → List Char → Option (List α × List Char)
  | 0, _ => none
  | n + 1, cs =>
    match item cs with
    | none => none
    | some (x, rest) =>
      match skipSpaces rest with
      | [] => none
      | c :: rest =>
        if c = ',' then (parseItems item close n rest).map fun r => (x :: r.1, r.2)
        else if c = close then some ([x], rest)
        else none

/-- No items, or some of them. -/
def parseBracket {α : Type} (item : List Char → Option (α × List Char)) (close : Char)
    (cs : List Char) : Option (List α × List Char) :=
  match skipSpaces cs with
  | [] => none
  | c :: rest => if c = close then some ([], rest) else parseItems item close cs.length (c :: rest)

def parseMember {α : Type} (value : List Char → Option (α × List Char)) (cs : List Char) :
    Option ((String × α) × List Char) :=
  match skipSpaces cs with
  | [] => none
  | c :: cs =>
    if c = quoteMark then
      match readString cs with
      | none => none
      | some (k, rest) =>
        match skipSpaces rest with
        | [] => none
        | c :: rest => if c = ':' then (value rest).map fun r => ((k, r.1), r.2) else none
    else none

def readKeyword : List Char → Option (Doc F × List Char)
  | 'n' :: 'u' :: 'l' :: 'l' :: rest => some (.null, rest)
  | 't' :: 'r' :: 'u' :: 'e' :: rest => some (.bool true, rest)
  | 'f' :: 'a' :: 'l' :: 's' :: 'e' :: rest => some (.bool false, rest)
  | _ => none

/-- A document at the head of a text, nested at most as deep as the fuel. -/
def parseValue (D : Doubles F) : ℕ → List Char → Option (Doc F × List Char)
  | 0, _ => none
  | fuel + 1, cs =>
    match skipSpaces cs with
    | [] => none
    | c :: cs =>
      if c = quoteMark then (readString cs).map fun r => (.string r.1, r.2)
      else if c = '[' then
        (parseBracket (parseValue D fuel) ']' cs).map fun r => (.array r.1, r.2)
      else if c = '{' then
        (parseBracket (parseMember (parseValue D fuel)) '}' cs).map fun r => (.object r.1, r.2)
      else if isNumberChar c then
        (readNumber D ((c :: cs).takeWhile isNumberChar)).map fun d =>
          (d, (c :: cs).dropWhile isNumberChar)
      else readKeyword (c :: cs)

/-- The document of a text. -/
def parse (D : Doubles F) (cs : List Char) : Option (Doc F) :=
  match parseValue D (cs.length + 1) cs with
  | none => none
  | some (d, rest) => if (skipSpaces rest).isEmpty then some d else none

end Json
