import Reenact.Number.Binary

/-!
The words of TOML texts: keys, strings, numbers and dates. Every reader takes what it knows from the
front of the characters and gives the rest.
-/

namespace Reenact.Toml

abbrev Rest := List Char

def isSpace (c : Char) : Bool := c == ' ' || c == '\t'

/-- Characters that may stand in comments and on one line of a string. -/
def isPlain (c : Char) : Bool := c == '\t' || (0x20 ≤ c.toNat && c.toNat != 0x7f)

def skipSpaces (cs : Rest) : Rest := cs.dropWhile isSpace

def newline? : Rest → Option Rest
  | '\n' :: cs => some cs
  | '\r' :: '\n' :: cs => some cs
  | _ => none

/-- Drops a comment up to the end of its line. -/
def skipComment : Rest → Rest
  | '#' :: cs => cs.dropWhile isPlain
  | cs => cs

/-- The end of a line: blanks, a comment, and a line break or the end of the text. -/
def lineEnd? (cs : Rest) : Option Rest :=
  match skipComment (skipSpaces cs) with
  | [] => some []
  | cs => newline? cs

/-- Drops blanks, comments and line breaks. Every step but the last takes a line break away. -/
def skipTrivia : (steps : Nat) → Rest → Rest
  | 0, cs => cs
  | steps + 1, cs =>
    let cs := skipComment (skipSpaces cs)
    match newline? cs with
    | some rest => skipTrivia steps rest
    | none => cs

def trivia (cs : Rest) : Rest := skipTrivia cs.length cs

def hexValue? (c : Char) : Option Nat :=
  if c.isDigit then some (c.toNat - '0'.toNat)
  else if 'a' ≤ c ∧ c ≤ 'f' then some (c.toNat - 'a'.toNat + 10)
  else if 'A' ≤ c ∧ c ≤ 'F' then some (c.toNat - 'A'.toNat + 10)
  else none

/-- The character whose code has exactly these hexadecimal digits. -/
def ofCode? (digits : List Char) : Option Char := do
  let values ← digits.mapM hexValue?
  let n := values.foldl (fun n d => 16 * n + d) 0
  if n.isValidChar then some (Char.ofNat n) else none

def simpleEscape? : Char → Option Char
  | 'b' => some '\x08'
  | 't' => some '\t'
  | 'n' => some '\n'
  | 'f' => some '\x0c'
  | 'r' => some '\r'
  | '"' => some '"'
  | '\\' => some '\\'
  | _ => none

def escape? : Rest → Option (Char × Rest)
  | 'u' :: cs => if cs.length < 4 then none else (ofCode? (cs.take 4)).map (·, cs.drop 4)
  | 'U' :: cs => if cs.length < 8 then none else (ofCode? (cs.take 8)).map (·, cs.drop 8)
  | c :: cs => (simpleEscape? c).map (·, cs)
  | [] => none

/-- A string on one line with escapes, after its opening quote. -/
def basicString? : (steps : Nat) → Rest → Option (List Char × Rest)
  | 0, _ => none
  | steps + 1, cs =>
    match cs with
    | '"' :: rest => some ([], rest)
    | '\\' :: rest => do
      let (c, rest) ← escape? rest
      let (s, rest) ← basicString? steps rest
      return (c :: s, rest)
    | c :: rest =>
      if isPlain c then do
        let (s, rest) ← basicString? steps rest
        return (c :: s, rest)
      else none
    | [] => none

/-- A string on one line without escapes, after its opening quote. -/
def literalString? (cs : Rest) : Option (List Char × Rest) :=
  match cs.dropWhile fun c => isPlain c && c != '\'' with
  | '\'' :: rest => some (cs.takeWhile fun c => isPlain c && c != '\'', rest)
  | _ => none

def skipBlank : Rest → Rest
  | ' ' :: cs | '\t' :: cs | '\n' :: cs | '\r' :: '\n' :: cs => skipBlank cs
  | cs => cs

/-- What follows a backslash at the end of a line: blanks and line breaks, which do not count. -/
def continuation? (cs : Rest) : Option Rest := (newline? (skipSpaces cs)).map skipBlank

/-- The end of a string in three quotes, of which up to two more belong to the string. -/
def closing? (quote : Char) (cs : Rest) : Option (List Char × Rest) :=
  let quotes := (cs.takeWhile (· == quote)).length
  if 3 ≤ quotes then
    let extra := min (quotes - 3) 2
    some (List.replicate extra quote, cs.drop (extra + 3))
  else none

/-- A string over several lines, after its opening quotes. -/
def longString? (quote : Char) : (steps : Nat) → Rest → Option (List Char × Rest)
  | 0, _ => none
  | steps + 1, cs =>
    match closing? quote cs with
    | some ending => some ending
    | none =>
      match quote, cs with
      | '"', '\\' :: rest =>
        match continuation? rest with
        | some rest => longString? quote steps rest
        | none => do
          let (c, rest) ← escape? rest
          let (s, rest) ← longString? quote steps rest
          return (c :: s, rest)
      | _, c :: rest =>
        match newline? cs with
        | some rest => do
          let (s, rest) ← longString? quote steps rest
          return ('\n' :: s, rest)
        | none =>
          if isPlain c then do
            let (s, rest) ← longString? quote steps rest
            return (c :: s, rest)
          else none
      | _, [] => none

def afterNewline (cs : Rest) : Rest := (newline? cs).getD cs

def string? : Rest → Option (String × Rest)
  | '"' :: '"' :: '"' :: cs => text (longString? '"' (cs.length + 1) (afterNewline cs))
  | '\'' :: '\'' :: '\'' :: cs => text (longString? '\'' (cs.length + 1) (afterNewline cs))
  | '"' :: cs => text (basicString? (cs.length + 1) cs)
  | '\'' :: cs => text (literalString? cs)
  | _ => none
where
  text (found : Option (List Char × Rest)) : Option (String × Rest) :=
    found.map fun (s, rest) => (String.ofList s, rest)

def isBareKey (c : Char) : Bool := c.isAlphanum || c == '_' || c == '-'

/-- One part of a key: bare, or in quotes on one line. -/
def keyPart? : Rest → Option (String × Rest)
  | '"' :: cs => (basicString? (cs.length + 1) cs).map fun (s, rest) => (String.ofList s, rest)
  | '\'' :: cs => (literalString? cs).map fun (s, rest) => (String.ofList s, rest)
  | cs =>
    match cs.takeWhile isBareKey with
    | [] => none
    | word => some (String.ofList word, cs.dropWhile isBareKey)

/-- The parts of a key with points between them, of which there is at least one. -/
def keyParts? : (steps : Nat) → Rest → Option (List String × Rest)
  | 0, _ => none
  | steps + 1, cs => do
    let (part, rest) ← keyPart? (skipSpaces cs)
    let rest := skipSpaces rest
    match rest with
    | '.' :: rest =>
      let (parts, rest) ← keyParts? steps rest
      return (part :: parts, rest)
    | _ => return ([part], rest)

/-- Keys have fewer parts than this, and arrays and tables in braces nest less deep. -/
def nestingLimit : Nat := 80

def key? (cs : Rest) : Option (List String × Rest) := do
  let (path, rest) ← keyParts? cs.length cs
  if path.length < nestingLimit then some (path, rest) else none

/-- Whether digits are single or in groups joined by underscores, each digit of the base. -/
def isDigits (isDigit : Char → Bool) : List Char → Bool
  | [] => false
  | [c] => isDigit c
  | c :: '_' :: rest => isDigit c && isDigits isDigit rest
  | c :: rest => isDigit c && isDigits isDigit rest

def valueOf (base : Nat) (digits : List Char) : Nat :=
  (digits.filterMap hexValue?).foldl (fun n d => base * n + d) 0

def isDecimal (cs : List Char) : Bool :=
  isDigits Char.isDigit cs && (cs.length == 1 || cs.head? != some '0')

def magnitude? (cs : List Char) : Option Nat :=
  if isDecimal cs then some (valueOf 10 cs) else none

def based? (base : Nat) (isDigit : Char → Bool) (cs : List Char) : Option Int :=
  if isDigits isDigit cs then some (valueOf base cs) else none

/-- The number that a word spells as an integer, whatever its size. -/
def int? : List Char → Option Int
  | '0' :: 'x' :: cs => based? 16 (fun c => (hexValue? c).isSome) cs
  | '0' :: 'o' :: cs => based? 8 (fun c => '0' ≤ c && c ≤ '7') cs
  | '0' :: 'b' :: cs => based? 2 (fun c => c == '0' || c == '1') cs
  | '-' :: cs => (magnitude? cs).map fun n => -(n : Int)
  | '+' :: cs => (magnitude? cs).map fun n => (n : Int)
  | cs => (magnitude? cs).map fun n => (n : Int)

def unsigned : List Char → List Char
  | '-' :: cs | '+' :: cs => cs
  | cs => cs

/-- The parts of a word that may be a floating point number: the digits before the point, the point
with the digits after it, and the exponent with its letter. -/
def floatParts (cs : List Char) : List Char × List Char × List Char :=
  let body := unsigned cs
  let mantissa := body.takeWhile fun c => c != 'e' && c != 'E'
  let whole := mantissa.takeWhile (· != '.')
  (whole, mantissa.drop whole.length, body.drop mantissa.length)

def isDecimalFloat (cs : List Char) : Bool :=
  let (whole, fraction, exponent) := floatParts cs
  isDecimal whole && !(fraction.isEmpty && exponent.isEmpty)
    && (fraction.isEmpty || isDigits Char.isDigit (fraction.drop 1))
    && (exponent.isEmpty || isDigits Char.isDigit (unsigned (exponent.drop 1)))

/-- Whether `d · 10 ^ e` is nearer to infinity than to any double. All numbers below `10 ^ 308` are in
range and those from `10 ^ 309` up are not. -/
def isBeyondDouble (d : Nat) (e : Int) : Bool :=
  let bound := (Nat.toDigits 10 d).length + e
  if d = 0 ∨ bound ≤ 308 then false
  else if 309 < bound then true
  else
    Number.Format.double.round (d * Nat.pow 10 e.toNat) (Nat.pow 10 (-e).toNat)
      == Number.Format.double.infinity

/-- Whether digits spell a number that is read as infinity. Below zero that is allowed. -/
def isTooGreat (cs : List Char) : Bool :=
  let (whole, fraction, exponent) := floatParts cs
  let places := fraction.countP Char.isDigit
  let size := valueOf 10 (unsigned (exponent.drop 1))
  let power : Int := if (exponent.drop 1).head? == some '-' then -size else size
  cs.head? != some '-' && isBeyondDouble (valueOf 10 (whole ++ fraction)) (power - places)

def isFloat (cs : List Char) : Bool :=
  String.ofList (unsigned cs) == "inf" || String.ofList (unsigned cs) == "nan" ||
    (isDecimalFloat cs && !isTooGreat cs)

/-- Whether characters are digits where the pattern has `0` and equal to it elsewhere. -/
def fits : (pattern cs : List Char) → Bool
  | [], [] => true
  | '0' :: ps, c :: cs => c.isDigit && fits ps cs
  | p :: ps, c :: cs => p == c && fits ps cs
  | _, _ => false

/-- The number in two digits that start at a place of a word. -/
def pairAt (start : Nat) (cs : List Char) : Nat := valueOf 10 ((cs.drop start).take 2)

def isLeap (year : Nat) : Bool := year % 4 == 0 && (year % 100 != 0 || year % 400 == 0)

def daysIn (year month : Nat) : Nat :=
  match month with
  | 2 => if isLeap year then 29 else 28
  | 4 | 6 | 9 | 11 => 30
  | _ => 31

def isDay (cs : List Char) : Bool :=
  let (month, day) := (pairAt 5 cs, pairAt 8 cs)
  fits "0000-00-00".toList cs && 1 ≤ month && month ≤ 12
    && 1 ≤ day && day ≤ daysIn (valueOf 10 (cs.take 4)) month

/-- Whether a word is a time of day, perhaps with fractions of a second. A leap second counts. -/
def isClock (cs : List Char) : Bool :=
  fits "00:00:00".toList (cs.take 8) && pairAt 0 cs < 24 && pairAt 3 cs < 60 && pairAt 6 cs ≤ 60 &&
    match cs.drop 8 with
    | [] => true
    | '.' :: digits => !digits.isEmpty && digits.all Char.isDigit
    | _ => false

def isOffset (cs : List Char) : Bool :=
  (fits "+00:00".toList cs || fits "-00:00".toList cs) && pairAt 1 cs < 24 && pairAt 4 cs < 60

def isZonedClock (cs : List Char) : Bool :=
  let clock := cs.takeWhile fun c => c.isDigit || c == ':' || c == '.'
  let zone := cs.drop clock.length
  isClock clock && (zone.isEmpty || zone == ['Z'] || zone == ['z'] || isOffset zone)

def isDate (cs : List Char) : Bool :=
  isDay cs || isClock cs ||
    (isDay (cs.take 10) && ((cs.drop 10).head?.any fun c => c == 'T' || c == 't' || c == ' ')
      && isZonedClock (cs.drop 11))

def isWordChar (c : Char) : Bool :=
  c.isAlphanum || c == '_' || c == '-' || c == '+' || c == '.' || c == ':'

/-- A word without quotes. A date may go on with a time after one blank. -/
def word (cs : Rest) : List Char × Rest :=
  let first := cs.takeWhile isWordChar
  let rest := cs.dropWhile isWordChar
  match rest with
  | ' ' :: more =>
    let second := more.takeWhile isWordChar
    if isDay first && isZonedClock second
    then (first ++ ' ' :: second, more.dropWhile isWordChar)
    else (first, rest)
  | _ => (first, rest)

end Reenact.Toml
