import Reenact.Json.Number

/-!
Reading JSON texts. The text is cut into tokens first; then one pass over the tokens builds the
document, keeping the arrays and objects that are still open on a stack.
-/

namespace Reenact

/-- A document as it is read. A string with half of a surrogate pair may stand where nobody looks at
it, so it is kept without a value. -/
inductive JsonValue where
  | null
  | bool (b : Bool)
  | number (n : Json.NumberText)
  | str (s : Option String)
  | array (items : List JsonValue)
  | object (members : List (Option String × JsonValue))

end Reenact

namespace Reenact.JsonText

inductive Token where
  | mark (c : Char)
  | value (v : JsonValue)

/-- Where the scan of a text stands. A word has its characters so far, and a string the codes of its
characters, last first. -/
inductive Scan where
  | outside
  | word (chars : List Char)
  | text (codes : List Nat)
  | escape (codes : List Nat)
  /-- Inside an escape by code, of which some digits have been read. -/
  | code (codes : List Nat) (value digits : Nat)

def wordValue? (chars : List Char) : Option JsonValue :=
  match String.ofList chars.reverse with
  | "null" => some .null
  | "true" => some (.bool true)
  | "false" => some (.bool false)
  | text => (Json.NumberText.parse? text).map .number

def isHighSurrogate (code : Nat) : Bool := 0xd800 ≤ code && code ≤ 0xdbff

def isLowSurrogate (code : Nat) : Bool := 0xdc00 ≤ code && code ≤ 0xdfff

/-- The characters of a string with these codes, each surrogate pair being one character. -/
def characters? : List Nat → Option (List Char)
  | [] => some []
  | [code] =>
    if isHighSurrogate code || isLowSurrogate code then none else some [Char.ofNat code]
  | code :: next :: rest =>
    if isHighSurrogate code then
      if isLowSurrogate next then
        (characters? rest).map
          (Char.ofNat (0x10000 + (code - 0xd800) * 0x400 + (next - 0xdc00)) :: ·)
      else none
    else if isLowSurrogate code then none
    else (characters? (next :: rest)).map (Char.ofNat code :: ·)

def isBlank (c : Char) : Bool := c == ' ' || c == '\t' || c == '\n' || c == '\r'

def isMark (c : Char) : Bool :=
  c == '[' || c == ']' || c == '\x7b' || c == '\x7d' || c == ',' || c == ':'

def hexValue? (c : Char) : Option Nat :=
  if c.isDigit then some (c.toNat - '0'.toNat)
  else if 'a' ≤ c ∧ c ≤ 'f' then some (c.toNat - 'a'.toNat + 10)
  else if 'A' ≤ c ∧ c ≤ 'F' then some (c.toNat - 'A'.toNat + 10)
  else none

def simpleEscape? : Char → Option Char
  | '"' => some '"'
  | '\\' => some '\\'
  | '/' => some '/'
  | 'b' => some '\x08'
  | 'f' => some '\x0c'
  | 'n' => some '\n'
  | 'r' => some '\r'
  | 't' => some '\t'
  | _ => none

/-- Outside of quotes a character is blank, a mark, a quote that opens, or part of a word. -/
def outside (c : Char) : List Token × Scan :=
  if isBlank c then ([], .outside)
  else if isMark c then ([.mark c], .outside)
  else if c = '"' then ([], .text [])
  else ([], .word [c])

/-- The tokens that a character completes, and where the scan goes on. -/
def step (c : Char) : Scan → Option (List Token × Scan)
  | .outside => some (outside c)
  | .word chars =>
    if isBlank c || isMark c || c == '"' then do
      let v ← wordValue? chars
      let (tokens, scan) := outside c
      return (.value v :: tokens, scan)
    else some ([], .word (c :: chars))
  | .text codes =>
    if c = '"' then
      some ([.value (.str ((characters? codes.reverse).map String.ofList))], .outside)
    else if c = '\\' then some ([], .escape codes)
    else if c.toNat < 0x20 then none
    else some ([], .text (c.toNat :: codes))
  | .escape codes =>
    if c = 'u' then some ([], .code codes 0 0)
    else (simpleEscape? c).map fun e => ([], .text (e.toNat :: codes))
  | .code codes value digits => do
    let value := 16 * value + (← hexValue? c)
    if digits = 3 then return ([], .text (value :: codes))
    else return ([], .code codes value (digits + 1))

def tokens? : Scan → List Char → Option (List Token)
  | .outside, [] => some []
  | .word chars, [] => (wordValue? chars).map fun v => [.value v]
  | _, [] => none
  | scan, c :: cs => do
    let (found, scan) ← step c scan
    return found ++ (← tokens? scan cs)

/-- An array or an object that is still open; an object has the key of the member being read. -/
inductive Open where
  | array (items : List JsonValue)
  | object (members : List (Option String × JsonValue)) (key : Option String)

/-- What may come next. -/
inductive Expecting where
  | value
  /-- Right after an opening bracket, where the array may end. -/
  | firstItem
  /-- Right after an opening brace: the members so far are none, and the object may end. -/
  | firstKey
  | key (members : List (Option String × JsonValue))
  | colon (members : List (Option String × JsonValue)) (key : Option String)
  | after (v : JsonValue)

def assemble : List Open → Expecting → List Token → Option JsonValue
  | [], .after v, [] => some v
  | .array items :: stack, .after v, .mark ',' :: rest =>
    assemble (.array (items ++ [v]) :: stack) .value rest
  | .array items :: stack, .after v, .mark ']' :: rest =>
    assemble stack (.after (.array (items ++ [v]))) rest
  | .object members key :: stack, .after v, .mark ',' :: rest =>
    assemble stack (.key (members ++ [(key, v)])) rest
  | .object members key :: stack, .after v, .mark '\x7d' :: rest =>
    assemble stack (.after (.object (members ++ [(key, v)]))) rest
  | stack, .firstItem, .mark ']' :: rest => assemble stack.tail (.after (.array [])) rest
  | stack, .firstKey, .mark '\x7d' :: rest => assemble stack (.after (.object [])) rest
  | stack, .firstKey, .value (.str key) :: rest => assemble stack (.colon [] key) rest
  | stack, .key members, .value (.str key) :: rest => assemble stack (.colon members key) rest
  | stack, .colon members key, .mark ':' :: rest =>
    assemble (.object members key :: stack) .value rest
  | stack, .value, .value v :: rest | stack, .firstItem, .value v :: rest =>
    assemble stack (.after v) rest
  | stack, .value, .mark '[' :: rest | stack, .firstItem, .mark '[' :: rest =>
    assemble (.array [] :: stack) .firstItem rest
  | stack, .value, .mark '\x7b' :: rest | stack, .firstItem, .mark '\x7b' :: rest =>
    assemble stack .firstKey rest
  | _, _, _ => none

end Reenact.JsonText

namespace Reenact.JsonValue

def parse? (text : String) : Option JsonValue := do
  let tokens ← JsonText.tokens? .outside text.toList
  JsonText.assemble [] .value tokens

/-- The members of an object, or the items of an array in the order of the named parts; `none` if a
part occurs twice or there are more items than parts. Other members do not count, but their keys
are read. -/
def parts? (names : List String) : JsonValue → Option (List (String × JsonValue))
  | .object members => do
    let members ← members.mapM fun (key, v) => key.map (·, v)
    let known := members.filter fun (key, _) => names.contains key
    if (known.map (·.1)).Nodup then some known else none
  | .array items => if items.length ≤ names.length then some (names.zip items) else none
  | _ => none

def string? : JsonValue → Option String
  | .str s => s
  | _ => none

def bool? : JsonValue → Option Bool
  | .bool b => some b
  | _ => none

def array? : JsonValue → Option (List JsonValue)
  | .array items => some items
  | _ => none

def number? : JsonValue → Option Json.NumberText
  | .number n => some n
  | _ => none

end Reenact.JsonValue
