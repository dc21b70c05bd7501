import Reenact.Toml.Text

/-!
Reading TOML documents. While a document is read every table remembers how it came about, because
that decides whether it may be opened or extended again.
-/

namespace Reenact

inductive Toml where
  | str (s : String)
  | int (n : Int)
  | bool (b : Bool)
  /-- A floating point number, a date or a time. -/
  | other
  | array (items : List Toml)
  | table (entries : List (String × Toml))

namespace Toml

/-- How a table came about: as a step on the way to another, under a header of its own, or through a
key with points. -/
inductive Origin where
  | implied | header | dotted
  deriving DecidableEq

inductive Entry where
  | value (v : Toml)
  | table (origin : Origin) (entries : List (String × Entry))
  /-- Tables under one repeated header, latest first. -/
  | tables (items : List (List (String × Entry)))

abbrev Entries := List (String × Entry)

def find? (es : Entries) (key : String) : Option Entry := es.lookup key

def store (key : String) (entry : Entry) : Entries → Entries
  | [] => [(key, entry)]
  | (k, e) :: rest => if k = key then (k, entry) :: rest else (k, e) :: store key entry rest

/-- Adds a value under a key with points. The value goes into a table that such a key made or makes;
on the way there it may pass tables that are so far only steps, and the latest of a list. -/
def insert? (v : Toml) : List String → Entries → Option Entries
  | [], _ => none
  | [key], es =>
    match find? es key with
    | none => some (store key (.value v) es)
    | some _ => none
  | key :: path, es =>
    match find? es key with
    | none => (insert? v path []).map fun inner => store key (.table .dotted inner) es
    | some (.table origin inner) =>
      if origin = .dotted ∨ (origin = .implied ∧ 1 < path.length) then
        (insert? v path inner).map fun inner => store key (.table origin inner) es
      else none
    | some (.tables (latest :: earlier)) =>
      if 1 < path.length then
        (insert? v path latest).map fun latest => store key (.tables (latest :: earlier)) es
      else none
    | some _ => none

/-- Changes the table that a path of headers leads to; steps that are missing are made. In a list of
tables the path leads on in the latest. -/
def atPath (change : Entries → Option Entries) : List String → Entries → Option Entries
  | [], es => change es
  | key :: path, es =>
    match find? es key with
    | none => (atPath change path []).map fun inner => store key (.table .implied inner) es
    | some (.table origin inner) =>
      (atPath change path inner).map fun inner => store key (.table origin inner) es
    | some (.tables (latest :: earlier)) =>
      (atPath change path latest).map fun latest => store key (.tables (latest :: earlier)) es
    | some _ => none

/-- Opens the table of a header. It must be new, or so far only a step on the way to others. -/
def openTable (key : String) (es : Entries) : Option Entries :=
  match find? es key with
  | none => some (store key (.table .header []) es)
  | some (.table .implied inner) => some (store key (.table .header inner) es)
  | some _ => none

/-- Opens one more table of a repeated header. -/
def openNext (key : String) (es : Entries) : Option Entries :=
  match find? es key with
  | none => some (store key (.tables [[]]) es)
  | some (.tables items) => some (store key (.tables ([] :: items)) es)
  | some _ => none

mutual

def Entry.close : Entry → Toml
  | .value v => v
  | .table _ es => .table (closeAll es)
  | .tables items => .array (closeItems items).reverse

def closeAll : List (String × Entry) → List (String × Toml)
  | [] => []
  | (k, e) :: rest => (k, e.close) :: closeAll rest

def closeItems : List (List (String × Entry)) → List Toml
  | [] => []
  | es :: rest => .table (closeAll es) :: closeItems rest

end

/-- The value of a word without quotes. Integers fit 64 bits. -/
def ofWord? (cs : List Char) : Option Toml :=
  match String.ofList cs with
  | "true" => some (.bool true)
  | "false" => some (.bool false)
  | _ =>
    match int? cs with
    | some n => if Int64.minValue.toInt ≤ n ∧ n ≤ Int64.maxValue.toInt then some (.int n) else none
    | none => if isFloat cs || isDate cs then some .other else none

mutual

/-- Reads a value inside of `depth` arrays and tables in braces. Every step takes a character away, so
the length of the text is enough. -/
def value? : (steps depth : Nat) → Rest → Option (Toml × Rest)
  | 0, _, _ => none
  | steps + 1, depth, cs =>
    match cs with
    | '[' :: rest =>
      if depth + 1 < nestingLimit then items? steps (depth + 1) [] (trivia rest) else none
    | '\x7b' :: rest =>
      if depth + 1 < nestingLimit then
        match skipSpaces rest with
        | '\x7d' :: rest => some (.table [], rest)
        | rest => members? steps (depth + 1) [] rest
      else none
    | '"' :: _ | '\'' :: _ => (string? cs).map fun (s, rest) => (.str s, rest)
    | _ =>
      let (w, rest) := word cs
      (ofWord? w).map (·, rest)

/-- Reads the items of an array after those read already, up to its closing bracket. -/
def items? : (steps depth : Nat) → List Toml → Rest → Option (Toml × Rest)
  | 0, _, _, _ => none
  | _ + 1, _, items, ']' :: rest => some (.array items, rest)
  | steps + 1, depth, items, cs => do
    let (v, rest) ← value? steps depth cs
    match trivia rest with
    | ',' :: rest => items? steps depth (items ++ [v]) (trivia rest)
    | ']' :: rest => return (.array (items ++ [v]), rest)
    | _ => none

/-- Reads the members of a table in braces, of which there is at least one more. -/
def members? : (steps depth : Nat) → Entries → Rest → Option (Toml × Rest)
  | 0, _, _, _ => none
  | steps + 1, depth, es, cs => do
    let (path, rest) ← key? cs
    match rest with
    | '=' :: rest =>
      let (v, rest) ← value? steps depth (skipSpaces rest)
      let es ← insert? v path es
      match skipSpaces rest with
      | ',' :: rest => members? steps depth es rest
      | '\x7d' :: rest => return (.table (closeAll es), rest)
      | _ => none
    | _ => none

end

/-- A document so far: all entries, and the path of the table opened last. -/
structure Draft where
  entries : Entries
  opened : List String

def Draft.enter (d : Draft) (path : List String) (openLast : String → Entries → Option Entries) :
    Option Draft := do
  let last ← path.getLast?
  let entries ← atPath (openLast last) path.dropLast d.entries
  return ⟨entries, path⟩

/-- Reads one line that is not blank: a header, or a key with its value. -/
def line? (d : Draft) (cs : Rest) : Option (Draft × Rest) :=
  match cs with
  | '[' :: '[' :: rest => do
    match ← key? rest with
    | (path, ']' :: ']' :: rest) => return (← d.enter path openNext, ← lineEnd? rest)
    | _ => none
  | '[' :: rest => do
    match ← key? rest with
    | (path, ']' :: rest) => return (← d.enter path openTable, ← lineEnd? rest)
    | _ => none
  | _ => do
    match ← key? cs with
    | (path, '=' :: rest) =>
      let (v, rest) ← value? (rest.length + 1) 0 (skipSpaces rest)
      let entries ← atPath (insert? v path) d.opened d.entries
      return ({ d with entries }, ← lineEnd? rest)
    | _ => none

def lines? : (steps : Nat) → Draft → Rest → Option Entries
  | 0, _, _ => none
  | steps + 1, d, cs =>
    match trivia cs with
    | [] => some d.entries
    | cs => do
      let (d, rest) ← line? d cs
      lines? steps d rest

def afterMark : Rest → Rest
  | '\ufeff' :: cs => cs
  | cs => cs

def parse? (text : String) : Option (List (String × Toml)) :=
  (lines? (text.length + 1) ⟨[], []⟩ (afterMark text.toList)).map closeAll

end Toml

end Reenact
