/-!
Perfect matchings: whether each row of a square relation can be given a column of its own that it
accepts. Rows are placed one after another; a row may take a column from an earlier row that finds
another one.
-/

namespace Reenact.Pairing

/-- A search in progress: which row owns each column, and the columns tried for the present row. -/
structure State where
  owners : List (Nat × Nat)
  tried : List Nat

def owner? (owners : List (Nat × Nat)) (column : Nat) : Option Nat :=
  (owners.find? (·.1 == column)).map (·.2)

def setOwner (owners : List (Nat × Nat)) (column row : Nat) : List (Nat × Nat) :=
  (column, row) :: owners.filter (·.1 != column)

/-- Tries the columns in turn; `place` finds another column for a row that owns one already. -/
def tryColumns (place : Nat → State → Bool × State) (row : Nat) : List Nat → State → Bool × State
  | [], s => (false, s)
  | column :: rest, s =>
    if column ∈ s.tried then tryColumns place row rest s
    else
      let s := { s with tried := column :: s.tried }
      let (free, s) :=
        match owner? s.owners column with
        | none => (true, s)
        | some other => place other s
      if free then (true, { s with owners := setOwner s.owners column row })
      else tryColumns place row rest s

/-- Gives a row a column, moving rows placed earlier if need be. Every level of moving tries one
more column, so `depth` need not exceed the number of columns by more than one. -/
def place (accepted : Nat → List Nat) : (depth : Nat) → Nat → State → Bool × State
  | 0, _, s => (false, s)
  | depth + 1, row, s => tryColumns (place accepted depth) row (accepted row) s

def placeAll (accepted : Nat → List Nat) (size : Nat) : List Nat → List (Nat × Nat) → Bool
  | [], _ => true
  | row :: rest, owners =>
    match place accepted (size + 1) row ⟨owners, []⟩ with
    | (true, s) => placeAll accepted size rest s.owners
    | (false, _) => false

/-- Whether a square table of Booleans holds a perfect matching. -/
def perfect (table : List (List Bool)) : Bool :=
  let accepted (row : Nat) : List Nat :=
    let answers := (table[row]?).getD []
    (List.range answers.length).filter fun column => answers[column]? == some true
  placeAll accepted table.length (List.range table.length) []

end Reenact.Pairing
