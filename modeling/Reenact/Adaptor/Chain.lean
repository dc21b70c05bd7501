/-!
Chains of named adaptors. An adaptor may refine a parent; the chain puts every adaptor before its
ancestors and otherwise keeps the order of registration, so the first one that accepts a value is
the most special one registered for it.
-/

namespace Reenact

structure Adaptor (β : Type) where
  name : String
  parent : Option String
  behaviour : β

inductive ChainError where
  | duplicateName (name : String)
  | unknownParent (name parent : String)
  | parentCycle (name : String)
  deriving DecidableEq, Repr

def ChainError.message : ChainError → String
  | .duplicateName name => s!"adaptor '{name}' is registered more than once"
  | .unknownParent name parent => s!"adaptor '{name}' declares unknown parent '{parent}'"
  | .parentCycle name => s!"adaptor '{name}' is part of a parent cycle"

structure Chain (β : Type) where
  entries : List (Adaptor β)

namespace Chain

variable {β : Type}

def repeated? : (seen : List String) → List (Adaptor β) → Option String
  | _, [] => none
  | seen, a :: rest => if a.name ∈ seen then some a.name else repeated? (a.name :: seen) rest

def parentOf? (all : List (Adaptor β)) (name : String) : Option String :=
  (all.find? (·.name == name)).bind Adaptor.parent

/-- The first adaptor whose parent is not among `all`, with that parent. -/
def orphan? (all : List (Adaptor β)) : Option (String × String) :=
  all.findSome? fun a =>
    a.parent.bind fun parent =>
      if all.any (·.name == parent) then none else some (a.name, parent)

/-- Whether going from a name to its parent and on comes to an end within so many steps. -/
def climbEnds (all : List (Adaptor β)) : (steps : Nat) → Option String → Bool
  | _, none => true
  | 0, some _ => false
  | steps + 1, some name => climbEnds all steps (parentOf? all name)

/-- The first adaptor whose parent links never end. A climb that ends meets no name twice. -/
def cyclic? (all : List (Adaptor β)) : Option String :=
  (all.find? fun a => !climbEnds all all.length (some a.name)).map Adaptor.name

/-- Appends an adaptor to `placed` unless it is there, after all that refine it. Refinements nest no
deeper than there are adaptors. -/
def place (all : List (Adaptor β)) : (depth : Nat) → (placed : List (Adaptor β)) → Adaptor β →
    List (Adaptor β)
  | 0, placed, _ => placed
  | depth + 1, placed, a =>
    if placed.any (·.name == a.name) then placed
    else (all.filter (·.parent == some a.name)).foldl (place all depth) placed ++ [a]

def build (all : List (Adaptor β)) : Except ChainError (Chain β) :=
  match repeated? [] all, orphan? all, cyclic? all with
  | some name, _, _ => .error (.duplicateName name)
  | none, some (name, parent), _ => .error (.unknownParent name parent)
  | none, none, some name => .error (.parentCycle name)
  | none, none, none => .ok ⟨all.foldl (place all all.length) []⟩

def names (c : Chain β) : List String := c.entries.map Adaptor.name

def size (c : Chain β) : Nat := c.entries.length

def select? (c : Chain β) (accepts : Adaptor β → Bool) : Option (Adaptor β) :=
  c.entries.find? accepts

/-- The selection where asking an adaptor has effects. Adaptors behind the one selected are not
asked. -/
def selectM? {m : Type → Type} [Monad m] (c : Chain β) (accepts : Adaptor β → m Bool) :
    m (Option (Adaptor β)) :=
  c.entries.findM? accepts

def get? (c : Chain β) (name : String) : Option (Adaptor β) :=
  c.entries.find? (·.name == name)

end Chain

/-- The adaptors of one task, and whether values that none of them accepts are handled field by
field. -/
structure Registry (β : Type) where
  chain : Chain β
  fallback : Bool

/-- Additional adaptors come before the defaults, which they may refine. -/
def Registry.build {β : Type} (additional defaults : List (Adaptor β)) (fallback : Bool) :
    Except ChainError (Registry β) :=
  match Chain.build (additional ++ defaults) with
  | .ok chain => .ok ⟨chain, fallback⟩
  | .error e => .error e

end Reenact
