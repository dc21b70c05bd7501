/-!
Association lists that keep the order in which keys were first stored.
-/

namespace Reenact

variable {κ ν : Type} [DecidableEq κ]

/-- Stores a value under a key: in place if the key is present, else at the end. -/
def putEntry (key : κ) (value : ν) : List (κ × ν) → List (κ × ν)
  | [] => [(key, value)]
  | (k, v) :: rest =>
    if k = key then (k, value) :: rest else (k, v) :: putEntry key value rest

def dropEntry (key : κ) : List (κ × ν) → List (κ × ν)
  | [] => []
  | (k, v) :: rest => if k = key then rest else (k, v) :: dropEntry key rest

def findValue? (key : κ) : List (κ × ν) → Option ν
  | [] => none
  | (k, v) :: rest => if k = key then some v else findValue? key rest

end Reenact
