import Reenact.Literal

/-!
The code of generated tests: expressions and statements, independent of how they are written.
-/

namespace Reenact

inductive Expr where
  | literal (l : Literal)
  | null
  | loc (name : String)
  | constant (type : Ty) (name : String)
  | new (type : Ty) (args : List Expr)
  | newArray (component : Ty) (elements : List Expr)
  | call (target : Expr) (method : String) (typeArgs : List Ty) (args : List Expr)
  | function (owner : Option Ty) (name : String) (typeArgs : List Ty) (args : List Expr)
  | field (target : Expr) (name : String)
  | staticField (owner : Ty) (name : String)
  | index (target : Expr) (i : Nat)
  | cast (e : Expr) (type : Ty)
  | closure (body : Expr)

namespace Expr

def invoke (target : Expr) (method : String) (args : List Expr) : Expr :=
  .call target method [] args

def apply (name : String) (args : List Expr) : Expr := .function none name [] args

def local? : Expr → Option String
  | loc name => some name
  | _ => none

/-- Whether the expression stands for a value without identity and may be written anywhere. -/
def isInline : Expr → Bool
  | literal _ | null | constant _ _ => true
  | _ => false

end Expr

inductive Stmt where
  | bind (name : String) (type : Ty) (value : Expr)
  | assign (target value : Expr)
  | expr (e : Expr)
  | comment (text : String)

end Reenact
