import Reenact.Ty.Basic

/-!
Reading types. The text is first cut into names and single marks, blanks between them being free;
then one pass over the tokens builds the type, keeping the classes whose argument list is still
open on a stack.
-/

namespace Reenact.TyText

inductive Token where
  | name (s : String)
  | mark (c : Char)
  deriving DecidableEq, Repr

def isBlank (c : Char) : Bool :=
  c == ' ' || c == '\t' || c == '\n' || c == '\x0c' || c == '\r'

def isNameChar (c : Char) : Bool := c.isAlphanum || c == '_' || c == '$'

/-- The name collected so far, at the offset where it began. -/
def collected (offset : Nat) : List Char → List (Nat × Token)
  | [] => []
  | word => [(offset - word.length, .name (String.ofList word))]

/-- The tokens of a text that follows `word`, each with its offset in bytes. A name holds letters,
digits, `_`, `$` and pairs of colons. -/
def scan (offset : Nat) (word : List Char) : List Char → List (Nat × Token)
  | [] => collected offset word
  | ':' :: ':' :: rest => scan (offset + 2) (word ++ [':', ':']) rest
  | c :: rest =>
    if isNameChar c then scan (offset + 1) (word ++ [c]) rest
    else
      collected offset word
        ++ (if isBlank c then [] else [(offset, .mark c)])
        ++ scan (offset + c.utf8Size) [] rest

/-- Why a text is no type, with the offset in bytes of the token at fault or of the end. -/
inductive Fault where
  | noName (offset : Nat)
  | noSeparator (offset : Nat)
  | noBracket (offset : Nat)
  | trailing (offset : Nat)
  deriving DecidableEq, Repr

def Fault.message : Fault → String
  | .noName n => s!"expected a type name at offset {n}"
  | .noSeparator n => s!"expected ',' or '>' at offset {n}"
  | .noBracket n => s!"expected ']' at offset {n}"
  | .trailing n => s!"unexpected trailing input at offset {n}"

/-- A class whose argument list is open, with the arguments read so far. -/
structure OpenClass where
  name : String
  args : List Ty

inductive Expecting where
  | type
  /-- A type has been read; right after a class name an argument list may open. -/
  | more (t : Ty) (mayOpen : Bool)
  | bracket (component : Ty)

def offsetOf (stop : Nat) : List (Nat × Token) → Nat
  | [] => stop
  | (offset, _) :: _ => offset

/-- `void` and the primitives are reserved and take no arguments. -/
def afterName (s : String) : Expecting :=
  if s = "void" then .more .void false
  else match Primitive.ofName? s with
    | some kind => .more (.primitive kind) false
    | none => .more (.ofClass s) true

/-- Builds a type from tokens; `stop` is the offset of the end of the text. -/
def assemble (stop : Nat) : List OpenClass → Expecting → List (Nat × Token) → Except Fault Ty
  | stack, .type, (_, .name s) :: rest => assemble stop stack (afterName s) rest
  | _, .type, tokens => .error (.noName (offsetOf stop tokens))
  | stack, .bracket t, (_, .mark ']') :: rest => assemble stop stack (.more (.array t) false) rest
  | _, .bracket _, tokens => .error (.noBracket (offsetOf stop tokens))
  | stack, .more (.named s _) true, (_, .mark '<') :: rest =>
    assemble stop (⟨s, []⟩ :: stack) .type rest
  | stack, .more t _, (_, .mark '[') :: rest => assemble stop stack (.bracket t) rest
  | c :: stack, .more t _, (_, .mark ',') :: rest =>
    assemble stop (⟨c.name, c.args ++ [t]⟩ :: stack) .type rest
  | c :: stack, .more t _, (_, .mark '>') :: rest =>
    assemble stop stack (.more (.named c.name (c.args ++ [t])) false) rest
  | [], .more t _, [] => .ok t
  | [], .more _ _, (offset, _) :: _ => .error (.trailing offset)
  | _ :: _, .more _ _, tokens => .error (.noSeparator (offsetOf stop tokens))

end Reenact.TyText

namespace Reenact

structure TyParseError where
  input : String
  fault : TyText.Fault
  deriving DecidableEq, Repr

def TyParseError.message (e : TyParseError) : String :=
  s!"cannot parse type '{e.input}': {e.fault.message}"

def Ty.parse (input : String) : Except TyParseError Ty :=
  match TyText.assemble input.utf8ByteSize [] .type (TyText.scan 0 [] input.toList) with
  | .ok t => .ok t
  | .error fault => .error ⟨input, fault⟩

end Reenact
