import Reenact.Text.Invisible

/-!
Characters and strings in quotes. Six characters have a short escape, the quote in use is escaped,
invisible characters are written by code point, and all others stand for themselves.
-/

namespace Reenact.Text

/-- A number in base sixteen, lower case, without leading zeros. -/
def hex (n : Nat) : String := String.ofList (Nat.toDigits 16 n)

/-- One character as it stands between two copies of `quote`. -/
def escape (quote c : Char) : String :=
  match c with
  | '\x00' => "\\0"
  | '\t' => "\\t"
  | '\r' => "\\r"
  | '\n' => "\\n"
  | '\\' => "\\\\"
  | _ =>
    if c = quote then String.ofList ['\\', c]
    else if isInvisible c then "\\u\x7b" ++ hex c.toNat ++ "\x7d"
    else String.singleton c

def quotedChar (c : Char) : String := "'" ++ escape '\'' c ++ "'"

def quotedString (s : String) : String :=
  "\"" ++ String.join (s.toList.map (escape '"')) ++ "\""

end Reenact.Text
