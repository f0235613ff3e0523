import Rebuild.Text.GraphemeExtend
import Rebuild.Text.Unprintable

/-!
# Quoted text

How messages show a text: in double quotes, with `\"` and `\\` for the quote and the backslash,
short escapes for tab, newline, carriage return and NUL, and `\u{hex}` for every other character
that is unprintable or would attach to the one before it.
-/
namespace Rebuild

/-- The least hexadecimal digits of a number, lowercase. -/
def hexDigits (n : Nat) : String := String.ofList (Nat.toDigits 16 n)

/-- One character between the quotes. -/
def quotedChar (c : Char) : String :=
  match c with
  | '"' => "\\\""
  | '\\' => "\\\\"
  | '\n' => "\\n"
  | '\r' => "\\r"
  | '\t' => "\\t"
  | '\x00' => "\\0"
  | _ =>
    if ' ' ≤ c ∧ c ≤ '~' then c.toString
    else if isGraphemeExtend c || isUnprintable c then "\\u\x7b" ++ hexDigits c.toNat ++ "\x7d"
    else c.toString

/-- A text in double quotes. -/
def quoted (s : String) : String := "\"" ++ String.join (s.toList.map quotedChar) ++ "\""

end Rebuild
