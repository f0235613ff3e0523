/-!
# Blank space

The characters with the Unicode property `White_Space`, and texts without such characters at their
ends.
-/
namespace Rebuild

/-- Whether a character is white space. -/
def isBlank (c : Char) : Bool :=
  let n := c.toNat
  (0x09 ≤ n && n ≤ 0x0D) || n == 0x20 || n == 0x85 || n == 0xA0 || n == 0x1680
    || (0x2000 ≤ n && n ≤ 0x200A) || n == 0x2028 || n == 0x2029 || n == 0x202F || n == 0x205F
    || n == 0x3000

/-- The characters of a text without blanks at the ends. -/
def trimBlanks (s : String) : List Char :=
  (((s.toList.dropWhile isBlank).reverse).dropWhile isBlank).reverse

end Rebuild
