import Rebuild.Text.Utf8

/-!
# Hexadecimal text

Bytes as pairs of lowercase hexadecimal digits, and back.
-/
namespace Rebuild

/-- The lowercase digit of a number below sixteen. -/
def hexDigit (n : Nat) : Char := Nat.digitChar n

/-- Two digits for each byte. -/
def Bytes.hex (b : Bytes) : String :=
  String.ofList (b.flatMap fun x => [hexDigit (x.toNat / 16), hexDigit (x.toNat % 16)])

/-- The number that a digit of either case stands for. -/
def hexValue? (c : Char) : Option Nat :=
  if '0' ≤ c ∧ c ≤ '9' then some (c.toNat - '0'.toNat)
  else if 'a' ≤ c ∧ c ≤ 'f' then some (c.toNat - 'a'.toNat + 10)
  else if 'A' ≤ c ∧ c ≤ 'F' then some (c.toNat - 'A'.toNat + 10)
  else none

/-- The bytes of an even number of digits. -/
def Bytes.ofHexDigits : List Char → Option Bytes
  | [] => some []
  | [_] => none
  | high :: low :: rest => do
    let h ← hexValue? high
    let l ← hexValue? low
    return UInt8.ofNat (h * 16 + l) :: (← Bytes.ofHexDigits rest)

/-- The bytes that a hexadecimal text spells. -/
def Bytes.ofHex? (s : String) : Option Bytes := Bytes.ofHexDigits s.toList

theorem hexValue?_hexDigit : ∀ n < 16, hexValue? (hexDigit n) = some n := by decide

/-- The digits of bytes are read as those bytes. -/
@[simp] theorem Bytes.ofHex?_hex (b : Bytes) : Bytes.ofHex? b.hex = some b := by
  unfold Bytes.ofHex? Bytes.hex
  rw [String.toList_ofList]
  induction b with
  | nil => rfl
  | cons x rest ih =>
    have hx := x.toNat_lt
    have hhigh := hexValue?_hexDigit (x.toNat / 16) (by omega)
    have hlow := hexValue?_hexDigit (x.toNat % 16) (by omega)
    have hsum : x.toNat / 16 * 16 + x.toNat % 16 = x.toNat := by omega
    rw [List.flatMap_cons, List.cons_append, List.cons_append, List.nil_append,
      Bytes.ofHexDigits, hhigh, hlow, ih]
    show some (UInt8.ofNat (x.toNat / 16 * 16 + x.toNat % 16) :: rest) = _
    rw [hsum, UInt8.ofNat_toNat]

theorem Bytes.hex_injective {a b : Bytes} (h : a.hex = b.hex) : a = b := by
  have := Bytes.ofHex?_hex a
  rw [h, Bytes.ofHex?_hex] at this
  exact (Option.some.inj this).symm

end Rebuild
