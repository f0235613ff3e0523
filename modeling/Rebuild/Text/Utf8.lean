/-!
# UTF-8

Byte strings, the text they spell, and where a byte string stops being text.

* `Bytes.ofText`, `Bytes.text?`: the UTF-8 encoding of a text and its inverse.
* `Utf8.leading`: what a byte string starts with: a scalar value, a maximal ill-formed piece, or a
  piece that the end cuts short.
* `Bytes.flaw?`: the first ill-formed place; `Bytes.lossyText` puts U+FFFD there.
-/
namespace Rebuild

/-- A byte string. -/
abbrev Bytes := List UInt8

/-- The UTF-8 encoding of a text. -/
def Bytes.ofText (s : String) : Bytes := s.toUTF8.data.toList

/-- The text a byte string encodes, if it is well-formed UTF-8. -/
def Bytes.text? (b : Bytes) : Option String := String.fromUTF8? ⟨b.toArray⟩

theorem Bytes.text?_ofText (s : String) : Bytes.text? (Bytes.ofText s) = some s := by
  have : (⟨(s.toUTF8.data.toList).toArray⟩ : ByteArray) = s.toByteArray := rfl
  simp only [Bytes.text?, Bytes.ofText, this, String.fromUTF8?, s.isValidUTF8, ↓reduceDIte]
  rfl

theorem Bytes.length_ofText (s : String) : (Bytes.ofText s).length = s.utf8ByteSize := rfl

theorem Bytes.ofText_injective {s t : String} (h : Bytes.ofText s = Bytes.ofText t) : s = t := by
  have := Bytes.text?_ofText s
  rw [h, Bytes.text?_ofText] at this
  exact (Option.some.inj this).symm

theorem Bytes.ofText_of_text? {b : Bytes} {s : String} (h : Bytes.text? b = some s) :
    Bytes.ofText s = b := by
  unfold Bytes.text? String.fromUTF8? at h
  split at h
  · cases h; rfl
  · cases h

namespace Utf8

/-- What a byte string starts with. -/
inductive Lead where
  /-- A well-formed scalar value of this many bytes. -/
  | scalar (width : Nat)
  /-- A maximal ill-formed piece of this many bytes. -/
  | illFormed (width : Nat)
  /-- The beginning of a scalar value that the end of the bytes cuts short. -/
  | cut
  deriving DecidableEq, Repr

/-- The ranges of the bytes that follow a leading byte; none for a byte that leads nothing. -/
def followers (lead : UInt8) : Option (List (UInt8 × UInt8)) :=
  let any : UInt8 × UInt8 := (0x80, 0xBF)
  if lead ≤ 0x7F then some []
  else if lead < 0xC2 then none
  else if lead ≤ 0xDF then some [any]
  else if lead = 0xE0 then some [(0xA0, 0xBF), any]
  else if lead = 0xED then some [(0x80, 0x9F), any]
  else if lead ≤ 0xEF then some [any, any]
  else if lead = 0xF0 then some [(0x90, 0xBF), any, any]
  else if lead ≤ 0xF3 then some [any, any, any]
  else if lead = 0xF4 then some [(0x80, 0x8F), any, any]
  else none

/-- Matches the bytes after `seen` good ones against the ranges that are left. -/
def follow (seen : Nat) : List (UInt8 × UInt8) → Bytes → Lead
  | [], _ => .scalar seen
  | _ :: _, [] => .cut
  | (low, high) :: ranges, b :: rest =>
    if low ≤ b ∧ b ≤ high then follow (seen + 1) ranges rest else .illFormed seen

/-- What a byte string with this first byte starts with. -/
def leading (b : UInt8) (rest : Bytes) : Lead :=
  match followers b with
  | none => .illFormed 1
  | some ranges => follow 1 ranges rest

/-- An ill-formed place: its offset, and its width unless the end of the bytes cuts it short. -/
structure Flaw where
  offset : Nat
  width : Option Nat
  deriving DecidableEq, Repr

def Flaw.message (f : Flaw) : String :=
  match f.width with
  | some n => s!"invalid utf-8 sequence of {n} bytes from index {f.offset}"
  | none => s!"incomplete utf-8 byte sequence from index {f.offset}"

/-- The scalar value that well-formed bytes spell. -/
def scalar : Bytes → Char
  | [a] => Char.ofNat a.toNat
  | [a, b] => Char.ofNat (a.toNat % 0x20 * 0x40 + b.toNat % 0x40)
  | [a, b, c] => Char.ofNat ((a.toNat % 0x10 * 0x40 + b.toNat % 0x40) * 0x40 + c.toNat % 0x40)
  | [a, b, c, d] =>
    Char.ofNat (((a.toNat % 0x08 * 0x40 + b.toNat % 0x40) * 0x40 + c.toNat % 0x40) * 0x40
      + d.toNat % 0x40)
  | _ => '\uFFFD'

/-- The first flaw of bytes that start at an offset. -/
def flawFrom (offset : Nat) : Bytes → Option Flaw
  | [] => none
  | b :: rest =>
    match leading b rest with
    | .scalar width => flawFrom (offset + width) (rest.drop (width - 1))
    | .illFormed width => some ⟨offset, some width⟩
    | .cut => some ⟨offset, none⟩
  termination_by bytes => bytes.length
  decreasing_by simp only [List.length_cons, List.length_drop]; omega

/-- The characters of the bytes, with U+FFFD for each maximal ill-formed piece. -/
def lossyChars : Bytes → List Char
  | [] => []
  | b :: rest =>
    match leading b rest with
    | .scalar width => scalar (b :: rest.take (width - 1)) :: lossyChars (rest.drop (width - 1))
    | .illFormed width => '\uFFFD' :: lossyChars (rest.drop (width - 1))
    | .cut => ['\uFFFD']
  termination_by bytes => bytes.length
  decreasing_by all_goals simp only [List.length_cons, List.length_drop]; omega

end Utf8

/-- The first ill-formed place of a byte string. -/
def Bytes.flaw? (b : Bytes) : Option Utf8.Flaw := Utf8.flawFrom 0 b

/-- The text of a byte string, with U+FFFD for what is not UTF-8. -/
def Bytes.lossyText (b : Bytes) : String := (b.text?).getD (String.ofList (Utf8.lossyChars b))

end Rebuild
