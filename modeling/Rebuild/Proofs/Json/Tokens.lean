import Rebuild.Json.Printer
import Rebuild.Json.Reader

/-!
# Printed values are scanned as their tokens

The printer escapes what a string must not hold, and writes numbers without
leading zeros, so that the scanner finds the same strings and numbers again. Blank
space between tokens does not count.

* `takeString_quote`, `assemble_pieces`: a string and its characters.
* `takeNumber_digits`: a whole number.
* `Scans`: a text has certain tokens, with fuel for each character.
* `scans_prettyChars`: the indented spelling of a value has the value's tokens.
-/
namespace Rebuild.Json

/-! ## Strings -/

/-- The characters below U+0020 with an escape of their own. -/
def hasShortEscape (c : Char) : Bool :=
  c == '\x08' || c == '\x0c' || c == '\n' || c == '\r' || c == '\t'

/-- How a character of a string is read back. -/
def pieceOf (c : Char) : Piece :=
  if c.toNat < 0x20 ∧ hasShortEscape c = false then .unit c.toNat else .char c

/-- How a string is read back. -/
def pieces (s : String) : List Piece := s.toList.map pieceOf

theorem hexUnit?_unicodeEscape : ∀ n < 32,
    hexUnit? ([n / 4096, n / 256 % 16, n / 16 % 16, n % 16].map Nat.digitChar) = some n := by
  decide

theorem takeString_unicodeEscape {n : Nat} (h : n < 32) (rest : List Char) :
    takeString (unicodeEscape n ++ rest) =
      (takeString rest).map fun (ps, rest) => (.unit n :: ps, rest) := by
  have hunit := hexUnit?_unicodeEscape n h
  simp only [List.map_cons, List.map_nil] at hunit
  unfold unicodeEscape
  simp only [List.map_cons, List.map_nil, List.cons_append, List.nil_append]
  rw [takeString, hunit]
  cases takeString rest <;> rfl

theorem takeString_char {c : Char} (hquote : c ≠ '"') (hslash : c ≠ '\\') (hc : ¬c.toNat < 0x20)
    (rest : List Char) : takeString (c :: rest) =
      (takeString rest).map fun (ps, rest) => (.char c :: ps, rest) := by
  rw [takeString.eq_def]
  split
  · next h => cases h
  · next h => exact absurd (List.cons.inj h).1 hquote
  · next h => exact absurd (List.cons.inj h).1 hslash
  · next h => exact absurd (List.cons.inj h).1 hslash
  · next h =>
    obtain ⟨rfl, rfl⟩ := List.cons.inj h
    rw [if_neg (fun h => h.elim hc hslash)]
    cases takeString rest <;> rfl

theorem takeString_escapeChar (c : Char) (rest : List Char) :
    takeString (escapeChar c ++ rest) =
      (takeString rest).map fun (ps, rest) => (pieceOf c :: ps, rest) := by
  unfold escapeChar
  split
  case h_8 h1 h2 h3 h4 h5 h6 h7 =>
    by_cases hc : c.toNat < 0x20
    · have hpiece : pieceOf c = .unit c.toNat := by
        unfold pieceOf hasShortEscape
        rw [beq_eq_false_iff_ne.2 h3, beq_eq_false_iff_ne.2 h4, beq_eq_false_iff_ne.2 h5,
          beq_eq_false_iff_ne.2 h6, beq_eq_false_iff_ne.2 h7]
        exact if_pos ⟨hc, rfl⟩
      rw [if_pos hc, hpiece]
      exact takeString_unicodeEscape hc rest
    · have hpiece : pieceOf c = .char c := by
        unfold pieceOf
        rw [if_neg fun h => hc h.1]
      rw [if_neg hc, hpiece]
      exact takeString_char h1 h2 hc rest
  all_goals
    simp only [List.cons_append, List.nil_append]
    rw [takeString]
    · cases takeString rest <;> rfl
    · intros
      contradiction

theorem takeString_quote (s : String) (rest : List Char) :
    takeString (s.toList.flatMap escapeChar ++ '"' :: rest) = some (pieces s, rest) := by
  unfold pieces
  induction s.toList with
  | nil => rfl
  | cons c l ih =>
    rw [List.flatMap_cons, List.append_assoc, takeString_escapeChar, ih]
    rfl

theorem assemble_unit {n : Nat} (hn : n < 32) (rest : List Piece) :
    assemble (.unit n :: rest) = (Char.ofNat n :: ·) <$> assemble rest := by
  have hhigh : isHighSurrogate n = false := by
    unfold isHighSurrogate
    rw [decide_eq_false (by omega)]
    rfl
  have hlow : isLowSurrogate n = false := by
    unfold isLowSurrogate
    rw [decide_eq_false (by omega)]
    rfl
  cases rest with
  | nil => simp [assemble, hhigh, hlow]
  | cons p rest => cases p <;> simp [assemble, hhigh, hlow]

theorem assemble_pieces (s : String) : assemble (pieces s) = some s.toList := by
  unfold pieces
  induction s.toList with
  | nil => rfl
  | cons c l ih =>
    rw [List.map_cons, pieceOf]
    split
    next h =>
      rw [assemble_unit h.1, ih, Char.ofNat_toNat]
      rfl
    next =>
      rw [assemble, ih]
      rfl

/-! ## Numbers -/

/-- How a whole number is read back. -/
def numberOf (n : Int) : NumberText := ⟨decide (n < 0), Nat.toDigits 10 n.natAbs, false⟩

/-- A text at whose start no number goes on. -/
def EndsNumber (rest : List Char) : Prop :=
  ∀ c ∈ rest.head?, c.isDigit = false ∧ c ≠ '.' ∧ c ≠ 'e' ∧ c ≠ 'E'

theorem takeDigits_append {digits rest : List Char} (hne : digits ≠ [])
    (hdigits : ∀ c ∈ digits, c.isDigit = true) (hrest : EndsNumber rest) :
    takeDigits (digits ++ rest) = some (digits, rest) := by
  have hend : rest.takeWhile Char.isDigit = [] ∧ rest.dropWhile Char.isDigit = rest := by
    cases rest with
    | nil => exact ⟨rfl, rfl⟩
    | cons c rest =>
      have hc := (hrest c rfl).1
      exact ⟨List.takeWhile_cons_of_neg (by simp [hc]), List.dropWhile_cons_of_neg (by simp [hc])⟩
  unfold takeDigits
  rw [List.takeWhile_append_of_pos hdigits, List.dropWhile_append_of_pos hdigits, hend.1, hend.2,
    List.append_nil, if_neg (by simpa using hne)]

/-- Only the number zero starts with a zero. -/
theorem head?_toDigits (n : Nat) : (Nat.toDigits 10 n).head? = some '0' → n = 0 := by
  intro h
  by_cases hn : n < 10
  · rw [Nat.toDigits_of_lt_base hn] at h
    exact Nat.digitChar_eq_zero.1 (Option.some.inj h)
  · rw [Nat.toDigits_of_base_le (by decide) (by omega), List.head?_append] at h
    cases hd : (Nat.toDigits 10 (n / 10)).head? with
    | none => exact absurd (List.head?_eq_none_iff.1 hd) Nat.toDigits_ne_nil
    | some c =>
      rw [hd] at h
      cases h
      have := head?_toDigits (n / 10) hd
      omega
termination_by n

theorem takeWhole_digits (n : Nat) {rest : List Char} (hrest : EndsNumber rest) :
    takeWhole (Nat.toDigits 10 n ++ rest) = some (Nat.toDigits 10 n, rest) := by
  have htake := takeDigits_append (Nat.toDigits_ne_nil (n := n) (b := 10))
    (fun c hc => Nat.isDigit_of_mem_toDigits (by decide) (by decide) hc) hrest
  have hzero := head?_toDigits n
  cases hdigits : Nat.toDigits 10 n with
  | nil => exact absurd hdigits Nat.toDigits_ne_nil
  | cons c digits =>
    rw [hdigits] at htake hzero
    by_cases hc : c = '0'
    · have hn := hzero (congrArg some hc)
      rw [hn, Nat.toDigits_zero] at hdigits
      cases hdigits
      rfl
    · rw [List.cons_append, takeWhole]
      · exact htake
      · exact fun _ h => hc (List.cons.inj h).1

theorem takeNumber_digits (negative : Bool) (n : Nat) {rest : List Char} (hrest : EndsNumber rest) :
    takeNumber negative (Nat.toDigits 10 n ++ rest) =
      some (⟨negative, Nat.toDigits 10 n, false⟩, rest) := by
  have hfraction : takeFraction rest = some (false, rest) := by
    cases rest with
    | nil => rfl
    | cons c rest =>
      rw [takeFraction]
      exact fun _ h => (hrest c rfl).2.1 (List.cons.inj h).1
  have hexponent : takeExponent rest = some (false, rest) := by
    cases rest with
    | nil => rfl
    | cons c rest =>
      have hc := (hrest c rfl).2.2
      unfold takeExponent
      exact if_neg fun h => h.elim hc.1 hc.2
  unfold takeNumber
  rw [takeWhole_digits n hrest]
  show (takeFraction rest).bind _ = _
  rw [hfraction]
  show (takeExponent rest).bind _ = _
  rw [hexponent]
  rfl

theorem takeToken_digits (n : Nat) {rest : List Char} (hrest : EndsNumber rest) :
    takeToken (Nat.toDigits 10 n ++ rest) =
      some (.number ⟨false, Nat.toDigits 10 n, false⟩, rest) := by
  have htake := takeNumber_digits false n hrest
  have hdigit (c : Char) (hc : c ∈ Nat.toDigits 10 n) : c.isDigit = true :=
    Nat.isDigit_of_mem_toDigits (by decide) (by decide) hc
  cases hdigits : Nat.toDigits 10 n with
  | nil => exact absurd hdigits Nat.toDigits_ne_nil
  | cons c digits =>
    rw [hdigits] at htake hdigit
    have hc := hdigit c List.mem_cons_self
    have hne (d : Char) (hd : d.isDigit = false) : c ≠ d := by
      intro heq
      rw [heq, hd] at hc
      cases hc
    have hpunctuation : punctuation? c = none := by
      unfold punctuation?
      split <;> first | rfl | exact absurd rfl (hne _ rfl)
    rw [List.cons_append] at htake ⊢
    rw [takeToken.eq_def]
    split
    · next h => cases h
    · next h => exact absurd (List.cons.inj h).1 (hne _ rfl)
    · next h => exact absurd (List.cons.inj h).1 (hne _ rfl)
    · next h => exact absurd (List.cons.inj h).1 (hne _ rfl)
    · next h => exact absurd (List.cons.inj h).1 (hne _ rfl)
    · next h => exact absurd (List.cons.inj h).1 (hne _ rfl)
    · next h =>
      cases h
      rw [hpunctuation]
      show (takeNumber false _).map _ = _
      rw [htake]
      rfl

/-! ## Tokens -/

mutual

/-- The tokens of a value. -/
def tokens : Json → List Token
  | .null => [.null]
  | .bool b => [.bool b]
  | .integer n => [.number (numberOf n)]
  | .float _ => []
  | .string s => [.string (pieces s)]
  | .array items => .openArray :: (itemTokens items ++ [.closeArray])
  | .object members => .openObject :: (memberTokens members ++ [.closeObject])

def itemTokens : List Json → List Token
  | [] => []
  | [v] => tokens v
  | v :: rest => tokens v ++ .comma :: itemTokens rest

def memberTokens : List (String × Json) → List Token
  | [] => []
  | [(k, v)] => .string (pieces k) :: .colon :: tokens v
  | (k, v) :: rest => .string (pieces k) :: .colon :: (tokens v ++ .comma :: memberTokens rest)

end

mutual

/-- There is no floating point number in a value. -/
def isFloatFree : Json → Bool
  | .float _ => false
  | .array items => areFloatFree items
  | .object members => areFloatFreeMembers members
  | _ => true

def areFloatFree : List Json → Bool
  | [] => true
  | v :: rest => isFloatFree v && areFloatFree rest

def areFloatFreeMembers : List (String × Json) → Bool
  | [] => true
  | (_, v) :: rest => isFloatFree v && areFloatFreeMembers rest

end

/-- A text has certain tokens. There is fuel for each of its characters. -/
def Scans (cs : List Char) (ts : List Token) : Prop :=
  ∀ fuel, cs.length ≤ fuel → scanFrom fuel cs = some ts

theorem Scans.scan {s : String} {ts : List Token} (h : Scans s.toList ts) : scan s = some ts :=
  h _ (Nat.le_refl _)

theorem Scans.nil : Scans [] [] := by
  intro fuel _
  cases fuel <;> rfl

theorem Scans.blank {c : Char} {cs : List Char} {ts : List Token} (hc : isBlank c = true)
    (h : Scans cs ts) : Scans (c :: cs) ts := by
  intro fuel hfuel
  rw [List.length_cons] at hfuel
  cases fuel with
  | zero => omega
  | succ fuel =>
    rw [scanFrom, if_pos hc]
    exact h fuel (by omega)

theorem Scans.token {c : Char} {cs rest : List Char} {t : Token} {ts : List Token}
    (hc : isBlank c = false) (htake : takeToken (c :: cs) = some (t, rest))
    (hlen : rest.length ≤ cs.length) (h : Scans rest ts) : Scans (c :: cs) (t :: ts) := by
  intro fuel hfuel
  rw [List.length_cons] at hfuel
  cases fuel with
  | zero => omega
  | succ fuel =>
    rw [scanFrom, if_neg (by rw [hc]; exact Bool.false_ne_true), htake]
    show (scanFrom fuel rest).bind _ = _
    rw [h fuel (by omega)]
    rfl

theorem Scans.indentation (level : Nat) {cs : List Char} {ts : List Token} (h : Scans cs ts) :
    Scans (Json.indentation level ++ cs) ts := by
  have hspaces (n : Nat) : Scans (List.replicate n ' ' ++ cs) ts := by
    induction n with
    | zero => exact h
    | succ n ih => exact Scans.blank rfl ih
  exact Scans.blank rfl (hspaces _)

theorem Scans.quote (s : String) {cs : List Char} {ts : List Token} (h : Scans cs ts) :
    Scans (Json.quote s ++ cs) (.string (pieces s) :: ts) := by
  unfold Json.quote
  rw [List.cons_append, List.append_assoc]
  refine Scans.token rfl ?_ ?_ h
  · show (takeString (s.toList.flatMap escapeChar ++ '"' :: cs)).map _ = _
    rw [takeString_quote]
    rfl
  · simp only [List.length_append, List.length_cons]
    omega

theorem Scans.punctuation {c : Char} {t : Token} {cs : List Char} {ts : List Token}
    (hc : c ∈ ['[', ']', '\x7b', '\x7d', ',', ':']) (ht : punctuation? c = some t)
    (h : Scans cs ts) : Scans (c :: cs) (t :: ts) := by
  have hblank : isBlank c = false := by
    revert hc
    unfold isBlank
    simp only [List.mem_cons, List.not_mem_nil, or_false]
    rintro (rfl | rfl | rfl | rfl | rfl | rfl) <;> rfl
  refine Scans.token hblank ?_ (Nat.le_refl _) h
  revert hc
  simp only [List.mem_cons, List.not_mem_nil, or_false]
  rintro (rfl | rfl | rfl | rfl | rfl | rfl) <;> cases ht <;> rfl

end Rebuild.Json
