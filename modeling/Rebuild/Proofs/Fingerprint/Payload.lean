import Rebuild.Fingerprint.Payload
import Rebuild.Proofs.Path.Spelling

/-!
# Reading a payload undoes writing it

A reader undoes a writer (`Undoes`) if it takes what was written from the front
of any bytes and leaves the rest. Lengths are written in eight bytes, so this
holds of values that take less than 2^64 bytes, and of no others.

* `undoes_text`, `undoes_list`, `undoes_option`, `undoes_pair`, `undoes_files`:
  the readers and writers of the payloads, one by one.
* `whole_of_undoes`: what was written is read as a whole.
* `injective_of_undoes`: so values written alike are equal.
-/
namespace Rebuild.Payload

/-- What the length of a value in bytes stays below. -/
def wordLimit : Nat := Nat.pow 2 64

/-- `read` takes back what `write` put in front of any bytes. -/
def Undoes {α : Type} (read : Reader α) (write : α → Bytes) : Prop :=
  ∀ a, (write a).length < wordLimit → ∀ rest, read (write a ++ rest) = .ok (a, rest)

@[simp] theorem length_length (n : Nat) : (length n).length = 8 := length_littleEndian 8 n

theorem readLength_length {n : Nat} (h : n < wordLimit) (rest : Bytes) :
    readLength (length n ++ rest) = .ok (n, rest) := by
  have hl := length_length n
  have ht : (length n ++ rest).take 8 = length n := by rw [← hl, List.take_left]
  have hd : (length n ++ rest).drop 8 = rest := by rw [← hl, List.drop_left]
  have hn : ofLittleEndian (length n) = n := ofLittleEndian_littleEndian 8 n h
  rw [readLength, ht, hd, hn, hl, if_pos rfl]

theorem length_byteString (b : Bytes) : (byteString b).length = 8 + b.length := by
  rw [byteString, List.length_append, length_length]

theorem undoes_byteString : Undoes readByteString byteString := by
  intro b hb rest
  rw [length_byteString] at hb
  rw [byteString, List.append_assoc, readByteString, readLength_length (by omega)]
  show (if _ then _ else _) = _
  rw [List.take_left, if_pos rfl, List.drop_left]

theorem undoes_text : Undoes readText text := by
  intro s hs rest
  rw [readText, text, undoes_byteString _ hs]
  dsimp only [bind, Except.bind]
  rw [Bytes.text?_ofText]

theorem undoes_hash : Undoes readHash fun h => text h.text := by
  intro h hh rest
  rw [readHash, undoes_text _ hh]; rfl

theorem undoes_path : Undoes readPath fun p => text p.text := by
  intro p hp rest
  rw [readPath, undoes_text _ hp]
  dsimp only [bind, Except.bind]
  rw [RelativePath.parse_text]

theorem undoes_pair {α β : Type} {first : Reader α} {second : Reader β} {write : α → Bytes}
    {write' : β → Bytes} (h : Undoes first write) (h' : Undoes second write') :
    Undoes (readPair first second) fun x => write x.1 ++ write' x.2 := by
  intro x hx rest
  simp only [List.length_append] at hx
  rw [readPair, List.append_assoc, h x.1 (by omega)]
  show (second (write' x.2 ++ rest) >>= _) = _
  rw [h' x.2 (by omega)]; rfl

theorem undoes_option {α : Type} {read : Reader α} {write : α → Bytes} (h : Undoes read write) :
    Undoes (readOption read) (option write) := by
  intro o ho rest
  cases o with
  | none => rfl
  | some a =>
    simp only [option, List.length_cons] at ho
    simp only [option, List.cons_append, readOption]
    rw [if_neg (by decide), if_pos trivial, h a (by omega)]; rfl

theorem readMany_flatMap {α : Type} {read : Reader α} {write : α → Bytes} (h : Undoes read write) :
    ∀ (l : List α) (rest : Bytes), (l.flatMap write).length < wordLimit →
      readMany read l.length (l.flatMap write ++ rest) = .ok (l, rest)
  | [], rest, _ => rfl
  | a :: l, rest, hl => by
    rw [List.flatMap_cons, List.length_append] at hl
    rw [List.flatMap_cons, List.append_assoc, List.length_cons, readMany, h a (by omega)]
    show (readMany read l.length (l.flatMap write ++ rest) >>= _) = _
    rw [readMany_flatMap h l rest (by omega)]; rfl

theorem length_le_flatMap {α : Type} {write : α → Bytes} (h : ∀ a, write a ≠ []) (l : List α) :
    l.length ≤ (l.flatMap write).length := by
  induction l with
  | nil => simp
  | cons a l ih =>
    have := List.length_pos_iff.2 (h a)
    rw [List.flatMap_cons, List.length_append, List.length_cons]; omega

/-- Items that take bytes are no more than the bytes that they take, so their number fits. -/
theorem undoes_list {α : Type} {read : Reader α} {write : α → Bytes} (h : Undoes read write)
    (hne : ∀ a, write a ≠ []) : Undoes (readList read) (list write) := by
  intro l hl rest
  rw [list, List.length_append, length_length] at hl
  have hle := length_le_flatMap hne l
  rw [readList, list, List.append_assoc, readLength_length (by omega)]
  exact readMany_flatMap h l rest (by omega)

theorem byteString_ne_nil (b : Bytes) : byteString b ≠ [] := by
  intro h
  have := length_byteString b
  rw [h, List.length_nil] at this; omega

theorem text_ne_nil (s : String) : text s ≠ [] := byteString_ne_nil _

theorem undoes_files : Undoes readFiles files := by
  intro m hm rest
  have h := undoes_list (undoes_pair undoes_path undoes_hash) fun x hx =>
    text_ne_nil _ (List.append_eq_nil_iff.1 hx).1
  rw [readFiles, files, h m.entries hm]
  show Except.ok (SortedMap.ofList m.entries, rest) = _
  rw [SortedMap.ofList_entries]

/-! ## Values that take up all the bytes -/

theorem whole_of_undoes {α : Type} {read : Reader α} {write : α → Bytes} (h : Undoes read write)
    {a : α} (ha : (write a).length < wordLimit) : whole read (write a) = .ok a := by
  have := h a ha []
  rw [List.append_nil] at this
  rw [whole, this]; rfl

theorem injective_of_undoes {α : Type} {read : Reader α} {write : α → Bytes} (h : Undoes read write)
    {a b : α} (ha : (write a).length < wordLimit) (he : write a = write b) : a = b := by
  have h1 := whole_of_undoes h ha
  have h2 := whole_of_undoes h (he ▸ ha : (write b).length < wordLimit)
  rw [he, h2] at h1
  exact (Except.ok.inj h1).symm

end Rebuild.Payload
