import Rebuild.Proofs.Fingerprint.Grammar
import Rebuild.Proofs.Path.Reading

/-!
# Reading and writing again makes bytes normal

The standard decoders accept more bytes than are ever written: entries of a map out
of order or twice, texts of paths that are not tidy. What they read is written again
in no more bytes, value by value and frame by frame, so that all limits are kept, and
what is written again reads as the same fingerprint.

* `Payload.Tightens`: what a reader takes is no shorter than what a writer makes of it.
* `Fingerprint.Regular`: what a fingerprint from a frame of so many bytes is like.
  `regular_of_decodeAt`: by induction on the level of the frame.
* `reencode_normalises`: bytes that are accepted, written again.
-/
namespace Rebuild

/-! ## Values -/

namespace Payload

/-- Of what `read` takes from the front of any bytes, `write` makes no more bytes than were taken.
-/
def Tightens {α : Type} (read : Reader α) (write : α → Bytes) : Prop :=
  ∀ b a rest, read b = .ok (a, rest) → (write a).length + rest.length ≤ b.length

theorem of_readLength {b rest : Bytes} {n : Nat} (h : readLength b = .ok (n, rest)) :
    b.length = 8 + rest.length := by
  unfold readLength at h
  split at h
  next hlen =>
    cases h
    rw [List.length_take] at hlen
    rw [List.length_drop]
    omega
  next => cases h

theorem of_readByteString {b contents rest : Bytes} (h : readByteString b = .ok (contents, rest)) :
    b.length = 8 + contents.length + rest.length := by
  obtain ⟨⟨n, b'⟩, hlength, h⟩ := ok_of_bind h
  dsimp only at h
  split at h
  next =>
    cases h
    have := congrArg List.length (List.take_append_drop n b')
    rw [List.length_append] at this
    rw [of_readLength hlength]
    omega
  next => cases h

theorem tightens_byteString : Tightens readByteString byteString := by
  intro b contents rest h
  exact Nat.le_of_eq (by rw [of_readByteString h, length_byteString])

theorem of_readText {b rest : Bytes} {s : String} (h : readText b = .ok (s, rest)) :
    b.length = 8 + (Bytes.ofText s).length + rest.length := by
  obtain ⟨⟨contents, b'⟩, hcontents, h⟩ := ok_of_bind h
  dsimp only at h
  split at h
  next htext =>
    cases h
    rw [of_readByteString hcontents, Bytes.ofText_of_text? htext]
  next => cases h

theorem tightens_text : Tightens readText text := by
  intro b s rest h
  exact Nat.le_of_eq (by rw [of_readText h, text, length_byteString])

theorem tightens_hash : Tightens readHash fun h => text h.text := by
  intro b digest rest h
  obtain ⟨⟨s, b'⟩, htext, h⟩ := ok_of_bind h
  cases h
  exact tightens_text b s rest htext

/-- A path that was tidied up takes less than its text did. -/
theorem tightens_path : Tightens readPath fun p => text p.text := by
  intro b p rest h
  obtain ⟨⟨s, b'⟩, htext, h⟩ := ok_of_bind h
  dsimp only at h
  split at h
  next hparse =>
    cases h
    have := RelativePath.length_text_le hparse
    rw [of_readText htext]
    show (byteString _).length + _ ≤ _
    rw [length_byteString]
    omega
  next => cases h

section Combined

variable {α β : Type} {read : Reader α} {write : α → Bytes}

theorem tightens_pair {second : Reader β} {write' : β → Bytes} (h : Tightens read write)
    (h' : Tightens second write') :
    Tightens (readPair read second) fun x => write x.1 ++ write' x.2 := by
  intro b x rest hread
  obtain ⟨⟨x, b'⟩, hfirst, hread⟩ := ok_of_bind hread
  obtain ⟨⟨y, b''⟩, hsecond, hread⟩ := ok_of_bind hread
  cases hread
  have := h _ _ _ hfirst
  have := h' _ _ _ hsecond
  dsimp only
  rw [List.length_append]
  omega

theorem tightens_option (h : Tightens read write) : Tightens (readOption read) (option write) := by
  intro b o rest hread
  cases b with
  | nil => cases hread
  | cons mark b =>
    rw [readOption] at hread
    split at hread
    · cases hread
      simp only [option, List.length_cons, List.length_nil]
      omega
    · split at hread
      · obtain ⟨⟨a, b'⟩, ha, hread⟩ := ok_of_bind hread
        cases hread
        have := h _ _ _ ha
        simp only [option, List.length_cons]
        omega
      · cases hread

theorem of_readMany (h : Tightens read write) : ∀ {n : Nat} {b rest : Bytes} {l : List α},
    readMany read n b = .ok (l, rest) → (l.flatMap write).length + rest.length ≤ b.length
  | 0, b, rest, l, hread => by
    cases hread
    simp
  | n + 1, b, rest, l, hread => by
    obtain ⟨⟨a, b'⟩, ha, hread⟩ := ok_of_bind hread
    obtain ⟨⟨others, b''⟩, hothers, hread⟩ := ok_of_bind hread
    cases hread
    have := h _ _ _ ha
    have := of_readMany h hothers
    rw [List.flatMap_cons, List.length_append]
    omega

theorem tightens_list (h : Tightens read write) : Tightens (readList read) (list write) := by
  intro b l rest hread
  obtain ⟨⟨n, b'⟩, hlength, hread⟩ := ok_of_bind hread
  have := of_readLength hlength
  have := of_readMany h hread
  rw [list, List.length_append, length_length]
  omega

theorem length_le_of_whole (h : Tightens read write) {b : Bytes} {a : α}
    (hread : whole read b = .ok a) : (write a).length ≤ b.length := by
  obtain ⟨⟨a', rest⟩, hread, hend⟩ := ok_of_bind hread
  have := h _ _ _ hread
  dsimp only at hend
  split at hend
  · cases hend
    omega
  · cases hend

end Combined

/-! ## Maps -/

section Maps

open Std

variable {κ ν : Type} [Ord κ] (write : κ × ν → Bytes)

/-- Setting an entry adds what the entry takes, or less if another one goes. -/
theorem length_flatMap_put (k : κ) (v : ν) (l : List (κ × ν)) :
    ((Assoc.put k v l).flatMap write).length ≤
      (write (k, v)).length + (l.flatMap write).length := by
  induction l with
  | nil =>
    exact Nat.le_of_eq (by rw [Assoc.put, List.flatMap_cons, List.length_append])
  | cons e l ih =>
    obtain ⟨k', v'⟩ := e
    rw [Assoc.put]
    split <;> simp only [List.flatMap_cons, List.length_append] <;> omega

theorem length_flatMap_foldl [TransOrd κ] (l : List (κ × ν)) (m : SortedMap κ ν) :
    ((l.foldl (fun m e => m.insert e.1 e.2) m).entries.flatMap write).length ≤
      (l.flatMap write).length + (m.entries.flatMap write).length := by
  induction l generalizing m with
  | nil => exact Nat.le_add_left _ _
  | cons e l ih =>
    obtain ⟨k, v⟩ := e
    have := ih (m.insert k v)
    have hput : ((m.insert k v).entries.flatMap write).length ≤ _ :=
      length_flatMap_put write k v m.entries
    rw [List.foldl_cons, List.flatMap_cons, List.length_append]
    dsimp only
    omega

/-- The entries that are left when of two for one key the later counts take no more than all. -/
theorem length_flatMap_ofList [TransOrd κ] (l : List (κ × ν)) :
    ((SortedMap.ofList l).entries.flatMap write).length ≤ (l.flatMap write).length :=
  length_flatMap_foldl write l ∅

end Maps

theorem tightens_files : Tightens readFiles files := by
  intro b m rest hread
  obtain ⟨⟨entries, b'⟩, hlist, hread⟩ := ok_of_bind hread
  cases hread
  have hread := tightens_list (tightens_pair tightens_path tightens_hash) _ _ _ hlist
  have hkept := length_flatMap_ofList (fun e : RelativePath × ContentHash =>
    text e.1.text ++ text e.2.text) entries
  rw [list, List.length_append, length_length] at hread
  show (list (fun e : RelativePath × ContentHash => text e.1.text ++ text e.2.text) _).length +
    _ ≤ _
  rw [list, List.length_append, length_length]
  omega

theorem tightens_nothing : Tightens (fun b => .ok ((), b)) fun _ => [] := by
  intro b _ rest h
  cases h
  exact Nat.le_of_eq (Nat.zero_add _)

end Payload

/-! ## Fingerprints -/

namespace Fingerprint

/-- What a fingerprint is like that was read from `n` bytes at a level of nesting. -/
structure Regular (depth n : Nat) (fp : Fingerprint) : Prop where
  builtIn : fp.isBuiltIn = true
  within : fp.body.length ≤ Frame.payloadLimit
  shorter : fp.wire.length ≤ n
  level : depth + fp.height ≤ nestingLimit

/-- A fingerprint takes a frame no longer than the one that it was read from, if its kind is the
same and its payload no longer. -/
theorem regular_of_frame {depth : Nat} {b : Bytes} {f : Frame} {fp : Fingerprint}
    (hread : Frame.read b = .ok f) (hb : fp.isBuiltIn = true) (htag : f.tag = fp.tag)
    (hbody : fp.body.length ≤ f.payload.length) (hlevel : depth + fp.height ≤ nestingLimit) :
    Regular depth b.length fp := by
  obtain ⟨hlimit, hspells⟩ := Frame.of_read hread
  obtain ⟨-, -, rfl⟩ := Frame.spells_iff.1 hspells
  refine ⟨hb, Nat.le_trans hbody hlimit, ?_, hlevel⟩
  rw [length_wire, Frame.length_bytes, htag]
  omega

theorem regular_of_ofReader {α : Type} {tag : String} {read : Payload.Reader α}
    {write : α → Bytes} (h : Payload.Tightens read write) (make : α → Fingerprint)
    (hb : ∀ a, (make a).isBuiltIn = true) (htag : ∀ a, (make a).tag = tag)
    (hbody : ∀ a, (make a).body = write a) (hheight : ∀ a, (make a).height = 0) {depth : Nat}
    {b : Bytes} {f : Frame} {fp : Fingerprint} {nested : Nested} (hdepth : depth ≤ nestingLimit)
    (hread : Frame.read b = .ok f) (hsupports : (Decoder.ofReader tag read make).supports f.tag)
    (hdecode : (Decoder.ofReader tag read make).decode nested f.payload = .ok fp) :
    Regular depth b.length fp := by
  have hmake : make <$> Payload.whole read f.payload = .ok fp := ok_of_mapError hdecode
  cases hwhole : Payload.whole read f.payload with
  | error e =>
    rw [hwhole] at hmake
    cases hmake
  | ok a =>
    rw [hwhole] at hmake
    cases hmake
    have hlength := Payload.length_le_of_whole h hwhole
    refine regular_of_frame hread (hb a) ((eq_of_beq hsupports).trans (htag a).symm) ?_ ?_
    · rwa [hbody]
    · rwa [hheight, Nat.add_zero]

theorem regular_of_mapM {depth : Nat} {decode : Bytes → Except ProtocolError Fingerprint}
    (h : ∀ b fp, decode b = .ok fp → Regular (depth + 1) b.length fp)
    (hdepth : depth ≤ nestingLimit) : ∀ {frames : List Bytes} {parts : List Fingerprint},
    frames.mapM decode = .ok parts →
      areBuiltIn parts = true ∧
      ((wires parts).flatMap Payload.byteString).length ≤
        (frames.flatMap Payload.byteString).length ∧
      depth + heightOfParts parts ≤ nestingLimit
  | [], parts, hparts => by
    cases hparts
    exact ⟨rfl, Nat.le_refl _, hdepth⟩
  | b :: frames, parts, hparts => by
    rw [List.mapM_cons] at hparts
    obtain ⟨fp, hfp, hparts⟩ := ok_of_bind hparts
    obtain ⟨rest, hrest, hparts⟩ := ok_of_bind hparts
    cases hparts
    obtain ⟨hbuiltIn, -, hshorter, hlevel⟩ := h b fp hfp
    obtain ⟨hbuiltIns, hshorters, hlevels⟩ := regular_of_mapM h hdepth hrest
    refine ⟨?_, ?_, ?_⟩
    · rw [areBuiltIn, hbuiltIn, hbuiltIns]
      rfl
    · rw [wires, ← wire]
      simp only [List.flatMap_cons, List.length_append, Payload.length_byteString]
      omega
    · rw [heightOfParts]
      omega

theorem regular_of_combined {depth : Nat} {b : Bytes} {f : Frame} {fp : Fingerprint}
    {nested : Nested} (h : ∀ b fp, nested.decode b = .ok fp → Regular (depth + 1) b.length fp)
    (hdepth : depth ≤ nestingLimit) (hread : Frame.read b = .ok f)
    (hsupports : Decoder.combined.supports f.tag)
    (hdecode : Decoder.combined.decode nested f.payload = .ok fp) : Regular depth b.length fp := by
  obtain ⟨frames, hframes, hdecode⟩ := ok_of_bind hdecode
  obtain ⟨parts, hparts, hdecode⟩ := ok_of_bind hdecode
  cases hdecode
  have hlength := Payload.length_le_of_whole (Payload.tightens_list Payload.tightens_byteString)
    (ok_of_mapError hframes)
  obtain ⟨hbuiltIn, hshorter, hlevel⟩ := regular_of_mapM h hdepth hparts
  refine regular_of_frame hread hbuiltIn (eq_of_beq hsupports) ?_ hlevel
  rw [Payload.list, List.length_append, Payload.length_length] at hlength
  rw [body, Payload.list, List.length_append, Payload.length_length]
  omega

/-- What the standard decoders read is regular, at any level of nesting. -/
theorem regular_of_decodeAt {depth : Nat} {b : Bytes} {fp : Fingerprint}
    (h : Registry.standard.decodeAt depth b = .ok fp) : Regular depth b.length fp := by
  obtain ⟨hdepth, f, d, hread, hmem, hsupports, hdecode⟩ := Registry.of_decodeAt h
  simp only [Registry.standard, List.mem_cons, List.not_mem_nil, or_false] at hmem
  rcases hmem with rfl | rfl | rfl | rfl
  · exact regular_of_ofReader (Payload.tightens_pair Payload.tightens_files
      (Payload.tightens_option (Payload.tightens_list Payload.tightens_text)))
      (fun x => sourceSet x.1 x.2)
      (fun _ => rfl) (fun _ => rfl) (fun _ => rfl) (fun _ => rfl) hdepth hread hsupports hdecode
  · exact regular_of_ofReader (Payload.tightens_pair Payload.tightens_text Payload.tightens_hash)
      (fun x => parameters x.1 x.2)
      (fun _ => rfl) (fun _ => rfl) (fun _ => rfl) (fun _ => rfl) hdepth hread hsupports hdecode
  · exact regular_of_ofReader Payload.tightens_nothing (fun _ => empty)
      (fun _ => rfl) (fun _ => rfl) (fun _ => rfl) (fun _ => rfl) hdepth hread hsupports hdecode
  · exact regular_of_combined (fun b fp hnested => regular_of_decodeAt hnested) hdepth hread
      hsupports hdecode
  termination_by nestingLimit + 1 - depth

theorem Regular.reencode {n : Nat} {fp : Fingerprint} (h : Regular 0 n fp) :
    ∃ b, fp.encode = .ok b ∧ b.length ≤ n ∧ Registry.standard.decode b = .ok fp := by
  have hfield := Nat.lt_of_le_of_lt h.within payloadLimit_lt
  refine ⟨fp.wire, encode_eq h.builtIn hfield, h.shorter, ?_⟩
  have hlevel := h.level
  rw [decode_wire h.builtIn hfield, if_neg (Nat.not_lt.2 h.within), if_neg (by omega)]

/-- What the standard decoders make of bytes is written again, in no more bytes. They make the same
of these, which are then written as they are. So two accepted byte strings stand for fingerprints
that agree exactly if the fingerprints are written as the same bytes. -/
theorem reencode_normalises :
    (∀ b fp, Registry.standard.decode b = .ok fp →
      ∃ b', fp.encode = .ok b' ∧ b'.length ≤ b.length ∧
        ∃ fp', Registry.standard.decode b' = .ok fp' ∧ fp' = fp ∧
          fp.agrees fp' = true ∧ fp'.agrees fp = true ∧ fp'.encode = .ok b') ∧
    ∀ b₁ b₂ fp₁ fp₂ x y, Registry.standard.decode b₁ = .ok fp₁ →
      Registry.standard.decode b₂ = .ok fp₂ → fp₁.encode = .ok x → fp₂.encode = .ok y →
      (fp₁ = fp₂ ↔ x = y) ∧ (fp₁.agrees fp₂ = true ↔ x = y) := by
  constructor
  · intro b fp hdecode
    have hregular := regular_of_decodeAt hdecode
    obtain ⟨b', hencode, hlength, hdecode'⟩ := hregular.reencode
    have hself := agrees_self fp hregular.builtIn
    exact ⟨b', hencode, hlength, fp, hdecode', rfl, hself, hself, hencode⟩
  · intro b₁ b₂ fp₁ fp₂ x y hdecode₁ hdecode₂ hx hy
    have hbuiltIn := (regular_of_decodeAt hdecode₁).builtIn
    have hagrees := agrees_iff_encode_eq hbuiltIn (regular_of_decodeAt hdecode₂).builtIn hx hy
    exact ⟨(agrees_iff hbuiltIn).symm.trans hagrees, hagrees⟩

/-- Three entries for two files, out of order, and the first under a path that is not tidy. -/
def untidyFiles : Bytes :=
  Payload.list (fun e => Payload.text e.1 ++ Payload.text e.2)
    [("./q", "x"), ("p", "y"), ("q", "z")]

/-- The two files, the later entry for each. -/
def tidyFiles : Fingerprint :=
  sourceSet (.ofList [(⟨["p"], by decide, by decide, by decide⟩, ⟨"y"⟩),
    (⟨["q"], by decide, by decide, by decide⟩, ⟨"z"⟩)]) none

theorem decode_untidyFiles (nested : Nested) :
    (Decoder.sourceSet "source-set").decode nested (untidyFiles ++ [0]) = .ok tidyFiles := rfl

/-- Untidy files inside a combined fingerprint are accepted, and written again in fewer bytes. -/
theorem reencode_normalises_untidy :
    let part := Frame.bytes ⟨"source-set", untidyFiles ++ [0]⟩
    let b := Frame.bytes ⟨"combined", Payload.list Payload.byteString [part]⟩
    let fp := combined [tidyFiles]
    ∃ b', Registry.standard.decode b = .ok fp ∧ fp.encode = .ok b' ∧ b'.length < b.length ∧
      Registry.standard.decode b' = .ok fp := by
  intro part b fp
  have hread : Frame.read part = .ok ⟨"source-set", untidyFiles ++ [0]⟩ :=
    Frame.read_eq_ok_iff.2 ⟨by decide, Frame.spells_iff.2 ⟨by decide, by decide, rfl⟩⟩
  have hread' : Frame.read b = .ok ⟨"combined", _⟩ :=
    Frame.read_eq_ok_iff.2 ⟨by decide, Frame.spells_iff.2 ⟨by decide, by decide, rfl⟩⟩
  have hfind : Registry.standard.decoders.find? (·.supports "source-set") =
    some (.sourceSet "source-set") := rfl
  have hfind' : Registry.standard.decoders.find? (·.supports "combined") = some .combined := rfl
  have hpart : Registry.standard.decodeAt 1 part = .ok tidyFiles :=
    (Registry.decodeAt_of_read (by decide) hread hfind).trans (decode_untidyFiles _)
  have hdecode : Registry.standard.decode b = .ok fp := by
    rw [Registry.decode, Registry.decodeAt_of_read (by decide) hread' hfind',
      Decoder.decode_combined (by decide), List.mapM_cons, bind_ok hpart]
    rfl
  obtain ⟨b', hencode, -, fp', hdecode', rfl, -⟩ := reencode_normalises.1 b fp hdecode
  refine ⟨b', hdecode, hencode, ?_, hdecode'⟩
  rw [eq_wire_of_encode rfl hencode]
  decide

end Fingerprint

end Rebuild
