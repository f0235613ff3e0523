import Rebuild.Fingerprint.Registry
import Rebuild.Proofs.Except
import Rebuild.Proofs.Fingerprint.Agreement

/-!
# Written fingerprints read back, and the exact limits of it

A fingerprint of built-in kinds is written if its payload fits the field for its
length. Read back by the standard decoders, it gives itself, with two exceptions:
a payload over 64 MiB is refused, and so is a frame that lies more than 64 levels
below the outermost one.

* `Fingerprint.height`: how far down the deepest frame lies.
* `decodeAt_wire`: what reading gives at each level of nesting, by induction on
  the fingerprint; the parts of a combined one are read one level deeper.
* `decode_encode_limits`: the whole law for the outermost frame.
-/
namespace Rebuild

/-! ## Reading one frame -/

theorem Frame.take_append {n : Nat} {a : Bytes} (h : a.length = n) (b : Bytes) :
    Frame.take n (a ++ b) = .ok (a, b) := by
  subst h
  rw [Frame.take, List.take_left, if_pos rfl, List.drop_left]

/-- A frame with bytes behind it is refused for its payload over the limit, else for those bytes,
and is read back if there are none. -/
theorem Frame.read_bytes_append {f : Frame} (ht : (Bytes.ofText f.tag).length < Nat.pow 2 16)
    (hp : f.payload.length < fieldLimit) (rest : Bytes) :
    Frame.read (f.bytes ++ rest) =
      if payloadLimit < f.payload.length then
        .error (.payloadTooLarge f.tag f.payload.length)
      else if rest ≠ [] then .error (.trailingBytes rest.length)
      else .ok f := by
  have htag := ofLittleEndian_littleEndian 2 (Bytes.ofText f.tag).length ht
  have hlen := ofLittleEndian_littleEndian 4 f.payload.length hp
  unfold Frame.read Frame.bytes
  simp only [List.append_assoc, List.cons_append, bind, Except.bind,
    take_append (rfl : magic.length = magic.length)]
  rw [if_neg (fun h => h rfl)]
  simp only [pure, Except.pure]
  rw [← List.singleton_append, take_append (n := 1) rfl]
  simp only
  rw [if_neg (fun h => h rfl)]
  simp only [take_append (length_littleEndian 2 _), htag, take_append rfl, Bytes.text?_ofText,
    take_append (length_littleEndian 4 _), hlen]
  split
  · rfl
  · split <;> rfl

theorem Frame.read_bytes {f : Frame} (ht : (Bytes.ofText f.tag).length < Nat.pow 2 16)
    (hp : f.payload.length < fieldLimit) :
    Frame.read f.bytes =
      if payloadLimit < f.payload.length then
        .error (.payloadTooLarge f.tag f.payload.length)
      else .ok f := by
  have h := read_bytes_append ht hp []
  rwa [List.append_nil, if_neg (fun h : ([] : Bytes) ≠ [] => h rfl)] at h

namespace Registry

theorem decodeAt_of_lt {r : Registry} {depth : Nat} (h : nestingLimit < depth) (b : Bytes) :
    r.decodeAt depth b = .error (.tooDeep nestingLimit) := by
  rw [decodeAt, dif_pos h]

theorem decodeAt_of_read {r : Registry} {depth : Nat} {b : Bytes} {f : Frame} {d : Decoder}
    (h : depth ≤ nestingLimit) (hf : Frame.read b = .ok f)
    (hd : r.decoders.find? (·.supports f.tag) = some d) :
    r.decodeAt depth b = d.decode ⟨depth, r.size, r.decodeAt (depth + 1)⟩ f.payload := by
  rw [decodeAt, dif_neg (Nat.not_lt.2 h), bind_ok hf, hd]

theorem decodeAt_of_unknown {r : Registry} {depth : Nat} {b : Bytes} {f : Frame}
    (h : depth ≤ nestingLimit) (hf : Frame.read b = .ok f)
    (hd : r.decoders.find? (·.supports f.tag) = none) :
    r.decodeAt depth b = .error (.unknownKind f.tag) := by
  rw [decodeAt, dif_neg (Nat.not_lt.2 h), bind_ok hf, hd]

theorem decodeAt_of_read_error {r : Registry} {depth : Nat} {b : Bytes} {e : ProtocolError}
    (h : depth ≤ nestingLimit) (hf : Frame.read b = .error e) : r.decodeAt depth b = .error e := by
  rw [decodeAt, dif_neg (Nat.not_lt.2 h), hf]; rfl

theorem of_decodeAt {r : Registry} {depth : Nat} {b : Bytes} {fp : Fingerprint}
    (h : r.decodeAt depth b = .ok fp) : depth ≤ nestingLimit ∧ ∃ f d, Frame.read b = .ok f ∧
      d ∈ r.decoders ∧ d.supports f.tag ∧
      d.decode ⟨depth, r.size, r.decodeAt (depth + 1)⟩ f.payload = .ok fp := by
  rw [decodeAt] at h
  split at h
  · cases h
  next hdepth =>
  obtain ⟨f, hread, h⟩ := ok_of_bind h
  split at h
  · cases h
  next d hfind =>
  exact ⟨Nat.not_lt.1 hdepth, f, d, hread, List.mem_of_find?_eq_some hfind,
    @List.find?_some _ (fun d : Decoder => d.supports f.tag) _ _ hfind, h⟩

end Registry

namespace Decoder

theorem decode_ofReader {α : Type} {tag : String} {read : Payload.Reader α} {make : α → Fingerprint}
    {write : α → Bytes} (h : Payload.Undoes read write) {a : α}
    (ha : (write a).length < Payload.wordLimit) (nested : Nested) :
    (ofReader tag read make).decode nested (write a) = .ok (make a) := by
  show (make <$> Payload.whole read (write a)).mapError _ = _
  rw [Payload.whole_of_undoes h ha]; rfl

/-- The parts of a combined fingerprint are what the frames in its payload give. -/
theorem decode_combined {frames : List Bytes}
    (hf : (Payload.list Payload.byteString frames).length < Payload.wordLimit) (nested : Nested) :
    combined.decode nested (Payload.list Payload.byteString frames) =
      Fingerprint.combined <$> frames.mapM nested.decode := by
  have h := Payload.undoes_list Payload.undoes_byteString Payload.byteString_ne_nil
  show (Payload.whole _ _).mapError _ >>= _ = _
  rw [Payload.whole_of_undoes h hf]
  show (frames.mapM nested.decode >>= _) = _
  cases frames.mapM nested.decode <;> rfl

end Decoder

/-! ## Reading all frames -/

namespace Fingerprint

mutual

/-- How many levels below the outermost frame the deepest one lies. -/
def height : Fingerprint → Nat
  | combined parts => heightOfParts parts
  | _ => 0

/-- The same, seen from the frame around some parts. -/
def heightOfParts : List Fingerprint → Nat
  | [] => 0
  | fp :: rest => max (height fp + 1) (heightOfParts rest)

end

theorem payloadLimit_lt : Frame.payloadLimit < Frame.fieldLimit := by decide

theorem read_wire {fp : Fingerprint} (hb : fp.isBuiltIn = true)
    (hl : fp.body.length ≤ Frame.payloadLimit) :
    Frame.read fp.wire = .ok ⟨fp.tag, fp.body⟩ := by
  have := payloadLimit_lt
  rw [wire, Frame.read_bytes (tag_lt hb) (show fp.body.length < _ by omega),
    if_neg (Nat.not_lt.2 hl)]

theorem decodeAt_leaf {fp : Fingerprint} {depth : Nat} {d : Decoder} (hb : fp.isBuiltIn = true)
    (hl : fp.body.length ≤ Frame.payloadLimit) (hh : fp.height = 0)
    (hd : Registry.standard.decoders.find? (·.supports fp.tag) = some d)
    (hok : ∀ nested, d.decode nested fp.body = .ok fp) :
    Registry.standard.decodeAt depth fp.wire =
      if nestingLimit < depth + fp.height then .error (.tooDeep nestingLimit) else .ok fp := by
  rw [hh, Nat.add_zero]
  split
  · next h => exact Registry.decodeAt_of_lt h _
  · next h => rw [Registry.decodeAt_of_read (Nat.not_lt.1 h) (read_wire hb hl) hd, hok]

mutual

theorem decodeAt_wire : ∀ (fp : Fingerprint) (depth : Nat), fp.isBuiltIn = true →
    fp.body.length ≤ Frame.payloadLimit →
    Registry.standard.decodeAt depth fp.wire =
      if nestingLimit < depth + fp.height then .error (.tooDeep nestingLimit) else .ok fp
  | empty, depth, hb, hl => decodeAt_leaf hb hl rfl rfl fun _ => rfl
  | parameters name digest, depth, hb, hl => by
    have h := Payload.undoes_pair Payload.undoes_text Payload.undoes_hash
    have hlt : (body (parameters name digest)).length < Payload.wordLimit := by
      have := payloadLimit_lt; have := fieldLimit_lt; omega
    exact decodeAt_leaf hb hl rfl rfl fun nested =>
      Decoder.decode_ofReader h (a := (name, digest)) hlt nested
  | sourceSet files exclusions, depth, hb, hl => by
    have h := Payload.undoes_pair Payload.undoes_files
      (Payload.undoes_option (Payload.undoes_list Payload.undoes_text Payload.text_ne_nil))
    have hlt : (body (sourceSet files exclusions)).length < Payload.wordLimit := by
      have := payloadLimit_lt; have := fieldLimit_lt; omega
    exact decodeAt_leaf hb hl rfl rfl fun nested =>
      Decoder.decode_ofReader h (a := (files, exclusions)) hlt nested
  | combined parts, depth, hb, hl => by
    by_cases hdepth : nestingLimit < depth
    · rw [Registry.decodeAt_of_lt hdepth, if_pos (by omega)]
    · have hlt : (combined parts).body.length < Payload.wordLimit := by
        have := payloadLimit_lt; have := fieldLimit_lt; omega
      have hd : Registry.standard.decoders.find? (·.supports "combined") = some .combined := rfl
      rw [Registry.decodeAt_of_read (Nat.not_lt.1 hdepth) (read_wire hb hl) hd]
      show Decoder.combined.decode _ (Payload.list Payload.byteString (wires parts)) = _
      rw [Decoder.decode_combined hlt]
      show Fingerprint.combined <$> (wires parts).mapM (Registry.standard.decodeAt (depth + 1)) = _
      rw [mapM_decodeAt_wires parts depth hb hl (Nat.not_lt.1 hdepth), height]
      split <;> rfl
  | custom _ _, _, hb, _ => by simp [isBuiltIn] at hb

theorem mapM_decodeAt_wires : ∀ (parts : List Fingerprint) (depth : Nat),
    areBuiltIn parts = true → (combined parts).body.length ≤ Frame.payloadLimit →
    depth ≤ nestingLimit →
    (wires parts).mapM (Registry.standard.decodeAt (depth + 1)) =
      if nestingLimit < depth + heightOfParts parts then .error (.tooDeep nestingLimit)
      else .ok parts
  | [], depth, _, _, hd => by rw [heightOfParts, if_neg (by omega)]; rfl
  | fp :: rest, depth, hb, hl, hd => by
    obtain ⟨hfp, hrest⟩ := Bool.and_eq_true_iff.1 hb
    obtain ⟨h1, h2⟩ := body_cons_le fp rest
    have hhead := decodeAt_wire fp (depth + 1) hfp (by omega)
    have htail := mapM_decodeAt_wires rest depth hrest (by omega) hd
    rw [wires, List.mapM_cons, ← wire, hhead, htail, heightOfParts]
    -- the first part that is too deep ends the reading, and all are refused alike
    have hmax : nestingLimit < depth + max (fp.height + 1) (heightOfParts rest) ↔
        nestingLimit < depth + 1 + fp.height ∨ nestingLimit < depth + heightOfParts rest := by omega
    by_cases hf : nestingLimit < depth + 1 + fp.height
    · rw [if_pos hf, if_pos (hmax.2 (Or.inl hf))]; rfl
    · rw [if_neg hf]
      by_cases hr : nestingLimit < depth + heightOfParts rest
      · rw [if_pos hr, if_pos (hmax.2 (Or.inr hr))]; rfl
      · rw [if_neg hr, if_neg fun h => (hmax.1 h).elim hf hr]; rfl

end

theorem decode_wire {fp : Fingerprint} (hb : fp.isBuiltIn = true)
    (hl : fp.body.length < Frame.fieldLimit) :
    Registry.standard.decode fp.wire =
      if Frame.payloadLimit < fp.body.length then
        .error (.payloadTooLarge fp.tag fp.body.length)
      else if nestingLimit < fp.height then .error (.tooDeep nestingLimit)
      else .ok fp := by
  unfold Registry.decode
  split
  · next h =>
    refine Registry.decodeAt_of_read_error (Nat.zero_le _) ?_
    rw [wire, Frame.read_bytes (tag_lt hb) hl, if_pos h]
  · next h => rw [decodeAt_wire fp 0 hb (Nat.not_lt.1 h), Nat.zero_add]

/-- A fingerprint of built-in kinds is written exactly if its payload fits the field for its length.
What is written is refused for its payload over 64 MiB, else for a frame more than 64 levels below
the outermost one, and else read as a fingerprint that agrees with it either way round; no other
error occurs. -/
theorem decode_encode_limits (fp : Fingerprint) (hb : fp.isBuiltIn = true) :
    ((∃ b, fp.encode = .ok b) ↔ fp.body.length < Nat.pow 2 32) ∧
    ∀ b, fp.encode = .ok b →
      fp.payload = .ok fp.body ∧
      (64 * Nat.pow 2 20 < fp.body.length →
        Registry.standard.decode b = .error (.payloadTooLarge fp.tag fp.body.length)) ∧
      (fp.body.length ≤ 64 * Nat.pow 2 20 → 64 < fp.height →
        Registry.standard.decode b = .error (.tooDeep 64)) ∧
      (fp.body.length ≤ 64 * Nat.pow 2 20 → fp.height ≤ 64 →
        ∃ fp', Registry.standard.decode b = .ok fp' ∧ fp' = fp ∧
          fp.agrees fp' = true ∧ fp'.agrees fp = true) := by
  refine ⟨encode_isOk_iff hb, ?_⟩
  intro b h
  have hl := body_lt_of_encode hb h
  have hd := decode_wire hb hl
  rw [← eq_wire_of_encode hb h] at hd
  have h64 : Frame.payloadLimit = 64 * Nat.pow 2 20 := by decide
  refine ⟨payload_eq fp hb hl, ?_, ?_, ?_⟩
  · intro h1
    rw [hd, if_pos (by omega)]
  · intro h1 h2
    rw [hd, if_neg (by omega), if_pos (show nestingLimit < fp.height from h2)]; rfl
  · intro h1 h2
    refine ⟨fp, ?_, rfl, agrees_self fp hb, agrees_self fp hb⟩
    rw [hd, if_neg (by omega), if_neg (Nat.not_lt.2 h2 : ¬ nestingLimit < fp.height)]

/-- Two parts, one of them an empty combined fingerprint, read back as they were. -/
theorem decode_encode_two_parts :
    let fp := combined [combined [], parameters "p" ⟨"d"⟩]
    fp.isBuiltIn = true ∧ fp.body.length < Nat.pow 2 32 ∧
      ∃ b, fp.encode = .ok b ∧ Registry.standard.decode b = .ok fp := by
  intro fp
  have hlen : fp.body.length < Nat.pow 2 32 := by decide
  obtain ⟨hiff, hdec⟩ := decode_encode_limits fp rfl
  obtain ⟨b, hb⟩ := hiff.2 hlen
  obtain ⟨fp', h1, h2, -⟩ := (hdec b hb).2.2.2 (by decide) (by decide)
  exact ⟨rfl, hlen, b, hb, h2 ▸ h1⟩

end Fingerprint

end Rebuild
