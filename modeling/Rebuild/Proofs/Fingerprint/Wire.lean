import Rebuild.Fingerprint.Encode
import Rebuild.Proofs.Except
import Rebuild.Proofs.Fingerprint.Payload

/-!
# What a fingerprint looks like when it is written

`Fingerprint.body` is the payload of a fingerprint of a built-in kind as the
format has it, and `Fingerprint.wire` its frame. They say nothing of limits: the
fields for lengths may be too short for them. `payload_eq` and `encode_eq` say
that writing gives exactly these bytes if the outermost length fits its field,
and `body_lt_of_encode` that it gives nothing otherwise. The lengths that are
reckoned first are those of what is then written (`payloadLength_eq`), so that
they change nothing (`encode_eq_frame`).
-/
namespace Rebuild

/-- What the length of a payload stays below, for it to be written. -/
def Frame.fieldLimit : Nat := Nat.pow 2 32

theorem Frame.length_bytes (f : Frame) :
    f.bytes.length = 10 + (Bytes.ofText f.tag).length + f.payload.length := by
  simp only [Frame.bytes, Frame.magic, List.length_append, List.length_cons, List.length_nil,
    length_littleEndian]
  omega

theorem Frame.encode_eq {f : Frame} (ht : (Bytes.ofText f.tag).length < Nat.pow 2 16)
    (hp : f.payload.length < fieldLimit) : f.encode = .ok f.bytes := by
  have hp' : ¬ Nat.pow 2 32 ≤ f.payload.length := Nat.not_le.2 hp
  unfold Frame.encode
  rw [if_neg (Nat.not_le.2 ht), if_neg hp']

theorem Frame.of_encode {f : Frame} {b : Bytes} (h : f.encode = .ok b) :
    b = f.bytes ∧ f.payload.length < fieldLimit := by
  unfold Frame.encode at h
  split at h
  · cases h
  · split at h
    · cases h
    · next hp => cases h; exact ⟨rfl, Nat.not_le.1 hp⟩

theorem Frame.writtenLength_eq (tag : String) (payload : Bytes) :
    writtenLength tag payload.length = List.length <$> encode ⟨tag, payload⟩ := by
  unfold writtenLength encode
  rw [Bytes.length_ofText]
  split
  · rfl
  · split
    · rfl
    · refine congrArg Except.ok ?_
      rw [length_bytes, Bytes.length_ofText]

namespace Fingerprint

/-! ## Lengths -/

mutual

/-- The length is that of the payload, or the payload cannot be written for the same reason. -/
theorem payloadLength_eq : ∀ fp : Fingerprint, fp.payloadLength = List.length <$> fp.payload
  | empty => rfl
  | parameters name digest => by
    refine congrArg Except.ok ?_
    simp only [List.length_append, Payload.text, Payload.length_byteString, Bytes.length_ofText]
    omega
  | sourceSet _ _ => rfl
  | combined parts => by
    rw [payloadLength, payload, framesLength_eq parts]
    cases frames parts with
    | error e => rfl
    | ok l =>
      refine congrArg Except.ok ?_
      rw [Payload.list, List.length_append, Payload.length_length]
  | custom _ _ => rfl

theorem framesLength_eq : ∀ parts : List Fingerprint,
    framesLength parts = (fun l => (l.flatMap Payload.byteString).length) <$> frames parts
  | [] => rfl
  | fp :: rest => by
    rw [framesLength, frames, payloadLength_eq fp, framesLength_eq rest]
    cases hpayload : fp.payload with
    | error e => rfl
    | ok b =>
      have hlength := Frame.writtenLength_eq fp.tag b
      dsimp only [Functor.map, Except.map, bind, Except.bind] at hlength ⊢
      rw [hlength]
      cases Frame.encode ⟨fp.tag, b⟩ with
      | error e => rfl
      | ok frame =>
        cases frames rest with
        | error e => rfl
        | ok l =>
          refine congrArg Except.ok ?_
          rw [List.flatMap_cons, List.length_append, Payload.length_byteString]

end

/-- Reckoning the length first changes nothing. -/
theorem encode_eq_frame (fp : Fingerprint) :
    fp.encode = fp.payload >>= fun payload => Frame.encode ⟨fp.tag, payload⟩ := by
  rw [encode, payloadLength_eq]
  cases fp.payload with
  | error e => rfl
  | ok b =>
    show (discard (Frame.writtenLength fp.tag b.length) >>= fun _ => _) = _
    rw [Frame.writtenLength_eq]
    cases hframe : Frame.encode ⟨fp.tag, b⟩ with
    | error e => exact hframe.symm
    | ok frame => rfl

theorem encode_of_payload {fp : Fingerprint} {payload : Bytes} (h : fp.payload = .ok payload) :
    fp.encode = Frame.encode ⟨fp.tag, payload⟩ := by
  rw [encode_eq_frame, bind_ok h]

/-! ## Bytes -/

mutual

/-- Whether the fingerprint is of a kind of the library, with all its parts. -/
def isBuiltIn : Fingerprint → Bool
  | combined parts => areBuiltIn parts
  | custom .. => false
  | _ => true

def areBuiltIn : List Fingerprint → Bool
  | [] => true
  | fp :: rest => isBuiltIn fp && areBuiltIn rest

end

mutual

/-- The payload, be it too long or not. -/
def body : Fingerprint → Bytes
  | empty => []
  | parameters name digest => Payload.text name ++ Payload.text digest.text
  | sourceSet files exclusions =>
    Payload.files files ++ Payload.option (Payload.list Payload.text) exclusions
  | combined parts => Payload.list Payload.byteString (wires parts)
  | custom _ payload => payload.toOption.getD []

/-- The frames of parts, be they too long or not. -/
def wires : List Fingerprint → List Bytes
  | [] => []
  | fp :: rest => Frame.bytes ⟨fp.tag, body fp⟩ :: wires rest

end

/-- The frame, be it too long or not. -/
def wire (fp : Fingerprint) : Bytes := Frame.bytes ⟨fp.tag, fp.body⟩

theorem length_wire (fp : Fingerprint) :
    fp.wire.length = 10 + (Bytes.ofText fp.tag).length + fp.body.length := Frame.length_bytes _

theorem tag_lt {fp : Fingerprint} (h : fp.isBuiltIn = true) :
    (Bytes.ofText fp.tag).length < Nat.pow 2 16 := by
  cases fp with
  | empty => exact (by decide : (Bytes.ofText "empty").length < Nat.pow 2 16)
  | parameters => exact (by decide : (Bytes.ofText "parameters").length < Nat.pow 2 16)
  | sourceSet => exact (by decide : (Bytes.ofText "source-set").length < Nat.pow 2 16)
  | combined => exact (by decide : (Bytes.ofText "combined").length < Nat.pow 2 16)
  | custom => simp [isBuiltIn] at h

theorem body_cons_le (fp : Fingerprint) (rest : List Fingerprint) :
    fp.body.length + 18 ≤ (combined (fp :: rest)).body.length ∧
      (combined rest).body.length + 18 ≤ (combined (fp :: rest)).body.length := by
  have := length_wire fp
  simp only [wire] at this
  simp only [body, wires, Payload.list, List.flatMap_cons, List.length_append,
    Payload.length_length, Payload.length_byteString]
  omega

mutual

/-- A payload that fits is written, and so are all frames inside it. -/
theorem payload_eq : ∀ fp : Fingerprint, fp.isBuiltIn = true →
    fp.body.length < Frame.fieldLimit → fp.payload = .ok fp.body
  | empty, _, _ => rfl
  | parameters _ _, _, _ => rfl
  | sourceSet _ _, _, _ => rfl
  | combined parts, hb, hl => by
    rw [payload, frames_eq parts hb hl]; rfl
  | custom _ _, hb, _ => by simp [isBuiltIn] at hb

theorem frames_eq : ∀ parts : List Fingerprint, areBuiltIn parts = true →
    (combined parts).body.length < Frame.fieldLimit → frames parts = .ok (wires parts)
  | [], _, _ => rfl
  | fp :: rest, hb, hl => by
    obtain ⟨hfp, hrest⟩ := Bool.and_eq_true_iff.1 hb
    obtain ⟨h1, h2⟩ := body_cons_le fp rest
    have hlen : fp.body.length < Frame.fieldLimit := by omega
    have hframe : Frame.encode ⟨fp.tag, fp.body⟩ = .ok _ := Frame.encode_eq (tag_lt hfp) hlen
    rw [frames, bind_ok (payload_eq fp hfp hlen), bind_ok hframe,
      bind_ok (frames_eq rest hrest (by omega))]
    rfl

end

mutual

/-- No other payload is ever written. -/
theorem eq_body_of_payload : ∀ (fp : Fingerprint) (b : Bytes), fp.isBuiltIn = true →
    fp.payload = .ok b → b = fp.body
  | empty, b, _, h => by cases h; rfl
  | parameters _ _, b, _, h => by cases h; rfl
  | sourceSet _ _, b, _, h => by cases h; rfl
  | combined parts, b, hb, h => by
    rw [payload] at h
    cases hf : frames parts with
    | error e => rw [hf] at h; cases h
    | ok l => rw [hf] at h; cases h; rw [eq_wires_of_frames parts l hb hf]; rfl
  | custom _ _, _, hb, _ => by simp [isBuiltIn] at hb

theorem eq_wires_of_frames : ∀ (parts : List Fingerprint) (l : List Bytes),
    areBuiltIn parts = true → frames parts = .ok l → l = wires parts
  | [], l, _, h => by cases h; rfl
  | fp :: rest, l, hb, h => by
    obtain ⟨hfp, hrest⟩ := Bool.and_eq_true_iff.1 hb
    rw [frames] at h
    obtain ⟨b, hpayload, h⟩ := ok_of_bind h
    obtain ⟨frame, hframe, h⟩ := ok_of_bind h
    obtain ⟨others, hothers, h⟩ := ok_of_bind h
    cases h
    rw [(Frame.of_encode hframe).1, eq_body_of_payload fp b hfp hpayload,
      eq_wires_of_frames rest others hrest hothers, wires]

end

theorem encode_eq {fp : Fingerprint} (hb : fp.isBuiltIn = true)
    (hl : fp.body.length < Frame.fieldLimit) : fp.encode = .ok fp.wire := by
  rw [encode_of_payload (payload_eq fp hb hl)]
  exact Frame.encode_eq (tag_lt hb) hl

theorem body_lt_of_encode {fp : Fingerprint} {b : Bytes} (hb : fp.isBuiltIn = true)
    (h : fp.encode = .ok b) : fp.body.length < Frame.fieldLimit := by
  rw [encode_eq_frame] at h
  obtain ⟨p, hpayload, h⟩ := ok_of_bind h
  have hlt : p.length < Frame.fieldLimit := (Frame.of_encode h).2
  rwa [eq_body_of_payload fp p hb hpayload] at hlt

theorem encode_isOk_iff {fp : Fingerprint} (hb : fp.isBuiltIn = true) :
    (∃ b, fp.encode = .ok b) ↔ fp.body.length < Frame.fieldLimit :=
  ⟨fun ⟨_, h⟩ => body_lt_of_encode hb h, fun h => ⟨_, encode_eq hb h⟩⟩

theorem eq_wire_of_encode {fp : Fingerprint} {b : Bytes} (hb : fp.isBuiltIn = true)
    (h : fp.encode = .ok b) : b = fp.wire := by
  rw [encode_eq hb (body_lt_of_encode hb h)] at h
  exact (Except.ok.inj h).symm

end Fingerprint

end Rebuild
