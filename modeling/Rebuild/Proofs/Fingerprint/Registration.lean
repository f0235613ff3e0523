import Rebuild.Proofs.Fingerprint.RoundTrip

/-!
# Registering a decoder spares what was decoded before

A decoder that is registered last is asked last, in every frame. So it changes nothing
about frames that were decoded, or refused for another reason than an unknown kind, as
long as no decoder looks at the registry but through the frames inside its payload.

* `Decoder.Plain`: decoders that do not.
* `Spares`: one result is the other, unless this is an unknown kind that need not stay so.
  `Spares.bind`, `Spares.mapM`: it passes through steps one after another.
* `Registry.Extends`: the tags that one registry knows have the same decoders in another.
  `Extends.decodeAt`: so the results are spared, by induction on the level.
* `register_conservative`: registering a decoder, and which decoder gets a frame.
-/
namespace Rebuild

/-- What a decoder makes of a payload depends on the payload alone, or also on what the frames
inside it give. -/
inductive Decoder.Plain : Decoder → Prop
  | leaf (supports : String → Bool) (read : Bytes → Except ProtocolError Fingerprint) :
    Plain ⟨supports, fun _ => read⟩
  | combined : Plain .combined

/-! ## Results -/

section Results

variable {α β : Type} {stays : String → Prop}

/-- `y` is the same result as `x`, unless `x` is an unknown kind and its tag need not stay unknown.
-/
def Spares (stays : String → Prop) (x y : Except ProtocolError α) : Prop :=
  (∀ tag, x = .error (.unknownKind tag) → stays tag) → y = x

theorem Spares.refl (x : Except ProtocolError α) : Spares stays x x := fun _ => rfl

theorem Spares.bind {x y : Except ProtocolError α} {f g : α → Except ProtocolError β}
    (h : Spares stays x y) (h' : ∀ a, Spares stays (f a) (g a)) :
    Spares stays (x >>= f) (y >>= g) := by
  intro hstays
  cases x with
  | error e =>
    obtain rfl := h fun tag htag => hstays tag (by cases htag; rfl)
    rfl
  | ok a =>
    obtain rfl := h nofun
    exact h' a hstays

theorem Spares.mapM {f g : α → Except ProtocolError β} (h : ∀ a, Spares stays (f a) (g a)) :
    ∀ l : List α, Spares stays (l.mapM f) (l.mapM g)
  | [] => .refl _
  | a :: l => by
    rw [List.mapM_cons, List.mapM_cons]
    exact (h a).bind fun _ => (Spares.mapM h l).bind fun _ => .refl _

end Results

theorem Decoder.Plain.spares {stays : String → Prop} {d : Decoder} (h : d.Plain) {m n : Nested}
    (hnested : ∀ b, Spares stays (m.decode b) (n.decode b)) (payload : Bytes) :
    Spares stays (d.decode m payload) (d.decode n payload) := by
  cases h with
  | leaf supports read => exact .refl _
  | combined =>
    exact (Spares.refl _).bind fun frames => (Spares.mapM hnested frames).bind fun _ => .refl _

/-! ## Registries -/

namespace Registry

/-- The decoder that gets the frames of a tag. -/
def decoderFor? (r : Registry) (tag : String) : Option Decoder :=
  r.decoders.find? (·.supports tag)

/-- `s` has the decoders of `r` for the tags that `r` knows, and none for others that stay unknown.
-/
structure Extends (stays : String → Prop) (r s : Registry) : Prop where
  known : ∀ {tag d}, r.decoderFor? tag = some d → s.decoderFor? tag = some d
  unknown : ∀ {tag}, r.decoderFor? tag = none → stays tag → s.decoderFor? tag = none

variable {stays : String → Prop} {r s : Registry}

/-- A registry of plain decoders gives the same as one that extends it, at every level. -/
theorem Extends.decodeAt (h : Extends stays r s) (hplain : ∀ d ∈ r.decoders, d.Plain) (depth : Nat)
    (b : Bytes) : Spares stays (r.decodeAt depth b) (s.decodeAt depth b) := by
  intro hstays
  by_cases hdepth : nestingLimit < depth
  · rw [decodeAt_of_lt hdepth, decodeAt_of_lt hdepth]
  have hdepth' := Nat.not_lt.1 hdepth
  cases hread : Frame.read b with
  | error e => rw [decodeAt_of_read_error hdepth' hread, decodeAt_of_read_error hdepth' hread]
  | ok f =>
    cases hfind : r.decoderFor? f.tag with
    | none =>
      have hunknown := decodeAt_of_unknown hdepth' hread hfind
      rw [hunknown, decodeAt_of_unknown hdepth' hread (h.unknown hfind (hstays _ hunknown))]
    | some d =>
      have hdecode := decodeAt_of_read hdepth' hread hfind
      rw [hdecode] at hstays ⊢
      rw [decodeAt_of_read hdepth' hread (h.known hfind)]
      -- the frames inside lie one level deeper, where the results are spared as well
      have hnested := Extends.decodeAt h hplain (depth + 1)
      exact (hplain d (List.mem_of_find?_eq_some hfind)).spares hnested f.payload hstays
  termination_by nestingLimit + 1 - depth

/-! ## Registering -/

/-- A decoder that is registered last gets the tags that no other gets. -/
theorem decoderFor?_register (r : Registry) (d : Decoder) (tag : String) :
    (r.register d).decoderFor? tag =
      (r.decoderFor? tag).or (if d.supports tag then some d else none) := by
  rw [decoderFor?, register, List.find?_append, ← decoderFor?]
  cases hd : d.supports tag <;> simp [hd]

theorem extends_register (r : Registry) (d : Decoder) :
    Extends (fun tag => d.supports tag = false) r (r.register d) where
  known h := by rw [decoderFor?_register, h, Option.some_or]
  unknown h hstays := by rw [decoderFor?_register, h, hstays]; rfl

theorem decoders_foldl_register (decoders : List Decoder) (r : Registry) :
    (decoders.foldl register r).decoders = r.decoders ++ decoders := by
  induction decoders generalizing r with
  | nil => exact (List.append_nil _).symm
  | cons d decoders ih =>
    rw [List.foldl_cons, ih]
    exact List.append_assoc _ _ _

theorem decoderFor?_foldl_register {tag : String} {before after : List Decoder} {d : Decoder}
    (hbefore : ∀ d ∈ before, d.supports tag = false) (hd : d.supports tag = true) :
    ((before ++ d :: after).foldl register {}).decoderFor? tag = some d := by
  rw [decoderFor?, decoders_foldl_register, List.nil_append, List.find?_append,
    List.find?_eq_none.2 fun d hd => Bool.not_eq_true _ ▸ hbefore d hd, Option.none_or]
  exact List.find?_cons_of_pos hd

/-- A further decoder changes nothing about what a registry of plain decoders gives, unless that is
an unknown kind that the decoder supports. And in whatever order decoders are registered, a frame at
any level is decoded by the first of them that supports its tag, with the frames inside it one level
deeper; if there is none, the kind is unknown. -/
theorem register_conservative :
    (∀ (r : Registry) (d : Decoder) (b : Bytes), (∀ d ∈ r.decoders, d.Plain) →
      ((∀ tag, r.decode b ≠ .error (.unknownKind tag)) → (r.register d).decode b = r.decode b) ∧
      ∀ tag, r.decode b = .error (.unknownKind tag) → d.supports tag = false →
        (r.register d).decode b = .error (.unknownKind tag)) ∧
    ∀ (decoders : List Decoder) (depth : Nat) (b : Bytes) (f : Frame), depth ≤ 64 →
      Frame.read b = .ok f →
      let r := decoders.foldl register {}
      (∀ before d after, decoders = before ++ d :: after →
        (∀ d ∈ before, d.supports f.tag = false) → d.supports f.tag = true →
        r.decodeAt depth b =
          d.decode ⟨depth, decoders.length, r.decodeAt (depth + 1)⟩ f.payload) ∧
      ((∀ d ∈ decoders, d.supports f.tag = false) →
        r.decodeAt depth b = .error (.unknownKind f.tag)) := by
  constructor
  · intro r d b hplain
    have hspares := (extends_register r d).decodeAt hplain 0 b
    refine ⟨fun h => hspares fun tag htag => absurd htag (h tag), fun tag htag hd => ?_⟩
    refine (hspares fun other hother => ?_).trans htag
    rw [← ProtocolError.unknownKind.inj (Except.error.inj (htag.symm.trans hother))]
    exact hd
  · intro decoders depth b f hdepth hread r
    have hsize : r.size = decoders.length := by rw [size, decoders_foldl_register]; rfl
    constructor
    · rintro before d after rfl hbefore hd
      rw [decodeAt_of_read hdepth hread (decoderFor?_foldl_register hbefore hd), hsize]
    · intro hnone
      refine decodeAt_of_unknown hdepth hread (List.find?_eq_none.2 fun d hd => ?_)
      rw [decoders_foldl_register] at hd
      exact Bool.not_eq_true _ ▸ hnone d hd

theorem plain_of_mem_standard {d : Decoder} (h : d ∈ standard.decoders) : d.Plain := by
  simp only [standard, List.mem_cons, List.not_mem_nil, or_false] at h
  rcases h with rfl | rfl | rfl | rfl
  · exact .leaf _ _
  · exact .leaf _ _
  · exact .leaf _ _
  · exact .combined

/-- A decoder for tags that begin with `k` spares a fingerprint of the library and a kind that stays
unknown, and of two decoders for `x` the first one gets the frame, wherever it lies. -/
theorem register_conservative_verbatim :
    let r := standard.register (.verbatim "k")
    let fp := Fingerprint.combined [.empty]
    standard.decode fp.wire = .ok fp ∧ r.decode fp.wire = .ok fp ∧
      standard.decode (Frame.bytes ⟨"zz", []⟩) = .error (.unknownKind "zz") ∧
      r.decode (Frame.bytes ⟨"zz", []⟩) = .error (.unknownKind "zz") ∧
      ([.refusing "x", .verbatim "x"].foldl register {}).decodeAt 3 (Frame.bytes ⟨"x", []⟩) =
        .error (.invalidPayload "x" "0 bytes refused") := by
  intro r fp
  obtain ⟨hspares, hfirst⟩ := register_conservative
  have hknown : standard.decode fp.wire = .ok fp := by
    rw [Fingerprint.decode_wire rfl (by decide), if_neg (by decide), if_neg (by decide)]
  have hread : Frame.read (Frame.bytes ⟨"zz", []⟩) = .ok ⟨"zz", []⟩ := by
    rw [Frame.read_bytes (by decide) (by decide), if_neg (by decide)]
  have hread' : Frame.read (Frame.bytes ⟨"x", []⟩) = .ok ⟨"x", []⟩ := by
    rw [Frame.read_bytes (by decide) (by decide), if_neg (by decide)]
  have hunknown : standard.decode (Frame.bytes ⟨"zz", []⟩) = .error (.unknownKind "zz") :=
    decodeAt_of_unknown (by decide) hread rfl
  have hplain : ∀ d ∈ standard.decoders, d.Plain := fun _ => plain_of_mem_standard
  refine ⟨hknown, ?_, hunknown, ?_, ?_⟩
  · refine ((hspares standard (.verbatim "k") fp.wire hplain).1 fun tag htag => ?_).trans hknown
    rw [hknown] at htag
    cases htag
  · exact (hspares standard (.verbatim "k") _ hplain).2 "zz" hunknown (by decide)
  · exact (hfirst _ 3 _ _ (by decide) hread').1 [] (.refusing "x") [.verbatim "x"] rfl nofun rfl

end Registry

end Rebuild
