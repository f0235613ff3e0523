import Rebuild.Proofs.Fingerprint.Wire

/-!
# Agreement is equality, and so is being written alike

* `agrees_iff`: a fingerprint of built-in kinds agrees with itself and with
  nothing else.
* `eq_of_encode_eq`: fingerprints of built-in kinds that are written as the same
  bytes are equal. There is no reader to appeal to, as one refuses long payloads;
  the frame and the fields of the payload are taken apart one by one.
* `agrees_iff_encode_eq`: so the bytes decide whether fingerprints agree.
-/
namespace Rebuild

theorem ContentHash.digest_eq_of_ofBytes_eq {a b : Bytes}
    (h : ContentHash.ofBytes a = ContentHash.ofBytes b) : Sha256.digest a = Sha256.digest b :=
  Bytes.hex_injective (congrArg ContentHash.text h)

/-- Frames whose lengths fit their fields are told apart by their bytes. -/
theorem Frame.bytes_injective {f g : Frame} (hf : (Bytes.ofText f.tag).length < Nat.pow 2 16)
    (hg : (Bytes.ofText g.tag).length < Nat.pow 2 16) (h : f.bytes = g.bytes) : f = g := by
  unfold Frame.bytes at h
  simp only [List.append_cancel_left_eq, List.cons.injEq, true_and] at h
  obtain ⟨hlen, h⟩ := List.append_inj h (by rw [length_littleEndian, length_littleEndian])
  have htag : (Bytes.ofText f.tag).length = (Bytes.ofText g.tag).length := by
    rw [← ofLittleEndian_littleEndian 2 _ hf, hlen, ofLittleEndian_littleEndian 2 _ hg]
  obtain ⟨ht, h⟩ := List.append_inj h htag
  obtain ⟨-, hp⟩ := List.append_inj h (by rw [length_littleEndian, length_littleEndian])
  cases f; cases g
  simp only [mk.injEq]
  exact ⟨Bytes.ofText_injective ht, hp⟩

namespace Fingerprint

/-! ## Agreement -/

mutual

theorem agrees_self : ∀ fp : Fingerprint, fp.isBuiltIn = true → fp.agrees fp = true
  | empty, _ => rfl
  | parameters _ _, _ => by simp [agrees]
  | sourceSet _ _, _ => by simp [agrees]
  | combined parts, hb => agreeParts_self parts hb
  | custom _ _, hb => by simp [isBuiltIn] at hb

theorem agreeParts_self : ∀ parts : List Fingerprint, areBuiltIn parts = true →
    agreeParts parts parts = true
  | [], _ => rfl
  | fp :: rest, hb => by
    obtain ⟨hfp, hrest⟩ := Bool.and_eq_true_iff.1 hb
    rw [agreeParts, agrees_self fp hfp, agreeParts_self rest hrest]; rfl

end

mutual

theorem eq_of_agrees : ∀ a b : Fingerprint, a.isBuiltIn = true → a.agrees b = true → a = b
  | empty, b, _, h => by cases b <;> simp [agrees] at h ⊢
  | parameters _ _, b, _, h => by
    cases b <;> simp [agrees] at h ⊢
    exact h
  | sourceSet _ _, b, _, h => by
    cases b <;> simp [agrees] at h ⊢
    exact h
  | combined p, b, ha, h => by
    cases b with
    | combined q => rw [eq_of_agreeParts p q ha (by simpa [agrees] using h)]
    | _ => simp [agrees] at h
  | custom _ _, _, ha, _ => by simp [isBuiltIn] at ha

theorem eq_of_agreeParts : ∀ p q : List Fingerprint, areBuiltIn p = true →
    agreeParts p q = true → p = q
  | [], q, _, h => by cases q <;> simp [agreeParts] at h ⊢
  | a :: p, q, ha, h => by
    obtain ⟨ha, hp⟩ := Bool.and_eq_true_iff.1 ha
    cases q with
    | nil => simp [agreeParts] at h
    | cons b q =>
      obtain ⟨h1, h2⟩ := Bool.and_eq_true_iff.1 (by simpa only [agreeParts] using h)
      rw [eq_of_agrees a b ha h1, eq_of_agreeParts p q hp h2]

end

theorem agrees_iff {a b : Fingerprint} (ha : a.isBuiltIn = true) : a.agrees b = true ↔ a = b :=
  ⟨eq_of_agrees a b ha, fun h => h ▸ agrees_self a ha⟩

/-! ## Being written alike -/

theorem fieldLimit_lt : Frame.fieldLimit < Payload.wordLimit := by decide

/-- Kinds have tags of their own. -/
theorem eq_of_body_eq_of_leaf {a b : Fingerprint} (ha : a.isBuiltIn = true)
    (hl : a.body.length < Frame.fieldLimit) (htag : a.tag = b.tag) (hbody : a.body = b.body)
    (hb : b.isBuiltIn = true) (hleaf : a.tag ≠ "combined") : a = b := by
  have := fieldLimit_lt
  cases a with
  | empty =>
    cases b with
    | empty => rfl
    | custom => simp [isBuiltIn] at hb
    | _ => simp [tag] at htag
  | parameters n d =>
    cases b with
    | parameters m e =>
      have h := Payload.undoes_pair Payload.undoes_text Payload.undoes_hash
      have := Payload.injective_of_undoes h (a := (n, d)) (b := (m, e))
        (show (body (parameters n d)).length < _ by omega) hbody
      cases this; rfl
    | custom => simp [isBuiltIn] at hb
    | _ => simp [tag] at htag
  | sourceSet f r =>
    cases b with
    | sourceSet g s =>
      have h := Payload.undoes_pair Payload.undoes_files
        (Payload.undoes_option (Payload.undoes_list Payload.undoes_text Payload.text_ne_nil))
      have := Payload.injective_of_undoes h (a := (f, r)) (b := (g, s))
        (show (body (sourceSet f r)).length < _ by omega) hbody
      cases this; rfl
    | custom => simp [isBuiltIn] at hb
    | _ => simp [tag] at htag
  | combined => exact absurd rfl hleaf
  | custom => simp [isBuiltIn] at ha

mutual

theorem eq_of_wire_eq : ∀ a b : Fingerprint, a.isBuiltIn = true → b.isBuiltIn = true →
    a.body.length < Frame.fieldLimit → a.wire = b.wire → a = b
  | a, b, ha, hb, hl, h => by
    have hframe := Frame.bytes_injective (tag_lt ha) (tag_lt hb) h
    simp only [Frame.mk.injEq] at hframe
    obtain ⟨htag, hbody⟩ := hframe
    match a with
    | combined p =>
      cases b with
      | combined q =>
        have hu := Payload.undoes_list Payload.undoes_byteString Payload.byteString_ne_nil
        have := fieldLimit_lt
        have hw : wires p = wires q :=
          Payload.injective_of_undoes hu (show (combined p).body.length < _ by omega) hbody
        rw [eq_of_wires_eq p q ha hb hl hw]
      | custom => simp [isBuiltIn] at hb
      | _ => simp [tag] at htag
    | empty => exact eq_of_body_eq_of_leaf ha hl htag hbody hb (by simp [tag])
    | parameters _ _ => exact eq_of_body_eq_of_leaf ha hl htag hbody hb (by simp [tag])
    | sourceSet _ _ => exact eq_of_body_eq_of_leaf ha hl htag hbody hb (by simp [tag])
    | custom _ _ => simp [isBuiltIn] at ha

theorem eq_of_wires_eq : ∀ p q : List Fingerprint, areBuiltIn p = true → areBuiltIn q = true →
    (combined p).body.length < Frame.fieldLimit → wires p = wires q → p = q
  | [], q, _, _, _, h => by cases q <;> simp [wires] at h ⊢
  | a :: p, q, ha, hb, hl, h => by
    obtain ⟨ha, hp⟩ := Bool.and_eq_true_iff.1 ha
    obtain ⟨h1, h2⟩ := body_cons_le a p
    cases q with
    | nil => simp [wires] at h
    | cons b q =>
      obtain ⟨hb, hq⟩ := Bool.and_eq_true_iff.1 hb
      simp only [wires, List.cons.injEq] at h
      rw [eq_of_wire_eq a b ha hb (by omega) h.1, eq_of_wires_eq p q hp hq (by omega) h.2]

end

theorem eq_of_encode_eq {a b : Fingerprint} {bytes : Bytes} (ha : a.isBuiltIn = true)
    (hb : b.isBuiltIn = true) (h : a.encode = .ok bytes) (h' : b.encode = .ok bytes) : a = b :=
  eq_of_wire_eq a b ha hb (body_lt_of_encode ha h)
    ((eq_wire_of_encode ha h).symm.trans (eq_wire_of_encode hb h'))

theorem agrees_iff_encode_eq {a b : Fingerprint} {x y : Bytes} (ha : a.isBuiltIn = true)
    (hb : b.isBuiltIn = true) (hx : a.encode = .ok x) (hy : b.encode = .ok y) :
    a.agrees b = true ↔ x = y := by
  rw [agrees_iff ha]
  constructor
  · rintro rfl
    exact Except.ok.inj (hx.symm.trans hy)
  · rintro rfl
    exact eq_of_encode_eq ha hb hx hy

end Fingerprint

end Rebuild
