import Rebuild.Proofs.Except
import Rebuild.Proofs.Fingerprint.RoundTrip

/-!
# Frames are what their grammar says

The grammar spells a frame out byte by byte, with the bytes of the two lengths as
they stand. Writing gives a spelling wherever there is one, and reading takes the
spellings and nothing else, as long as the payload is within the limit. A spelling
that is cut short is truncated wherever it is cut, and bytes behind it are counted.

* `Frame.Spells`: the grammar. `spells_iff`: what writing puts down follows it.
* `Frame.of_read`, `read_bytes_append`: reading takes frames, and looks behind them.
* `Frame.take_cut_bind`, `read_of_cut`: reading what is cut short.
* `frames_exact`: writing, reading, damaged frames, and one reading for all bytes.
-/
namespace Rebuild

/-! ## Numbers of a fixed width -/

theorem littleEndian_ofLittleEndian (b : Bytes) :
    littleEndian b.length (ofLittleEndian b) = b := by
  induction b with
  | nil => rfl
  | cons x rest ih =>
    have hlow : UInt8.ofNat ((x.toNat + 256 * ofLittleEndian rest) % 256) = x := by
      rw [Nat.add_mul_mod_self_left, Nat.mod_eq_of_lt x.toNat_lt, UInt8.ofNat_toNat]
    have hhigh : (x.toNat + 256 * ofLittleEndian rest) / 256 = ofLittleEndian rest := by
      have := x.toNat_lt
      omega
    rw [ofLittleEndian, List.length_cons, littleEndian, hlow, hhigh, ih]

theorem ofLittleEndian_lt (b : Bytes) : ofLittleEndian b < Nat.pow 256 b.length := by
  induction b with
  | nil => exact Nat.one_pos
  | cons x rest ih =>
    have := x.toNat_lt
    rw [ofLittleEndian, List.length_cons, show Nat.pow 256 (rest.length + 1) =
      Nat.pow 256 rest.length * 256 from rfl]
    omega

namespace Frame

/-! ## The grammar -/

/-- The bytes spell a frame: `KFP` and the version, the two bytes of the tag's length and the tag,
the four bytes of the payload's length and the payload. Both lengths have their lowest byte first.
-/
inductive Spells : Bytes → Frame → Prop
  | intro (t₀ t₁ p₀ p₁ p₂ p₃ : UInt8) (tag : String) (payload : Bytes)
    (htag : (Bytes.ofText tag).length = t₀.toNat + 256 * t₁.toNat)
    (hpayload : payload.length =
      p₀.toNat + 256 * (p₁.toNat + 256 * (p₂.toNat + 256 * p₃.toNat))) :
    Spells ([0x4B, 0x46, 0x50, 1, t₀, t₁] ++ Bytes.ofText tag ++ [p₀, p₁, p₂, p₃] ++ payload)
      ⟨tag, payload⟩

theorem eq_pair {b : Bytes} (h : b.length = 2) : ∃ x y : UInt8, b = [x, y] := by
  match b, h with
  | [x, y], _ => exact ⟨x, y, rfl⟩

theorem eq_quadruple {b : Bytes} (h : b.length = 4) : ∃ x y z w : UInt8, b = [x, y, z, w] := by
  match b, h with
  | [x, y, z, w], _ => exact ⟨x, y, z, w, rfl⟩

/-- What is written is spelled, if the lengths fit their fields, and no other bytes spell it. -/
theorem spells_iff {b : Bytes} {f : Frame} : Spells b f ↔
    (Bytes.ofText f.tag).length < Nat.pow 2 16 ∧ f.payload.length < fieldLimit ∧ b = f.bytes := by
  constructor
  · rintro ⟨t₀, t₁, p₀, p₁, p₂, p₃, tag, payload, htag, hpayload⟩
    have htag' : (Bytes.ofText tag).length = ofLittleEndian [t₀, t₁] := by
      simpa [ofLittleEndian] using htag
    have hpayload' : payload.length = ofLittleEndian [p₀, p₁, p₂, p₃] := by
      simpa [ofLittleEndian] using hpayload
    refine ⟨?_, ?_, ?_⟩
    · rw [htag', show Nat.pow 2 16 = Nat.pow 256 2 from rfl]
      exact ofLittleEndian_lt [t₀, t₁]
    · rw [hpayload', show fieldLimit = Nat.pow 256 4 from rfl]
      exact ofLittleEndian_lt [p₀, p₁, p₂, p₃]
    · have htwo := littleEndian_ofLittleEndian [t₀, t₁]
      have hfour := littleEndian_ofLittleEndian [p₀, p₁, p₂, p₃]
      rw [← htag'] at htwo
      rw [← hpayload'] at hfour
      simp only [List.length_cons, List.length_nil, Nat.zero_add, Nat.reduceAdd] at htwo hfour
      simp only [bytes, htwo, hfour, magic, version]
      simp
  · rintro ⟨htag, hpayload, rfl⟩
    obtain ⟨t₀, t₁, ht⟩ := eq_pair (length_littleEndian 2 (Bytes.ofText f.tag).length)
    obtain ⟨p₀, p₁, p₂, p₃, hp⟩ := eq_quadruple (length_littleEndian 4 f.payload.length)
    have htag' := ofLittleEndian_littleEndian 2 _ htag
    have hpayload' := ofLittleEndian_littleEndian 4 _ hpayload
    rw [ht] at htag'
    rw [hp] at hpayload'
    have hbytes : f.bytes =
        [0x4B, 0x46, 0x50, 1, t₀, t₁] ++ Bytes.ofText f.tag ++ [p₀, p₁, p₂, p₃] ++ f.payload := by
      simp [bytes, ht, hp, magic, version]
    rw [hbytes]
    refine .intro t₀ t₁ p₀ p₁ p₂ p₃ f.tag f.payload ?_ ?_
    · simpa [ofLittleEndian] using htag'.symm
    · simpa [ofLittleEndian] using hpayload'.symm

theorem Spells.unique {b : Bytes} {f g : Frame} (hf : Spells b f) (hg : Spells b g) : f = g := by
  obtain ⟨hf, -, hbytes⟩ := spells_iff.1 hf
  obtain ⟨hg, -, hbytes'⟩ := spells_iff.1 hg
  exact bytes_injective hf hg (hbytes.symm.trans hbytes')

/-! ## Writing -/

theorem encode_of_long {f : Frame} (h : Nat.pow 2 16 ≤ (Bytes.ofText f.tag).length) :
    f.encode = .error .invalidTag := if_pos h

theorem encode_of_large {f : Frame} (h : (Bytes.ofText f.tag).length < Nat.pow 2 16)
    (h' : fieldLimit ≤ f.payload.length) :
    f.encode = .error (.payloadTooLarge f.tag f.payload.length) :=
  (if_neg (Nat.not_le.2 h)).trans (if_pos h')

/-- What is written spells the frame, and a frame that can be spelled is written. -/
theorem encode_eq_ok_iff {f : Frame} {b : Bytes} : f.encode = .ok b ↔ Spells b f := by
  rw [spells_iff]
  by_cases htag : (Bytes.ofText f.tag).length < Nat.pow 2 16
  · by_cases hpayload : f.payload.length < fieldLimit
    · rw [encode_eq htag hpayload, Except.ok.injEq]
      exact ⟨fun h => ⟨htag, hpayload, h.symm⟩, fun h => h.2.2.symm⟩
    · rw [encode_of_large htag (Nat.not_lt.1 hpayload)]
      exact ⟨nofun, fun h => absurd h.2.1 hpayload⟩
  · rw [encode_of_long (Nat.not_lt.1 htag)]
    exact ⟨nofun, fun h => absurd h.1 htag⟩

/-! ## Reading -/

theorem of_take_bind {α : Type} {n : Nat} {b : Bytes}
    {next : Bytes × Bytes → Except ProtocolError α}
    {a : α} (h : take n b >>= next = .ok a) :
    ∃ x y, x.length = n ∧ b = x ++ y ∧ next (x, y) = .ok a := by
  obtain ⟨⟨x, y⟩, htake, h⟩ := ok_of_bind h
  unfold take at htake
  split at htake
  next hlen =>
    cases htake
    exact ⟨_, _, hlen, (List.take_append_drop n b).symm, h⟩
  next => cases htake

/-- Bytes that are read are a frame within the limit. -/
theorem of_read {b : Bytes} {f : Frame} (h : read b = .ok f) :
    f.payload.length ≤ payloadLimit ∧ Spells b f := by
  unfold read at h
  obtain ⟨start, b₁, -, hb, h⟩ := of_take_bind h
  dsimp only at h
  split at h
  · cases h
  next hmagic =>
  obtain ⟨v, b₂, hone, hb₁, h⟩ := of_take_bind h
  dsimp only at h
  split at h
  · cases h
  next hversion =>
  obtain ⟨tagLength, b₃, htwo, hb₂, h⟩ := of_take_bind h
  obtain ⟨tagBytes, b₄, htag, hb₃, h⟩ := of_take_bind h
  dsimp only at h
  split at h
  case h_2 => cases h
  next tag htext =>
  obtain ⟨payloadLength, b₅, hfour, hb₄, h⟩ := of_take_bind h
  dsimp only at h
  split at h
  · cases h
  next hlimit =>
  obtain ⟨payload, b₆, hlength, hb₅, h⟩ := of_take_bind h
  dsimp only at h
  split at h
  · cases h
  next hend =>
  cases h
  -- each piece is what the grammar has in its place
  subst hb hb₁ hb₂ hb₃ hb₄ hb₅
  obtain rfl : start = magic := Decidable.not_not.1 hmagic
  obtain rfl : b₆ = [] := Decidable.not_not.1 hend
  obtain rfl := Bytes.ofText_of_text? htext
  obtain ⟨x, rfl⟩ := List.length_eq_one_iff.1 hone
  obtain rfl : x = 1 := by
    have hversion : ofLittleEndian [x] = 1 := Decidable.not_not.1 hversion
    exact UInt8.toNat_inj.1 (by simpa [ofLittleEndian] using hversion)
  obtain ⟨t₀, t₁, rfl⟩ := eq_pair htwo
  obtain ⟨p₀, p₁, p₂, p₃, rfl⟩ := eq_quadruple hfour
  have hspells := Spells.intro t₀ t₁ p₀ p₁ p₂ p₃ tag payload (by simpa [ofLittleEndian] using htag)
    (by simpa [ofLittleEndian] using hlength)
  exact ⟨hlength ▸ Nat.not_lt.1 hlimit, by simpa [magic] using hspells⟩

/-- Of bytes that are cut short somewhere all that is wanted is taken, or nothing: the bytes are
truncated if whatever follows says so of a cut further behind. -/
theorem take_cut_bind {α : Type} {n : Nat} {b x y : Bytes} (hlength : x.length = n)
    (hcut : b <+: x ++ y) (hne : b ≠ x ++ y) {next : Bytes × Bytes → Except ProtocolError α}
    (h : ∀ rest, rest <+: y → rest ≠ y → next (x, rest) = .error .truncated) :
    take n b >>= next = .error .truncated := by
  by_cases hlen : n ≤ b.length
  · obtain ⟨rest, rfl⟩ :=
      List.prefix_of_prefix_length_le (List.prefix_append x y) hcut (hlength ▸ hlen)
    rw [bind_ok (take_append hlength rest)]
    exact h rest ((List.prefix_append_right_inj x).1 hcut) fun heq => hne (heq ▸ rfl)
  · have hnone : take n b = .error .truncated := if_neg (by rw [List.length_take]; omega)
    rw [hnone]
    rfl

theorem read_of_cut {f : Frame} {b : Bytes} (htag : (Bytes.ofText f.tag).length < Nat.pow 2 16)
    (hlimit : f.payload.length ≤ payloadLimit) (hcut : b <+: f.bytes) (hne : b ≠ f.bytes) :
    read b = .error .truncated := by
  have htagLength := ofLittleEndian_littleEndian 2 (Bytes.ofText f.tag).length htag
  have hpayloadLength := ofLittleEndian_littleEndian 4 f.payload.length
    (Nat.lt_of_le_of_lt hlimit (by decide))
  unfold read
  -- piece by piece: the cut lies in it, or behind it
  refine take_cut_bind rfl hcut hne fun b hcut hne => ?_
  dsimp only
  rw [if_neg (fun h => h rfl)]
  rw [← List.singleton_append] at hcut hne
  refine take_cut_bind rfl hcut hne fun b hcut hne => ?_
  dsimp only
  rw [if_neg (fun h => h rfl)]
  refine take_cut_bind (length_littleEndian 2 _) hcut hne fun b hcut hne => ?_
  refine take_cut_bind htagLength.symm hcut hne fun b hcut hne => ?_
  dsimp only
  rw [Bytes.text?_ofText]
  refine take_cut_bind (length_littleEndian 4 _) hcut hne fun b hcut hne => ?_
  dsimp only
  rw [hpayloadLength, if_neg (Nat.not_lt.2 hlimit)]
  rw [← List.append_nil f.payload] at hcut hne
  refine take_cut_bind rfl hcut hne fun b hcut hne => ?_
  exact absurd (List.prefix_nil.1 hcut) hne

theorem read_eq_ok_iff {b : Bytes} {f : Frame} :
    read b = .ok f ↔ f.payload.length ≤ payloadLimit ∧ Spells b f := by
  refine ⟨of_read, ?_⟩
  rintro ⟨hlimit, hspells⟩
  obtain ⟨htag, hpayload, rfl⟩ := spells_iff.1 hspells
  rw [read_bytes htag hpayload, if_neg (Nat.not_lt.2 hlimit)]

end Frame

namespace Fingerprint

/-- A fingerprint with a payload is written exactly if the lengths of its tag and its payload fit
two and four bytes, a long tag being found before a long payload, and what is written spells its
frame. Bytes are read as a frame exactly if they spell it with at most 64 MiB of payload. Whatever
is cut off such bytes, the rest is truncated; whatever is put behind them is counted as left over;
and no bytes spell two frames. -/
theorem frames_exact :
    (∀ (fp : Fingerprint) (payload : Bytes), fp.payload = .ok payload →
      ((∃ b, fp.encode = .ok b) ↔
        (Bytes.ofText fp.tag).length ≤ 65535 ∧ payload.length ≤ Nat.pow 2 32 - 1) ∧
      (∀ b, fp.encode = .ok b → Frame.Spells b ⟨fp.tag, payload⟩) ∧
      (65535 < (Bytes.ofText fp.tag).length → fp.encode = .error .invalidTag) ∧
      ((Bytes.ofText fp.tag).length ≤ 65535 → Nat.pow 2 32 - 1 < payload.length →
        fp.encode = .error (.payloadTooLarge fp.tag payload.length))) ∧
    (∀ b tag payload, Frame.read b = .ok ⟨tag, payload⟩ ↔
      payload.length ≤ 64 * Nat.pow 2 20 ∧ Frame.Spells b ⟨tag, payload⟩) ∧
    (∀ b f, f.payload.length ≤ 64 * Nat.pow 2 20 → Frame.Spells b f →
      (∀ cut, cut <+: b → cut ≠ b → Frame.read cut = .error .truncated) ∧
      ∀ rest, rest ≠ [] → Frame.read (b ++ rest) = .error (.trailingBytes rest.length)) ∧
    ∀ b f g, Frame.Spells b f → Frame.Spells b g → f = g := by
  have h64 : Frame.payloadLimit = 64 * Nat.pow 2 20 := rfl
  refine ⟨?_, fun _ _ _ => h64 ▸ Frame.read_eq_ok_iff, ?_, fun _ _ _ => Frame.Spells.unique⟩
  · intro fp payload hpayload
    have h16 : Nat.pow 2 16 = 65536 := rfl
    have h32 : Nat.pow 2 32 = 4294967296 := rfl
    have hfield : Frame.fieldLimit = 4294967296 := rfl
    rw [encode_of_payload hpayload]
    refine ⟨?_, fun b => Frame.encode_eq_ok_iff.1, fun htag => ?_, fun htag hlarge => ?_⟩
    · simp only [Frame.encode_eq_ok_iff, Frame.spells_iff, exists_and_left, exists_eq, and_true]
      omega
    · exact Frame.encode_of_long (by dsimp only; omega)
    · exact Frame.encode_of_large (by dsimp only; omega) (by dsimp only; omega)
  · intro b f hlimit hspells
    obtain ⟨htag, hlength, rfl⟩ := Frame.spells_iff.1 hspells
    refine ⟨fun cut => Frame.read_of_cut htag hlimit, fun rest hrest => ?_⟩
    rw [Frame.read_bytes_append htag hlength, h64, if_neg (Nat.not_lt.2 hlimit), if_pos hrest]

/-- A kind from outside with the payload `!` under the tag `x` is written in twelve bytes. The first
nine of them are truncated, and one more byte behind them is left over. -/
theorem frames_exact_custom :
    let fp := custom "x" (.ok [0x21])
    let b := [0x4B, 0x46, 0x50, 1, 1, 0, 0x78, 1, 0, 0, 0, 0x21]
    fp.encode = .ok b ∧ Frame.read b = .ok ⟨"x", [0x21]⟩ ∧
      Frame.read (b.take 9) = .error .truncated ∧
      Frame.read (b ++ [0]) = .error (.trailingBytes 1) := by
  intro fp b
  obtain ⟨hwrite, hread, hdamaged, -⟩ := frames_exact
  have hspells : Frame.Spells b ⟨"x", [0x21]⟩ :=
    .intro 1 0 1 0 0 0 "x" [0x21] (by decide) (by decide)
  obtain ⟨hiff, hok, -⟩ := hwrite fp [0x21] rfl
  obtain ⟨b', hb'⟩ := hiff.2 (by decide)
  obtain rfl : b' = b :=
    (Frame.spells_iff.1 (hok b' hb')).2.2.trans (Frame.spells_iff.1 hspells).2.2.symm
  obtain ⟨hcut, hrest⟩ := hdamaged b ⟨"x", [0x21]⟩ (by decide) hspells
  refine ⟨hb', (hread _ _ _).2 ⟨by decide, hspells⟩, ?_, hrest [0] (by decide)⟩
  exact hcut _ (List.take_prefix 9 b) (by decide)

end Fingerprint

end Rebuild
