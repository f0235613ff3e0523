import Rebuild.Digest.ContentHash

/-!
# Hashes of streams

A digest that is taken piece by piece keeps the words after the whole blocks seen so far and the
bytes of the open block. However a message is cut, these are what the message at once would leave,
so that a reader and the bytes that it yields have the same hash. A short piece leaves the end of an
earlier one in the buffer, where the digest must not look.

* `Sha256.absorb_append`: blocks can be absorbed in two parts.
* `Hasher.Holds`: what a digest under way has seen.
* `ContentHash.contents`: what a reader yields in all.
* `ofReads_eq`: hashing a reader is hashing what it yields, with the same failure.
* `contents_readsOf`: a reader of bytes at hand yields these.
* `ofReads_pieces`: a message in any pieces, and a failure after some of them.
-/
namespace Rebuild

namespace Sha256

/-! ## Blocks in two parts -/

theorem absorb_of_block {s : Words} {bytes : Bytes} (h : (bytes.take 64).length = 64) :
    absorb s bytes = absorb (compress s (bytes.take 64)) (bytes.drop 64) := by
  rw [absorb, dif_pos h]

theorem absorb_of_short {s : Words} {bytes : Bytes} (h : (bytes.take 64).length ≠ 64) :
    absorb s bytes = (s, bytes) := by
  rw [absorb, dif_neg h]

theorem absorb_append (s : Words) (a b : Bytes) :
    absorb s (a ++ b) = absorb (absorb s a).1 ((absorb s a).2 ++ b) := by
  fun_induction absorb s a with
  | case1 s a hblock ih =>
    have hlength : 64 ≤ a.length := by rw [List.length_take] at hblock; omega
    have htake : (a ++ b).take 64 = a.take 64 := List.take_append_of_le_length hlength
    have hdrop : (a ++ b).drop 64 = a.drop 64 ++ b := List.drop_append_of_le_length hlength
    rw [absorb_of_block (by rw [htake]; exact hblock), htake, hdrop, ih]
  | case2 s a _ => rfl

/-! ## A digest under way -/

namespace Hasher

/-- A digest under way that has seen a message. -/
structure Holds (h : Hasher) (message : Bytes) : Prop where
  absorbed : absorb initial message = (h.words, h.pending)
  length : h.length = message.length

theorem holds_nil : Holds {} [] where
  absorbed := absorb_of_short (by simp)
  length := rfl

/-- The next piece goes behind the message seen so far. -/
theorem Holds.update {h : Hasher} {message : Bytes} (hh : h.Holds message) (piece : Bytes) :
    (h.update piece).Holds (message ++ piece) where
  absorbed := by
    unfold Hasher.update
    rw [absorb_append, hh.absorbed]
  length := by
    unfold Hasher.update
    rw [List.length_append, ← hh.length]

theorem Holds.finish {h : Hasher} {message : Bytes} (hh : h.Holds message) :
    h.finish = digest message := by
  unfold Hasher.finish digest
  rw [absorb_append initial message, hh.absorbed, hh.length]

end Hasher

end Sha256

namespace ContentHash
open Sha256

variable {ε : Type}

/-! ## Readers -/

/-- Everything a reader yields, or its first failure. -/
def contents : Reads ε → Except ε Bytes
  | [] => .ok []
  | .ok [] :: _ => .ok []
  | .ok piece :: rest => (piece ++ ·) <$> contents rest
  | .error e :: _ => .error e

/-- As long as a reader is not at its end, no call gives more bytes than the buffer can hold. -/
def Fits : Reads ε → Prop
  | .ok piece :: rest => piece.length ≤ bufferSize ∧ (piece ≠ [] → Fits rest)
  | _ => True

/-- What stood in the buffer does not get into the digest. -/
theorem take_fill {piece : Bytes} (buffer : Bytes) (h : piece.length ≤ bufferSize) :
    (fill buffer piece).take piece.length = piece := by
  rw [fill, List.take_of_length_le h, List.take_left]

/-- The loop, at any point of a message: the digest holds what has been read. -/
theorem ofReadsFrom_eq : ∀ {reads : Reads ε} {h : Hasher} {seen : Bytes} (buffer : Bytes),
    h.Holds seen → Fits reads →
      ofReadsFrom h buffer reads = (fun later => ofBytes (seen ++ later)) <$> contents reads
  | [], h, seen, _, hh, _ => by
    rw [ofReadsFrom, hh.finish]
    exact congrArg (fun b => Except.ok (ofBytes b)) (List.append_nil seen).symm
  | .ok [] :: rest, h, seen, _, hh, _ => by
    rw [ofReadsFrom, hh.finish]
    exact congrArg (fun b => Except.ok (ofBytes b)) (List.append_nil seen).symm
  | .error _ :: _, _, _, _, _, _ => rfl
  | .ok (b :: piece) :: rest, h, seen, buffer, hh, hfits => by
    have hnext := hh.update (b :: piece)
    rw [ofReadsFrom, take_fill buffer hfits.1,
      ofReadsFrom_eq _ hnext (hfits.2 (List.cons_ne_nil b piece))]
    · rw [contents, Functor.map_map]
      · simp only [List.append_assoc]
      · exact fun h => List.cons_ne_nil _ _ h
    · exact fun h => List.cons_ne_nil _ _ h

theorem ofReads_eq {reads : Reads ε} (h : Fits reads) :
    ofReads reads = ofBytes <$> contents reads := by
  rw [ofReads, ofReadsFrom_eq _ Hasher.holds_nil h]
  simp only [List.nil_append]

/-! ## Readers of bytes at hand -/

theorem fits_readsFrom {chunk : Nat} {failAt : Option Nat} {failure : ε} :
    ∀ {fuel given : Nat} {data : Bytes}, Fits (readsFrom chunk failAt failure fuel given data)
  | 0, _, _ => trivial
  | fuel + 1, given, data => by
    rw [readsFrom]
    split
    · trivial
    · dsimp only
      split
      · trivial
      · refine ⟨?_, fun _ => fits_readsFrom⟩
        exact Nat.le_trans (List.length_take_le _ _) (Nat.min_le_right _ _)

/-- A reader that does not fail yields all the bytes, however few it gives at a call. -/
theorem contents_readsFrom {chunk : Nat} (hchunk : 0 < chunk) (failure : ε) :
    ∀ {fuel given : Nat} {data : Bytes}, data.length < fuel →
      contents (readsFrom chunk none failure fuel given data) = .ok data
  | 0, _, _, h => absurd h (Nat.not_lt_zero _)
  | fuel + 1, given, data, h => by
    have hsize : 0 < Nat.min chunk bufferSize := Nat.lt_min.2 ⟨hchunk, Nat.succ_pos _⟩
    rw [readsFrom, Option.any_none, if_neg Bool.false_ne_true]
    generalize hpiece : data.take (Nat.min chunk bufferSize) = piece
    dsimp only
    split
    next hnil =>
      rw [hnil, List.take_eq_nil_iff] at hpiece
      rw [hpiece.resolve_left (by omega)]
      rfl
    next hne =>
      have hdata : piece ++ data.drop piece.length = data := by
        rw [← hpiece, List.length_take, List.drop_eq_drop_min, Nat.min_assoc, Nat.min_self,
          ← List.drop_eq_drop_min, List.take_append_drop]
      have hshorter : (data.drop piece.length).length < fuel := by
        have := List.length_pos_iff.2 hne
        rw [List.length_drop]
        have := congrArg List.length hdata
        rw [List.length_append, List.length_drop] at this
        omega
      rw [contents, contents_readsFrom hchunk failure hshorter]
      · exact congrArg Except.ok hdata
      · exact fun h => hne h

theorem contents_readsOf {chunk : Nat} (hchunk : 0 < chunk) (failure : ε) (data : Bytes) :
    contents (readsOf chunk none failure data) = .ok data :=
  contents_readsFrom hchunk failure (Nat.lt_succ_self _)

/-! ## A message in pieces -/

theorem fits_pieces {rest : Reads ε} (hrest : Fits rest) : ∀ {pieces : List Bytes},
    (∀ p ∈ pieces, p.length ≤ bufferSize) → Fits (pieces.map .ok ++ rest)
  | [], _ => hrest
  | piece :: _, h =>
    ⟨h piece List.mem_cons_self,
      fun _ => fits_pieces hrest fun p hp => h p (List.mem_cons_of_mem _ hp)⟩

theorem contents_pieces (rest : Reads ε) : ∀ {pieces : List Bytes}, (∀ p ∈ pieces, p ≠ []) →
    contents (pieces.map .ok ++ rest) = (pieces.flatten ++ ·) <$> contents rest
  | [], _ => by
    show contents rest = _
    cases contents rest <;> rfl
  | [] :: pieces, h => absurd rfl (h [] List.mem_cons_self)
  | (b :: piece) :: pieces, h => by
    have ih := contents_pieces rest fun p hp => h p (List.mem_cons_of_mem _ hp)
    rw [List.map_cons, List.cons_append, contents, ih]
    · cases contents rest with
      | error e => rfl
      | ok later => exact congrArg Except.ok (List.append_assoc ..).symm
    · exact fun h => List.cons_ne_nil _ _ h

/-- A message in any pieces has the hash of the message, whether the reader stops or says that it
is at its end. A reader that fails on the way has no hash. -/
theorem ofReads_pieces {pieces : List Bytes}
    (hpieces : ∀ p ∈ pieces, p ≠ [] ∧ p.length ≤ bufferSize) (later : Reads ε) :
    ofReads (ε := ε) (pieces.map .ok) = .ok (ofBytes pieces.flatten) ∧
    ofReads (pieces.map .ok ++ .ok [] :: later) = .ok (ofBytes pieces.flatten) ∧
    ∀ e, ofReads (pieces.map .ok ++ .error e :: later) = .error e := by
  have hash (rest : Reads ε) (hrest : Fits rest) :
      ofReads (pieces.map .ok ++ rest) =
        ofBytes <$> (pieces.flatten ++ ·) <$> contents rest := by
    rw [ofReads_eq (fits_pieces hrest fun p hp => (hpieces p hp).2),
      contents_pieces rest fun p hp => (hpieces p hp).1]
  refine ⟨?_, ?_, ?_⟩
  · have h := hash [] trivial
    rw [List.append_nil] at h
    exact h.trans (congrArg (fun b => Except.ok (ofBytes b)) (List.append_nil _))
  · have hend : Fits (.ok [] :: later : Reads ε) := ⟨Nat.zero_le _, fun h => absurd rfl h⟩
    exact (hash _ hend).trans (congrArg (fun b => Except.ok (ofBytes b)) (List.append_nil _))
  · intro e
    exact hash _ trivial

/-- A short piece after a full one, the end of which it leaves in the buffer. -/
theorem ofReads_pieces_short :
    (∀ p ∈ [List.replicate bufferSize (1 : UInt8), [2]], p ≠ [] ∧ p.length ≤ bufferSize) ∧
    ofReads ([List.replicate bufferSize 1, [2]].map .ok ++ [.ok [], .error "gone"]) =
      .ok (ofBytes [List.replicate bufferSize 1, [2]].flatten) ∧
    ofReads ([List.replicate bufferSize 1, [2]].map .ok ++ [.error "gone"]) = .error "gone" := by
  have hfull : (List.replicate bufferSize (1 : UInt8)).length = bufferSize := List.length_replicate
  have hpieces : ∀ p ∈ [List.replicate bufferSize (1 : UInt8), [2]],
      p ≠ [] ∧ p.length ≤ bufferSize := by
    refine List.forall_mem_cons.2 ⟨⟨List.ne_nil_of_length_pos ?_, Nat.le_of_eq hfull⟩,
      List.forall_mem_singleton.2 ⟨List.cons_ne_nil _ _, ?_⟩⟩
    · rw [hfull]
      exact Nat.succ_pos _
    · exact Nat.succ_le_succ (Nat.zero_le _)
  exact ⟨hpieces, (ofReads_pieces hpieces [.error "gone"]).2.1,
    (ofReads_pieces hpieces []).2.2 "gone"⟩

end ContentHash

end Rebuild
