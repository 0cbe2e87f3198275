/-
Synod.Proofs.Checksum -- a damaged frame is not delivered

Dividing out one bit loses nothing: the generator has its highest bit set, so that the highest
bit of what comes out tells whether the lowest one was divided out (`shift_injective`).  Feeding a
byte is therefore injective in the register and in the byte, and two bodies that differ in one
byte leave different registers behind this byte and, by induction over the rest, to the end
(`checksum_inj`).

A frame that is damaged in one byte of its checksum or of its body is then refused, and what
follows it is left; on a stream, the messages before it have been delivered, and it ends there
(`damaged_refused`).
-/
import Synod.Proofs.Framing

namespace Synod.Wire

set_option autoImplicit false

namespace Checksum

/-! ## The register -/

theorem toNat_half (r : UInt32) : (r >>> 1).toNat = r.toNat / 2 := by
  rw [UInt32.toNat_shiftRight]
  exact Nat.shiftRight_eq_div_pow _ 1

theorem odd_iff {r : UInt32} : r &&& 1 = 1 ↔ r.toNat % 2 = 1 := by
  rw [← UInt32.toNat_inj, UInt32.toNat_and]
  exact Nat.and_one_is_mod _ ▸ Iff.rfl

theorem eq_of_half {r s : UInt32} (half : r >>> 1 = s >>> 1)
    (low : r &&& 1 = 1 ↔ s &&& 1 = 1) : r = s := by
  have same := congrArg UInt32.toNat half
  rw [toNat_half, toNat_half] at same
  rw [odd_iff, odd_iff] at low
  rw [← UInt32.toNat_inj]
  omega

/-- No half has the highest bit, which the generator has. -/
theorem half_xor_ne (r s : UInt32) : (r >>> 1) ^^^ generator ≠ s >>> 1 := by
  intro same
  have low (t : UInt32) : (t >>> 1).toNat < 2 ^ 31 := by
    have := t.toNat_lt
    rw [toNat_half]
    omega
  have apart : generator = (r >>> 1) ^^^ (s >>> 1) := by
    rw [← same, ← UInt32.xor_assoc, UInt32.xor_self, UInt32.zero_xor]
  have small := Nat.xor_lt_two_pow (low r) (low s)
  rw [← UInt32.toNat_xor, ← apart] at small
  exact absurd small (by decide)

theorem shift_injective : Function.Injective shift := by
  intro r s same
  unfold shift at same
  -- by the lowest bits, which have left the registers; if they differ, the highest ones do now
  by_cases odd : r &&& 1 = 1 <;> by_cases odd' : s &&& 1 = 1
  · rw [if_pos odd, if_pos odd', UInt32.xor_left_inj] at same
    exact eq_of_half same (iff_of_true odd odd')
  · rw [if_pos odd, if_neg odd'] at same
    exact absurd same (half_xor_ne r s)
  · rw [if_neg odd, if_pos odd'] at same
    exact absurd same.symm (half_xor_ne s r)
  · rw [if_neg odd, if_neg odd'] at same
    exact eq_of_half same (iff_of_false odd odd')

/-! ## Bytes -/

theorem feed_eq (r : UInt32) (b : UInt8) : feed r b = shift^[8] (r ^^^ b.toUInt32) := rfl

theorem feed_left_inj {r s : UInt32} {b : UInt8} : feed r b = feed s b ↔ r = s := by
  rw [feed_eq, feed_eq, (shift_injective.iterate 8).eq_iff, UInt32.xor_left_inj]

theorem feed_right_inj {r : UInt32} {b c : UInt8} : feed r b = feed r c ↔ b = c := by
  rw [feed_eq, feed_eq, (shift_injective.iterate 8).eq_iff, UInt32.xor_right_inj,
    UInt8.toUInt32_inj]

/-- Registers that differ stay different, whatever is fed to both. -/
theorem foldl_feed_inj {r s : UInt32} (bytes : List UInt8) :
    bytes.foldl feed r = bytes.foldl feed s ↔ r = s := by
  induction bytes generalizing r s with
  | nil => rfl
  | cons b rest ih => rw [List.foldl_cons, List.foldl_cons, ih, feed_left_inj]

/-- The checksum tells bytes apart that differ in one place. -/
theorem checksum_inj {front back : List UInt8} {b c : UInt8} :
    checksum (front ++ b :: back) = checksum (front ++ c :: back) ↔ b = c := by
  simp only [checksum, List.foldl_append, List.foldl_cons]
  rw [UInt32.xor_left_inj, foldl_feed_inj, feed_right_inj]

theorem checksum_set {bytes : List UInt8} {i : Nat} {c : UInt8} (changed : bytes.set i c ≠ bytes) :
    checksum (bytes.set i c) ≠ checksum bytes := by
  have inside : i < bytes.length := by
    by_contra outside
    exact changed (List.set_eq_of_length_le (not_lt.1 outside))
  have whole : bytes = bytes.take i ++ bytes[i] :: bytes.drop (i + 1) := by
    rw [List.getElem_cons_drop, List.take_append_drop]
  intro same
  rw [List.set_eq_take_append_cons_drop, if_pos inside] at same
  nth_rewrite 3 [whole] at same
  obtain rfl := checksum_inj.1 same
  exact changed (List.set_getElem_self inside)

/-- What the digits from 1 to 9 come to. -/
example : checksum "123456789".toUTF8.toList = 0xCBF43926 := by decide +kernel

end Checksum

/-! ## Frames -/

/-- A body is refused for a checksum that is not its own. -/
theorem readFrame_mismatch {h : Header} {body : List UInt8} (taken : body.length ≤ bodyLimit)
    (announced : h.length.toNat = body.length) (bad : Checksum.checksum body ≠ h.checksum)
    (rest : List UInt8) : readFrame (h.toBytes ++ (body ++ rest)) =
      (.error (.network "Message checksum mismatch"), rest) := by
  have whole : ¬ (body ++ rest).length < body.length := by
    rw [List.length_append]
    omega
  have refused : ¬ h.verify body = true := by simpa [Header.verify] using bad
  rw [readFrame_toBytes, announced, if_neg (not_lt.2 taken), if_neg whole, List.take_left,
    if_neg refused, List.drop_left]

/-- Any four bytes are what is written for some number. -/
theorem exists_number {bytes : List UInt8} (four : bytes.length = 4) :
    ∃ n : UInt32, littleEndian 4 n.toNat = bytes := by
  have small := ofLittleEndian_lt bytes
  rw [four] at small
  refine ⟨UInt32.ofNat (ofLittleEndian bytes), ?_⟩
  rw [UInt32.toNat_ofNat_of_lt' small, ← four, littleEndian_ofLittleEndian]

/-- The checksum of a frame is refused if it is written in another way. -/
theorem readFrame_otherChecksum {m : Message} (short : Short m) {field : List UInt8}
    (four : field.length = 4)
    (other : field ≠ littleEndian 4 (Header.ofBody (encode m)).checksum.toNat)
    (rest : List UInt8) :
    readFrame (littleEndian 4 (Header.ofBody (encode m)).length.toNat ++
        (field ++ (encode m ++ rest))) =
      (.error (.network "Message checksum mismatch"), rest) := by
  obtain ⟨n, rfl⟩ := exists_number four
  have bad : Checksum.checksum (encode m) ≠ n := fun same => other (by rw [← same]; rfl)
  have read := readFrame_mismatch
    (h := { length := (Header.ofBody (encode m)).length, checksum := n }) short
    (Header.length_ofBody short) bad rest
  rwa [Header.toBytes, List.append_assoc] at read

/-- A body of the same length is refused if its checksum is another one. -/
theorem readFrame_otherBody {m : Message} (short : Short m) {body : List UInt8}
    (length : body.length = (encode m).length)
    (other : Checksum.checksum body ≠ Checksum.checksum (encode m)) (rest : List UInt8) :
    readFrame ((Header.ofBody (encode m)).toBytes ++ (body ++ rest)) =
      (.error (.network "Message checksum mismatch"), rest) :=
  readFrame_mismatch (length.trans_le short) ((Header.length_ofBody short).trans length.symm)
    other rest

/-- A frame is refused if one byte of it is another one, and does not belong to the length. -/
theorem readFrame_damaged {m : Message} (short : Short m) {i : Nat} (past : 4 ≤ i) {c : UInt8}
    (changed : (writeFrame m).set i c ≠ writeFrame m) (rest : List UInt8) :
    readFrame ((writeFrame m).set i c ++ rest) =
      (.error (.network "Message checksum mismatch"), rest) := by
  have four (n : Nat) : (littleEndian 4 n).length = 4 := length_littleEndian 4 n
  have eight := Header.length_toBytes (Header.ofBody (encode m))
  by_cases header : i < Header.size
  · have parts : (writeFrame m).set i c =
        littleEndian 4 (Header.ofBody (encode m)).length.toNat ++
          ((littleEndian 4 (Header.ofBody (encode m)).checksum.toNat).set (i - 4) c ++
            encode m) := by
      rw [writeFrame, List.set_append_left _ _ (eight.symm ▸ header), Header.toBytes,
        List.set_append_right _ _ ((four _).symm ▸ past), four, List.append_assoc]
    rw [parts, List.append_assoc, List.append_assoc]
    refine readFrame_otherChecksum short (by rw [List.length_set, four]) (fun same => ?_) rest
    exact changed (by rw [parts, same, writeFrame, Header.toBytes, List.append_assoc])
  · have parts : (writeFrame m).set i c =
        (Header.ofBody (encode m)).toBytes ++ (encode m).set (i - Header.size) c := by
      rw [writeFrame, List.set_append_right _ _ (eight.symm ▸ not_lt.1 header), eight]
    rw [parts, List.append_assoc]
    refine readFrame_otherBody short List.length_set (Checksum.checksum_set fun same => ?_) rest
    exact changed (by rw [parts, same, writeFrame])

/-- Whole frames are read before what follows them. -/
theorem readFrames_stream {ms : List Message} (short : ∀ m ∈ ms, Short m) (bytes : List UInt8) :
    readFrames (stream ms ++ bytes) =
      { readFrames bytes with messages := ms ++ (readFrames bytes).messages } := by
  induction ms with
  | nil => rfl
  | cons m rest ih =>
    have here := short m List.mem_cons_self
    rw [stream_cons, List.append_assoc, readFrames_ok (readFrame_writeFrame here _),
      ih fun n mem => short n (List.mem_cons_of_mem _ mem)]
    rfl

/-- **A damaged frame is never delivered.**  Let one byte of a frame be changed, in its checksum
or in its body.  The reader refuses it for its checksum and takes no message from it, and what
follows is left.  On a stream, what was written before it is delivered, and nothing else. -/
theorem damaged_refused {m : Message} (short : Short m) {i : Nat} (past : 4 ≤ i) {c : UInt8}
    (changed : (writeFrame m).set i c ≠ writeFrame m) {ms : List Message}
    (before : ∀ n ∈ ms, Short n) (rest : List UInt8) :
    readFrame ((writeFrame m).set i c ++ rest) =
        (.error (.network "Message checksum mismatch"), rest) ∧
      readFrames (stream ms ++ ((writeFrame m).set i c ++ rest)) =
        { messages := ms, failure := .network "Message checksum mismatch", unread := rest } := by
  have refused := readFrame_damaged short past changed rest
  refine ⟨refused, ?_⟩
  rw [readFrames_stream before, readFrames_error refused, List.append_nil]

/-- The last byte of a proposal is another one: the text changes by one letter. -/
theorem damaged_refused_otherLetter :
    (writeFrame (.propose "xy")).set 21 0x7A ≠ writeFrame (.propose "xy") ∧
      readFrames (writeFrame (.propose "x") ++
          ((writeFrame (.propose "xy")).set 21 0x7A ++ writeFrame (.propose "y"))) =
        { messages := [.propose "x"], failure := .network "Message checksum mismatch",
          unread := writeFrame (.propose "y") } := by
  have changed : (writeFrame (.propose "xy")).set 21 0x7A ≠ writeFrame (.propose "xy") := by
    decide +kernel
  have before : ∀ n ∈ [Message.propose "x"], Short n := by decide
  exact ⟨changed, (damaged_refused (m := .propose "xy") (by decide) (by decide) changed before
    (writeFrame (.propose "y"))).2⟩

end Synod.Wire
