/-
Synod.Proofs.Delivery -- which messages get through

A writer puts any message into a frame, and a reader takes bodies up to a limit.  So what is
read where a frame was written is the message itself if its encoding keeps to the limit, and
otherwise no message at all (`arrives_iff_short`).

A body of 2³² bytes and more is announced as a shorter one.  The reader may then take a part of
it for the whole; but no encoding begins another one, so the part is not taken for a message.
-/
import Synod.Proofs.Framing

namespace Synod.Wire

set_option autoImplicit false

/-- What a reader says about a body that is announced as longer than its limit. -/
def overlong (length : Nat) : Error :=
  .network ("Frame of " ++ Nat.repr length ++ " bytes exceeds limit of " ++ Nat.repr bodyLimit)

theorem announced_length (body : List UInt8) :
    (Header.ofBody body).length.toNat = body.length % 2 ^ 32 := rfl

/-- Below 2³² bytes the length of a body is announced as it is, and the header alone is refused
for it, whatever follows. -/
theorem readFrame_overlong {m : Message} (long : ¬ Short m) (length : (encode m).length < 2 ^ 32)
    (following : List UInt8) :
    readFrame ((Header.ofBody (encode m)).toBytes ++ following) =
      (.error (overlong (encode m).length), following) := by
  have announced : (Header.ofBody (encode m)).length.toNat = (encode m).length :=
    Nat.mod_eq_of_lt length
  rw [readFrame_toBytes, announced, if_pos (not_le.1 long)]
  rfl

/-- A part of an encoding is no message. -/
theorem decode_part {m n : Message} (sized : m.Sized) {size : Nat}
    (part : size < (encode m).length) : decode ((encode m).take size) ≠ .ok n := by
  intro decoded
  obtain ⟨rest, read⟩ := decode_eq_ok.1 decoded
  obtain ⟨sized', same⟩ := eq_encode_of_read read
  have begins : encode n <+: (encode m).take size := ⟨rest, same.symm⟩
  obtain rfl := eq_of_encode_prefix sized' sized (begins.trans (List.take_prefix _ _))
  have length := begins.length_le
  rw [List.length_take] at length
  omega

/-- Nothing is read from the frame of a message that is not short. -/
theorem readFrame_long {m n : Message} (sized : m.Sized) (long : ¬ Short m)
    {rest left : List UInt8} : readFrame (writeFrame m ++ rest) ≠ (.ok n, left) := by
  intro read
  rw [writeFrame, List.append_assoc, readFrame_toBytes, announced_length] at read
  split at read
  · cases read
  · next taken =>
    -- the announced length is not the body's own, and the reader stops within the body
    have part : (encode m).length % 2 ^ 32 < (encode m).length := by
      unfold Short at long
      omega
    rw [List.take_append_of_le_length part.le] at read
    split at read
    · cases read
    · split at read
      · split at read
        · next found => exact decode_part sized part found
        · cases read
      · cases read

/-- **A message gets through if and only if it is short.**  Whatever is read where its frame was
written is the message, and what follows the frame is left; of a message that is not short nothing
is read, and below 2³² bytes the reader says so and leaves the body. -/
theorem arrives_iff_short {m : Message} (sized : m.Sized) (rest : List UInt8) :
    (∀ n left, readFrame (writeFrame m ++ rest) = (.ok n, left) ↔
      Short m ∧ n = m ∧ left = rest) ∧
    (¬ Short m → (encode m).length < 2 ^ 32 → readFrame (writeFrame m ++ rest) =
      (.error (overlong (encode m).length), encode m ++ rest)) := by
  constructor
  · intro n left
    by_cases short : Short m
    · rw [readFrame_writeFrame short]
      constructor
      · intro same
        cases same
        exact ⟨short, rfl, rfl⟩
      · rintro ⟨-, rfl, rfl⟩
        rfl
    · exact iff_of_false (readFrame_long sized short) fun arrives => short arrives.1
  · intro long length
    rw [writeFrame, List.append_assoc, readFrame_overlong long length]

/-! ## One byte too many -/

/-- A text of this many bytes. -/
def letters (count : Nat) : Value := String.ofList (List.replicate count 'x')

theorem utf8ByteSize_letters (count : Nat) : (letters count).utf8ByteSize = count := by
  unfold letters
  induction count with
  | zero => rfl
  | succ count ih =>
    rw [List.replicate_succ, String.ofList_cons, String.utf8ByteSize_append, ih,
      String.utf8ByteSize_singleton, Nat.add_comm]
    rfl

/-- The shortest proposal that is not short. -/
def tooLong : Message := .propose (letters 16777205)

theorem length_encode_tooLong : (encode tooLong).length = 16777217 := by
  rw [tooLong, encode, List.length_append, length_littleEndian, length_writeText,
    utf8ByteSize_letters]

theorem tooLong_long : ¬ Short tooLong := by
  rw [Short, length_encode_tooLong]
  decide

theorem arrives_iff_short_tooLong :
    tooLong.Sized ∧ (encode tooLong).length = 16777217 ∧
      (∀ rest n left, readFrame (writeFrame tooLong ++ rest) ≠ (.ok n, left)) ∧
      (readFrame (writeFrame tooLong ++ [0xFF])).2 = encode tooLong ++ [0xFF] := by
  have sized : tooLong.Sized := by
    simp [Message.Sized, Message.texts, tooLong, Fits, utf8ByteSize_letters]
  have length := length_encode_tooLong
  refine ⟨sized, length, fun rest n left read => ?_, ?_⟩
  · exact tooLong_long (((arrives_iff_short sized rest).1 n left).1 read).1
  · rw [(arrives_iff_short sized [0xFF]).2 tooLong_long (by rw [length]; decide)]

/-- It is written, and the reader refuses what is written, as soon as it has the header. -/
theorem tooLong_refused :
    (writeFrame tooLong).length = 16777225 ∧
      readFrame (writeFrame tooLong) =
        (.error (.network "Frame of 16777217 bytes exceeds limit of 16777216"),
          encode tooLong) ∧
      readFrame ((writeFrame tooLong).take Header.size) =
        (.error (.network "Frame of 16777217 bytes exceeds limit of 16777216"), []) := by
  have length := length_encode_tooLong
  have text : overlong 16777217 =
      .network "Frame of 16777217 bytes exceeds limit of 16777216" := by decide +kernel
  have read := readFrame_overlong tooLong_long (by rw [length]; decide)
  rw [length, text] at read
  have header : (writeFrame tooLong).take Header.size =
      (Header.ofBody (encode tooLong)).toBytes ++ [] := by
    rw [writeFrame, List.take_left' (Header.length_toBytes _), List.append_nil]
  exact ⟨by rw [length_writeFrame, length]; rfl, read _, by rw [header, read]⟩

end Synod.Wire
