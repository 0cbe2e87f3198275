/-
Synod.Proofs.Framing -- a stream may be cut anywhere

A frame is read whole from whatever follows it (`readFrame_writeFrame`), and a frame that
is cut short is the end of the stream: reading fails as it does on an empty one, and leaves
nothing (`readFrame_cut`).  By induction over the messages that were written, a stream that
is cut at any byte yields the messages whose frames are whole (`readFrames_cut`).
-/
import Synod.Proofs.Codec
import Synod.Wire.Frame

namespace Synod.Wire

set_option autoImplicit false

/-! ## Short messages -/

theorem length_writeText (s : String) : (writeText s).length = 8 + s.utf8ByteSize := by
  simp [writeText]

theorem length_writeBallot (b : Ballot) :
    (writeBallot b).length = 16 + b.owner.utf8ByteSize := by
  simp only [writeBallot, List.length_append, length_littleEndian, length_writeText]
  omega

theorem length_writeOption {α : Type} {write : α → List UInt8} {o : Option α} {x : α}
    (given : o = some x) : (writeOption write o).length = 1 + (write x).length := by
  rw [given, writeOption, List.length_cons, Nat.add_comm]

/-- An encoding is longer than any text in it. -/
theorem size_le_of_mem {m : Message} {s : String} (mem : s ∈ m.texts) :
    s.utf8ByteSize ≤ (encode m).length := by
  cases m with
  | promise sender b vote value =>
    simp only [Message.texts, List.mem_cons, List.mem_append, Option.mem_toList,
      Option.map_eq_some_iff] at mem
    simp only [encode, List.length_append, length_littleEndian, length_writeText,
      length_writeBallot]
    rcases mem with rfl | rfl | ⟨c, given, rfl⟩ | given
    · omega
    · omega
    · rw [length_writeOption given, length_writeBallot]
      omega
    · rw [length_writeOption given, length_writeText]
      omega
  | _ =>
    simp only [Message.texts, List.mem_cons, List.not_mem_nil, or_false] at mem
    simp only [encode, List.length_append, length_littleEndian, length_writeText,
      length_writeBallot]
    rcases mem with rfl | rfl | rfl <;> omega

/-- A body that a reader takes. -/
def Short (m : Message) : Prop := (encode m).length ≤ bodyLimit

instance (m : Message) : Decidable (Short m) := inferInstanceAs (Decidable (_ ≤ _))

theorem Short.sized {m : Message} (short : Short m) : m.Sized := fun _ mem =>
  lt_of_le_of_lt ((size_le_of_mem mem).trans short) (by decide)

/-! ## One frame -/

namespace Header

@[simp] theorem length_toBytes (h : Header) : h.toBytes.length = size := by
  simp [toBytes, size]

theorem ofBytes_toBytes (h : Header) (rest : List UInt8) : ofBytes (h.toBytes ++ rest) = h := by
  have range : 256 ^ 4 = 2 ^ 32 := by norm_num
  have first : (h.toBytes ++ rest).take 4 = littleEndian 4 h.length.toNat := by
    simp [toBytes]
  have second : ((h.toBytes ++ rest).drop 4).take 4 = littleEndian 4 h.checksum.toNat := by
    simp [toBytes]
  rw [ofBytes, first, second, ofLittleEndian_littleEndian, ofLittleEndian_littleEndian, range,
    Nat.mod_eq_of_lt h.length.toNat_lt, Nat.mod_eq_of_lt h.checksum.toNat_lt, UInt32.ofNat_toNat,
    UInt32.ofNat_toNat]

/-- The length of a body that a reader takes is announced as it is. -/
theorem length_ofBody {m : Message} (short : Short m) :
    (ofBody (encode m)).length.toNat = (encode m).length := by
  have small : (encode m).length < 2 ^ 32 := lt_of_le_of_lt short (by decide)
  exact Nat.mod_eq_of_lt small

end Header

theorem length_writeFrame (m : Message) :
    (writeFrame m).length = Header.size + (encode m).length := by
  simp [writeFrame]

/-- What a reader does after a header. -/
theorem readFrame_toBytes (h : Header) (rest : List UInt8) :
    readFrame (h.toBytes ++ rest) =
      if bodyLimit < h.length.toNat then
        (.error (.network ("Frame of " ++ Nat.repr h.length.toNat ++ " bytes exceeds limit of " ++
          Nat.repr bodyLimit)), rest)
      else if rest.length < h.length.toNat then (.error endOfStream, [])
      else
        if h.verify (rest.take h.length.toNat) then
          match decode (rest.take h.length.toNat) with
          | .ok n => (.ok n, rest.drop h.length.toNat)
          | .error e => (.error (.decode e), rest.drop h.length.toNat)
        else (.error (.network "Message checksum mismatch"), rest.drop h.length.toNat) := by
  have long : ¬ (h.toBytes ++ rest).length < Header.size := by
    rw [List.length_append, Header.length_toBytes]
    omega
  have body : (h.toBytes ++ rest).drop Header.size = rest :=
    List.drop_left' (Header.length_toBytes _)
  have read : readFrame (h.toBytes ++ rest) = _ := if_neg long
  simp only [Header.ofBytes_toBytes, body] at read
  exact read

/-- What has come after a frame's header decides, together with the body that is read. -/
theorem readFrame_body {m : Message} (short : Short m) (rest : List UInt8) :
    readFrame ((Header.ofBody (encode m)).toBytes ++ rest) =
      if rest.length < (encode m).length then (.error endOfStream, [])
      else
        if (Header.ofBody (encode m)).verify (rest.take (encode m).length) then
          match decode (rest.take (encode m).length) with
          | .ok n => (.ok n, rest.drop (encode m).length)
          | .error e => (.error (.decode e), rest.drop (encode m).length)
        else (.error (.network "Message checksum mismatch"), rest.drop (encode m).length) := by
  have taken : ¬ bodyLimit < (encode m).length := not_lt.2 short
  rw [readFrame_toBytes, Header.length_ofBody short, if_neg taken]

/-- **A whole frame is read**, and what follows it is left. -/
theorem readFrame_writeFrame {m : Message} (short : Short m) (rest : List UInt8) :
    readFrame (writeFrame m ++ rest) = (.ok m, rest) := by
  have whole : ¬ (encode m ++ rest).length < (encode m).length := by
    rw [List.length_append]
    omega
  have verified : (Header.ofBody (encode m)).verify (encode m) = true := decide_eq_true rfl
  have decoded : decode (encode m) = .ok m :=
    decode_eq_ok.2 ⟨[], by simpa using read_encode short.sized []⟩
  rw [writeFrame, List.append_assoc, readFrame_body short, if_neg whole, List.take_left,
    List.drop_left, if_pos verified, decoded]

/-- A frame that is cut short is the end of the stream. -/
theorem readFrame_cut {m : Message} (short : Short m) {bytes : List UInt8}
    (cut : bytes <+: writeFrame m) (less : bytes.length < (writeFrame m).length) :
    readFrame bytes = (.error endOfStream, []) := by
  by_cases headless : bytes.length < Header.size
  · unfold readFrame
    rw [if_pos headless]
  · have header : (Header.ofBody (encode m)).toBytes <+: bytes := by
      refine List.prefix_of_prefix_length_le (List.prefix_append _ _) cut ?_
      rw [Header.length_toBytes]
      exact not_lt.1 headless
    obtain ⟨body, rfl⟩ := header
    have part : body.length < (encode m).length := by
      rw [length_writeFrame, List.length_append, Header.length_toBytes] at less
      omega
    rw [readFrame_body short, if_pos part]

/-! ## The stream -/

/-- What is written for some messages. -/
def stream (ms : List Message) : List UInt8 := ms.flatMap writeFrame

@[simp] theorem stream_nil : stream [] = [] := rfl

@[simp] theorem stream_cons (m : Message) (ms : List Message) :
    stream (m :: ms) = writeFrame m ++ stream ms := rfl

theorem readFrames_error {bytes left : List UInt8} {failure : Error}
    (read : readFrame bytes = (.error failure, left)) :
    readFrames bytes = { messages := [], failure, unread := left } := by
  rw [readFrames]
  split <;> simp_all

theorem readFrames_ok {bytes left : List UInt8} {m : Message}
    (read : readFrame bytes = (.ok m, left)) :
    readFrames bytes = { readFrames left with messages := m :: (readFrames left).messages } := by
  rw [readFrames]
  split <;> simp_all

/-- **A stream that is cut anywhere yields the messages whose frames are whole**, in order
and each once, and then its end, with nothing left. -/
theorem readFrames_cut {ms : List Message} (short : ∀ m ∈ ms, Short m) {bytes : List UInt8}
    (cut : bytes <+: stream ms) :
    ∃ k ≤ ms.length, (∀ i ≤ ms.length, stream (ms.take i) <+: bytes ↔ i ≤ k) ∧
      readFrames bytes = { messages := ms.take k, failure := endOfStream, unread := [] } := by
  induction ms generalizing bytes with
  | nil =>
    obtain rfl := List.prefix_nil.1 cut
    exact ⟨0, le_rfl, by simp, readFrames_error rfl⟩
  | cons m rest ih =>
    have here := short m List.mem_cons_self
    rcases lt_or_ge bytes.length (writeFrame m).length with less | whole
    · have part : bytes <+: writeFrame m :=
        List.prefix_of_prefix_length_le cut (List.prefix_append _ _) less.le
      refine ⟨0, Nat.zero_le _, fun i _ => ?_, readFrames_error (readFrame_cut here part less)⟩
      cases i with
      | zero => simp
      | succ i =>
        refine ⟨fun begins => ?_, fun none => absurd none (Nat.not_succ_le_zero i)⟩
        have more := begins.length_le
        rw [List.take_succ_cons, stream_cons, List.length_append] at more
        omega
    · obtain ⟨left, rfl⟩ := List.prefix_of_prefix_length_le (List.prefix_append _ _) cut whole
      rw [stream_cons, List.prefix_append_right_inj] at cut
      obtain ⟨k, le, frames, read⟩ := ih (fun n mem => short n (List.mem_cons_of_mem _ mem)) cut
      refine ⟨k + 1, Nat.succ_le_succ le, fun i bound => ?_, ?_⟩
      · cases i with
        | zero => simp
        | succ i =>
          rw [List.take_succ_cons, stream_cons, List.prefix_append_right_inj,
            frames i (Nat.le_of_succ_le_succ bound), Nat.succ_le_succ_iff]
      · rw [readFrames_ok (readFrame_writeFrame here left), read]
        rfl

/-- Two frames, the second of which breaks off in its body. -/
def brokenOff : List UInt8 :=
  (stream [.propose "x", .heartbeat "a" { number := 1, owner := "a" }]).take 40

theorem readFrames_cut_brokenOff :
    (∀ m ∈ [.propose "x", .heartbeat "a" { number := 1, owner := "a" }], Short m) ∧
      brokenOff <+: stream [.propose "x", .heartbeat "a" { number := 1, owner := "a" }] ∧
      readFrames brokenOff =
        { messages := [.propose "x"], failure := endOfStream, unread := [] } := by
  have short : ∀ m ∈ [.propose "x", .heartbeat "a" { number := 1, owner := "a" }], Short m := by
    decide
  have cut : brokenOff <+: stream [.propose "x", .heartbeat "a" { number := 1, owner := "a" }] :=
    List.take_prefix _ _
  obtain ⟨k, -, frames, read⟩ := readFrames_cut short cut
  have first : 1 ≤ k := (frames 1 (by decide)).1 (by decide +kernel)
  have second : ¬ 2 ≤ k := fun more => absurd ((frames 2 (by decide)).2 more) (by decide +kernel)
  obtain rfl : k = 1 := by omega
  exact ⟨short, cut, read⟩

end Synod.Wire
