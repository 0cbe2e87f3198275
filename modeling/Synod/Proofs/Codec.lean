/-
Synod.Proofs.Codec -- a message is read where its bytes stand, and nowhere else

A reader is exact for a writer if it answers with a value just where the bytes begin with
what is written for this value, and leaves the bytes that follow (`Exact`).  Every reader of
the codec is exact, for numbers and texts whose size the format can tell, so decoding finds
a message if and only if its encoding is what the bytes begin with (`decode_eq_ok_iff`).

Hence no message has two encodings, none is read from anything else, and no encoding begins
another (`eq_of_encode_prefix`).
-/
import Mathlib.Data.Nat.ModEq
import Mathlib.Tactic.Ring
import Synod.Wire.Codec

namespace Synod

set_option autoImplicit false

/-! ## Texts that fit -/

/-- A text whose size takes no more than the eight bytes that announce it. -/
def Fits (s : String) : Prop := s.utf8ByteSize < 2 ^ 64

instance (s : String) : Decidable (Fits s) := inferInstanceAs (Decidable (_ < _))

/-- The texts that a message holds, its sender's name and the owners of ballots among them. -/
def Message.texts : Message → List String
  | .prepare s b | .heartbeat s b => [s, b.owner]
  | .promise s b vote value => s :: b.owner :: ((vote.map Ballot.owner).toList ++ value.toList)
  | .prepareNack s b promised | .acceptNack s b promised => [s, b.owner, promised.owner]
  | .accept s b v | .accepted s b v => [s, b.owner, v]
  | .propose v => [v]

/-- Every text fits.  No memory holds a message of which this is not true. -/
def Message.Sized (m : Message) : Prop := ∀ s ∈ m.texts, Fits s

instance (m : Message) : Decidable m.Sized := inferInstanceAs (Decidable (∀ s ∈ m.texts, Fits s))

namespace Wire

/-! ## Numbers -/

@[simp] theorem length_littleEndian (width n : Nat) : (littleEndian width n).length = width := by
  induction width generalizing n with
  | zero => rfl
  | succ width ih => simp [littleEndian, ih]

theorem ofLittleEndian_cons (b : UInt8) (bytes : List UInt8) :
    ofLittleEndian (b :: bytes) = b.toNat + 256 * ofLittleEndian bytes := rfl

theorem ofLittleEndian_littleEndian (width n : Nat) :
    ofLittleEndian (littleEndian width n) = n % 256 ^ width := by
  induction width generalizing n with
  | zero => simp [littleEndian, ofLittleEndian, Nat.mod_one]
  | succ width ih =>
    rw [littleEndian, ofLittleEndian_cons, ih, Nat.pow_succ', Nat.mod_mul]
    simp

theorem ofLittleEndian_lt (bytes : List UInt8) : ofLittleEndian bytes < 256 ^ bytes.length := by
  induction bytes with
  | nil => simp [ofLittleEndian]
  | cons b rest ih =>
    have low := b.toNat_lt
    rw [ofLittleEndian_cons, List.length_cons, Nat.pow_succ]
    omega

theorem littleEndian_ofLittleEndian (bytes : List UInt8) :
    littleEndian bytes.length (ofLittleEndian bytes) = bytes := by
  induction bytes with
  | nil => rfl
  | cons b rest ih =>
    have low := b.toNat_lt
    have next : (b.toNat + 256 * ofLittleEndian rest) / 256 = ofLittleEndian rest := by omega
    rw [ofLittleEndian_cons, List.length_cons, littleEndian, next, ih]
    congr 1
    rw [← UInt8.toNat_inj]
    simp only [UInt8.toNat_ofNat']
    omega

theorem range_eight : 256 ^ 8 = 2 ^ 64 := by norm_num

/-! ## Exact readers -/

/-- Reads a value that fits from what is written for it, whatever follows, and from nothing
else. -/
def Exact {α : Type} (fits : α → Prop) (write : α → List UInt8) (read : Reader α) : Prop :=
  ∀ bytes x rest, read.run bytes = .ok (x, rest) ↔ fits x ∧ bytes = write x ++ rest

section Readers

variable {α β : Type} {fits : α → Prop} {write : α → List UInt8} {read : Reader α}
  {bytes rest : List UInt8}

theorem bind_eq_ok {next : α → Reader β} {y : β} :
    (read >>= next).run bytes = .ok (y, rest) ↔
      ∃ x mid, read.run bytes = .ok (x, mid) ∧ (next x).run mid = .ok (y, rest) := by
  rw [StateT.run_bind]
  cases read.run bytes with
  | error e => simp [bind, Except.bind]
  | ok r => exact ⟨fun h => ⟨r.1, r.2, rfl, h⟩, fun ⟨_, _, same, h⟩ => by cases same; exact h⟩

theorem pure_eq_ok {x y : α} :
    (pure x : Reader α).run bytes = .ok (y, rest) ↔ x = y ∧ bytes = rest := by
  show Except.ok (x, bytes) = _ ↔ _
  simp

theorem throw_ne_ok {e : DecodeError} {x : α} :
    (throw e : Reader α).run bytes ≠ .ok (x, rest) := by
  intro h
  cases h

/-- What begins with an exact reader reads what was written for it first. -/
theorem Exact.bind_eq_ok (exact : Exact fits write read) {next : α → Reader β} {y : β} :
    (read >>= next).run bytes = .ok (y, rest) ↔
      ∃ x mid, fits x ∧ bytes = write x ++ mid ∧ (next x).run mid = .ok (y, rest) := by
  rw [Wire.bind_eq_ok]
  refine exists_congr fun x => exists_congr fun mid => ?_
  rw [exact bytes x mid, and_assoc]

theorem readBytes_exact (count : Nat) :
    Exact (fun x => x.length = count) id (readBytes count) := by
  intro bytes x rest
  show (if bytes.length < count then _ else _) = _ ↔ _
  split
  · next short =>
    refine ⟨fun h => (by cases h), ?_⟩
    rintro ⟨rfl, rfl⟩
    simp at short
  · next enough =>
    constructor
    · intro h
      cases h
      exact ⟨List.length_take_of_le (not_lt.1 enough), (List.take_append_drop count bytes).symm⟩
    · rintro ⟨rfl, rfl⟩
      simp

theorem readNumber_exact (width : Nat) :
    Exact (fun n => n < 256 ^ width) (littleEndian width) (readNumber width) := by
  intro bytes n rest
  rw [readNumber, (readBytes_exact width).bind_eq_ok]
  constructor
  · rintro ⟨digits, mid, rfl, rfl, result⟩
    obtain ⟨rfl, rfl⟩ := pure_eq_ok.1 result
    exact ⟨ofLittleEndian_lt digits, by rw [littleEndian_ofLittleEndian]; rfl⟩
  · rintro ⟨small, rfl⟩
    refine ⟨littleEndian width n, rest, by simp, rfl, pure_eq_ok.2 ⟨?_, rfl⟩⟩
    rw [ofLittleEndian_littleEndian, Nat.mod_eq_of_lt small]

theorem fromUTF8?_eq_some {text : List UInt8} {s : String} :
    String.fromUTF8? ⟨text.toArray⟩ = some s ↔ s.toUTF8.data.toList = text := by
  unfold String.fromUTF8?
  split
  · rw [Option.some_inj]
    constructor
    · rintro rfl
      rfl
    · rintro rfl
      rfl
  · next invalid =>
    refine ⟨fun h => (by cases h), ?_⟩
    rintro rfl
    exact absurd s.isValidUTF8 invalid

theorem readText_exact : Exact Fits writeText readText := by
  intro bytes s rest
  rw [readText, (readNumber_exact 8).bind_eq_ok, range_eight]
  constructor
  · rintro ⟨size, mid, small, rfl, follows⟩
    obtain ⟨text, last, rfl, rfl, result⟩ := (readBytes_exact _).bind_eq_ok.1 follows
    split at result
    · next found =>
      obtain ⟨rfl, rfl⟩ := pure_eq_ok.1 result
      obtain rfl := fromUTF8?_eq_some.1 found
      exact ⟨by simpa [Fits] using small, by simp [writeText]⟩
    · exact absurd result throw_ne_ok
  · rintro ⟨fits, rfl⟩
    refine ⟨_, _, fits, List.append_assoc .., (readBytes_exact _).bind_eq_ok.2 ?_⟩
    refine ⟨_, rest, by simp, rfl, ?_⟩
    rw [fromUTF8?_eq_some.2 rfl]
    exact pure_eq_ok.2 ⟨rfl, rfl⟩

theorem readBallot_exact : Exact (fun b => Fits b.owner) writeBallot readBallot := by
  intro bytes b rest
  rw [readBallot, (readNumber_exact 8).bind_eq_ok, range_eight]
  simp only [readText_exact.bind_eq_ok, pure_eq_ok]
  constructor
  · rintro ⟨number, _, small, rfl, owner, _, fits, rfl, rfl, rfl⟩
    have kept : (UInt64.ofNat number).toNat = number := Nat.mod_eq_of_lt small
    exact ⟨fits, by simp only [writeBallot, kept, List.append_assoc]⟩
  · rintro ⟨fits, rfl⟩
    refine ⟨_, _, b.number.toNat_lt, List.append_assoc .., _, rest, fits, rfl, ?_, rfl⟩
    rw [UInt64.ofNat_toNat]

theorem readOption_cons {tag : UInt8} {body : List UInt8} :
    (readOption read).run (tag :: body) =
      if tag = 0 then .ok (none, body)
      else if tag = 1 then (some <$> read).run body
      else .error (.badOption tag) := rfl

theorem readOption_exact (exact : Exact fits write read) :
    Exact (fun o => ∀ x ∈ o, fits x) (writeOption write) (readOption read) := by
  intro bytes o rest
  cases bytes with
  | nil =>
    have short : (readOption read).run [] = .error .truncated := rfl
    cases o <;> simp [short, writeOption]
  | cons tag body =>
    rw [readOption_cons]
    by_cases absent : tag = 0
    · cases o <;> simp [writeOption, absent]
    · by_cases present : tag = 1
      · subst present
        rw [if_neg absent, if_pos rfl, ← bind_pure_comp, exact.bind_eq_ok]
        simp only [pure_eq_ok]
        cases o with
        | none => simp [writeOption]
        | some x => simp [writeOption]
      · cases o <;> simp [writeOption, absent, present]

end Readers

/-! ## Messages -/

/-- What is read is the message that the bytes begin with. -/
theorem eq_encode_of_read {bytes rest : List UInt8} {m : Message}
    (read : readMessage.run bytes = .ok (m, rest)) : m.Sized ∧ bytes = encode m ++ rest := by
  have vote := readOption_exact readBallot_exact
  have value := readOption_exact readText_exact
  rw [readMessage] at read
  obtain ⟨kind, body, -, rfl, fields⟩ := (readNumber_exact 4).bind_eq_ok.1 read
  -- one case for each kind, in the order of their numbers
  split at fields <;>
    simp only [readText_exact.bind_eq_ok, readBallot_exact.bind_eq_ok, vote.bind_eq_ok,
      value.bind_eq_ok, pure_eq_ok, throw_ne_ok] at fields
  · obtain ⟨s, _, hs, rfl, b, _, hb, rfl, rfl, rfl⟩ := fields
    simp [Message.Sized, Message.texts, encode, hs, hb]
  · obtain ⟨s, _, hs, rfl, b, _, hb, rfl, a, _, ha, rfl, v, _, hv, rfl, rfl, rfl⟩ := fields
    simp [Message.Sized, Message.texts, encode, hs, hb, or_imp, forall_and]
    exact ⟨ha, hv⟩
  · obtain ⟨s, _, hs, rfl, b, _, hb, rfl, c, _, hc, rfl, rfl, rfl⟩ := fields
    simp [Message.Sized, Message.texts, encode, hs, hb, hc]
  · obtain ⟨s, _, hs, rfl, b, _, hb, rfl, v, _, hv, rfl, rfl, rfl⟩ := fields
    simp [Message.Sized, Message.texts, encode, hs, hb, hv]
  · obtain ⟨s, _, hs, rfl, b, _, hb, rfl, v, _, hv, rfl, rfl, rfl⟩ := fields
    simp [Message.Sized, Message.texts, encode, hs, hb, hv]
  · obtain ⟨s, _, hs, rfl, b, _, hb, rfl, c, _, hc, rfl, rfl, rfl⟩ := fields
    simp [Message.Sized, Message.texts, encode, hs, hb, hc]
  · obtain ⟨s, _, hs, rfl, b, _, hb, rfl, rfl, rfl⟩ := fields
    simp [Message.Sized, Message.texts, encode, hs, hb]
  · obtain ⟨v, _, hv, rfl, rfl, rfl⟩ := fields
    simp [Message.Sized, Message.texts, encode, hv]

/-- A message that fits is read from its encoding, whatever follows. -/
theorem read_encode {m : Message} (sized : m.Sized) (rest : List UInt8) :
    readMessage.run (encode m ++ rest) = .ok (m, rest) := by
  have vote := readOption_exact readBallot_exact
  have value := readOption_exact readText_exact
  unfold Message.Sized at sized
  rw [readMessage]
  refine (readNumber_exact 4).bind_eq_ok.2 ?_
  cases m with
  | prepare s b | heartbeat s b =>
    obtain ⟨hs, hb⟩ : Fits s ∧ Fits b.owner := by simpa [Message.texts] using sized
    simp only [encode, List.append_assoc]
    refine ⟨_, _, by decide, rfl, ?_⟩
    simp only [readText_exact.bind_eq_ok, readBallot_exact.bind_eq_ok, pure_eq_ok]
    exact ⟨_, _, hs, rfl, _, _, hb, rfl, rfl, rfl⟩
  | promise s b a v =>
    obtain ⟨hs, hb, ha, hv⟩ :
        Fits s ∧ Fits b.owner ∧ (∀ c ∈ a, Fits c.owner) ∧ ∀ w ∈ v, Fits w := by
      simpa [Message.texts, or_imp, forall_and] using sized
    simp only [encode, List.append_assoc]
    refine ⟨_, _, by decide, rfl, ?_⟩
    simp only [readText_exact.bind_eq_ok, readBallot_exact.bind_eq_ok, vote.bind_eq_ok,
      value.bind_eq_ok, pure_eq_ok]
    exact ⟨_, _, hs, rfl, _, _, hb, rfl, _, _, ha, rfl, _, _, hv, rfl, rfl, rfl⟩
  | prepareNack s b c | acceptNack s b c =>
    obtain ⟨hs, hb, hc⟩ : Fits s ∧ Fits b.owner ∧ Fits c.owner := by
      simpa [Message.texts] using sized
    simp only [encode, List.append_assoc]
    refine ⟨_, _, by decide, rfl, ?_⟩
    simp only [readText_exact.bind_eq_ok, readBallot_exact.bind_eq_ok, pure_eq_ok]
    exact ⟨_, _, hs, rfl, _, _, hb, rfl, _, _, hc, rfl, rfl, rfl⟩
  | accept s b v | accepted s b v =>
    obtain ⟨hs, hb, hv⟩ : Fits s ∧ Fits b.owner ∧ Fits v := by
      simpa [Message.texts] using sized
    simp only [encode, List.append_assoc]
    refine ⟨_, _, by decide, rfl, ?_⟩
    simp only [readText_exact.bind_eq_ok, readBallot_exact.bind_eq_ok, pure_eq_ok]
    exact ⟨_, _, hs, rfl, _, _, hb, rfl, _, _, hv, rfl, rfl, rfl⟩
  | propose v =>
    simp only [encode, List.append_assoc]
    refine ⟨_, _, by decide, rfl, ?_⟩
    simp only [readText_exact.bind_eq_ok, pure_eq_ok]
    exact ⟨_, _, by simpa [Message.texts] using sized, rfl, rfl, rfl⟩

theorem readMessage_exact : Exact Message.Sized encode readMessage := fun _ _ rest =>
  ⟨eq_encode_of_read, fun ⟨sized, same⟩ => same ▸ read_encode sized rest⟩

theorem decode_eq_ok {bytes : List UInt8} {m : Message} :
    decode bytes = .ok m ↔ ∃ rest, readMessage.run bytes = .ok (m, rest) := by
  unfold decode
  cases readMessage.run bytes with
  | error e => simp [Functor.map, Except.map]
  | ok r => simp [Functor.map, Except.map, Prod.ext_iff]

/-- No encoding begins another one. -/
theorem eq_of_encode_prefix {m n : Message} (hm : m.Sized) (hn : n.Sized)
    (begins : encode m <+: encode n) : m = n := by
  obtain ⟨rest, same⟩ := begins
  have read := read_encode hm rest
  rw [same, ← List.append_nil (encode n), read_encode hn] at read
  cases read
  rfl

/-- **Decoding is exact.**  It finds a message if and only if the bytes begin with the
encoding of this message, and the sizes of its texts fit where they are announced. -/
theorem decode_eq_ok_iff (bytes : List UInt8) (m : Message) :
    decode bytes = .ok m ↔ m.Sized ∧ encode m <+: bytes := by
  rw [decode_eq_ok]
  simp only [readMessage_exact bytes m]
  constructor
  · rintro ⟨rest, sized, rfl⟩
    exact ⟨sized, rest, rfl⟩
  · rintro ⟨sized, rest, rfl⟩
    exact ⟨rest, sized, rfl⟩

/-- A kind, a size and a text; what follows is left alone. -/
example : decode ([7, 0, 0, 0] ++ [2, 0, 0, 0, 0, 0, 0, 0] ++ [0x78, 0x79] ++ [0xFF]) =
    .ok (.propose "xy") := by decide

end Wire

end Synod
