/-
Synod.Proofs.Quotation -- what stands between quotes

A quoted text is written with characters that stand for themselves, and with sequences that stand
for one character or for none.  Each of these sequences is longer than what it stands for, and an
equals sign occurs in none of them (`Stands`).  So a text that is read is never longer than it was
written, it is as long only where it was written as it is, and it holds every equals sign that
stands between its quotes (`Stands.length_le`, `Stands.eq_of_length`, `Stands.count_le`).

A text of plain characters stands for itself (`text_plain`).
-/
import Mathlib.Data.List.Basic
import Synod.Toml.Text

namespace Synod.Toml

set_option autoImplicit false

/-! ## What is written, and what it stands for -/

/-- What the characters between quotes stand for.  Those of a class stand for themselves. -/
inductive Stands (own : Char → Prop) : List Char → List Char → Prop
  | nil : Stands own [] []
  | char {c : Char} {raw xs : List Char} (plain : own c) (more : Stands own raw xs) :
      Stands own (c :: raw) (c :: xs)
  | sequence {written short raw xs : List Char} (shorter : short.length < written.length)
      (inert : '=' ∉ written) (more : Stands own raw xs) :
      Stands own (written ++ raw) (short ++ xs)

section Stands

variable {own : Char → Prop} {raw xs : List Char}

theorem Stands.length_le (stands : Stands own raw xs) : xs.length ≤ raw.length := by
  induction stands with
  | nil => exact Nat.le_refl _
  | char plain more ih => exact Nat.succ_le_succ ih
  | sequence shorter inert more ih =>
    rw [List.length_append, List.length_append]
    omega

/-- No equals sign is lost. -/
theorem Stands.count_le (stands : Stands own raw xs) : raw.count '=' ≤ xs.count '=' := by
  induction stands with
  | nil => exact Nat.le_refl _
  | char plain more ih =>
    rw [List.count_cons, List.count_cons]
    exact Nat.add_le_add_right ih _
  | sequence shorter inert more ih =>
    rw [List.count_append, List.count_append, List.count_eq_zero_of_not_mem inert, Nat.zero_add]
    exact Nat.le_trans ih (Nat.le_add_left _ _)

/-- A text as long as it was written was written as it is. -/
theorem Stands.eq_of_length (stands : Stands own raw xs) (length : raw.length ≤ xs.length) :
    raw = xs ∧ ∀ c ∈ xs, own c := by
  induction stands with
  | nil => exact ⟨rfl, by simp⟩
  | char plain more ih =>
    obtain ⟨rfl, all⟩ := ih (Nat.le_of_succ_le_succ length)
    exact ⟨rfl, List.forall_mem_cons.2 ⟨plain, all⟩⟩
  | sequence shorter inert more =>
    have := more.length_le
    rw [List.length_append, List.length_append] at length
    omega

theorem stands_of_forall (all : ∀ c ∈ xs, own c) : Stands own xs xs := by
  induction xs with
  | nil => exact .nil
  | cons c rest ih =>
    obtain ⟨plain, all⟩ := List.forall_mem_cons.1 all
    exact .char plain (ih all)

end Stands

/-! ## What readers take -/

/-- What is read from `cs`, if anything is, stood there, with closing quotes after it. -/
def Closes (own : Char → Prop) (quotes cs : List Char) (read : Option (List Char × List Char)) :
    Prop :=
  ∀ xs rest, read = some (xs, rest) → ∃ raw, cs = raw ++ (quotes ++ rest) ∧ Stands own raw xs

section Closes

variable {own : Char → Prop} {quotes cs : List Char} {read : Option (List Char × List Char)}

theorem Closes.none : Closes own quotes cs none := by
  intro xs rest read
  cases read

/-- The closing quotes, perhaps with characters before them that stand for themselves. -/
theorem Closes.done (xs : List Char) {rest : List Char} (all : ∀ c ∈ xs, own c) :
    Closes own quotes (xs ++ (quotes ++ rest)) (some (xs, rest)) := by
  rintro _ _ ⟨⟩
  exact ⟨xs, rfl, stands_of_forall all⟩

theorem Closes.char {c : Char} (plain : own c) (closes : Closes own quotes cs read) :
    Closes own quotes (c :: cs) (do let (xs, rest) ← read; return (c :: xs, rest)) := by
  intro xs rest taken
  obtain ⟨⟨more, left⟩, found, same⟩ := Option.bind_eq_some_iff.1 taken
  cases same
  obtain ⟨raw, rfl, stands⟩ := closes more rest found
  exact ⟨c :: raw, rfl, .char plain stands⟩

/-- A sequence that stands for one character, if it stands for any. -/
theorem Closes.escape (written : List Char) (meaning : Option Char) (long : 1 < written.length)
    (inert : ∀ x, meaning = some x → '=' ∉ written) (closes : Closes own quotes cs read) :
    Closes own quotes (written ++ cs)
      (do let x ← meaning; let (xs, rest) ← read; return (x :: xs, rest)) := by
  intro xs rest taken
  obtain ⟨x, means, taken⟩ := Option.bind_eq_some_iff.1 taken
  obtain ⟨⟨more, left⟩, found, same⟩ := Option.bind_eq_some_iff.1 taken
  cases same
  obtain ⟨raw, rfl, stands⟩ := closes more rest found
  exact ⟨written ++ raw, (List.append_assoc ..).symm,
    .sequence (show [x].length < _ from long) (inert x means) stands⟩

/-- A sequence that stands for nothing. -/
theorem Closes.skip (written : List Char) (some : written ≠ []) (inert : '=' ∉ written)
    (closes : Closes own quotes cs read) : Closes own quotes (written ++ cs) read := by
  intro xs rest taken
  obtain ⟨raw, rfl, stands⟩ := closes xs rest taken
  exact ⟨written ++ raw, (List.append_assoc ..).symm,
    .sequence (show [].length < _ from List.length_pos_of_ne_nil some) inert stands⟩

end Closes

/-! ## Escapes -/

theorem equals_notMem_of_digits {digits : List Char} {values : List Nat}
    (found : digits.mapM hexDigit? = some values) : '=' ∉ digits := by
  induction digits generalizing values with
  | nil => exact List.not_mem_nil
  | cons c rest ih =>
    rw [List.mapM_cons] at found
    obtain ⟨d, digit, found⟩ := Option.bind_eq_some_iff.1 found
    obtain ⟨ds, found, -⟩ := Option.bind_eq_some_iff.1 found
    rw [List.mem_cons, not_or]
    refine ⟨?_, ih found⟩
    rintro rfl
    cases digit

theorem equals_notMem_of_charOfHex {digits : List Char} {x : Char}
    (means : charOfHex digits = some x) : '=' ∉ digits := by
  obtain ⟨values, found, -⟩ := Option.bind_eq_some_iff.1 means
  exact equals_notMem_of_digits found

theorem equals_ne_of_escapeLetter {c x : Char} (means : escapeLetter? c = some x) : '=' ≠ c := by
  rintro rfl
  cases means

theorem equals_ne_of_blank {c : Char} (white : blank c = true) : '=' ≠ c := by
  rintro rfl
  cases white

/-! ## Texts on one line -/

theorem basicRest_closes (cs : List Char) :
    Closes (basicChar · = true) ['"'] cs (basicRest cs) := by
  fun_induction basicRest cs with
  | case1 rest => exact .done [] (by simp)
  | case2 a b c d rest ih =>
    exact .escape ['\\', 'u', a, b, c, d] _ (by simp)
      (fun x means => by simpa using equals_notMem_of_charOfHex means) ih
  | case3 a b c d e f g h rest ih =>
    exact .escape ['\\', 'U', a, b, c, d, e, f, g, h] _ (by simp)
      (fun x means => by simpa using equals_notMem_of_charOfHex means) ih
  | case4 c rest _ _ ih =>
    exact .escape ['\\', c] _ (by simp)
      (fun x means => by simpa using equals_ne_of_escapeLetter means) ih
  | case5 c rest _ _ _ _ plain ih => exact .char plain ih
  | case6 | case7 => exact .none

/-! ## Texts over several lines -/

/-- What stands for itself in a text over several lines. -/
def ownChar (c : Char) : Prop := basicChar c = true ∨ c = '"' ∨ c = '\n'

theorem multiBasicRest_closes (b : Break) (cs : List Char) :
    Closes ownChar ['"', '"', '"'] cs (multiBasicRest b cs) := by
  fun_induction multiBasicRest b cs with
  | case1 rest ih => exact .char (.inr (.inr rfl)) ih
  | case2 b rest _ ih => exact .skip ['\n'] (by simp) (by simp) ih
  | case3 rest ih =>
    exact .escape ['\r', '\n'] (some '\n') (by simp) (by simp) ih
  | case4 b rest _ ih => exact .skip ['\r', '\n'] (by simp) (by simp) ih
  | case6 => exact .done ['"', '"'] (by simp [ownChar])
  | case8 => exact .done ['"'] (by simp [ownChar])
  | case10 => exact .done [] (by simp)
  | case12 b rest _ _ _ _ ih => exact .char (.inr (.inl rfl)) ih
  | case14 b a₀ a₁ a₂ a₃ rest _ ih =>
    exact .escape ['\\', 'u', a₀, a₁, a₂, a₃] _ (by simp)
      (fun x means => by simpa using equals_notMem_of_charOfHex means) ih
  | case16 b a₀ a₁ a₂ a₃ a₄ a₅ a₆ a₇ rest _ ih =>
    exact .escape ['\\', 'U', a₀, a₁, a₂, a₃, a₄, a₅, a₆, a₇] _ (by simp)
      (fun x means => by simpa using equals_notMem_of_charOfHex means) ih
  | case18 b rest _ ih => exact .skip ['\\', '\n'] (by simp) (by simp) ih
  | case20 b rest _ ih => exact .skip ['\\', '\r', '\n'] (by simp) (by simp) ih
  | case22 b c rest _ _ _ _ _ white ih =>
    exact .skip ['\\', c] (by simp) (by simpa using equals_ne_of_blank white) ih
  | case23 b c rest _ _ _ _ _ _ ih =>
    exact .escape ['\\', c] _ (by simp)
      (fun x means => by simpa using equals_ne_of_escapeLetter means) ih
  | case24 b c rest _ _ _ _ _ _ _ _ _ _ _ white ih =>
    exact .skip [c] (by simp) (by simpa using equals_ne_of_blank white.2) ih
  | case26 b c rest _ _ _ _ _ _ _ _ _ _ _ _ _ plain ih => exact .char (.inl plain) ih
  | case5 | case7 | case9 | case11 | case13 | case15 | case17 | case19 | case21 | case25 |
    case27 | case28 => exact .none

/-! ## Quoted texts -/

/-- What stands between the first quote and the last one, and what it reads as. -/
structure Quoted (raw xs : List Char) : Prop where
  count_le : raw.count '=' ≤ xs.count '='
  plain : raw.length ≤ xs.length → raw = xs ∧ ∀ c ∈ xs, basicChar c = true

theorem dropBreak_eq (cs : List Char) :
    ∃ dropped, cs = dropped ++ dropBreak cs ∧ '=' ∉ dropped := by
  fun_cases dropBreak cs with
  | case1 rest => exact ⟨['\n'], rfl, by simp⟩
  | case2 rest => exact ⟨['\r', '\n'], rfl, by simp⟩
  | case3 => exact ⟨[], rfl, by simp⟩

theorem quoted_of_text {cs rest : List Char} {s : String}
    (read : text ('"' :: cs) = some (s, rest)) :
    ∃ raw, cs = raw ++ '"' :: rest ∧ Quoted raw s.toList := by
  unfold text at read
  split at read
  · next tripled same =>
    -- two of the opening quotes and two of the closing ones count as written between the outer ones
    cases same
    obtain ⟨⟨xs, left⟩, found, same⟩ := Option.map_eq_some_iff.1 read
    cases same
    obtain ⟨raw, eq, stands⟩ := multiBasicRest_closes _ _ xs rest found
    obtain ⟨dropped, split, inert⟩ := dropBreak_eq tripled
    have length := stands.length_le
    have count := stands.count_le
    rw [split, eq]
    refine ⟨'"' :: '"' :: (dropped ++ (raw ++ ['"', '"'])), by simp, ?_, ?_⟩
    · simpa [List.count_eq_zero_of_not_mem inert] using count
    · simp
      omega
  · next same => cases same
  · obtain ⟨⟨xs, left⟩, found, same⟩ := Option.map_eq_some_iff.1 read
    cases same
    obtain ⟨raw, rfl, stands⟩ := basicRest_closes cs xs rest found
    refine ⟨raw, rfl, ?_⟩
    rw [String.toList_ofList]
    exact ⟨stands.count_le, stands.eq_of_length⟩

/-! ## Plain texts -/

/-- A text that is written between quotes as it is. -/
def Plain (s : String) : Prop := ∀ c ∈ s.toList, basicChar c = true

instance (s : String) : Decidable (Plain s) :=
  decidable_of_iff (s.toList.all basicChar = true) List.all_eq_true

theorem Plain.append {s t : String} (plain : Plain t) (first : Plain s) : Plain (s ++ t) := by
  unfold Plain
  rw [String.toList_append, List.forall_mem_append]
  exact ⟨first, plain⟩

theorem basicRest_plain {xs : List Char} (plain : ∀ c ∈ xs, basicChar c = true)
    (rest : List Char) : basicRest (xs ++ '"' :: rest) = some (xs, rest) := by
  induction xs with
  | nil => rfl
  | cons c more ih =>
    obtain ⟨own, plain⟩ := List.forall_mem_cons.1 plain
    have no_quote : c ≠ '"' := by
      rintro rfl
      cases own
    have no_backslash : c ≠ '\\' := by
      rintro rfl
      cases own
    rw [List.cons_append, basicRest, ih plain]
    · simp [own]
    · exact no_quote
    all_goals
      intros
      contradiction

/-- A plain text that is not empty reads as it is written. -/
theorem text_plain {s : String} (plain : Plain s) (nonempty : s ≠ "") (rest : List Char) :
    text ('"' :: (s.toList ++ '"' :: rest)) = some (s, rest) := by
  have read := basicRest_plain plain rest
  have own : ∀ c more, s.toList = c :: more → c ≠ '"' := by
    rintro c more split rfl
    have := plain '"' (by simp [split])
    cases this
  unfold text
  split
  · next tripled same =>
    cases split : s.toList with
    | nil => exact absurd (String.toList_eq_nil_iff.1 split) nonempty
    | cons c more =>
      rw [split] at same
      obtain ⟨-, same⟩ := List.cons.inj same
      exact absurd (List.cons.inj same).1 (own _ _ split)
  · next same => cases same
  · simp [lineText, read]

/-- Where an equals sign comes before the next quote, only a plain text reads as it is written: one
that went on beyond its closing quote would have to hold one equals sign more. -/
theorem plain_of_text {s : String} {before after rest : List Char} (equals : '=' ∈ before)
    (apart : '"' ∉ before)
    (read : text ('"' :: (s.toList ++ '"' :: (before ++ after))) = some (s, rest)) : Plain s := by
  obtain ⟨raw, eq, quoted⟩ := quoted_of_text read
  obtain ⟨more, beyond, eq⟩ | ⟨more, within, -⟩ := List.append_eq_append_iff.1 eq
  · cases more with
    | nil => exact (quoted.plain (by simp [beyond])).2
    | cons quote more =>
      obtain ⟨rfl, following⟩ := List.cons.inj eq
      have held : '=' ∈ more := by
        obtain ⟨tail, rfl, -⟩ | ⟨tail, split, eq⟩ := List.append_eq_append_iff.1 following
        · exact List.mem_append_left _ equals
        · cases tail with
          | nil => simpa [split] using equals
          | cons quote tail =>
            obtain ⟨rfl, -⟩ := List.cons.inj eq
            exact absurd (by simp [split]) apart
      have count := quoted.count_le
      have := List.count_pos_iff.2 held
      rw [beyond, List.count_append, List.count_cons_of_ne (by decide)] at count
      omega
  · exact (quoted.plain (by simp [within])).2

end Synod.Toml
