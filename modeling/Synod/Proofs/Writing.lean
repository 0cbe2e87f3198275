/-
Synod.Proofs.Writing -- what is written line by line is read line by line

A text can be written so that every line of it is a comment, a header, a key with its value, or
empty.  Values are written as plain texts in quotes, as words, as inline tables of such values, and
as lists with one of them on each line.

`Written` says that a value is read back from what is written for it, whatever follows, and each
form of value has it of its parts (`written_text`, `written_word`, `written_table`,
`written_list`).  From this it follows for each kind of line (`Line.Sound.read`), and by induction
for any number of them (`loop_lines`).
-/
import Synod.Config.Template
import Synod.Proofs.Quotation
import Synod.Toml.Reader

namespace Synod.Toml

set_option autoImplicit false

/-! ## Scanners -/

section Scanners

variable {α : Type} {step : Scan (List α × Bool)} {items : List α} {cs rest : List Char}

theorem loop_last (read : step cs = some ((items, false), rest)) :
    loop step cs = some (items, rest) := by
  rw [loop, read]

theorem loop_more (read : step cs = some ((items, true), rest))
    (shorter : rest.length < cs.length) :
    loop step cs = (loop step rest).map fun (more, left) => (items ++ more, left) := by
  rw [loop, read]
  simp only [shorter, if_true]
  cases loop step rest <;> rfl

/-- Items that are read begin with those of the first step. -/
theorem loop_first {taken : List α} {left : List Char} (read : loop step cs = some (taken, left)) :
    ∃ items goes rest more, step cs = some ((items, goes), rest) ∧ taken = items ++ more := by
  rw [loop] at read
  split at read
  · cases read
  · next items rest stepped =>
    cases read
    exact ⟨_, false, _, [], stepped, (List.append_nil _).symm⟩
  · next items rest stepped =>
    split at read
    · split at read
      · next more left _ =>
        cases read
        exact ⟨items, true, _, more, stepped, rfl⟩
      · cases read
    · cases read

/-- A run of characters of a class ends where another one comes. -/
theorem span_exact {p : Char → Bool} {xs : List Char} (all : ∀ c ∈ xs, p c = true)
    (ends : ∀ c, rest.head? = some c → p c = false) : span p (xs ++ rest) = some (xs, rest) := by
  unfold span
  rw [List.takeWhile_append_of_pos all, List.dropWhile_append_of_pos all]
  cases rest with
  | nil => simp
  | cons c more => simp [ends c rfl]

theorem dropWhile_cons_of_false {p : Char → Bool} {c : Char} (other : p c = false) :
    (c :: cs).dropWhile p = c :: cs := by
  rw [List.dropWhile_cons, other]
  rfl

theorem accept_other {c : Char} (other : cs.head? ≠ some c) : accept c cs = some (false, cs) := by
  cases cs with
  | nil => rfl
  | cons d rest => simpa [accept] using other

end Scanners

/-! ## Keys -/

/-- A key that needs no quotes. -/
def Bare (k : String) : Prop := k ≠ "" ∧ ∀ c ∈ k.toList, bareChar c = true

instance (k : String) : Decidable (Bare k) :=
  decidable_of_iff (k ≠ "" ∧ k.toList.all bareChar = true) (and_congr_right' List.all_eq_true)

section Keys

variable {k : String} {rest : List Char}

/-- A character that no class holds that a bare one belongs to. -/
theorem ne_of_bareChar {c d : Char} (bare : bareChar c = true) (other : bareChar d = false) :
    c ≠ d := by
  rintro rfl
  simp [bare] at other

theorem Bare.split (bare : Bare k) : ∃ c more, k.toList = c :: more ∧ bareChar c = true := by
  obtain ⟨some, all⟩ := bare
  cases split : k.toList with
  | nil => exact absurd (String.toList_eq_nil_iff.1 split) some
  | cons c more => exact ⟨c, more, rfl, all c (by simp [split])⟩

theorem blank_of_bareChar {c : Char} (bare : bareChar c = true) : blank c = false := by
  have space := ne_of_bareChar bare (d := ' ') rfl
  have tab := ne_of_bareChar bare (d := '\t') rfl
  simp [blank, space, tab]

theorem key_bare (bare : Bare k) (ends : ∀ c, rest.head? = some c → bareChar c = false) :
    key (k.toList ++ rest) = some (k, rest) := by
  obtain ⟨c, more, split, own⟩ := bare.split
  have read := span_exact bare.2 ends
  unfold key
  split
  · next same => simp [split, ne_of_bareChar own (d := '"') rfl] at same
  · next same => simp [split, ne_of_bareChar own (d := '\'') rfl] at same
  · rw [read, split]
    simp [← split]

/-- A path of one key, with blanks around it. -/
theorem path_bare {lead : List Char} (white : ∀ c ∈ lead, blank c = true) (bare : Bare k)
    (ends : ∀ c, rest.head? = some c → bareChar c = false)
    (single : (rest.dropWhile blank).head? ≠ some '.') :
    path (lead ++ (k.toList ++ rest)) = some ([k], rest.dropWhile blank) := by
  obtain ⟨c, more, split, own⟩ := bare.split
  have skipped : (lead ++ (k.toList ++ rest)).dropWhile blank = k.toList ++ rest := by
    rw [List.dropWhile_append_of_pos white, split, List.cons_append,
      dropWhile_cons_of_false (blank_of_bareChar own)]
  have step : (do blanks; let k ← key; blanks; return ([k], ← accept '.') : Scan _)
      (lead ++ (k.toList ++ rest)) = some (([k], false), rest.dropWhile blank) := by
    simp only [bind, StateT.bind, blanks, skipped, key_bare bare ends, accept_other single,
      Option.bind_some]
    rfl
  unfold path
  rw [loop_last step]
  rfl

/-- A key with its value, as far as that can be read. -/
theorem pair_bare {v : Scan Document} {c : Char} {lead cs : List Char}
    (white : ∀ c ∈ lead, blank c = true) (bare : Bare k) (other : blank c = false) :
    pair v (lead ++ (k.toList ++ ' ' :: '=' :: ' ' :: c :: cs)) =
      (v (c :: cs)).map fun (d, rest) =>
        ({ path := [], key := k, value := d }, rest.dropWhile blank) := by
  have keys : path (lead ++ (k.toList ++ ' ' :: '=' :: ' ' :: c :: cs)) =
      some ([k], '=' :: ' ' :: c :: cs) :=
    path_bare white bare (by rintro _ ⟨⟩; rfl) (by simp [blank])
  have skipped : (' ' :: c :: cs).dropWhile blank = c :: cs :=
    dropWhile_cons_of_false other
  simp only [pair, bind, StateT.bind, blanks, keys, expect, skipped, Option.bind_some, if_true]
  cases v (c :: cs) <;> rfl

end Keys

/-! ## Values -/

/-- What a value may begin with. -/
def opening (c : Char) : Bool := c == '"' || c == '[' || c == '\x7b' || wordChar c

theorem ne_of_opening {c d : Char} (opens : opening c = true) (other : opening d = false) :
    c ≠ d := by
  rintro rfl
  simp [opens] at other

/-- No word goes on there. -/
def Apart (rest : List Char) : Prop := ∀ c, rest.head? = some c → wordChar c = false

/-- A value that is read back from what is written, with values nested so deep. -/
structure Written (depth : Nat) (written : String) (d : Document) : Prop where
  opens : ∃ c more, written.toList = c :: more ∧ opening c = true
  read : ∀ rest, Apart rest → value depth (written.toList ++ rest) = some (d, rest)

section Values

variable {depth : Nat} {s : String} {cs : List Char}

theorem value_text (depth : Nat) (cs : List Char) :
    value depth ('"' :: cs) = (text ('"' :: cs)).map fun (s, rest) => (.text s, rest) := by
  cases depth <;> rfl

theorem written_text (plain : Plain s) (nonempty : s ≠ "") :
    Written depth ("\"" ++ s ++ "\"") (.text s) where
  opens := ⟨'"', s.toList ++ ['"'], by simp, rfl⟩
  read rest _ := by
    have read := text_plain plain nonempty rest
    simp [value_text, read]

theorem value_word {c : Char} (own : wordChar c = true) (depth : Nat) (cs : List Char) :
    value depth (c :: cs) = word (c :: cs) := by
  have other : ∀ d, wordChar d = false → c ≠ d := by
    rintro d not_own rfl
    simp [own] at not_own
  unfold value
  split
  · next same => exact absurd (List.cons.inj same).1 (other '[' rfl)
  · next same => exact absurd (List.cons.inj same).1 (other '[' rfl)
  · next same => exact absurd (List.cons.inj same).1 (other '\x7b' rfl)
  · next same => exact absurd (List.cons.inj same).1 (other '\x7b' rfl)
  · next same => exact absurd (List.cons.inj same).1 (other '"' rfl)
  · next same => exact absurd (List.cons.inj same).1 (other '\'' rfl)
  · rfl

/-- A word that is no date, since after a date a time of day might follow. -/
theorem written_word {d : Document} (nonempty : s ≠ "") (all : ∀ c ∈ s.toList, wordChar c = true)
    (undated : isDate s.toList = false) (means : ofWord s.toList = some d) : Written depth s d := by
  cases split : s.toList with
  | nil => exact absurd (String.toList_eq_nil_iff.1 split) nonempty
  | cons c more =>
    have own : wordChar c = true := all c (by simp [split])
    refine ⟨⟨c, more, split, by simp [opening, own]⟩, fun rest apart => ?_⟩
    have run := span_exact all apart
    rw [split] at run undated means ⊢
    rw [List.cons_append, value_word own]
    simp only [word, bind, ← List.cons_append, run, Option.bind_some]
    rw [undated]
    simp [means]

/-! ## Lists -/

/-- What is written for each item, on a line of its own. -/
def itemsText : List (String × Document) → String
  | [] => ""
  | (written, _) :: rest => "    " ++ written ++ ",\n" ++ itemsText rest

def listText (items : List (String × Document)) : String := "[\n" ++ itemsText items ++ "]"

theorem skipGap_opening {c : Char} (opens : opening c = true) (cs : List Char) :
    skipGap false (c :: cs) = c :: cs := by
  have space := ne_of_opening opens (d := ' ') rfl
  have tab := ne_of_opening opens (d := '\t') rfl
  rw [skipGap]
  · simp [blank, space, tab, ne_of_opening opens (d := '#') rfl]
  · exact ne_of_opening opens rfl
  · rintro rest rfl
    exact absurd rfl (ne_of_opening opens (d := '\r') rfl)

theorem listItem_some {w : String} {d : Document} (written : Written depth w d) (rest : List Char) :
    listItem (value depth) ('\n' :: ' ' :: ' ' :: ' ' :: ' ' :: (w.toList ++ ',' :: rest)) =
      some (([d], true), rest) := by
  obtain ⟨c, more, split, opens⟩ := written.opens
  have gapped : skipGap false ('\n' :: ' ' :: ' ' :: ' ' :: ' ' :: (w.toList ++ ',' :: rest)) =
      w.toList ++ ',' :: rest := by
    rw [split]
    exact skipGap_opening opens _
  have item : accept ']' (w.toList ++ ',' :: rest) = some (false, w.toList ++ ',' :: rest) :=
    accept_other (by simpa [split] using ne_of_opening opens rfl)
  have read := written.read (',' :: rest) (by rintro _ ⟨⟩; rfl)
  simp [listItem, gap, bind, StateT.bind, gapped, item, read]
  rfl

theorem loop_items {items : List (String × Document)}
    (written : ∀ item ∈ items, Written depth item.1 item.2) (rest : List Char) :
    loop (listItem (value depth)) ('\n' :: ((itemsText items).toList ++ ']' :: rest)) =
      some (items.map Prod.snd, rest) := by
  induction items with
  | nil => exact loop_last rfl
  | cons item more ih =>
    obtain ⟨first, written⟩ := List.forall_mem_cons.1 written
    have step := listItem_some first ('\n' :: ((itemsText more).toList ++ ']' :: rest))
    have shape : (itemsText (item :: more)).toList ++ ']' :: rest =
        ' ' :: ' ' :: ' ' :: ' ' ::
          (item.1.toList ++ ',' :: '\n' :: ((itemsText more).toList ++ ']' :: rest)) := by
      simp [itemsText]
    rw [shape, loop_more step (by simp; omega), ih written]
    rfl

theorem written_list {items : List (String × Document)}
    (written : ∀ item ∈ items, Written depth item.1 item.2) :
    Written (depth + 1) (listText items) (.list (items.map Prod.snd)) where
  opens := ⟨'[', '\n' :: ((itemsText items).toList ++ [']']), by simp [listText], rfl⟩
  read rest _ := by
    have shape : (listText items).toList ++ rest =
        '[' :: '\n' :: ((itemsText items).toList ++ ']' :: rest) := by
      simp [listText]
    rw [shape, value, loop_items written]
    rfl

/-! ## Inline tables -/

/-- A key of an inline table, what is written for its value, and the value. -/
structure Field where
  key : String
  written : String
  value : Document

namespace Field

def text (f : Field) : String := f.key ++ " = " ++ f.written

def pair (f : Field) : Pair := { path := [], key := f.key, value := f.value }

def Sound (depth : Nat) (f : Field) : Prop := Bare f.key ∧ Written depth f.written f.value

end Field

/-- Fields with commas between them. -/
def fieldsText : List Field → String
  | [] => ""
  | [f] => f.text
  | f :: g :: rest => f.text ++ ", " ++ fieldsText (g :: rest)

def tableText (fields : List Field) : String := "\x7b " ++ fieldsText fields ++ " \x7d"

/-- A field is read up to what comes after it. -/
theorem pair_field {f : Field} (sound : f.Sound depth) {lead : List Char}
    (white : ∀ c ∈ lead, blank c = true) (rest : List Char) (apart : Apart rest) :
    pair (value depth) (lead ++ (f.text.toList ++ rest)) = some (f.pair, rest.dropWhile blank) := by
  obtain ⟨bare, written⟩ := sound
  obtain ⟨c, more, split, opens⟩ := written.opens
  have unblank : blank c = false := by
    simp [blank, ne_of_opening opens (d := ' ') rfl, ne_of_opening opens (d := '\t') rfl]
  have shape : f.text.toList ++ rest =
      f.key.toList ++ ' ' :: '=' :: ' ' :: c :: (more ++ rest) := by
    simp [Field.text, split]
  have read := written.read rest apart
  rw [split, List.cons_append] at read
  rw [shape, pair_bare white bare unblank, read]
  rfl

theorem loop_fields {f : Field} {fields : List Field} (sound : ∀ g ∈ f :: fields, g.Sound depth)
    (lead : List Char) (white : ∀ c ∈ lead, blank c = true) (rest : List Char) :
    loop (tableItem (value depth))
        (lead ++ ((fieldsText (f :: fields)).toList ++ ' ' :: '\x7d' :: rest)) =
      some ((f :: fields).map Field.pair, rest) := by
  induction fields generalizing f lead with
  | nil =>
    have read := pair_field (sound f (by simp)) white (' ' :: '\x7d' :: rest)
      (by rintro _ ⟨⟩; rfl)
    refine loop_last ?_
    simp [tableItem, bind, StateT.bind, fieldsText, read]
    rfl
  | cons g more ih =>
    obtain ⟨first, sound⟩ := List.forall_mem_cons.1 sound
    have ih := ih sound [' '] (by simp [blank])
    have read := pair_field first white
      (',' :: ([' '] ++ ((fieldsText (g :: more)).toList ++ ' ' :: '\x7d' :: rest)))
      (by rintro _ ⟨⟩; rfl)
    have step : tableItem (value depth)
        (lead ++ ((fieldsText (f :: g :: more)).toList ++ ' ' :: '\x7d' :: rest)) =
          some (([f.pair], true),
            [' '] ++ ((fieldsText (g :: more)).toList ++ ' ' :: '\x7d' :: rest)) := by
      have shape : (fieldsText (f :: g :: more)).toList ++ ' ' :: '\x7d' :: rest = f.text.toList ++
          ',' :: ([' '] ++ ((fieldsText (g :: more)).toList ++ ' ' :: '\x7d' :: rest)) := by
        simp [fieldsText]
      rw [shape]
      simp only [tableItem, bind, StateT.bind, read, Option.bind_some]
      rfl
    rw [loop_more step, ih]
    · rfl
    · simp [fieldsText]
      omega

theorem addValue_fields {fields : List Field} (distinct : (fields.map Field.key).Nodup)
    (entries : Entries) (new : ∀ f ∈ fields, entries.lookup f.key = none) :
    (fields.map Field.pair).foldlM (fun entries p => addValue p.value p.key p.path true entries)
      entries = some (entries ++ fields.map fun f => (f.key, .value f.value)) := by
  induction fields generalizing entries with
  | nil => simp
  | cons f rest ih =>
    obtain ⟨first, new⟩ := List.forall_mem_cons.1 new
    obtain ⟨other, distinct⟩ := List.nodup_cons.1 distinct
    have added : addValue f.value f.key [] true entries =
        some (entries ++ [(f.key, .value f.value)]) := by
      simp [addValue, first]
    have new : ∀ g ∈ rest, (entries ++ [(f.key, Entry.value f.value)]).lookup g.key = none := by
      intro g mem
      have apart : (g.key == f.key) = false :=
        beq_eq_false_iff_ne.2 fun same => other (List.mem_map.2 ⟨g, mem, same⟩)
      simp [List.lookup_append, new g mem, List.lookup_cons, apart]
    rw [List.map_cons, List.foldlM_cons]
    show (addValue f.value f.key [] true entries).bind _ = _
    rw [added, Option.bind_some, ih distinct _ new]
    simp

theorem documents_values (fields : List Field) :
    documents (fields.map fun f => (f.key, .value f.value)) =
      fields.map fun f => (f.key, f.value) := by
  induction fields with
  | nil => rfl
  | cons f rest ih => simp [documents, Entry.document, ih]

theorem written_table {f : Field} {fields : List Field}
    (sound : ∀ g ∈ f :: fields, g.Sound depth) (distinct : ((f :: fields).map Field.key).Nodup) :
    Written (depth + 1) (tableText (f :: fields))
      (.table ((f :: fields).map fun g => (g.key, g.value))) where
  opens := ⟨'\x7b', ' ' :: ((fieldsText (f :: fields)).toList ++ [' ', '\x7d']),
    by simp [tableText], rfl⟩
  read rest _ := by
    obtain ⟨c, more, split, bare⟩ := (sound f List.mem_cons_self).1.split
    have shape : (tableText (f :: fields)).toList ++ rest =
        '\x7b' :: ' ' :: ((fieldsText (f :: fields)).toList ++ ' ' :: '\x7d' :: rest) := by
      simp [tableText]
    obtain ⟨tail, first⟩ : ∃ tail,
        (fieldsText (f :: fields)).toList ++ ' ' :: '\x7d' :: rest = c :: tail := by
      cases fields <;> simp [fieldsText, Field.text, split]
    have skipped : (' ' :: c :: tail).dropWhile blank = c :: tail :=
      dropWhile_cons_of_false (blank_of_bareChar bare)
    have item : accept '\x7d' (c :: tail) = some (false, c :: tail) :=
      accept_other (by simpa using ne_of_bareChar bare (d := '\x7d') rfl)
    have read := loop_fields sound [] (by simp) rest
    rw [List.nil_append, first] at read
    have fields := addValue_fields distinct [] (by simp)
    rw [shape, first, value]
    simp only [inlineTable, bind, StateT.bind, blanks, skipped, item, Option.bind_some,
      Bool.false_eq_true, if_false, read, fields, List.nil_append, documents_values]
    rfl

end Values

/-! ## Lines -/

inductive Line
  /-- A comment. -/
  | note (text : String)
  | empty
  /-- The header of a table. -/
  | header (key : String)
  /-- A key, what is written for its value, and the value. -/
  | entry (field : Field)

/-- A line that begins with one bracket. -/
theorem line_bracket {c : Char} (single : c ≠ '[') (cs : List Char) :
    line ('[' :: c :: cs) = (headerPath (c :: cs)).bind fun ((path, key), cs) =>
      (expect ']' cs).bind fun (_, cs) => (lineEnd cs).bind fun (_, rest) =>
        some (([.table path key], true), rest) := by
  have skipped : ('[' :: c :: cs).dropWhile blank = '[' :: c :: cs := dropWhile_cons_of_false rfl
  simp [line, bind, StateT.bind, blanks, skipped, get, getThe, MonadStateOf.get, StateT.get, pure,
    single]
  rfl

/-- A line that begins with a bare key. -/
theorem line_bare {c : Char} (bare : bareChar c = true) (cs : List Char) :
    line (c :: cs) = (pair (value depthLimit) (c :: cs)).bind fun (p, cs) =>
      (lineEnd cs).bind fun (_, rest) => some (([.pair p], true), rest) := by
  have skipped : (c :: cs).dropWhile blank = c :: cs :=
    dropWhile_cons_of_false (blank_of_bareChar bare)
  have feed : c ≠ '\n' := ne_of_bareChar bare rfl
  have feed' : c ≠ '\r' := ne_of_bareChar bare rfl
  have hash : c ≠ '#' := ne_of_bareChar bare rfl
  have bracket : c ≠ '[' := ne_of_bareChar bare rfl
  simp [line, bind, StateT.bind, blanks, skipped, get, getThe, MonadStateOf.get, StateT.get, pure,
    feed, feed', hash, bracket]
  rfl

namespace Line

def text : Line → String
  | note remark => "#" ++ remark
  | empty => ""
  | header key => "[" ++ key ++ "]"
  | entry field => field.text

@[simp] theorem text_note (remark : String) : (note remark).text = "#" ++ remark := rfl

@[simp] theorem text_empty : empty.text = "" := rfl

@[simp] theorem text_header (key : String) : (header key).text = "[" ++ key ++ "]" := rfl

@[simp] theorem text_entry (field : Field) : (entry field).text = field.text := rfl

def statements : Line → List Statement
  | note _ | empty => []
  | header key => [.table [] key]
  | entry field => [.pair field.pair]

def Sound : Line → Prop
  | note remark => ∀ c ∈ remark.toList, printable c = true
  | empty => True
  | header key => Bare key
  | entry field => field.Sound depthLimit

/-- No line begins with a byte order mark. -/
theorem Sound.unmarked {l : Line} (sound : l.Sound) (rest : List Char) :
    ∃ c more, l.text.toList ++ '\n' :: rest = c :: more ∧ c ≠ '\ufeff' := by
  cases l with
  | note remark => exact ⟨'#', remark.toList ++ '\n' :: rest, by simp [text], by decide⟩
  | empty => exact ⟨'\n', rest, by simp [text], by decide⟩
  | header key => exact ⟨'[', key.toList ++ ']' :: '\n' :: rest, by simp [text], by decide⟩
  | entry field =>
    obtain ⟨c, more, split, bare⟩ := sound.1.split
    exact ⟨c, _, by simp [text, Field.text, split]; rfl, ne_of_bareChar bare rfl⟩

theorem read_note {remark : List Char} (all : ∀ c ∈ remark, printable c = true)
    (rest : List Char) :
    line ('#' :: (remark ++ '\n' :: rest)) = some (([], true), rest) := by
  have ends : (remark ++ '\n' :: rest).dropWhile printable = '\n' :: rest := by
    rw [List.dropWhile_append_of_pos all]
    rfl
  have taken : lineEnd ('#' :: (remark ++ '\n' :: rest)) = some ((), rest) := by
    unfold lineEnd
    rw [dropWhile_cons_of_false rfl]
    simp only [ends]
  show (lineEnd ('#' :: (remark ++ '\n' :: rest))).bind _ = _
  rw [taken]
  rfl

theorem read_header {key : String} (bare : Bare key) (rest : List Char) :
    line ('[' :: (key.toList ++ ']' :: '\n' :: rest)) = some (([.table [] key], true), rest) := by
  obtain ⟨c, more, split, own⟩ := bare.split
  have keys : path (key.toList ++ ']' :: '\n' :: rest) = some ([key], ']' :: '\n' :: rest) :=
    path_bare (List.forall_mem_nil _) bare (by rintro _ ⟨⟩; rfl) (by simp [blank])
  have taken : headerPath (key.toList ++ ']' :: '\n' :: rest) =
      some (([], key), ']' :: '\n' :: rest) := by
    simp only [headerPath, bind, StateT.bind, keys]
    rfl
  rw [split, List.cons_append] at taken ⊢
  rw [line_bracket (ne_of_bareChar own rfl), taken]
  rfl

theorem read_entry {field : Field} (sound : field.Sound depthLimit) (rest : List Char) :
    line (field.text.toList ++ '\n' :: rest) = some (([.pair field.pair], true), rest) := by
  obtain ⟨c, more, first, own⟩ : ∃ c more,
      field.text.toList ++ '\n' :: rest = c :: more ∧ bareChar c = true := by
    obtain ⟨c, more, split, own⟩ := sound.1.split
    exact ⟨c, _, by simp [Field.text, split]; rfl, own⟩
  have taken := pair_field sound (List.forall_mem_nil _) ('\n' :: rest) (by rintro _ ⟨⟩; rfl)
  rw [List.nil_append, first] at taken
  rw [first, line_bare own, taken]
  rfl

/-- A line is read as its statement, if it has one, whatever the next lines are. -/
theorem Sound.read {l : Line} (sound : l.Sound) (rest : List Char) :
    line (l.text.toList ++ '\n' :: rest) = some ((l.statements, true), rest) := by
  cases l with
  | note remark => simpa [text, statements] using read_note sound rest
  | empty => rfl
  | header key => simpa [text, statements] using read_header sound rest
  | entry field => exact read_entry sound rest

end Line

theorem linesOf_cons (l : String) (lines : List String) :
    (Config.linesOf (l :: lines)).toList = l.toList ++ '\n' :: (Config.linesOf lines).toList := by
  simp [Config.linesOf, String.join_cons]

theorem linesOf_append (lines others : List String) :
    (Config.linesOf (lines ++ others)).toList =
      (Config.linesOf lines).toList ++ (Config.linesOf others).toList := by
  simp [Config.linesOf]

/-- If lines that begin with a key are read at all, its value was read first. -/
theorem loop_entry {k : String} {c : Char} {cs left : List Char} {taken : List Statement}
    (bare : Bare k) (other : blank c = false)
    (read : loop line (k.toList ++ ' ' :: '=' :: ' ' :: c :: cs) = some (taken, left)) :
    ∃ d rest more, value depthLimit (c :: cs) = some (d, rest) ∧
      taken = .pair { path := [], key := k, value := d } :: more := by
  obtain ⟨first, tail, split, own⟩ := bare.split
  have keyed := @pair_bare k (value depthLimit) c [] cs (List.forall_mem_nil _) bare other
  rw [List.nil_append, split, List.cons_append] at keyed
  obtain ⟨items, goes, rest, more, stepped, rfl⟩ := loop_first read
  rw [split, List.cons_append, line_bare own, keyed] at stepped
  obtain ⟨⟨p, rest⟩, paired, stepped⟩ := Option.bind_eq_some_iff.1 stepped
  obtain ⟨⟨d, rest⟩, found, same⟩ := Option.map_eq_some_iff.1 paired
  cases same
  obtain ⟨_, -, stepped⟩ := Option.bind_eq_some_iff.1 stepped
  cases stepped
  exact ⟨d, rest, more, found, rfl⟩

theorem loop_lines {lines : List Line} (sound : ∀ l ∈ lines, l.Sound) (rest : List Char) :
    loop line ((Config.linesOf (lines.map Line.text)).toList ++ rest) =
      (loop line rest).map fun (more, left) => (lines.flatMap Line.statements ++ more, left) := by
  induction lines with
  | nil => simp [Config.linesOf]
  | cons l more ih =>
    obtain ⟨first, sound⟩ := List.forall_mem_cons.1 sound
    have read := first.read ((Config.linesOf (more.map Line.text)).toList ++ rest)
    rw [List.map_cons, linesOf_cons, List.append_assoc, List.cons_append,
      loop_more read (by simp; omega), ih sound]
    cases loop line rest <;> simp

/-- **Lines are read as their statements**, and what follows them is read as it is. -/
theorem statements_lines {l : Line} {lines : List Line} (sound : ∀ m ∈ l :: lines, m.Sound)
    (rest : List Char) :
    statements ((Config.linesOf ((l :: lines).map Line.text)).toList ++ rest) =
      (loop line rest).map fun read => (l :: lines).flatMap Line.statements ++ read.1 := by
  have read := loop_lines sound rest
  obtain ⟨c, tail, first, unmarked⟩ := (sound l List.mem_cons_self).unmarked
    ((Config.linesOf (lines.map Line.text)).toList ++ rest)
  have shape : (Config.linesOf ((l :: lines).map Line.text)).toList ++ rest = c :: tail := by
    rw [List.map_cons, linesOf_cons, List.append_assoc, List.cons_append, first]
  rw [shape] at read ⊢
  simp [statements, unmarked, read]
  rfl

end Synod.Toml
