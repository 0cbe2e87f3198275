/-
Synod.Proofs.Growth -- a tree that is being read only grows

Statements add values and tables to a tree.  None of them takes a value away or puts another one in
its place, since nothing is defined twice (`Growth.add_keeps`).  So whatever follows in a text, a
value that was read at a path of keys is the one that the finished document has there.
-/
import Mathlib.Data.List.Basic
import Synod.Toml.Reader

namespace Synod.Toml

set_option autoImplicit false

/-! ## Entries -/

theorem lookup_replace (entries : Entries) (key k : String) (entry : Entry) :
    (replace entries key entry).lookup k =
      if k = key then (entries.lookup key).map fun _ => entry else entries.lookup k := by
  induction entries with
  | nil => simp [replace]
  | cons e rest ih =>
    obtain ⟨j, old⟩ := e
    unfold replace at ih ⊢
    rw [List.map_cons]
    by_cases here : j = key
    · by_cases asked : k = key
      · simp [here, asked]
      · have other : (k == key) = false := beq_eq_false_iff_ne.2 asked
        simpa [here, asked, List.lookup_cons, other] using ih
    · have other : (key == j) = false := beq_eq_false_iff_ne.2 (Ne.symm here)
      simp only [here, if_false, List.lookup_cons, ih, other]
      by_cases found : k = j
      · simp [found, here]
      · simp [beq_eq_false_iff_ne.2 found]

theorem lookup_documents (entries : Entries) (key : String) :
    (documents entries).lookup key = (entries.lookup key).map Entry.document := by
  induction entries with
  | nil => rfl
  | cons e rest ih =>
    obtain ⟨k, entry⟩ := e
    rw [documents, List.lookup_cons, List.lookup_cons, ih]
    cases key == k <;> rfl

/-! ## What a tree holds -/

/-- The value that a path of keys leads to, if it passes through tables only. -/
def valueAt? (key : String) : List String → Entries → Option Document
  | [], entries =>
    match entries.lookup key with
    | some (.value d) => some d
    | _ => none
  | k :: path, entries =>
    match entries.lookup k with
    | some (.table _ inner) => valueAt? key path inner
    | _ => none

/-- What one tree holds, the other one holds too. -/
def Keeps (before after : Entries) : Prop :=
  ∀ path key d, valueAt? key path before = some d → valueAt? key path after = some d

theorem Keeps.trans {a b c : Entries} (first : Keeps a b) (second : Keeps b c) : Keeps a c :=
  fun path key d held => second path key d (first path key d held)

/-- The first key on the way to a value. -/
theorem valueAt?_head {entries : Entries} {path : List String} {key : String} {d : Document}
    (held : valueAt? key path entries = some d) :
    ∃ entry, entries.lookup (path.headD key) = some entry ∧
      ∀ elements, entry ≠ .tables elements := by
  cases path with
  | nil =>
    unfold valueAt? at held
    split at held
    · next found => exact ⟨_, found, by simp⟩
    · cases held
  | cons k path =>
    unfold valueAt? at held
    split at held
    · next found => exact ⟨_, found, by simp⟩
    · cases held

/-- Only the entry at the first key matters. -/
theorem valueAt?_congr {before after : Entries} {path : List String} {key : String}
    (same : after.lookup (path.headD key) = before.lookup (path.headD key)) :
    valueAt? key path after = valueAt? key path before := by
  cases path <;> simp_all [valueAt?]

section Keeps

variable {entries inner inner' after : Entries} {key : String}

/-- What is put at the end hides nothing. -/
theorem keeps_append (entry : Entry) : Keeps entries (entries ++ [(key, entry)]) := by
  intro path k d held
  obtain ⟨old, found, -⟩ := valueAt?_head held
  rw [valueAt?_congr, held]
  rw [List.lookup_append, found]
  rfl

/-- A table that keeps what is in it, however it came about. -/
theorem keeps_replace_table {origin : Origin} (origin' : Origin)
    (found : entries.lookup key = some (.table origin inner)) (keeps : Keeps inner inner') :
    Keeps entries (replace entries key (.table origin' inner')) := by
  intro path k d held
  by_cases here : path.headD k = key
  · cases path with
    | nil =>
      obtain rfl : k = key := here
      simp [valueAt?, found] at held
    | cons j path =>
      obtain rfl : j = key := here
      simp only [valueAt?, found] at held
      simpa [valueAt?, lookup_replace, found] using keeps path k d held
  · rw [valueAt?_congr, held]
    rw [lookup_replace, if_neg here]

/-- A list of tables, through which no path leads. -/
theorem keeps_replace_tables {elements : List Entries} (entry : Entry)
    (found : entries.lookup key = some (.tables elements)) :
    Keeps entries (replace entries key entry) := by
  intro path k d held
  have here : path.headD k ≠ key := by
    intro here
    obtain ⟨old, there, single⟩ := valueAt?_head held
    rw [here, found] at there
    cases there
    exact single elements rfl
  rw [valueAt?_congr, held]
  rw [lookup_replace, if_neg here]

/-! ## What statements do -/

theorem addValue_keeps {d : Document} {path : List String} {isOpen : Bool}
    (added : addValue d key path isOpen entries = some after) : Keeps entries after := by
  induction path generalizing isOpen entries after with
  | nil =>
    unfold addValue at added
    split at added
    · cases added
      exact keeps_append _
    · cases added
  | cons k path ih =>
    unfold addValue at added
    split at added
    · obtain ⟨inner, -, added⟩ := Option.bind_eq_some_iff.1 added
      cases added
      exact keeps_append _
    · cases added
    · next origin inner _ found =>
      obtain ⟨inner', within, added⟩ := Option.bind_eq_some_iff.1 added
      cases added
      exact keeps_replace_table origin found (ih within)
    · next last before found =>
      obtain ⟨last', -, added⟩ := Option.bind_eq_some_iff.1 added
      cases added
      exact keeps_replace_tables _ found
    · cases added

theorem below_keeps {change : Entries → Option Entries} {path : List String}
    (keeps : ∀ before after, change before = some after → Keeps before after)
    (changed : below change path entries = some after) : Keeps entries after := by
  induction path generalizing entries after with
  | nil => exact keeps entries after changed
  | cons k path ih =>
    unfold below at changed
    split at changed
    · obtain ⟨inner, -, changed⟩ := Option.bind_eq_some_iff.1 changed
      cases changed
      exact keeps_append _
    · next origin inner found =>
      obtain ⟨inner', within, changed⟩ := Option.bind_eq_some_iff.1 changed
      cases changed
      exact keeps_replace_table origin found (ih within)
    · next last before found =>
      obtain ⟨last', -, changed⟩ := Option.bind_eq_some_iff.1 changed
      cases changed
      exact keeps_replace_tables _ found
    · cases changed

theorem openTable_keeps (opened : openTable key entries = some after) : Keeps entries after := by
  unfold openTable at opened
  split at opened
  · cases opened
    exact keeps_append _
  · next inner found =>
    cases opened
    exact keeps_replace_table .header found fun _ _ _ held => held
  · cases opened

theorem openElement_keeps (opened : openElement key entries = some after) :
    Keeps entries after := by
  unfold openElement at opened
  split at opened
  · cases opened
    exact keeps_append _
  · next elements found =>
    cases opened
    exact keeps_replace_tables _ found
  · cases opened

end Keeps

/-- **No statement takes away what a tree holds.** -/
theorem Growth.add_keeps {g h : Growth} {s : Statement} (added : g.add s = some h) :
    Keeps g.entries h.entries := by
  cases s with
  | table path key =>
    obtain ⟨entries, changed, added⟩ := Option.bind_eq_some_iff.1 added
    cases added
    exact below_keeps (fun _ _ => openTable_keeps) changed
  | element path key =>
    obtain ⟨entries, changed, added⟩ := Option.bind_eq_some_iff.1 added
    cases added
    exact below_keeps (fun _ _ => openElement_keeps) changed
  | pair p =>
    obtain ⟨entries, changed, added⟩ := Option.bind_eq_some_iff.1 added
    cases added
    exact below_keeps (fun _ _ => addValue_keeps) changed

theorem Growth.foldlM_keeps {g h : Growth} {statements : List Statement}
    (read : statements.foldlM Growth.add g = some h) : Keeps g.entries h.entries := by
  induction statements generalizing g with
  | nil =>
    cases read
    exact fun _ _ _ held => held
  | cons s rest ih =>
    rw [List.foldlM_cons] at read
    obtain ⟨grown, added, read⟩ := Option.bind_eq_some_iff.1 read
    exact (Growth.add_keeps added).trans (ih read)

/-! ## The document -/

/-- A value that a table holds. -/
theorem lookup_documents_of_valueAt? {entries : Entries} {k key : String} {d : Document}
    (held : valueAt? key [k] entries = some d) :
    ∃ fields, (documents entries).lookup k = some (.table fields) ∧ fields.lookup key = some d := by
  unfold valueAt? at held
  split at held
  · next origin inner found =>
    unfold valueAt? at held
    split at held
    · next value there =>
      cases held
      exact ⟨documents inner, by simp [lookup_documents, found, Entry.document],
        by simp [lookup_documents, there, Entry.document]⟩
    · cases held
  · cases held

/-- What is made of the document that a text stands for. -/
theorem parse_bind {α : Type} (text : String) (make : Document → Option α) :
    (parse text).bind make = (statements text.toList).bind fun taken =>
      (taken.foldlM Growth.add {}).bind fun g => make (.table (documents g.entries)) := by
  simp only [parse, bind, Option.bind_assoc, pure, Option.bind_some]

end Synod.Toml
