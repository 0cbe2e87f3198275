/-
Synod.Proofs.Files -- what is written to a path is read there

A path is followed through directories, and only a place that is no directory is ever written to.
So each path that led somewhere leads there still (`FileTree.locate?_put`), and the file at the
place is the one that was put.  What a device takes is not kept (`World.Keeps`).
-/
import Mathlib.Data.List.Basic
import Mathlib.Logic.Basic
import Synod.CommandLine.World

namespace Synod

set_option autoImplicit false

/-! ## Bytes -/

theorem loop_toList (bytes : ByteArray) (i : Nat) (before : List UInt8) :
    ByteArray.toList.loop bytes i before = before.reverse ++ bytes.data.toList.drop i := by
  fun_induction ByteArray.toList.loop bytes i before with
  | case1 i before more ih =>
    have inside : i < bytes.data.toList.length := by simpa using more
    rw [ih, List.drop_eq_getElem_cons inside]
    simp [ByteArray.get!, more]
  | case2 i before ends =>
    rw [List.drop_eq_nil_of_le (by simpa using ends), List.append_nil]

theorem toList_eq_data (bytes : ByteArray) : bytes.toList = bytes.data.toList :=
  loop_toList bytes 0 []

/-! ## Trees -/

namespace FileTree

variable {t after : FileTree} {here : Location} {e : Entry}

theorem entry?_put (below : here ≠ []) (put : t.put? here e = some after) (there : Location) :
    after.entry? there = if there = here then some e else t.entry? there := by
  unfold put? at put
  split at put
  · cases put
    cases there with
    | nil =>
      rw [if_neg (Ne.symm below)]
      rfl
    | cons name rest =>
      have assigned := lookup_assign t.entries here (name :: rest) e
      -- lists are compared name by name here
      rw [lawful_beq_subsingleton instBEqOfDecidableEq List.instBEq] at assigned
      exact assigned
  · cases put

theorem workingDirectory_put (put : t.put? here e = some after) :
    after.workingDirectory = t.workingDirectory := by
  unfold put? at put
  split at put
  · cases put
    rfl
  · cases put

/-- The root is a directory. -/
theorem ne_nil_of_solid (solid : t.isDirectory here = false) : here ≠ [] := by
  rintro rfl
  cases solid

/-- Where names lead through directories, they lead as long as these stay. -/
theorem follow_mono (stay : ∀ there, t.isDirectory there = true → after.isDirectory there = true)
    {names : List FileName} {start : Location} (leads : t.follow start names = some here) :
    after.follow start names = some here := by
  induction names generalizing start with
  | nil => exact leads
  | cons name rest ih =>
    unfold follow at leads ⊢
    split at leads
    · next passed => rw [if_pos ⟨stay _ passed.1, passed.2⟩, ih leads]
    · cases leads

/-- A place that is no directory is put something new, and paths lead to it as before. -/
theorem locate?_put (solid : t.isDirectory here = false) (put : t.put? here e = some after)
    {path : List UInt8} {there : Location} (leads : t.locate? path = some there) :
    after.locate? path = some there := by
  have below := ne_nil_of_solid solid
  have stay : ∀ there, t.isDirectory there = true → after.isDirectory there = true := by
    intro there directory
    have apart : there ≠ here := by
      rintro rfl
      simp [directory] at solid
    rw [isDirectory, entry?_put below put, if_neg apart]
    exact directory
  unfold locate? at leads ⊢
  split at leads
  · cases leads
  · next short =>
    rw [if_neg short, origin, workingDirectory_put put]
    exact follow_mono stay leads

theorem contents?_put {path bytes : List UInt8} (solid : t.isDirectory here = false)
    (leads : t.locate? path = some here) (put : t.put? here (.file bytes) = some after) :
    after.contents? path = some bytes := by
  rw [contents?, locate?_put solid put leads, Option.bind_some,
    entry?_put (ne_nil_of_solid solid) put, if_pos rfl]

end FileTree

/-! ## Worlds -/

namespace CommandLine.World

variable {w after : World} {path text : String}

/-- What is written to the path is kept: there is no device. -/
def Keeps (w : World) (path : String) : Prop :=
  ∀ d, (w.tree.locate? (pathOf path)).bind w.tree.entry? ≠ some (.device d)

theorem keeps_of_vacant (vacant : (w.tree.locate? (pathOf path)).bind w.tree.entry? = none) :
    w.Keeps path := by
  intro d stands
  rw [vacant] at stands
  cases stands

theorem contents_write (kept : w.Keeps path) (written : w.write path text = .ok after) :
    after.contents path = some text.toUTF8.toList := by
  unfold write at written
  split at written
  · cases written
  · next here leads =>
    have put (solid : w.tree.isDirectory here = false)
        (written : w.put here text.toUTF8.toList = .ok after) :
        after.contents path = some text.toUTF8.toList := by
      unfold World.put at written
      split at written
      · next tree put =>
        cases written
        exact FileTree.contents?_put solid leads put
      · cases written
    have plain (d : Device) (stands : w.tree.entry? here = some (.device d)) : False :=
      kept d (by rw [leads, Option.bind_some, stands])
    split at written
    · cases written
    · next stands => exact (plain _ stands).elim
    · next stands => exact (plain _ stands).elim
    · cases written
    · cases written
    · next stands => exact put (by simp [FileTree.isDirectory, stands, Entry.isDirectory]) written
    · next stands => exact put (by simp [FileTree.isDirectory, stands]) written

end CommandLine.World

end Synod
