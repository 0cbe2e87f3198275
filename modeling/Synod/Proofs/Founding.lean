/-
Synod.Proofs.Founding -- which names a first configuration can be written for

The template puts the name of the node between quotes, as it is, in three places.  It is taken
apart here into lines (`template_eq`), of which those up to the name are the same for every node.

Where the name is plain, every line is read as what it says, so that the template loads as the
configuration of a cluster of one node (`ofToml_template`).

Conversely, whatever the name is, the first key that is read is the node's, and nothing later in
the text can change its value.  This value is the text that begins at the quote before the name,
and only for a plain name is it the name itself (`plain_of_ofToml`): the lines after it have an
equals sign before the next quote, which the name would have to hold as well.

What `init` writes follows from both (`init_founds_iff_plain`).
-/
import Synod.Proofs.Codec
import Synod.Proofs.Configuration
import Synod.Proofs.Files
import Synod.Proofs.Growth
import Synod.Proofs.Writing

namespace Synod.Config

set_option autoImplicit false

open Toml

/-! ## The lines of the template -/

/-- A field whose value is a text in quotes. -/
def quotedField (key text : String) : Field := ⟨key, "\"" ++ text ++ "\"", .text text⟩

/-- A field whose value is a word that stands for a number. -/
def numberField (key word : String) (n : Int) : Field := ⟨key, word, .integer n⟩

def soleMember (id : NodeId) : Field :=
  let fields := [quotedField "id" id, quotedField "address" "localhost:7654"]
  let member := Document.table (fields.map fun f => (f.key, f.value))
  ⟨"members", listText [(tableText fields, member)], .list [member]⟩

/-- Up to the header of the node's table. -/
def preamble : List Line := [
  .note " WolfPaxos Configuration",
  .note " Generated configuration file",
  .empty,
  .header "node"]

def settings (id : NodeId) : List Line := [
  .entry (quotedField "id" id),
  .entry (quotedField "bind_address" "0.0.0.0:7654"),
  .entry (quotedField "data_dir" ("/var/lib/wolfpaxos/" ++ id)),
  .note " advertise_address = \"my-public-ip:7654\"",
  .empty,
  .header "cluster",
  .entry (soleMember id),
  .note " members = [",
  .note "     \x7b id = \"node-1\", address = \"node-1.example.com:7654\" \x7d,",
  .note "     \x7b id = \"node-2\", address = \"node-2.example.com:7654\" \x7d,",
  .note "     \x7b id = \"node-3\", address = \"node-3.example.com:7654\" \x7d,",
  .note " ]",
  .entry (numberField "heartbeat_interval_ms" "500" 500),
  .entry (numberField "heartbeat_timeout_ms" "1500" 1500),
  .entry (numberField "liveness_window_ms" "2000" 2000),
  .entry (numberField "liveness_poll_ms" "250" 250),
  .entry (numberField "liveness_jitter_ms" "250" 250),
  .note " min_quorum = 2",
  .note " leader = \"node-1\"",
  .empty,
  .header "logging",
  .entry (quotedField "level" "info")]

theorem quotedField_text (key text : String) :
    (quotedField key text).text = key ++ " = \"" ++ text ++ "\"" :=
  String.toList_injective (by simp [Field.text, quotedField])

theorem numberField_text (key word : String) (n : Int) :
    (numberField key word n).text = key ++ " = " ++ word := rfl

/-- The list of members stands on three lines. -/
theorem soleMember_text (id : NodeId) :
    (soleMember id).text = "members = [" ++ "\n" ++
      ("    \x7b id = \"" ++ id ++ "\", address = \"localhost:7654\" \x7d,") ++ "\n" ++ "]" := by
  simp only [Field.text, soleMember, quotedField, listText, itemsText, tableText, fieldsText,
    String.append_assoc, String.reduceAppend]
  -- what stands after the name is put together by now
  simp only [← String.append_assoc, String.reduceAppend]

theorem template_eq (id : NodeId) :
    template id = linesOf ((preamble ++ settings id).map Line.text) := by
  have name : (quotedField "id" id).text = "id = \"" ++ id ++ "\"" := quotedField_text "id" id
  have store : (quotedField "data_dir" ("/var/lib/wolfpaxos/" ++ id)).text =
      "data_dir = \"/var/lib/wolfpaxos/" ++ id ++ "\"" := by
    rw [quotedField_text]
    simp only [← String.append_assoc, String.reduceAppend]
  simp only [preamble, settings, List.map_append, List.map_cons, List.map_nil, Line.text_note,
    Line.text_empty, Line.text_header, Line.text_entry, name, store, quotedField_text,
    numberField_text, String.reduceAppend]
  simp only [template, linesOf, List.map_cons, List.map_nil, List.cons_append, List.nil_append,
    String.join_cons, String.append_assoc, soleMember_text]

/-! ## A plain name -/

/-- The configuration of a cluster of one node. -/
def founding (id : NodeId) : Config where
  node := {
    id
    bindAddress := "0.0.0.0:7654"
    dataDir := "/var/lib/wolfpaxos/" ++ id }
  cluster := { members := [{ id, address := "localhost:7654" }] }

theorem quotedField_sound {depth : Nat} {key text : String} (bare : Bare key) (plain : Plain text)
    (nonempty : text ≠ "") : (quotedField key text).Sound depth :=
  ⟨bare, written_text plain nonempty⟩

theorem soleMember_sound {depth : Nat} {id : NodeId} (plain : Plain id) (nonempty : id ≠ "") :
    (soleMember id).Sound (depth + 2) := by
  have bare : Bare "members" := by decide
  have distinct : ["id", "address"].Nodup := by decide
  refine ⟨bare, written_list ?_⟩
  simp only [List.mem_singleton, forall_eq]
  refine written_table ?_ distinct
  rw [List.forall_mem_cons, List.forall_mem_singleton]
  exact ⟨quotedField_sound (by decide) plain nonempty,
    quotedField_sound (by decide) (by decide) (by decide)⟩

theorem numberField_sound {depth : Nat} {key word : String} {n : Int} (bare : Bare key)
    (nonempty : word ≠ "") (all : word.toList.all wordChar = true)
    (undated : isDate word.toList = false) (means : ofWord word.toList = some (.integer n)) :
    (numberField key word n).Sound depth :=
  ⟨bare, written_word nonempty (List.all_eq_true.1 all) undated means⟩

instance (remark : String) : Decidable (Line.note remark).Sound :=
  decidable_of_iff (remark.toList.all printable = true) List.all_eq_true

instance (key : String) : Decidable (Line.header key).Sound :=
  inferInstanceAs (Decidable (Bare key))

theorem preamble_sound : ∀ l ∈ preamble, l.Sound := by
  simp only [preamble, List.forall_mem_cons]
  exact ⟨by decide, by decide, trivial, by decide, by simp⟩

theorem settings_sound {id : NodeId} (plain : Plain id) (nonempty : id ≠ "") :
    ∀ l ∈ settings id, l.Sound := by
  have stored : Plain ("/var/lib/wolfpaxos/" ++ id) := plain.append (by decide)
  -- three lines hold the name, and the other ones can be looked at as they are
  simp only [settings, List.forall_mem_cons]
  refine ⟨quotedField_sound (by decide) plain nonempty,
    quotedField_sound (by decide) (by decide) (by decide),
    quotedField_sound (by decide) stored (by simp), by decide, trivial, by decide,
    soleMember_sound plain nonempty, by decide, by decide, by decide, by decide, by decide,
    ?_, ?_, ?_, ?_, ?_, by decide, by decide, trivial, by decide,
    quotedField_sound (by decide) (by decide) (by decide), by simp⟩
  all_goals exact numberField_sound (by decide) (by decide) rfl rfl rfl

theorem statements_template {id : NodeId} (plain : Plain id) (nonempty : id ≠ "") :
    statements (template id).toList = some ((preamble ++ settings id).flatMap Line.statements) := by
  have sound : ∀ l ∈ preamble ++ settings id, l.Sound :=
    List.forall_mem_append.2 ⟨preamble_sound, settings_sound plain nonempty⟩
  have read : statements ((linesOf ((preamble ++ settings id).map Line.text)).toList ++ []) =
      (loop line []).map fun read =>
        (preamble ++ settings id).flatMap Line.statements ++ read.1 :=
    statements_lines sound []
  have ends : loop line [] = some ([], []) := loop_last rfl
  rw [template_eq]
  simpa only [List.append_nil, ends, Option.map_some] using read

/-- What the statements of the template say. -/
theorem document_settings (id : NodeId) :
    (((preamble ++ settings id).flatMap Line.statements).foldlM Growth.add {}).bind
      (fun g => ofDocument? .ignored (.table (documents g.entries))) = some (founding id) := by
  rfl

theorem founding_valid {id : NodeId} (nonempty : id ≠ "") : (founding id).Valid where
  named := nonempty
  bound := by simp [founding]
  complete := by simp [founding, nonempty]
  distinct := by simp [founding]
  met := by simp [founding, quorumSize, clusterSize, peers]
  majority := by simp [founding, quorumSize, clusterSize, peers]
  patient := by simp [founding]
  polls := by simp [founding]

theorem ofToml_template {id : NodeId} (plain : Plain id) (nonempty : id ≠ "") :
    ofToml (template id) = .ok (founding id) := by
  have read : (parse (template id)).bind (ofDocument? .ignored) = some (founding id) := by
    rw [parse_bind, statements_template plain nonempty, Option.bind_some]
    exact document_settings id
  rw [ofToml, read]
  exact validate_eq_ok_iff.2 ⟨founding_valid nonempty, rfl⟩

/-! ## Any name -/

theorem settings_text (id : NodeId) :
    ∃ after, (linesOf ((settings id).map Line.text)).toList = "id".toList ++ ' ' :: '=' :: ' ' ::
      '"' :: (id.toList ++ '"' :: ("\nbind_address = ".toList ++ after)) := by
  rw [settings, List.map_cons, List.map_cons, linesOf_cons, linesOf_cons, Line.text_entry,
    Line.text_entry, quotedField_text, quotedField_text]
  simp

/-- Whatever the name is, the statements begin with the node's table and its first key.  Its value
is the text that begins at the quote before the name. -/
theorem statements_template_begin {id : NodeId} {taken : List Statement}
    (read : statements (template id).toList = some taken) :
    ∃ after v rest more,
      text ('"' :: (id.toList ++ '"' :: ("\nbind_address = ".toList ++ after))) = some (v, rest) ∧
        taken =
          .table [] "node" :: .pair { path := [], key := "id", value := .text v } :: more := by
  obtain ⟨after, begins⟩ := settings_text id
  have lines : statements ((linesOf (preamble.map Line.text)).toList ++
      (linesOf ((settings id).map Line.text)).toList) =
        (loop line (linesOf ((settings id).map Line.text)).toList).map
          fun read => preamble.flatMap Line.statements ++ read.1 :=
    statements_lines preamble_sound _
  rw [template_eq, List.map_append, linesOf_append, lines, begins] at read
  obtain ⟨⟨others, left⟩, looped, rfl⟩ := Option.map_eq_some_iff.1 read
  have bare : Bare "id" := by decide
  obtain ⟨d, rest, more, value, rfl⟩ := loop_entry bare rfl looped
  rw [value_text] at value
  obtain ⟨⟨v, rest⟩, quoted, same⟩ := Option.map_eq_some_iff.1 value
  cases same
  exact ⟨after, v, _, more, quoted, rfl⟩

theorem id_of_node? {fields : List (String × Document)} {n : NodeConfig} {v : String}
    (held : fields.lookup "id" = some (.text v)) (read : node? .ignored (.table fields) = some n) :
    n.id = v := by
  simp only [node?, fields?, bind, Option.bind_some, held, required, text?] at read
  obtain ⟨_, -, read⟩ := Option.bind_eq_some_iff.1 read
  obtain ⟨_, -, read⟩ := Option.bind_eq_some_iff.1 read
  obtain ⟨_, -, read⟩ := Option.bind_eq_some_iff.1 read
  cases read
  rfl

theorem id_of_ofDocument? {entries : Entries} {c : Config} {v : String}
    (held : valueAt? "id" ["node"] entries = some (.text v))
    (read : ofDocument? .ignored (.table (documents entries)) = some c) : c.node.id = v := by
  obtain ⟨fields, found, held⟩ := lookup_documents_of_valueAt? held
  simp only [ofDocument?, fields?, bind, Option.bind_some, found, required] at read
  obtain ⟨n, node, read⟩ := Option.bind_eq_some_iff.1 read
  obtain ⟨_, -, read⟩ := Option.bind_eq_some_iff.1 read
  obtain ⟨_, -, read⟩ := Option.bind_eq_some_iff.1 read
  cases read
  exact id_of_node? held node

/-- A name that is read back is plain: nothing in it ends the quotes or stands for something
else. -/
theorem plain_of_ofToml {id : NodeId} {c : Config} (read : ofToml (template id) = .ok c)
    (same : c.node.id = id) : Plain id ∧ id ≠ "" := by
  unfold ofToml at read
  split at read
  · next d made =>
    obtain ⟨valid, rfl⟩ := validate_eq_ok_iff.1 read
    rw [parse_bind] at made
    obtain ⟨taken, listed, grown⟩ := Option.bind_eq_some_iff.1 made
    obtain ⟨g, grown, built⟩ := Option.bind_eq_some_iff.1 grown
    obtain ⟨after, v, rest, more, quoted, rfl⟩ := statements_template_begin listed
    -- the name stands in the tree from the second statement on
    have held : valueAt? "id" ["node"] g.entries = some (.text v) :=
      Growth.foldlM_keeps (g := {
        entries := [("node", .table .header [("id", .value (.text v))])]
        current := ["node"] }) grown _ _ _ rfl
    obtain rfl : v = id := (id_of_ofDocument? held built).symm.trans same
    exact ⟨plain_of_text (by decide) (by decide) quoted, same ▸ valid.named⟩
  · cases read

/-! ## What a name yields -/

/-- A cluster of this node alone, with a directory of its own. -/
structure Founds (c : Config) (id : NodeId) : Prop where
  named : c.node.id = id
  stored : c.node.dataDir = "/var/lib/wolfpaxos/" ++ id
  alone : c.cluster.members.map MemberConfig.id = [id]
  sufficient : c.quorumSize = 1

theorem founding_founds (id : NodeId) : (founding id).Founds id where
  named := rfl
  stored := rfl
  alone := rfl
  sufficient := by simp [founding, quorumSize, clusterSize, peers]

end Synod.Config

/-! ## The command -/

namespace Synod.CommandLine

open Config (template founding)
open Toml (Plain)

section Init

variable {w after : World} {args : List String} {i : Invocation} {output : String} {id : NodeId}

/-- The file is written, and then the report. -/
theorem run_init (asked : parse args = .ok i) (command : i.command = .init output id) (w : World) :
    w.run args =
      match w.write output (template id) with
      | .ok written => (.success, { written with output := written.output ++ initReport output })
      | .error e => (.failure e, w) := by
  obtain ⟨config, logLevel, _⟩ := i
  cases command
  unfold World.run run
  rw [asked]
  simp only [runCommand, runInit, bind, StateT.bind, ExceptT.bind, ExceptT.bindCont, ExceptT.run,
    ExceptT.mk, Surroundings.write]
  cases w.write output (template id) <;> rfl

/-- What can be loaded from the file is what can be loaded from the template. -/
theorem ofFile_init (asked : parse args = .ok i) (command : i.command = .init output id)
    (ran : w.run args = (.success, after)) (kept : w.Keeps output) :
    Config.ofFile (after.contents output) = Config.ofToml (template id) := by
  rw [run_init asked command] at ran
  split at ran
  · next written wrote =>
    cases ran
    have stored : written.tree.contents? (pathOf output) = some (template id).toUTF8.toList :=
      World.contents_write kept wrote
    rw [World.contents, stored, Config.ofFile, toList_eq_data, Wire.fromUTF8?_eq_some.2 rfl]
  · cases ran

/-- **What `init` writes loads for a plain name, and for no other one.**  Let `init` succeed for a
name.  The file loads as the template does, unless a device stands at its path.  The template loads
as the configuration of a node of that name if and only if the name is plain and not empty, and then
as that of a cluster of this node alone.  For any other name it is refused, or names another node. -/
theorem init_founds_iff_plain (asked : parse args = .ok i) (command : i.command = .init output id)
    (ran : w.run args = (.success, after)) :
    (w.Keeps output → Config.ofFile (after.contents output) = Config.ofToml (template id)) ∧
      (∀ c, Config.ofToml (template id) = .ok c ∧ c.node.id = id ↔
        (Plain id ∧ id ≠ "") ∧ c = founding id) ∧
      (founding id).Founds id := by
  refine ⟨ofFile_init asked command ran, fun c => ⟨?_, ?_⟩, Config.founding_founds id⟩
  · rintro ⟨read, same⟩
    obtain ⟨plain, nonempty⟩ := Config.plain_of_ofToml read same
    rw [Config.ofToml_template plain nonempty] at read
    exact ⟨⟨plain, nonempty⟩, (Except.ok.inj read).symm⟩
  · rintro ⟨⟨plain, nonempty⟩, rfl⟩
    exact ⟨Config.ofToml_template plain nonempty, rfl⟩

end Init

theorem keeps_first : ({} : World).Keeps "first.toml" :=
  World.keeps_of_vacant (by decide +kernel)

/-- A name with a blank in it is plain. -/
theorem init_founds_iff_plain_blank :
    let args := ["init", "--output", "first.toml", "--node-id", "node 1"]
    let after := (({} : World).run args).2
    ({} : World).run args = (.success, after) ∧ ({} : World).Keeps "first.toml" ∧
      Config.ofFile (after.contents "first.toml") = .ok (founding "node 1") ∧
      (founding "node 1").Founds "node 1" := by
  intro args after
  have succeeds : (({} : World).run args).1 = .success := by decide +kernel
  have ran : ({} : World).run args = (.success, after) := Prod.ext succeeds rfl
  have asked : parse args = .ok ⟨"wolfpaxos.toml", none, .init "first.toml" "node 1"⟩ := rfl
  have plain : Plain "node 1" ∧ "node 1" ≠ "" := by decide
  obtain ⟨stored, loads, founds⟩ := init_founds_iff_plain asked rfl ran
  exact ⟨ran, keeps_first, (stored keeps_first).trans ((loads _).2 ⟨plain, rfl⟩).1, founds⟩

/-- A name with a quote in it ends its own quotes: what is written names no such node. -/
theorem quoted_founds_nothing :
    let args := ["init", "--output", "first.toml", "--node-id", "a\"b"]
    let after := (({} : World).run args).2
    ({} : World).run args = (.success, after) ∧
      ¬ ∃ c, Config.ofFile (after.contents "first.toml") = .ok c ∧ c.Founds "a\"b" := by
  intro args after
  have succeeds : (({} : World).run args).1 = .success := by decide +kernel
  have ran : ({} : World).run args = (.success, after) := Prod.ext succeeds rfl
  have asked : parse args = .ok ⟨"wolfpaxos.toml", none, .init "first.toml" "a\"b"⟩ := rfl
  have quoted : ¬ Plain "a\"b" := by decide
  refine ⟨ran, ?_⟩
  rintro ⟨c, loaded, founds⟩
  rw [ofFile_init asked rfl ran keeps_first] at loaded
  exact quoted (Config.plain_of_ofToml loaded founds.named).1

end Synod.CommandLine
