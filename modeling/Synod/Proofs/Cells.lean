/-
Synod.Proofs.Cells -- a store is two cells

What calls on a store are answered is told from the calls before and their answers alone
(`answerOf`).  One cell holds the last snapshot that was saved, the other one the first decision
that was recorded; calls that failed do not count, and a table fails its calls from where it
breaks to where it is mended (`answered_by_cells`).

Each call keeps the store in step with its past (`Remembers.step`), whatever the call is and
whether or not it fails, and by induction so does every sequence of calls.

On disk a store is an image.  Reading the image gives both cells back (`ofImage_toImage`).
-/
import Synod.Proofs.Codec
import Synod.Proofs.Storage
import Synod.Store.Image

namespace Synod.Store

set_option autoImplicit false

/-! ## The past of a store -/

/-- A call, and what it was answered. -/
abbrev Exchange := Call × Answer

/-- Calls with their answers, from a store on. -/
def transcript (s : Store) : List Call → List Exchange
  | [] => []
  | call :: rest => (call, (s.step call).2) :: transcript (s.step call).1 rest

/-- The snapshot that was saved. -/
def savedBy : Exchange → Option Snapshot
  | (.save snapshot, .done) => some snapshot
  | _ => none

/-- The decision that was put on record. -/
def recordedBy : Exchange → Option (Ballot × Value)
  | (.record b v, .done) => some (b, v)
  | _ => none

/-- Whether a table was broken or mended. -/
def brokenBy (table : Table) : Exchange → Option Bool
  | (.breakTable t, _) => if t = table then some true else none
  | (.fixTable t, _) => if t = table then some false else none
  | _ => none

def lastSaved (past : List Exchange) : Option Snapshot := (past.filterMap savedBy).getLast?

def firstRecorded (past : List Exchange) : Option (Ballot × Value) :=
  (past.filterMap recordedBy).head?

/-- A table fails if it was broken and not mended since. -/
def failing (past : List Exchange) (table : Table) : Bool :=
  (past.filterMap (brokenBy table)).getLast?.getD false

def failure : Answer := .failed (.storage "no such table")

/-- The table that a call is on. -/
def Call.table? : Call → Option Table
  | .save _ | .load => some .state
  | .record .. | .resolution => some .resolution
  | .reopen | .breakTable _ | .fixTable _ => none

/-- What two cells with this past answer to a call. -/
def answerOf (past : List Exchange) (call : Call) : Answer :=
  if call.table?.any (failing past) then failure
  else
    match call with
    | .load => .snapshot (lastSaved past)
    | .resolution => .decision (firstRecorded past)
    | _ => .done

section Past

variable (past : List Exchange) (x : Exchange)

theorem lastSaved_concat : lastSaved (past ++ [x]) = (savedBy x).or (lastSaved past) := by
  unfold lastSaved
  cases h : savedBy x <;> simp [List.filterMap_append, h]

theorem firstRecorded_concat :
    firstRecorded (past ++ [x]) = (firstRecorded past).or (recordedBy x) := by
  unfold firstRecorded
  cases h : recordedBy x <;> simp [List.filterMap_append, h]

theorem failing_concat (table : Table) :
    failing (past ++ [x]) table = (brokenBy table x).getD (failing past table) := by
  unfold failing
  cases h : brokenBy table x <;> simp [List.filterMap_append, h]

end Past

/-! ## In step with the past -/

/-- The snapshot on record. -/
def snapshot? (s : Store) : Option Snapshot := s.stateRow.map StateRow.toSnapshot

/-- What a call does where its table works. -/
def obey (s : Store) : Call → Store × Answer
  | .save snapshot => ({ s with stateRow := some (.ofSnapshot snapshot) }, .done)
  | .load => (s, .snapshot s.snapshot?)
  | .record b v =>
    ({ s with resolutionRow := s.resolutionRow.or (some (.ofDecision b v)) }, .done)
  | .resolution => (s, .decision s.decision)
  | .reopen => (s, .done)
  | .breakTable t => (s.breakTable t, .done)
  | .fixTable t => (s.fixTable t, .done)

/-- A call on a broken table fails and does nothing. -/
theorem step_eq (s : Store) (call : Call) :
    s.step call =
      if call.table?.any (fun t => t ∈ s.brokenTables) then (s, failure) else s.obey call := by
  cases call with
  | save | load | record | resolution =>
    simp only [step, save, load, record, resolution, check_bind]
    split
    · next broken => simp [answer, failure, Call.table?, broken]
    · next works => simp [answer, obey, snapshot?, decision, Call.table?, works]
  | reopen | breakTable | fixTable => rfl

theorem obey_ne_failed (s : Store) (call : Call) (e : Error) : (s.obey call).2 ≠ .failed e := by
  cases call <;> simp [obey]

/-- A call that fails leaves the store as it was. -/
theorem step_failed {s : Store} {call : Call} {e : Error} (failed : (s.step call).2 = .failed e) :
    (s.step call).1 = s := by
  rw [step_eq] at failed ⊢
  split
  · rfl
  · next works =>
    rw [if_neg works] at failed
    exact absurd failed (s.obey_ne_failed call e)

/-- The store holds what its past has put there, and the tables fail that are broken. -/
structure Remembers (past : List Exchange) (s : Store) : Prop where
  saved : s.snapshot? = lastSaved past
  recorded : s.decision = firstRecorded past
  broken : ∀ t, decide (t ∈ s.brokenTables) = failing past t

theorem remembers_new : Remembers [] {} := ⟨rfl, rfl, fun _ => rfl⟩

section Step

variable {s t : Store} {past : List Exchange}

theorem Remembers.extend (remembers : Remembers past s) {x : Exchange}
    (saved : t.snapshot? = (savedBy x).or s.snapshot?)
    (recorded : t.decision = s.decision.or (recordedBy x))
    (broken : ∀ u, decide (u ∈ t.brokenTables) =
      (brokenBy u x).getD (decide (u ∈ s.brokenTables))) : Remembers (past ++ [x]) t where
  saved := by rw [saved, lastSaved_concat, remembers.saved]
  recorded := by rw [recorded, firstRecorded_concat, remembers.recorded]
  broken u := by rw [broken, failing_concat, remembers.broken]

theorem Remembers.fail (remembers : Remembers past s) {call : Call} (on : call.table?.isSome) :
    Remembers (past ++ [(call, failure)]) s := by
  cases call with
  | save | load | record | resolution =>
    exact remembers.extend rfl Option.or_none.symm fun _ => rfl
  | reopen | breakTable | fixTable => cases on

theorem Remembers.obey (remembers : Remembers past s) (call : Call) :
    Remembers (past ++ [(call, (s.obey call).2)]) (s.obey call).1 := by
  cases call with
  | save snapshot =>
    exact remembers.extend (congrArg some (StateRow.toSnapshot_ofSnapshot snapshot))
      Option.or_none.symm fun _ => rfl
  | record b v =>
    refine remembers.extend rfl ?_ fun _ => rfl
    cases row : s.resolutionRow <;> simp [Store.obey, decision, row, recordedBy]
  | load | resolution | reopen => exact remembers.extend rfl Option.or_none.symm fun _ => rfl
  | breakTable table =>
    refine remembers.extend rfl Option.or_none.symm fun u => ?_
    by_cases same : table = u
    · simp [Store.obey, breakTable, brokenBy, same]
    · simp [Store.obey, breakTable, brokenBy, same, Ne.symm same]
  | fixTable table =>
    refine remembers.extend rfl Option.or_none.symm fun u => ?_
    by_cases same : table = u
    · simp [Store.obey, fixTable, brokenBy, same]
    · simp [Store.obey, fixTable, brokenBy, same, Ne.symm same]

/-- What is answered to a call is what the cells answer, and the store goes on to remember. -/
theorem Remembers.step (remembers : Remembers past s) (call : Call) :
    (s.step call).2 = answerOf past call ∧
      Remembers (past ++ [(call, (s.step call).2)]) (s.step call).1 := by
  have fails : failing past = fun t => decide (t ∈ s.brokenTables) :=
    funext fun t => (remembers.broken t).symm
  unfold answerOf
  rw [step_eq, fails]
  by_cases broken : call.table?.any (fun t => t ∈ s.brokenTables) = true
  · obtain ⟨t, on, -⟩ := (Option.any_eq_true ..).1 broken
    rw [if_pos broken, if_pos broken]
    exact ⟨rfl, remembers.fail (by simp [on])⟩
  · rw [if_neg broken, if_neg broken]
    refine ⟨?_, remembers.obey call⟩
    cases call with
    | load => exact congrArg Answer.snapshot remembers.saved
    | resolution => exact congrArg Answer.decision remembers.recorded
    | save | record | reopen | breakTable | fixTable => rfl

end Step

/-- Wherever a call stands in a sequence, it is answered from what stands before it. -/
theorem Remembers.transcript {s : Store} {past : List Exchange} (remembers : Remembers past s)
    {calls : List Call} {before after : List Exchange} {call : Call} {answer : Answer}
    (spoken : transcript s calls = before ++ (call, answer) :: after) :
    answer = answerOf (past ++ before) call := by
  induction calls generalizing s past before with
  | nil => simp [Store.transcript] at spoken
  | cons first rest ih =>
    obtain ⟨answered, later⟩ := remembers.step first
    rw [Store.transcript] at spoken
    cases before with
    | nil =>
      cases spoken
      simpa using answered
    | cons x before =>
      rw [List.cons_append] at spoken
      obtain ⟨rfl, rest⟩ := List.cons.inj spoken
      simpa using ih later rest

/-- **A store is two exact cells.**  Let calls be made on a new store, with tables breaking and
being mended and the store being opened again in between.  Each call is answered as the cells
answer it after what came before: a snapshot that is loaded is the last one that was saved, a
decision that is read is the first one that was recorded, and a call fails where its table does.
Whatever fails leaves the store as it was. -/
theorem answered_by_cells {calls : List Call} {before after : List Exchange} {call : Call}
    {answer : Answer} (spoken : transcript {} calls = before ++ (call, answer) :: after) :
    answer = answerOf before call ∧
      ∀ (s : Store) (e : Error), (s.step call).2 = .failed e → (s.step call).1 = s :=
  ⟨remembers_new.transcript spoken, fun _ _ => step_failed⟩

/-- A vote without a ballot, and a promise of the last round. -/
def oddSnapshot : Snapshot where
  promised := some { number := Ballot.lastRound, owner := "" }
  value := some "x"

/-- The state table is broken when a second snapshot is to be saved. -/
def mishap : List Call :=
  [.save oddSnapshot, .record { number := 9223372036854775808, owner := "a" } "x",
    .breakTable .state, .save {}, .record { number := 1, owner := "b" } "y", .reopen, .load,
    .fixTable .state, .load, .resolution]

theorem answered_by_cells_mishap :
    transcript {} mishap = (transcript {} mishap).take 8 ++
        (.load, .snapshot (some oddSnapshot)) :: (transcript {} mishap).drop 9 ∧
      Answer.snapshot (some oddSnapshot) = answerOf ((transcript {} mishap).take 8) .load := by
  have spoken : transcript {} mishap = (transcript {} mishap).take 8 ++
      (.load, .snapshot (some oddSnapshot)) :: (transcript {} mishap).drop 9 := rfl
  exact ⟨spoken, (answered_by_cells spoken).1⟩

/-! ## On disk -/

section Image

open Wire

/-- The texts of a snapshot fit into an image. -/
structure SnapshotFits (s : Snapshot) : Prop where
  promised : ∀ b ∈ s.promised, Fits b.owner
  accepted : ∀ b ∈ s.accepted, Fits b.owner
  value : ∀ v ∈ s.value, Fits v

theorem readSnapshot_exact : Exact SnapshotFits writeSnapshot readSnapshot := by
  have ballot := readOption_exact readBallot_exact
  have value := readOption_exact readText_exact
  intro bytes s rest
  rw [readSnapshot]
  simp only [ballot.bind_eq_ok, value.bind_eq_ok, pure_eq_ok]
  constructor
  · rintro ⟨promised, _, hp, rfl, accepted, _, ha, rfl, value, _, hv, rfl, rfl, rfl⟩
    exact ⟨⟨hp, ha, hv⟩, by simp [writeSnapshot]⟩
  · rintro ⟨⟨hp, ha, hv⟩, rfl⟩
    exact ⟨_, _, hp, by simp only [writeSnapshot, List.append_assoc], _, _, ha, rfl, _, _, hv, rfl,
      rfl, rfl⟩

theorem readDecision_exact :
    Exact (fun d => Fits d.1.owner ∧ Fits d.2) writeDecision readDecision := by
  intro bytes d rest
  rw [readDecision]
  simp only [readBallot_exact.bind_eq_ok, readText_exact.bind_eq_ok, pure_eq_ok]
  constructor
  · rintro ⟨b, _, hb, rfl, v, _, hv, rfl, rfl, rfl⟩
    exact ⟨⟨hb, hv⟩, by simp [writeDecision]⟩
  · rintro ⟨⟨hb, hv⟩, rfl⟩
    exact ⟨_, _, hb, by simp only [writeDecision, List.append_assoc], _, _, hv, rfl, rfl, rfl⟩

/-- The store with these cells. -/
def ofCells (saved : Option Snapshot) (recorded : Option (Ballot × Value)) : Store where
  stateRow := saved.map .ofSnapshot
  resolutionRow := recorded.map fun d => .ofDecision d.1 d.2

@[simp] theorem snapshot?_ofCells (saved : Option Snapshot) (recorded : Option (Ballot × Value)) :
    (ofCells saved recorded).snapshot? = saved := by
  cases saved <;> simp [ofCells, snapshot?, StateRow.toSnapshot_ofSnapshot]

@[simp] theorem decision_ofCells (saved : Option Snapshot) (recorded : Option (Ballot × Value)) :
    (ofCells saved recorded).decision = recorded := by
  cases recorded <;> simp [ofCells, decision]

theorem readImage_cells {saved : Option Snapshot} {recorded : Option (Ballot × Value)}
    (hs : ∀ x ∈ saved, SnapshotFits x) (hr : ∀ d ∈ recorded, Fits d.1.owner ∧ Fits d.2) :
    readImage.run (writeOption writeSnapshot saved ++ writeOption writeDecision recorded) =
      .ok (ofCells saved recorded, []) := by
  rw [readImage]
  simp only [(readOption_exact readSnapshot_exact).bind_eq_ok,
    (readOption_exact readDecision_exact).bind_eq_ok, pure_eq_ok]
  exact ⟨_, _, hs, rfl, _, _, hr, (List.append_nil _).symm, rfl, rfl⟩

/-- **A store is read back from its image**, with both cells as they were and no table broken. -/
theorem ofImage_toImage {s : Store} (hs : ∀ x ∈ s.snapshot?, SnapshotFits x)
    (hr : ∀ d ∈ s.decision, Fits d.1.owner ∧ Fits d.2) :
    ∃ t, ofImage s.toImage = .ok t ∧ t.snapshot? = s.snapshot? ∧ t.decision = s.decision ∧
      t.brokenTables = [] := by
  have signed : signature.isPrefixOf s.toImage = true := by
    rw [List.isPrefixOf_iff_prefix, toImage, List.append_assoc]
    exact List.prefix_append _ _
  have rows : s.toImage.drop signature.length =
      writeOption writeSnapshot s.snapshot? ++ writeOption writeDecision s.decision := by
    rw [toImage, List.append_assoc, List.drop_left]
    rfl
  refine ⟨ofCells s.snapshot? s.decision, ?_, snapshot?_ofCells .., decision_ofCells .., rfl⟩
  rw [ofImage, if_pos signed, rows, readImage_cells hs hr]

end Image

end Synod.Store
