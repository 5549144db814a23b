import PstForge.Job.Publication

/-! # The accounts of the parts

Each candidate of the ledger is spooled, in one part, or rejected once. Publishing a part
and rejecting a candidate change the status and the tables beside it together.
-/

namespace PstForge.Job

open PstForge.Foundation PstForge.Catalog

section Statuses

/-- Set the status of some candidates. -/
def Database.withStatus (database : Database) (keys : List ItemKey) (status : CandidateStatus) :
    Database :=
  { database with
    candidates := database.candidates.map fun row =>
      if row.itemKey ∈ keys then { row with status } else row }

/-- Whether a candidate is there with a status. -/
def Database.Has (database : Database) (key : ItemKey) (status : CandidateStatus) : Prop :=
  ∃ row ∈ database.candidates, row.itemKey = key ∧ row.status = status

variable {database : Database} {keys : List ItemKey} {key : ItemKey} {status : CandidateStatus}

@[simp] theorem withStatus_events :
    (database.withStatus keys status).events = database.events := rfl

@[simp] theorem withStatus_blobs : (database.withStatus keys status).blobs = database.blobs := rfl

@[simp] theorem withStatus_inlineBlobs :
    (database.withStatus keys status).inlineBlobs = database.inlineBlobs := rfl

theorem mem_withStatus {row : CandidateRow} :
    row ∈ (database.withStatus keys status).candidates ↔ ∃ before ∈ database.candidates,
      row = if before.itemKey ∈ keys then { before with status } else before := by
  unfold Database.withStatus
  rw [List.mem_map]
  constructor
  · rintro ⟨before, member, rfl⟩
    exact ⟨before, member, rfl⟩
  · rintro ⟨before, member, rfl⟩
    exact ⟨before, member, rfl⟩

/-- A new status changes no other column. -/
theorem map_withStatus {α : Type} (column : CandidateRow → α)
    (same : ∀ (row : CandidateRow) status, column { row with status } = column row) :
    (database.withStatus keys status).candidates.map column = database.candidates.map column := by
  unfold Database.withStatus
  rw [List.map_map]
  apply List.map_congr_left
  intro row _
  rw [Function.comp_apply]
  split
  · exact same row status
  · rfl

/-- A test that does not look at the status finds the same. -/
theorem any_withStatus (test : CandidateRow → Bool)
    (same : ∀ (row : CandidateRow) status, test { row with status } = test row) :
    (database.withStatus keys status).candidates.any test = database.candidates.any test := by
  have columns : (database.withStatus keys status).candidates.map test =
      database.candidates.map test := map_withStatus test same
  have found := congrArg (List.any · id) columns
  rwa [List.any_map, List.any_map] at found

@[simp] theorem withStatus_knows :
    (database.withStatus keys status).knows = database.knows := by
  funext key
  exact any_withStatus _ fun _ _ => rfl

@[simp] theorem withStatus_isTopLevel :
    (database.withStatus keys status).isTopLevel = database.isTopLevel := by
  funext key
  exact any_withStatus _ fun _ _ => rfl

@[simp] theorem withStatus_rejections :
    (database.withStatus keys status).rejections = database.rejections := rfl

theorem withStatus_foreignKeysHold :
    (database.withStatus keys status).foreignKeysHold = database.foreignKeysHold := by
  have columns : (database.withStatus keys status).candidates.map (·.parentItemKey) =
      database.candidates.map (·.parentItemKey) := map_withStatus _ fun _ _ => rfl
  have parents := congrArg (List.all · fun parent => Option.all database.knows parent) columns
  rw [List.all_map, List.all_map] at parents
  unfold Database.foreignKeysHold
  rw [withStatus_knows, withStatus_events, withStatus_blobs, withStatus_inlineBlobs]
  simp only [Function.comp_def] at parents
  dsimp only
  rw [parents]

/-- The rows of distinct candidates are told apart by their keys. -/
theorem row_unique (distinct : (database.candidates.map (·.itemKey)).Nodup)
    {first second : CandidateRow} (there : first ∈ database.candidates)
    (also : second ∈ database.candidates) (same : first.itemKey = second.itemKey) :
    first = second :=
  List.inj_on_of_nodup_map distinct there also same

/-- A status that is set is there, and others stay. -/
theorem has_withStatus {other : CandidateStatus} :
    (database.withStatus keys status).Has key other ↔
      if key ∈ keys then database.knows key = true ∧ other = status
      else database.Has key other := by
  unfold Database.Has
  by_cases inside : key ∈ keys
  · rw [if_pos inside]
    constructor
    · rintro ⟨row, member, rfl, rfl⟩
      obtain ⟨before, there, rfl⟩ := mem_withStatus.mp member
      split at inside <;> rename_i before'
      · rw [if_pos before']
        exact ⟨List.any_eq_true.mpr ⟨before, there, decide_eq_true rfl⟩, rfl⟩
      · exact absurd inside before'
    · rintro ⟨known, rfl⟩
      obtain ⟨before, there, same⟩ := List.any_eq_true.mp known
      obtain rfl := of_decide_eq_true same
      refine ⟨{ before with status := other }, mem_withStatus.mpr ⟨before, there, ?_⟩, rfl, rfl⟩
      rw [if_pos inside]
  · rw [if_neg inside]
    constructor
    · rintro ⟨row, member, rfl, rfl⟩
      obtain ⟨before, there, rfl⟩ := mem_withStatus.mp member
      split at inside <;> rename_i before'
      · exact absurd before' inside
      · rw [if_neg before']
        exact ⟨before, there, rfl, rfl⟩
    · rintro ⟨before, there, rfl, rfl⟩
      refine ⟨before, mem_withStatus.mpr ⟨before, there, ?_⟩, rfl, rfl⟩
      rw [if_neg inside]

end Statuses

section Ledger

/-- The parts that are in the ledger or on their way into it. -/
def PublicationLedger.publications (ledger : PublicationLedger) : List PublishedPart :=
  ledger.parts.map (·.part) ++ ledger.intents.map (·.part)

/-- A part and its description that agree. -/
structure Described (part : PublishedPart) (sidecar : PartSidecar) : Prop where
  record : validatePartRecord part = .ok ()
  agrees : validateSidecar part sidecar = .ok ()

/-- Candidates that make up a part; one that is too large has a single top-level one. -/
structure Fills (database : Database) (part : PublishedPart) (keys : List ItemKey) : Prop where
  some : keys ≠ []
  single : part.oversize = true → keys.countP database.isTopLevel = 1

/-- The candidates, the parts and the intents of a ledger agree. -/
structure LedgerSound (ledger : PublicationLedger) : Prop where
  candidates : (ledger.database.candidates.map (·.itemKey)).Nodup
  references : ledger.database.foreignKeysHold = true
  valid : ledger.database.invalid = false
  rejected : ∀ row ∈ ledger.database.candidates, (ledger.database.rejections row.itemKey).length =
    if row.status = .unsupported then 1 else 0
  written : ∀ row ∈ ledger.database.candidates,
    row.status = .written ↔ row.itemKey ∈ ledger.partItems.map (·.2)
  items : (ledger.partItems.map (·.2)).Nodup
  placed : ∀ item ∈ ledger.partItems,
    item.1 ∈ ledger.parts.map (·.part.index) ∧ ledger.database.knows item.2 = true
  indexes : (ledger.publications.map (·.index)).Nodup
  names : (ledger.publications.map (·.sidecarFilename)).Nodup
  described : ∀ row ∈ ledger.parts, Described row.part row.sidecar ∧
    Fills ledger.database row.part (ledger.itemsOf row.part.index)
  intended : ∀ intent ∈ ledger.intents, Described intent.part intent.sidecar ∧
    Fills ledger.database intent.part intent.itemKeys
  spooled : ∀ key ∈ ledger.intents.flatMap (·.itemKeys), ledger.database.Has key .spooled
  apart : (ledger.intents.flatMap (·.itemKeys)).Nodup

theorem any_key_iff {rows : List CandidateRow} {key : ItemKey} :
    rows.any (·.itemKey = key) = true ↔ key ∈ rows.map (·.itemKey) := by
  rw [List.any_eq_true, List.mem_map]
  constructor
  · rintro ⟨row, member, same⟩
    exact ⟨row, member, of_decide_eq_true same⟩
  · rintro ⟨row, member, same⟩
    exact ⟨row, member, decide_eq_true same⟩

theorem knows_iff {database : Database} {key : ItemKey} :
    database.knows key = true ↔ key ∈ database.candidates.map (·.itemKey) := any_key_iff

/-- A sound ledger passes the checks of a job that is opened. -/
theorem LedgerSound.validates {ledger : PublicationLedger} (sound : LedgerSound ledger) :
    validateForeignKeys ledger = .ok () := by
  have holds : ledger.foreignKeysHold = true := by
    unfold PublicationLedger.foreignKeysHold
    rw [sound.references, Bool.true_and, List.all_eq_true]
    intro item member
    obtain ⟨index, known⟩ := sound.placed item member
    obtain ⟨row, there, same⟩ := List.mem_map.mp index
    rw [known, Bool.and_true, List.any_eq_true]
    exact ⟨row, there, decide_eq_true same⟩
  have assigned : ledger.invalid = false := by
    unfold PublicationLedger.invalid
    rw [Bool.or_eq_false_iff, Bool.or_eq_false_iff, Bool.or_eq_false_iff]
    refine ⟨⟨⟨?_, ?_⟩, ?_⟩, ?_⟩
    · rw [List.any_eq_false]
      intro row member both
      rw [Bool.and_eq_true, decide_eq_true_eq, Bool.not_eq_true', List.any_eq_false] at both
      obtain ⟨item, there, same⟩ := List.mem_map.mp ((sound.written row member).mp both.1)
      exact both.2 item there (decide_eq_true same)
    · rw [List.any_eq_false]
      intro item member found
      obtain ⟨row, there, both⟩ := List.any_eq_true.mp found
      rw [Bool.and_eq_true, decide_eq_true_eq, decide_eq_true_eq] at both
      apply both.2
      rw [sound.written row there, both.1]
      exact List.mem_map_of_mem member
    · rw [List.any_eq_false]
      intro row member none
      exact (sound.described row member).2.some (List.isEmpty_iff.mp none)
    · rw [List.any_eq_false]
      intro row member both
      rw [Bool.and_eq_true, decide_eq_true_eq] at both
      exact both.2 ((sound.described row member).2.single both.1)
  unfold validateForeignKeys
  rw [bind_eq_ok]
  refine ⟨(), refuse_eq_ok.mpr ?_, refuse_eq_ok.mpr ?_⟩
  · rw [holds]
    exact Bool.noConfusion
  · rw [sound.valid, assigned]
    exact Bool.noConfusion

theorem readRejection_ok {database : Database} {row : CandidateRow}
    (length : (database.rejections row.itemKey).length =
      if row.status = .unsupported then 1 else 0) :
    readRejection database row = .ok (database.rejections row.itemKey) := by
  unfold readRejection
  by_cases rejected : row.status = .unsupported
  · rw [if_pos rejected] at length
    have some : database.rejections row.itemKey ≠ [] := List.ne_nil_of_length_pos (by omega)
    rw [if_pos (.inl rejected)]
    simp only [bind_eq_ok, refuse_eq_ok]
    refine ⟨(), (not_not.mpr rejected), (), some, (), ?_, rfl⟩
    omega
  · rw [if_neg rejected] at length
    have none := List.length_eq_zero_iff.mp length
    rw [if_neg (by tauto)]
    rfl

/-- The rejections of a sound ledger can be counted. -/
theorem LedgerSound.counts {ledger : PublicationLedger} (sound : LedgerSound ledger) :
    ∃ counts, readCandidateRejectionCounts ledger.database = .ok counts := by
  have each : ∀ rows : List CandidateRow, (∀ row ∈ rows, row ∈ ledger.database.candidates) →
      ∃ rejections, rows.mapM (readRejection ledger.database) = .ok rejections := by
    intro rows
    induction rows with
    | nil => exact fun _ => ⟨[], rfl⟩
    | cons row rest ih =>
        intro inside
        obtain ⟨here, inside⟩ := List.forall_mem_cons.mp inside
        obtain ⟨rejections, hrest⟩ := ih inside
        refine ⟨ledger.database.rejections row.itemKey :: rejections, ?_⟩
        rw [List.mapM_cons, readRejection_ok (sound.rejected row here), hrest]
        rfl
  obtain ⟨rejections, hread⟩ := each _ fun _ member => member
  exact ⟨_, bind_eq_ok.mpr ⟨rejections, hread, rfl⟩⟩

end Ledger

section Publishing

variable {ledger : PublicationLedger} {intent : PublicationIntent}

/-- An element with a key of its own, in front of the others. -/
theorem perm_cons_filter {α β : Type} [DecidableEq β] {key : α → β} {source : List α}
    (distinct : (source.map key).Nodup) {element : α} (member : element ∈ source) :
    source.Perm (element :: source.filter (key · ≠ key element)) := by
  induction source with
  | nil => cases member
  | cons head tail ih =>
      rw [List.map_cons, List.nodup_cons] at distinct
      obtain ⟨fresh, distinct⟩ := distinct
      rcases List.mem_cons.mp member with rfl | later
      · have others : tail.filter (key · ≠ key element) = tail := by
          rw [List.filter_eq_self]
          intro other there
          apply decide_eq_true
          intro same
          exact fresh (same ▸ List.mem_map_of_mem there)
        rw [List.filter_cons_of_neg (by simp), others]
      · have different : key head ≠ key element := by
          intro same
          exact fresh (same ▸ List.mem_map_of_mem later)
        have kept : decide (key head ≠ key element) = true := decide_eq_true different
        rw [List.filter_cons, if_pos kept]
        exact ((ih distinct later).cons head).trans (List.Perm.swap _ _ _)

theorem LedgerSound.intents_perm (sound : LedgerSound ledger) (member : intent ∈ ledger.intents) :
    ledger.intents.Perm (intent :: (ledger.deleteIntent intent.part.index).intents) := by
  have indexes := sound.indexes
  rw [PublicationLedger.publications, List.map_append, List.map_map, List.map_map] at indexes
  exact perm_cons_filter (List.Nodup.of_append_right indexes) member

/-- A candidate that is spooled is in no part. -/
theorem LedgerSound.unassigned (sound : LedgerSound ledger) {key : ItemKey}
    (spooled : ledger.database.Has key .spooled) : key ∉ ledger.partItems.map (·.2) := by
  obtain ⟨row, member, rfl, isSpooled⟩ := spooled
  intro assigned
  rw [← sound.written row member, isSpooled] at assigned
  cases assigned

/-- The ledger when the part of an intent is published. -/
def PublicationLedger.published (ledger : PublicationLedger) (intent : PublicationIntent) :
    PublicationLedger where
  database := ledger.database.withStatus intent.itemKeys .written
  parts := ledger.parts ++ [⟨intent.part, intent.sidecar⟩]
  partItems := ledger.partItems ++ intent.itemKeys.map fun key => (intent.part.index, key)
  intents := (ledger.deleteIntent intent.part.index).intents

theorem takeSpooled_ok {database : Database} {key : ItemKey} {status : CandidateStatus}
    {detail : String} (distinct : (database.candidates.map (·.itemKey)).Nodup)
    (spooled : database.Has key .spooled) :
    takeSpooled key status detail database = .ok (database.withStatus [key] status) := by
  obtain ⟨row, member, rfl, isSpooled⟩ := spooled
  have available : ∀ other ∈ database.candidates,
      (decide (other.itemKey = row.itemKey) && decide (other.status = .spooled)) = true ↔
        other.itemKey = row.itemKey := by
    intro other there
    rw [Bool.and_eq_true, decide_eq_true_eq, decide_eq_true_eq]
    refine ⟨And.left, fun same => ⟨same, ?_⟩⟩
    rw [row_unique distinct there member same]
    exact isSpooled
  have single : database.candidates.countP (fun other =>
      decide (other.itemKey = row.itemKey) && decide (other.status = .spooled)) = 1 := by
    have others : (database.candidates.filter (·.itemKey ≠ row.itemKey)).countP (fun other =>
        decide (other.itemKey = row.itemKey) && decide (other.status = .spooled)) = 0 := by
      rw [List.countP_eq_zero]
      intro other there both
      rw [Bool.and_eq_true, decide_eq_true_eq] at both
      exact of_decide_eq_true (List.mem_filter.mp there).2 both.1
    rw [(perm_cons_filter distinct member).countP_eq, List.countP_cons_of_pos, others]
    rw [isSpooled, decide_eq_true rfl]
    rfl
  unfold takeSpooled
  rw [bind_eq_ok]
  refine ⟨(), refuse_eq_ok.mpr (not_not.mpr single), ?_⟩
  unfold Database.withStatus
  dsimp only [pure, Except.pure]
  congr 2
  apply List.map_congr_left
  intro other there
  simp only [available other there, List.mem_singleton]

theorem withStatus_cons {database : Database} {key : ItemKey} {keys : List ItemKey}
    {status : CandidateStatus} :
    (database.withStatus [key] status).withStatus keys status =
      database.withStatus (key :: keys) status := by
  unfold Database.withStatus
  dsimp only
  rw [List.map_map]
  congr 1
  apply List.map_congr_left
  intro row _
  rw [Function.comp_apply]
  by_cases first : row.itemKey = key
  · simp [first]
  · simp [first]

/-- Spooled candidates can be put into a part, one after the other. -/
theorem assignItems_ok (partIndex : Nat) (keys : List ItemKey) :
    ∀ {ledger : PublicationLedger}, (ledger.database.candidates.map (·.itemKey)).Nodup →
      keys.Nodup → (∀ key ∈ keys, ledger.database.Has key .spooled) →
      (∀ key ∈ keys, key ∉ ledger.partItems.map (·.2)) →
        keys.foldlM (PublicationLedger.assignItem partIndex) ledger = .ok { ledger with
          database := ledger.database.withStatus keys .written
          partItems := ledger.partItems ++ keys.map fun key => (partIndex, key) } := by
  induction keys with
  | nil =>
      intro ledger _ _ _ _
      have same : ledger.database.withStatus [] .written = ledger.database := by
        simp [Database.withStatus]
      rw [same, List.map_nil, List.append_nil]
      rfl
  | cons key rest ih =>
      intro ledger distinct different spooled unassigned
      obtain ⟨fresh, different⟩ := List.nodup_cons.mp different
      obtain ⟨here, spooled⟩ := List.forall_mem_cons.mp spooled
      obtain ⟨free, unassigned⟩ := List.forall_mem_cons.mp unassigned
      have assigned : PublicationLedger.assignItem partIndex ledger key = .ok { ledger with
          database := ledger.database.withStatus [key] .written
          partItems := ledger.partItems ++ [(partIndex, key)] } := by
        unfold PublicationLedger.assignItem
        rw [takeSpooled_ok distinct here]
        simp only [bind_eq_ok, refuse_eq_ok]
        refine ⟨_, rfl, (), ?_, rfl⟩
        intro taken
        obtain ⟨item, there, same⟩ := List.any_eq_true.mp taken
        exact free (List.mem_map.mpr ⟨item, there, of_decide_eq_true same⟩)
      rw [List.foldlM_cons, assigned]
      dsimp only [bind, Except.bind]
      rw [ih]
      · rw [withStatus_cons, List.append_assoc, List.map_cons]
        rfl
      · rwa [map_withStatus (·.itemKey) fun _ _ => rfl]
      · exact different
      · intro other member
        rw [has_withStatus, if_neg]
        · exact spooled other member
        · rw [List.mem_singleton]
          rintro rfl
          exact fresh member
      · intro other member taken
        rw [List.map_append, List.mem_append] at taken
        rcases taken with taken | taken
        · exact unassigned other member taken
        · obtain rfl := List.mem_singleton.mp taken
          exact fresh member

/-- The transaction of an intent publishes its part. -/
theorem LedgerSound.commitPart (sound : LedgerSound ledger) (member : intent ∈ ledger.intents) :
    ledger.commitPart intent.part intent.sidecar intent.itemKeys true =
      .ok (ledger.published intent) := by
  have indexes := sound.indexes
  have names := sound.names
  rw [PublicationLedger.publications, List.map_append, List.map_map, List.map_map] at indexes names
  have freshIndex : intent.part.index ∉ ledger.parts.map (·.part.index) := fun there =>
    List.disjoint_of_nodup_append indexes there
      (List.mem_map.mpr ⟨intent, member, rfl⟩)
  have freshName : intent.part.filename ∉ ledger.parts.map (·.part.filename) := by
    intro there
    obtain ⟨row, found, same⟩ := List.mem_map.mp there
    refine List.disjoint_of_nodup_append names (List.mem_map.mpr ⟨row, found, rfl⟩)
      (List.mem_map.mpr ⟨intent, member, ?_⟩)
    dsimp only [Function.comp, PublishedPart.sidecarFilename]
    rw [same]
  have keysOf : intent.itemKeys.Nodup ∧ ∀ key ∈ intent.itemKeys,
      ledger.database.Has key .spooled := by
    have apart := ((sound.intents_perm member).flatMap_right (·.itemKeys)).nodup_iff.mp sound.apart
    rw [List.flatMap_cons] at apart
    refine ⟨List.Nodup.of_append_left apart, fun key inside => sound.spooled key ?_⟩
    exact List.mem_flatMap.mpr ⟨intent, member, inside⟩
  obtain ⟨different, spooled⟩ := keysOf
  have single : ledger.intents.countP (·.part.index = intent.part.index) = 1 := by
    rw [(sound.intents_perm member).countP_eq, List.countP_cons, if_pos (decide_eq_true rfl),
      List.countP_eq_zero.mpr]
    intro other there same
    exact of_decide_eq_true (List.mem_filter.mp there).2 (of_decide_eq_true same)
  unfold PublicationLedger.commitPart PublicationLedger.insertPart
  simp only [bind_eq_ok, refuse_eq_ok]
  refine ⟨_, ⟨(), ?_, (), ?_, rfl⟩, _, assignItems_ok intent.part.index intent.itemKeys ?_ different
    spooled fun key inside => sound.unassigned (spooled key inside), ?_⟩
  · intro there
    obtain ⟨row, found, same⟩ := List.any_eq_true.mp there
    exact freshIndex (List.mem_map.mpr ⟨row, found, of_decide_eq_true same⟩)
  · intro there
    obtain ⟨row, found, same⟩ := List.any_eq_true.mp there
    exact freshName (List.mem_map.mpr ⟨row, found, of_decide_eq_true same⟩)
  · exact sound.candidates
  · rw [if_pos trivial, bind_eq_ok]
    exact ⟨(), refuse_eq_ok.mpr (not_not.mpr single), rfl⟩

theorem isTerminal_invalid {database : Database} (keys : List ItemKey) {status : CandidateStatus}
    (notPending : status ≠ .pending) (valid : database.invalid = false) :
    (database.withStatus keys status).invalid = false := by
  unfold Database.invalid at valid ⊢
  rw [withStatus_events, withStatus_blobs]
  rw [Bool.or_eq_false_iff, Bool.or_eq_false_iff] at valid ⊢
  refine ⟨⟨?_, valid.1.2⟩, valid.2⟩
  rw [List.any_eq_false] at valid ⊢
  intro row member pending
  obtain ⟨before, there, rfl⟩ := mem_withStatus.mp member
  split at pending
  · exact notPending (of_decide_eq_true pending)
  · exact valid.1.1 before there pending

theorem publications_perm (sound : LedgerSound ledger) (member : intent ∈ ledger.intents) :
    (ledger.published intent).publications.Perm ledger.publications := by
  unfold PublicationLedger.publications PublicationLedger.published
  dsimp only
  rw [List.map_append, List.append_assoc]
  have others := (sound.intents_perm member).map (·.part)
  exact List.Perm.append_left _ others.symm

/-- The items of a part that is published, and of the parts before it. -/
theorem LedgerSound.itemsOf_published (sound : LedgerSound ledger)
    (member : intent ∈ ledger.intents) :
    (ledger.published intent).itemsOf intent.part.index = intent.itemKeys ∧
      ∀ row ∈ ledger.parts, (ledger.published intent).itemsOf row.part.index =
        ledger.itemsOf row.part.index := by
  have indexes := sound.indexes
  rw [PublicationLedger.publications, List.map_append, List.map_map, List.map_map] at indexes
  have fresh : intent.part.index ∉ ledger.parts.map (·.part.index) := fun there =>
    List.disjoint_of_nodup_append indexes there (List.mem_map.mpr ⟨intent, member, rfl⟩)
  unfold PublicationLedger.itemsOf PublicationLedger.published
  dsimp only
  constructor
  · have before : ledger.partItems.filter (·.1 = intent.part.index) = [] := by
      rw [List.filter_eq_nil_iff]
      intro item there same
      exact fresh (of_decide_eq_true same ▸ (sound.placed item there).1)
    have all : (intent.itemKeys.map fun key => (intent.part.index, key)).filter
        (·.1 = intent.part.index) = intent.itemKeys.map fun key => (intent.part.index, key) := by
      rw [List.filter_eq_self]
      intro item there
      obtain ⟨key, -, rfl⟩ := List.mem_map.mp there
      exact decide_eq_true rfl
    rw [List.filter_append, before, all, List.nil_append, List.map_map]
    exact List.map_id _
  · intro row there
    have none : (intent.itemKeys.map fun key => (intent.part.index, key)).filter
        (·.1 = row.part.index) = [] := by
      rw [List.filter_eq_nil_iff]
      intro item inside same
      obtain ⟨key, -, rfl⟩ := List.mem_map.mp inside
      exact fresh (List.mem_map.mpr ⟨row, there, (of_decide_eq_true same).symm⟩)
    rw [List.filter_append, none, List.append_nil]

/-- A ledger stays sound when the part of an intent is published. -/
theorem LedgerSound.published (sound : LedgerSound ledger) (member : intent ∈ ledger.intents) :
    LedgerSound (ledger.published intent) := by
  obtain ⟨own, others⟩ := sound.itemsOf_published member
  have perm := sound.intents_perm member
  have apart := (perm.flatMap_right (·.itemKeys)).nodup_iff.mp sound.apart
  rw [List.flatMap_cons] at apart
  have spooled : ∀ key ∈ intent.itemKeys, ledger.database.Has key .spooled := fun key inside =>
    sound.spooled key (List.mem_flatMap.mpr ⟨intent, member, inside⟩)
  have rest : ∀ other ∈ (ledger.deleteIntent intent.part.index).intents, other ∈ ledger.intents :=
    fun other there => List.mem_of_mem_filter there
  have topLevel : (ledger.published intent).database.isTopLevel = ledger.database.isTopLevel :=
    withStatus_isTopLevel
  obtain ⟨described, fills⟩ := sound.intended intent member
  refine {
    candidates := ?_
    references := withStatus_foreignKeysHold.trans sound.references
    valid := isTerminal_invalid _ CandidateStatus.noConfusion sound.valid
    rejected := fun row there => ?_
    written := fun row there => ?_
    items := ?_
    placed := fun item there => ?_
    indexes := ((publications_perm sound member).map (·.index)).nodup_iff.mpr sound.indexes
    names := ((publications_perm sound member).map (·.sidecarFilename)).nodup_iff.mpr sound.names
    described := fun row there => ?_
    intended := fun other there => ?_
    spooled := fun key inside => ?_
    apart := List.Nodup.of_append_right apart }
  · unfold PublicationLedger.published
    rw [map_withStatus (·.itemKey) fun _ _ => rfl]
    exact sound.candidates
  · obtain ⟨before, found, rfl⟩ := mem_withStatus.mp there
    have length := sound.rejected before found
    split
    case isTrue inside =>
      obtain ⟨other, here, same, isSpooled⟩ := spooled before.itemKey inside
      rw [row_unique sound.candidates found here same.symm, isSpooled] at length
      rw [row_unique sound.candidates found here same.symm]
      exact length
    case isFalse => exact length
  · obtain ⟨before, found, rfl⟩ := mem_withStatus.mp there
    unfold PublicationLedger.published
    rw [List.map_append, List.map_map, List.mem_append]
    have added : before.itemKey ∈ intent.itemKeys.map (Prod.snd ∘ fun key =>
        (intent.part.index, key)) ↔ before.itemKey ∈ intent.itemKeys := by
      rw [Function.comp_def, List.map_id']
    split
    case isTrue inside => exact ⟨fun _ => .inr (added.mpr inside), fun _ => rfl⟩
    case isFalse outside =>
      rw [sound.written before found]
      exact ⟨.inl, fun either => either.resolve_right fun inside => outside (added.mp inside)⟩
  · unfold PublicationLedger.published
    rw [List.map_append, List.map_map, Function.comp_def, List.map_id']
    refine List.nodup_append'.mpr ⟨sound.items, List.Nodup.of_append_left apart, ?_⟩
    intro key assigned inside
    exact sound.unassigned (spooled key inside) assigned
  · unfold PublicationLedger.published at there ⊢
    dsimp only at there ⊢
    rw [withStatus_knows, List.map_append, List.mem_append]
    rcases List.mem_append.mp there with before | new
    · obtain ⟨index, known⟩ := sound.placed item before
      exact ⟨.inl index, known⟩
    · obtain ⟨key, inside, rfl⟩ := List.mem_map.mp new
      obtain ⟨row, found, same, -⟩ := spooled key inside
      exact ⟨.inr List.mem_cons_self, knows_iff.mpr (List.mem_map.mpr ⟨row, found, same⟩)⟩
  · rcases List.mem_append.mp there with before | new
    · obtain ⟨ready, filled⟩ := sound.described row before
      rw [others row before]
      exact ⟨ready, filled.some, fun large => topLevel ▸ filled.single large⟩
    · obtain rfl := List.mem_singleton.mp new
      rw [own]
      exact ⟨described, fills.some, fun large => topLevel ▸ fills.single large⟩
  · obtain ⟨ready, filled⟩ := sound.intended other (rest other there)
    exact ⟨ready, filled.some, fun large => topLevel ▸ filled.single large⟩
  · have outside : key ∉ intent.itemKeys := fun also =>
      List.disjoint_of_nodup_append apart also inside
    refine (has_withStatus.mpr ?_ : (ledger.database.withStatus _ _).Has key .spooled)
    rw [if_neg outside]
    obtain ⟨other, there, here⟩ := List.mem_flatMap.mp inside
    exact sound.spooled key (List.mem_flatMap.mpr ⟨other, rest other there, here⟩)

/-- A ledger stays sound when an intent is dropped. -/
theorem LedgerSound.deleteIntent (sound : LedgerSound ledger) (partIndex : Nat) :
    LedgerSound (ledger.deleteIntent partIndex) := by
  have rest : (ledger.deleteIntent partIndex).intents.Sublist ledger.intents :=
    List.filter_sublist
  have publications : (ledger.deleteIntent partIndex).publications.Sublist ledger.publications :=
    (rest.map (·.part)).append_left _
  have keys := rest.flatMap (·.itemKeys)
  exact {
    candidates := sound.candidates
    references := sound.references
    valid := sound.valid
    rejected := sound.rejected
    written := sound.written
    items := sound.items
    placed := sound.placed
    indexes := sound.indexes.sublist (publications.map _)
    names := sound.names.sublist (publications.map _)
    described := sound.described
    intended := fun intent there => sound.intended intent (rest.mem there)
    spooled := fun key inside => sound.spooled key (keys.mem inside)
    apart := sound.apart.sublist keys }

/-- The ledger with one more intent. -/
def PublicationLedger.intending (ledger : PublicationLedger) (intent : PublicationIntent) :
    PublicationLedger :=
  { ledger with intents := ledger.intents ++ [intent] }

theorem publications_intending {ledger : PublicationLedger} {intent : PublicationIntent} :
    (ledger.intending intent).publications = ledger.publications ++ [intent.part] := by
  unfold PublicationLedger.publications PublicationLedger.intending
  rw [List.map_append, List.append_assoc]
  rfl

/-- What the caller of a publication answers for: the part has a number of its own, and its
candidates are distinct and in no other part that is on its way. -/
structure Publishable (ledger : PublicationLedger) (part : PublishedPart)
    (itemKeys : List ItemKey) : Prop where
  index : part.index ∉ ledger.parts.map (·.part.index)
  distinct : itemKeys.Nodup
  apart : ∀ key ∈ itemKeys, key ∉ ledger.intents.flatMap (·.itemKeys)
  single : part.oversize = true → itemKeys.countP ledger.database.isTopLevel = 1

theorem checkAvailable_ok {database : Database} {keys : List ItemKey}
    (checked : checkAvailable database keys = .ok ()) :
    ∀ key ∈ keys, database.Has key .spooled := by
  induction keys with
  | nil =>
      intro key inside
      cases inside
  | cons key rest ih =>
      simp only [checkAvailable, bind_eq_ok, okOr_eq_ok, refuse_eq_ok, not_not] at checked
      obtain ⟨row, found, _, isSpooled, checked⟩ := checked
      have same := List.find?_some found
      rw [decide_eq_true_eq] at same
      exact List.forall_mem_cons.mpr ⟨⟨row, List.mem_of_find?_eq_some found, same, isSpooled⟩,
        ih checked⟩

/-- A ledger stays sound when an intent is recorded. -/
theorem LedgerSound.insertIntent (sound : LedgerSound ledger)
    (described : Described intent.part intent.sidecar) (some : intent.itemKeys ≠ [])
    (publishable : Publishable ledger intent.part intent.itemKeys)
    (name : intent.part.sidecarFilename ∉ ledger.publications.map (·.sidecarFilename))
    (spooled : ∀ key ∈ intent.itemKeys, ledger.database.Has key .spooled)
    {next : PublicationLedger} (inserted : ledger.insertIntent intent = .ok next) :
    next = ledger.intending intent ∧ LedgerSound next := by
  simp only [PublicationLedger.insertIntent, bind_eq_ok, refuse_eq_ok] at inserted
  obtain ⟨_, fresh, same⟩ := inserted
  obtain rfl := (Except.ok.inj same).symm
  have index : intent.part.index ∉ ledger.publications.map (·.index) := by
    unfold PublicationLedger.publications
    rw [List.map_append, List.mem_append, List.map_map, List.map_map]
    rintro (there | there)
    · exact publishable.index there
    · obtain ⟨other, found, same⟩ := List.mem_map.mp there
      exact fresh (List.any_eq_true.mpr ⟨other, found, decide_eq_true same⟩)
  refine ⟨rfl, {
    candidates := sound.candidates
    references := sound.references
    valid := sound.valid
    rejected := sound.rejected
    written := sound.written
    items := sound.items
    placed := sound.placed
    indexes := ?_
    names := ?_
    described := sound.described
    intended := ?_
    spooled := ?_
    apart := ?_ }⟩
  · change ((ledger.intending intent).publications.map _).Nodup
    rw [publications_intending, List.map_append, List.map_singleton, List.nodup_append']
    refine ⟨sound.indexes, List.nodup_singleton _, ?_⟩
    rw [List.disjoint_singleton]
    exact index
  · change ((ledger.intending intent).publications.map _).Nodup
    rw [publications_intending, List.map_append, List.map_singleton, List.nodup_append']
    refine ⟨sound.names, List.nodup_singleton _, ?_⟩
    rw [List.disjoint_singleton]
    exact name
  · intro other there
    rcases List.mem_append.mp there with before | new
    · exact sound.intended other before
    · obtain rfl := List.mem_singleton.mp new
      exact ⟨described, some, publishable.single⟩
  · intro key inside
    rw [List.flatMap_append, List.flatMap_singleton] at inside
    rcases List.mem_append.mp inside with before | new
    · exact sound.spooled key before
    · exact spooled key new
  · rw [List.flatMap_append, List.flatMap_singleton, List.nodup_append']
    refine ⟨sound.apart, publishable.distinct, ?_⟩
    intro key before new
    exact publishable.apart key new before

end Publishing

section Rejecting

variable {ledger : PublicationLedger}

theorem takeSpooled_spec {database next : Database} {key : ItemKey} {status : CandidateStatus}
    {detail : String} (distinct : (database.candidates.map (·.itemKey)).Nodup)
    (taken : takeSpooled key status detail database = .ok next) :
    database.Has key .spooled ∧ next = database.withStatus [key] status := by
  have there : database.Has key .spooled := by
    simp only [takeSpooled, bind_eq_ok, refuse_eq_ok, not_not] at taken
    obtain ⟨_, single, -⟩ := taken
    have positive := List.countP_pos_iff.mp (Nat.lt_of_lt_of_eq Nat.zero_lt_one single.symm)
    obtain ⟨row, member, both⟩ := positive
    rw [Bool.and_eq_true, decide_eq_true_eq, decide_eq_true_eq] at both
    exact ⟨row, member, both⟩
  rw [takeSpooled_ok distinct there] at taken
  exact ⟨there, (Except.ok.inj taken).symm⟩

/-- An event without a blob that is recorded of a candidate. -/
theorem foreignKeysHold_event {database : Database} {event : EventRow}
    (holds : database.foreignKeysHold = true) (known : database.knows event.itemKey = true)
    (noBlob : event.blob = none) :
    ({ database with events := database.events ++ [event] } : Database).foreignKeysHold = true := by
  unfold Database.foreignKeysHold at holds ⊢
  simp only [Bool.and_eq_true] at holds ⊢
  obtain ⟨⟨parents, events⟩, inlineBlobs⟩ := holds
  refine ⟨⟨parents, ?_⟩, inlineBlobs⟩
  rw [List.all_append, Bool.and_eq_true]
  refine ⟨events, ?_⟩
  rw [List.all_cons, List.all_nil, noBlob]
  exact (Bool.and_true _).trans ((Bool.and_true _).trans known)

theorem invalid_event {database : Database} {event : EventRow} (valid : database.invalid = false)
    (noBlob : event.blob = none) :
    ({ database with events := database.events ++ [event] } : Database).invalid = false := by
  unfold Database.invalid at valid ⊢
  rw [Bool.or_eq_false_iff, Bool.or_eq_false_iff] at valid ⊢
  obtain ⟨⟨pending, lengths⟩, used⟩ := valid
  refine ⟨⟨pending, ?_⟩, ?_⟩
  · rw [List.any_append, lengths, Bool.false_or, List.any_cons, List.any_nil, noBlob]
    rfl
  · rw [List.any_eq_false] at used ⊢
    intro row member unused
    apply used row member
    rw [Bool.not_eq_true'] at unused ⊢
    rw [List.any_append, Bool.or_eq_false_iff] at unused
    exact unused.1

theorem rejections_event {database : Database} {key other : ItemKey} {sequence : Nat}
    {category : CandidateRejectionCategory} :
    ({ database with events := database.events ++
        [⟨key, sequence, .outputUnrepresentable category, none⟩] } : Database).rejections other =
      database.rejections other ++ if key = other then [category] else [] := by
  unfold Database.rejections
  rw [List.filterMap_append]
  by_cases same : key = other
  · rw [if_pos same, List.filterMap_cons, if_pos same]
    rfl
  · rw [if_neg same, List.filterMap_cons, if_neg same]
    rfl

/-- A ledger stays sound when a candidate that is in no part on its way is rejected. -/
theorem LedgerSound.rejectCandidate (sound : LedgerSound ledger)
    {rejection : ItemKey × CandidateRejectionCategory}
    (apart : rejection.1 ∉ ledger.intents.flatMap (·.itemKeys)) {next : Database}
    (rejected : rejectCandidate ledger.database rejection = .ok next) :
    LedgerSound { ledger with database := next } := by
  obtain ⟨key, category⟩ := rejection
  simp only [Job.rejectCandidate, bind_eq_ok] at rejected
  obtain ⟨database, taken, same⟩ := rejected
  obtain ⟨there, rfl⟩ := takeSpooled_spec sound.candidates taken
  obtain rfl := (Except.ok.inj same).symm
  have known : (ledger.database.withStatus [key] .unsupported).knows key = true := by
    obtain ⟨row, member, isKey, -⟩ := there
    rw [withStatus_knows, knows_iff]
    exact List.mem_map.mpr ⟨row, member, isKey⟩
  refine {
    candidates := ?_
    references :=
      foreignKeysHold_event (withStatus_foreignKeysHold.trans sound.references) known rfl
    valid := invalid_event (isTerminal_invalid _ CandidateStatus.noConfusion sound.valid) rfl
    rejected := fun row member => ?_
    written := fun row member => ?_
    items := sound.items
    placed := fun item inside => ⟨(sound.placed item inside).1, ?_⟩
    indexes := sound.indexes
    names := sound.names
    described := fun row inside => ⟨(sound.described row inside).1,
      (sound.described row inside).2.some, fun large => ?_⟩
    intended := fun intent inside => ⟨(sound.intended intent inside).1,
      (sound.intended intent inside).2.some, fun large => ?_⟩
    spooled := fun other inside => ?_
    apart := sound.apart }
  · rw [map_withStatus (·.itemKey) fun _ _ => rfl]
    exact sound.candidates
  · obtain ⟨before, found, rfl⟩ := mem_withStatus.mp member
    have length := sound.rejected before found
    by_cases inside : before.itemKey = key
    · obtain ⟨other, here, isKey, isSpooled⟩ := there
      rw [row_unique sound.candidates found here (inside.trans isKey.symm), isSpooled] at length
      rw [if_pos (List.mem_singleton.mpr inside), rejections_event, if_pos inside.symm,
        List.length_append, withStatus_rejections,
        row_unique sound.candidates found here (inside.trans isKey.symm), length]
      rfl
    · have outside : before.itemKey ∉ [key] := fun also => inside (List.mem_singleton.mp also)
      rw [if_neg outside, rejections_event, if_neg (Ne.symm inside), List.append_nil]
      exact length
  · obtain ⟨before, found, rfl⟩ := mem_withStatus.mp member
    split
    case isTrue inside =>
      obtain rfl := List.mem_singleton.mp inside
      exact ⟨CandidateStatus.noConfusion, fun assigned => absurd assigned (sound.unassigned there)⟩
    case isFalse => exact sound.written before found
  · exact (congrFun withStatus_knows item.2).trans (sound.placed item inside).2
  · rw [← (sound.described row inside).2.single large]
    exact congrArg (List.countP · _) withStatus_isTopLevel
  · rw [← (sound.intended intent inside).2.single large]
    exact congrArg (List.countP · _) withStatus_isTopLevel
  · have outside : other ∉ [key] := by
      rw [List.mem_singleton]
      rintro rfl
      exact apart inside
    refine (has_withStatus.mpr ?_ :
      (ledger.database.withStatus [key] .unsupported).Has other .spooled)
    rw [if_neg outside]
    exact sound.spooled other inside

theorem LedgerSound.rejectCandidates (rejections : List (ItemKey × CandidateRejectionCategory)) :
    ∀ {ledger : PublicationLedger}, LedgerSound ledger →
      (∀ rejection ∈ rejections, rejection.1 ∉ ledger.intents.flatMap (·.itemKeys)) →
      ∀ {next : Database}, rejections.foldlM Job.rejectCandidate ledger.database = .ok next →
        LedgerSound { ledger with database := next } := by
  induction rejections with
  | nil =>
      intro ledger sound _ next rejected
      obtain rfl := Except.ok.inj rejected
      exact sound
  | cons rejection rest ih =>
      intro ledger sound apart next rejected
      obtain ⟨here, apart⟩ := List.forall_mem_cons.mp apart
      rw [List.foldlM_cons, bind_eq_ok] at rejected
      obtain ⟨middle, one, others⟩ := rejected
      exact ih (sound.rejectCandidate here one) apart others

end Rejecting

section Spooling

variable {ledger : PublicationLedger}

/-- What a batch of the recovery adds: candidates that are spooled, or rejected once. -/
structure Recovered (before after : Database) : Prop where
  candidates : ∃ more, after.candidates = before.candidates ++ more ∧
    ∀ row ∈ more, row.status = .spooled ∨ row.status = .unsupported
  distinct : (after.candidates.map (·.itemKey)).Nodup
  references : after.foreignKeysHold = true
  valid : after.invalid = false
  rejected : ∀ row ∈ after.candidates, (after.rejections row.itemKey).length =
    if row.status = .unsupported then 1 else 0

theorem Recovered.isTopLevel {before after : Database} (recovered : Recovered before after)
    {key : ItemKey} (known : before.knows key = true) :
    after.isTopLevel key = before.isTopLevel key := by
  obtain ⟨more, added, -⟩ := recovered.candidates
  have distinct := recovered.distinct
  rw [added, List.map_append] at distinct
  unfold Database.isTopLevel
  rw [added, List.any_append]
  have none : more.any (fun row => decide (row.itemKey = key) && row.parentItemKey.isNone) =
      false := by
    rw [List.any_eq_false]
    intro row member both
    rw [Bool.and_eq_true, decide_eq_true_eq] at both
    exact List.disjoint_of_nodup_append distinct (knows_iff.mp known)
      (List.mem_map.mpr ⟨row, member, both.1⟩)
  rw [none, Bool.or_false]

theorem Recovered.has {before after : Database} (recovered : Recovered before after)
    {key : ItemKey} {status : CandidateStatus} (there : before.Has key status) :
    after.Has key status := by
  obtain ⟨more, added, -⟩ := recovered.candidates
  obtain ⟨row, member, holds⟩ := there
  refine ⟨row, ?_, holds⟩
  rw [added]
  exact List.mem_append_left _ member

/-- A ledger stays sound when the recovery adds a batch. -/
theorem LedgerSound.spool (sound : LedgerSound ledger) {next : Database}
    (recovered : Recovered ledger.database next) :
    LedgerSound { ledger with database := next } := by
  obtain ⟨more, added, status⟩ := recovered.candidates
  have knows : ∀ key, ledger.database.knows key = true → next.knows key = true := by
    intro key known
    rw [knows_iff] at known ⊢
    rw [added, List.map_append]
    exact List.mem_append_left _ known
  have same : ∀ keys : List ItemKey, (∀ key ∈ keys, ledger.database.knows key = true) →
      keys.countP next.isTopLevel = keys.countP ledger.database.isTopLevel := by
    intro keys known
    apply List.countP_congr
    intro key inside
    rw [recovered.isTopLevel (known key inside)]
  have itemsKnown : ∀ (row : PartRow), ∀ key ∈ ledger.itemsOf row.part.index,
      ledger.database.knows key = true := by
    intro row key inside
    obtain ⟨item, there, rfl⟩ := List.mem_map.mp inside
    exact (sound.placed item (List.mem_of_mem_filter there)).2
  have intentKnown : ∀ intent ∈ ledger.intents, ∀ key ∈ intent.itemKeys,
      ledger.database.knows key = true := by
    intro intent there key inside
    obtain ⟨row, member, isKey, -⟩ :=
      sound.spooled key (List.mem_flatMap.mpr ⟨intent, there, inside⟩)
    exact knows_iff.mpr (List.mem_map.mpr ⟨row, member, isKey⟩)
  refine {
    candidates := recovered.distinct
    references := recovered.references
    valid := recovered.valid
    rejected := recovered.rejected
    written := fun row member => ?_
    items := sound.items
    placed := fun item inside => ⟨(sound.placed item inside).1,
      knows item.2 (sound.placed item inside).2⟩
    indexes := sound.indexes
    names := sound.names
    described := fun row inside => ⟨(sound.described row inside).1,
      (sound.described row inside).2.some, fun large =>
        (same _ (itemsKnown row)).trans ((sound.described row inside).2.single large)⟩
    intended := fun intent inside => ⟨(sound.intended intent inside).1,
      (sound.intended intent inside).2.some, fun large =>
        (same _ (intentKnown intent inside)).trans ((sound.intended intent inside).2.single large)⟩
    spooled := fun key inside => recovered.has (sound.spooled key inside)
    apart := sound.apart }
  have distinct := recovered.distinct
  rw [added, List.map_append] at distinct
  rw [added] at member
  rcases List.mem_append.mp member with before | new
  · exact sound.written row before
  · constructor
    · intro isWritten
      rcases status row new with other | other
      · rw [isWritten] at other
        cases other
      · rw [isWritten] at other
        cases other
    · intro assigned
      obtain ⟨item, there, isKey⟩ := List.mem_map.mp assigned
      have known := knows_iff.mp (sound.placed item there).2
      rw [isKey] at known
      exact absurd (List.mem_map.mpr ⟨row, new, rfl⟩)
        (List.disjoint_of_nodup_append distinct known)

end Spooling

end PstForge.Job
