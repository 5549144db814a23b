import PstForge.Foundation.Saturation
import PstForge.Job.PublicationSafety

/-! # Runs of a job

A job is worked on in steps, each of which can be cut short, and is opened again after that.
Whatever the steps were, the ledger and the files agree, every candidate is accounted for,
and the job can be opened.
-/

namespace PstForge.Job

open PstForge.Foundation PstForge.Catalog

section Steps

variable {around : JobSurroundings} {store : JobStore}

/-- The candidates of the parts that are on their way. -/
def PublicationLedger.intendedKeys (ledger : PublicationLedger) : List ItemKey :=
  ledger.intents.flatMap (·.itemKeys)

theorem markCandidateRejections_ensures (sound : StoreSound around store)
    {rejections : List (ItemKey × CandidateRejectionCategory)}
    (apart : ∀ rejection ∈ rejections, rejection.1 ∉ store.ledger.intendedKeys) :
    Ensures (markCandidateRejections around rejections) store
      (fun _ next => StoreSound around next ∧ ∃ database,
        rejections.foldlM rejectCandidate store.ledger.database = .ok database ∧
          next.ledger = { store.ledger with database })
      (fun _ next => StoreSound around next ∧ next.ledger = store.ledger) := by
  obtain ⟨ledger, files, active, clock⟩ := store
  unfold markCandidateRejections
  apply Ensures.get_bind
  refine Ensures.refuse_bind (fun _ => ?_) fun _ => ⟨sound, rfl⟩
  apply executeLedger_ensures
  · intro next clock changed
    obtain ⟨database, rejected, same⟩ := bind_eq_ok.mp changed
    obtain rfl := Except.ok.inj same
    exact ⟨⟨sound.ledger.rejectCandidates rejections apart rejected,
      sound.files.withDatabase database⟩, database, rejected, rfl⟩
  · intro error clock _
    exact ⟨⟨sound.ledger, sound.files⟩, rfl⟩

theorem markStrandedEmbeddedCandidatesUnsupported_ensures (sound : StoreSound around store)
    (apart : ∀ key ∈ strandedKeys store.ledger.database, key ∉ store.ledger.intendedKeys) :
    Ensures (markStrandedEmbeddedCandidatesUnsupported around) store
      (fun count next => StoreSound around next ∧
        count = (strandedKeys store.ledger.database).length ∧ ∃ database,
          ((strandedKeys store.ledger.database).map fun key =>
            (key, CandidateRejectionCategory.strandedEmbeddedItem)).foldlM rejectCandidate
              store.ledger.database = .ok database ∧ next.ledger = { store.ledger with database })
      (fun _ next => StoreSound around next ∧ next.ledger = store.ledger) := by
  obtain ⟨ledger, files, active, clock⟩ := store
  unfold markStrandedEmbeddedCandidatesUnsupported
  refine Ensures.seq (proceed_ensures (fun clock => ?_) fun error clock _ =>
    ⟨⟨sound.ledger, sound.files⟩, rfl⟩)
  apply Ensures.get_bind
  dsimp only at apart ⊢
  split
  case isTrue none =>
    rw [List.isEmpty_iff.mp none]
    exact ⟨⟨sound.ledger, sound.files⟩, rfl, ledger.database, rfl, rfl⟩
  case isFalse =>
    have separate : ∀ rejection ∈ (strandedKeys ledger.database).map fun key =>
        (key, CandidateRejectionCategory.strandedEmbeddedItem),
        rejection.1 ∉ ledger.intendedKeys := by
      intro rejection inside
      obtain ⟨key, there, rfl⟩ := List.mem_map.mp inside
      exact apart key there
    have stillSound : StoreSound around ⟨ledger, files, active, clock⟩ :=
      ⟨sound.ledger, sound.files⟩
    refine Ensures.seq ((markCandidateRejections_ensures stillSound separate).mono ?_
      fun _ _ fails => fails)
    rintro _ next ⟨nextSound, database, rejected, same⟩
    exact ⟨nextSound, rfl, database, rejected, same⟩

/-- A job that is finished has no candidate and no publication left to do. -/
theorem finalizePrivateWork_ensures (sound : StoreSound around store) :
    Ensures (finalizePrivateWork around) store
      (fun _ next => StoreSound around next ∧ next.ledger = store.ledger ∧
        (∀ row ∈ store.ledger.database.candidates, row.status.isTerminal = true) ∧
          store.ledger.intents = [] ∧ ∀ name, fileAt next.files .staging name = none)
      (fun _ next => StoreSound around next ∧ next.ledger = store.ledger) := by
  obtain ⟨ledger, files, active, clock⟩ := store
  unfold finalizePrivateWork
  apply Ensures.get_bind
  refine Ensures.seq (proceed_ensures (fun clock => ?_) fun error clock _ =>
    ⟨⟨sound.ledger, sound.files⟩, rfl⟩)
  refine Ensures.refuse_bind (fun _ => ?_) fun _ => ⟨⟨sound.ledger, sound.files⟩, rfl⟩
  refine Ensures.refuse_bind (fun done => ?_) fun _ => ⟨⟨sound.ledger, sound.files⟩, rfl⟩
  rw [Bool.or_eq_true, not_or] at done
  have settled : ledger.intents = [] := by
    have empty := done.2
    rw [Bool.not_eq_true', Bool.not_eq_false] at empty
    exact List.isEmpty_iff.mp empty
  have terminal : ∀ row ∈ ledger.database.candidates, row.status.isTerminal = true := by
    intro row member
    have finished := List.any_eq_false.mp (Bool.eq_false_of_not_eq_true done.1) row member
    cases status : row.status with
    | pending => simp [status] at finished
    | spooled => simp [status] at finished
    | written => rfl
    | unsupported => rfl
    | failed => simp [status] at finished
  refine (removeStalePartials_ensures sound.ledger sound.files settled).mono ?_ ?_
  · rintro _ next ⟨nextSound, same, -, gone⟩
    exact ⟨nextSound, same, terminal, settled, gone⟩
  · rintro error next ⟨nextSound, same, -⟩
    exact ⟨nextSound, same⟩

end Steps

section Stranded

variable {database : Database}

/-- Whether nothing remains to be written of a candidate. -/
def Database.Ended (database : Database) (key : ItemKey) : Prop :=
  ∃ row ∈ database.candidates, row.itemKey = key ∧ row.status.isTerminal = true

/-- A spooled candidate that is embedded, at whatever depth, in one that has ended, with nothing
but spooled candidates between them. -/
inductive Stranded (database : Database) : ItemKey → Prop
  | direct {row : CandidateRow} {parent : ItemKey} (member : row ∈ database.candidates)
      (spooled : row.status = .spooled) (embedded : row.parentItemKey = some parent)
      (ended : database.Ended parent) : Stranded database row.itemKey
  | nested {row : CandidateRow} {parent : ItemKey} (member : row ∈ database.candidates)
      (spooled : row.status = .spooled) (embedded : row.parentItemKey = some parent)
      (stranded : Stranded database parent) : Stranded database row.itemKey

/-- Whether a candidate is spooled and embedded in one that has ended or in one of the given. -/
def stranding (database : Database) (keys : List ItemKey) (row : CandidateRow) : Bool :=
  row.status = .spooled && row.parentItemKey.any fun key =>
    ((database.candidates.filter (·.status.isTerminal)).map (·.itemKey)).contains key ||
      keys.contains key

theorem strandedKeys_eq : strandedKeys database =
    (selection database.candidates (·.itemKey) (stranding database))^[
      database.candidates.length + 1] [] := rfl

theorem stranding_iff {keys : List ItemKey} {row : CandidateRow} :
    stranding database keys row = true ↔ row.status = .spooled ∧
      ∃ parent, row.parentItemKey = some parent ∧ (database.Ended parent ∨ parent ∈ keys) := by
  have ended : ∀ key, key ∈ (database.candidates.filter (·.status.isTerminal)).map (·.itemKey) ↔
      database.Ended key := by
    intro key
    rw [List.mem_map]
    constructor
    · rintro ⟨row, inside, same⟩
      obtain ⟨there, terminal⟩ := List.mem_filter.mp inside
      exact ⟨row, there, same, terminal⟩
    · rintro ⟨row, there, same, terminal⟩
      exact ⟨row, List.mem_filter.mpr ⟨there, terminal⟩, same⟩
  unfold stranding
  rw [Bool.and_eq_true, decide_eq_true_eq, Option.any_eq_true]
  simp only [Bool.or_eq_true, List.contains_iff_mem, ended]

theorem stranding_grows {few many : List ItemKey} (subset : few ⊆ many) (row : CandidateRow)
    (selected : stranding database few row = true) : stranding database many row = true := by
  rw [stranding_iff] at selected ⊢
  obtain ⟨spooled, parent, embedded, reason⟩ := selected
  exact ⟨spooled, parent, embedded, reason.imp_right fun inside => subset inside⟩

/-- The query finds the stranded candidates, at every depth. -/
theorem mem_strandedKeys {key : ItemKey} :
    key ∈ strandedKeys database ↔ Stranded database key := by
  constructor
  · rw [strandedKeys_eq]
    apply iterate_selection_induction
    intro keys stranded row member selected
    obtain ⟨spooled, parent, embedded, reason⟩ := stranding_iff.mp selected
    rcases reason with ended | inside
    · exact .direct member spooled embedded ended
    · exact .nested member spooled embedded (stranded parent inside)
  · intro stranded
    have fixed : selection database.candidates (·.itemKey) (stranding database)
        (strandedKeys database) = strandedKeys database :=
      iterate_selection_fixed stranding_grows (Nat.le_succ database.candidates.length)
    induction stranded with
    | @direct row parent member spooled embedded ended =>
        rw [← fixed, mem_selection]
        exact ⟨row, member, stranding_iff.mpr ⟨spooled, parent, embedded, .inl ended⟩, rfl⟩
    | @nested row parent member spooled embedded _ ih =>
        rw [← fixed, mem_selection]
        exact ⟨row, member, stranding_iff.mpr ⟨spooled, parent, embedded, .inr ih⟩, rfl⟩

theorem Stranded.spooled {key : ItemKey} (stranded : Stranded database key) :
    database.Has key .spooled := by
  cases stranded with
  | direct member spooled => exact ⟨_, member, rfl, spooled⟩
  | nested member spooled => exact ⟨_, member, rfl, spooled⟩

theorem strandedKeys_nodup (distinct : (database.candidates.map (·.itemKey)).Nodup) :
    (strandedKeys database).Nodup := by
  rw [strandedKeys_eq, Function.iterate_succ_apply']
  exact distinct.sublist (List.filter_sublist.map _)

/-- Rejecting a candidate sets its status and records a rejection. -/
theorem rejectCandidate_spec {next : Database} {key : ItemKey}
    {category : CandidateRejectionCategory}
    (distinct : (database.candidates.map (·.itemKey)).Nodup)
    (rejected : rejectCandidate database (key, category) = .ok next) :
    next.candidates = (database.withStatus [key] .unsupported).candidates ∧
      ∀ other, next.rejections other =
        database.rejections other ++ if key = other then [category] else [] := by
  unfold rejectCandidate at rejected
  obtain ⟨taken, took, same⟩ := bind_eq_ok.mp rejected
  obtain ⟨-, rfl⟩ := takeSpooled_spec distinct took
  obtain rfl := Except.ok.inj same
  exact ⟨rfl, fun other => rejections_event⟩

/-- Rejecting candidates sets their status and records a rejection of each. -/
theorem rejectCandidates_spec (rejections : List (ItemKey × CandidateRejectionCategory)) :
    ∀ {database next : Database}, (database.candidates.map (·.itemKey)).Nodup →
      rejections.foldlM rejectCandidate database = .ok next →
        next.candidates =
            (database.withStatus (rejections.map (·.1)) .unsupported).candidates ∧
          ∀ key, next.rejections key = database.rejections key ++
            (rejections.filter (·.1 = key)).map (·.2) := by
  induction rejections with
  | nil =>
      intro database next _ rejected
      obtain rfl := Except.ok.inj rejected
      constructor
      · simp [Database.withStatus]
      · intro key
        rw [List.filter_nil, List.map_nil, List.append_nil]
  | cons rejection rest ih =>
      intro database next distinct rejected
      obtain ⟨key, category⟩ := rejection
      rw [List.foldlM_cons, bind_eq_ok] at rejected
      obtain ⟨middle, one, others⟩ := rejected
      obtain ⟨firstCandidates, firstEvents⟩ := rejectCandidate_spec distinct one
      have stillDistinct : (middle.candidates.map (·.itemKey)).Nodup := by
        rw [firstCandidates, map_withStatus _ fun _ _ => rfl]
        exact distinct
      obtain ⟨candidates, events⟩ := ih stillDistinct others
      constructor
      · rw [candidates, List.map_cons, ← withStatus_cons]
        unfold Database.withStatus at firstCandidates ⊢
        rw [firstCandidates]
      · intro other
        rw [events other, firstEvents other, List.append_assoc]
        congr 1
        by_cases mine : key = other
        · rw [if_pos mine, List.filter_cons, if_pos (decide_eq_true mine)]
          rfl
        · rw [if_neg mine, List.filter_cons, if_neg (by simpa using mine)]
          rfl

/-- Rejecting candidates for one reason records it once for each of them. -/
theorem rejectAlike_spec {next : Database} {keys : List ItemKey}
    {category : CandidateRejectionCategory}
    (distinct : (database.candidates.map (·.itemKey)).Nodup)
    (rejected : (keys.map fun key => (key, category)).foldlM rejectCandidate database =
      .ok next) :
    next.candidates = (database.withStatus keys .unsupported).candidates ∧
      ∀ key, next.rejections key =
        database.rejections key ++ List.replicate (keys.count key) category := by
  obtain ⟨candidates, rejections⟩ := rejectCandidates_spec _ distinct rejected
  rw [List.map_map, Function.comp_def, List.map_id'] at candidates
  refine ⟨candidates, fun key => ?_⟩
  rw [rejections, List.filter_map, List.map_map]
  congr 1
  have chosen : keys.filter ((fun rejection : ItemKey × CandidateRejectionCategory =>
      decide (rejection.1 = key)) ∘ fun key => (key, category)) =
      List.replicate (keys.count key) key := by
    rw [← List.filter_eq]
    rfl
  rw [chosen, List.map_replicate]
  rfl

/-- When the stranded candidates are rejected, none is stranded any more. -/
theorem not_stranded_rejected {next : Database}
    (rejected : next.candidates =
      (database.withStatus (strandedKeys database) .unsupported).candidates) {key : ItemKey} :
    ¬ Stranded next key := by
  have before : ∀ row, row ∈ next.candidates ↔ ∃ other ∈ database.candidates, row =
      if other.itemKey ∈ strandedKeys database then { other with status := .unsupported }
        else other := by
    intro row
    rw [rejected]
    exact mem_withStatus
  -- Whoever is still stranded was spooled before, and stranded then.
  have unchanged : ∀ row ∈ next.candidates, row.status = .spooled →
      row ∈ database.candidates ∧ row.itemKey ∉ strandedKeys database := by
    intro row member spooled
    obtain ⟨other, there, rfl⟩ := (before row).mp member
    by_cases inside : other.itemKey ∈ strandedKeys database
    · rw [if_pos inside] at spooled
      cases spooled
    · rw [if_neg inside]
      exact ⟨there, inside⟩
  intro stranded
  induction stranded with
  | @direct row parent member spooled embedded ended =>
      obtain ⟨there, outside⟩ := unchanged row member spooled
      apply outside
      rw [mem_strandedKeys]
      obtain ⟨other, otherMember, rfl, terminal⟩ := ended
      obtain ⟨origin, originMember, rfl⟩ := (before other).mp otherMember
      by_cases inside : origin.itemKey ∈ strandedKeys database
      · rw [if_pos inside] at embedded
        exact .nested there spooled embedded (mem_strandedKeys.mp inside)
      · rw [if_neg inside] at embedded terminal
        exact .direct there spooled embedded ⟨origin, originMember, rfl, terminal⟩
  | nested _ _ _ _ ih => exact ih

end Stranded

section Runs

variable (around : JobSurroundings)

/-- A step of the work on a job. A publication, a rejection or an opening may be stopped at any
access; what a step takes for granted of its caller is a premise of it. -/
inductive JobStep : JobStore → JobStore → Prop
  /-- A file of the work in progress is written. -/
  | stage {store : JobStore} {name : Text} {file : StoredFile} (removable : Removable name file)
      (named : ¬ ".json.partial".toList <:+ name) :
      JobStep store { store with files := insertFile store.files .staging name file }
  | unstage {store : JobStore} {name : Text} (named : ¬ ".json.partial".toList <:+ name) :
      JobStep store { store with files := eraseFile store.files .staging name }
  /-- The recovery begins a candidate, or commits a batch of them. -/
  | spool {store : JobStore} {database : Database} {active : Bool}
      (recovered : Recovered store.ledger.database database) :
      JobStep store { store with ledger := { store.ledger with database }, active }
  | publish {store : JobStore} {staged : Text} {part : PublishedPart} {sidecar : PartSidecar}
      {itemKeys : List ItemKey} (named : ¬ ".json.partial".toList <:+ staged)
      (publishable : Publishable store.ledger part itemKeys) :
      JobStep store (after (publishPart around staged part sidecar itemKeys) store)
  | reject {store : JobStore} {rejections : List (ItemKey × CandidateRejectionCategory)}
      (apart : ∀ rejection ∈ rejections, rejection.1 ∉ store.ledger.intendedKeys) :
      JobStep store (after (markCandidateRejections around rejections) store)
  | rejectStranded {store : JobStore}
      (apart : ∀ key ∈ strandedKeys store.ledger.database, key ∉ store.ledger.intendedKeys) :
      JobStep store (after (markStrandedEmbeddedCandidatesUnsupported around) store)
  | finalize {store : JobStore} : JobStep store (after (finalizePrivateWork around) store)
  | reopen {store : JobStore} : JobStep store (after (reopenJob around) store)

/-- A job that was just created. -/
def JobStore.created : JobStore where
  ledger := ⟨.empty, [], [], []⟩
  files := fun _ => ∅
  active := false
  clock := 0

/-- The jobs that steps lead to. -/
def Reachable (store : JobStore) : Prop := Relation.ReflTransGen (JobStep around) .created store

variable {around}

theorem created_sound : StoreSound around .created where
  ledger :=
    { candidates := List.nodup_nil
      references := rfl
      valid := rfl
      rejected := fun _ member => absurd member List.not_mem_nil
      written := fun _ member => absurd member List.not_mem_nil
      items := List.nodup_nil
      placed := fun _ member => absurd member List.not_mem_nil
      indexes := List.nodup_nil
      names := List.nodup_nil
      described := fun _ member => absurd member List.not_mem_nil
      intended := fun _ member => absurd member List.not_mem_nil
      spooled := fun _ member => absurd member List.not_mem_nil
      apart := List.nodup_nil }
  files :=
    { published := fun _ member => absurd member List.not_mem_nil
      intended := fun _ member => absurd member List.not_mem_nil
      parts := fun _ _ found => absurd found.symm (Option.some_ne_none _)
      manifests := fun _ _ found => absurd found.symm (Option.some_ne_none _)
      staging := fun _ _ found => absurd found.symm (Option.some_ne_none _) }

/-- An action that keeps a job sound in either outcome leaves a sound job behind. -/
theorem StoreSound.after_of_ensures {store : JobStore} {α : Type}
    {action : Publishing α} {ok : α → JobStore → Prop}
    {failed : PublicationError → JobStore → Prop}
    (ensures : Ensures action store (fun value next => StoreSound around next ∧ ok value next)
      fun error next => StoreSound around next ∧ failed error next) :
    StoreSound around (after action store) :=
  (ensures.mono (fun _ _ done => done.1) fun _ _ stopped => stopped.1).ends

/-- Every step keeps a job sound, wherever it is stopped. -/
theorem JobStep.sound {store next : JobStore} (step : JobStep around store next)
    (sound : StoreSound around store) : StoreSound around next := by
  cases step with
  | stage removable named =>
      exact ⟨sound.ledger, sound.files.insertStaged removable fun _ _ => apart_of_named named⟩
  | unstage named =>
      exact ⟨sound.ledger, sound.files.eraseStaged fun _ _ => apart_of_named named⟩
  | spool recovered => exact ⟨sound.ledger.spool recovered, sound.files.withDatabase _⟩
  | publish named publishable =>
      exact .after_of_ensures (publishPart_ensures sound named publishable)
  | reject apart => exact .after_of_ensures (markCandidateRejections_ensures sound apart)
  | rejectStranded apart =>
      exact .after_of_ensures (markStrandedEmbeddedCandidatesUnsupported_ensures sound apart)
  | finalize => exact .after_of_ensures (finalizePrivateWork_ensures sound)
  | reopen =>
      have ensures := reopenJob_ensures sound
      exact (ensures.mono (fun _ _ ok => ok.opening.sound) fun _ _ failed => failed.1.sound).ends

theorem Reachable.sound {store : JobStore} (reachable : Reachable around store) :
    StoreSound around store := by
  induction reachable with
  | refl => exact created_sound
  | tail _ step ih => exact step.sound ih

end Runs

section Recovering

variable {around other : JobSurroundings} {store : JobStore}

/-- The same surroundings, in which nothing stops the process. -/
def JobSurroundings.quiet (around : JobSurroundings) : JobSurroundings :=
  { around with fault := fun _ => none }

theorem not_stops_quiet {error : PublicationError} : ¬ Stops around.quiet error := by
  rintro ⟨now, stopped⟩
  cases stopped

/-- Whether a job is sound depends on the digest and the form of the descriptions alone. -/
theorem StoreSound.transfer (sound : StoreSound around store)
    (sha256 : other.sha256 = around.sha256) (parse : other.parse = around.parse) :
    StoreSound other store := by
  have part : ∀ {files place name part sidecar}, PartStored around files place name part sidecar →
      PartStored other files place name part sidecar := by
    intro files place name part sidecar stored
    unfold PartStored
    rw [sha256]
    exact stored
  have described : ∀ {files place name sidecar}, SidecarStored around files place name sidecar →
      SidecarStored other files place name sidecar := by
    intro files place name sidecar stored
    unfold SidecarStored
    rw [parse]
    exact stored
  refine ⟨sound.ledger, {
    published := fun row member => ?_
    intended := fun intent member => ?_
    parts := sound.files.parts
    manifests := sound.files.manifests
    staging := sound.files.staging }⟩
  · obtain ⟨stored, sidecar⟩ := sound.files.published row member
    exact ⟨part stored, described sidecar⟩
  · cases sound.files.intended intent member with
    | recorded noPart noSidecar staged => exact .recorded noPart noSidecar (described staged)
    | moved stored noSidecar staged => exact .moved (part stored) noSidecar (described staged)
    | complete stored sidecar => exact .complete (part stored) (described sidecar)

/-- In quiet surroundings a sound job is opened. -/
theorem reopenJob_quiet (sound : StoreSound around store) :
    ∃ next, reopenJob around.quiet store = .ok () next ∧ Reopened around store next := by
  have quietSound : StoreSound around.quiet store := sound.transfer rfl rfl
  have ensures := reopenJob_ensures quietSound
  obtain ⟨_, next, hrun, reopened⟩ := (ensures.mono (fun _ _ ok => ok) fun _ _ failed =>
    not_stops_quiet failed.2).exists_run
  refine ⟨next, hrun, ⟨reopened.opening.sound.transfer rfl rfl, reopened.opening.settles,
    reopened.opening.parts⟩, reopened.intents, reopened.staging⟩

/-- A job without intents and without work in progress is left as it is. -/
theorem reopenJob_settled (sound : StoreSound around store) (settled : store.ledger.intents = [])
    (cleared : ∀ name, fileAt store.files .staging name = none) :
    Ensures (reopenJob around) store
      (fun _ next => next.ledger = store.ledger ∧ next.files = store.files)
      (fun error _ => Stops around error) := by
  obtain ⟨ledger, files, active, clock⟩ := store
  obtain ⟨accounts, stored⟩ := sound
  dsimp only at accounts stored settled cleared ⊢
  have none : (files .staging).keys = [] := by
    apply List.eq_nil_iff_forall_not_mem.mpr
    intro name inside
    obtain ⟨file, found⟩ := Option.isSome_iff_exists.mp
      (AList.lookup_isSome.mpr (AList.mem_keys.mpr inside))
    exact Option.some_ne_none file (found.symm.trans (cleared name))
  unfold reopenJob
  apply Ensures.modify_bind
  refine Ensures.seq (proceed_ensures (fun clock => ?_) fun _ _ stopped => stopped)
  refine Ensures.get_bind (Ensures.seq (Ensures.of_ok accounts.validates ?_))
  have counted : discard (readCandidateRejectionCounts ledger.database) = .ok () := by
    obtain ⟨counts, read⟩ := accounts.counts
    rw [read]
    rfl
  refine Ensures.get_bind (Ensures.seq (Ensures.of_ok counted ?_))
  unfold reconcilePublications
  refine Ensures.seq (Ensures.seq (proceed_ensures (fun clock => ?_) fun _ _ stopped => stopped))
  apply Ensures.get_bind
  dsimp only
  rw [settled, List.insertionSort_nil]
  unfold removeStalePartials
  refine Ensures.seq (Ensures.seq (proceed_ensures (fun clock => ?_) fun _ _ stopped => stopped))
  apply Ensures.get_bind
  dsimp only
  rw [none]
  refine Ensures.seq (proceed_ensures (fun clock => ?_) fun _ _ stopped => stopped)
  refine Ensures.get_bind (Ensures.seq (Ensures.of_ok accounts.validates ?_))
  refine (validatePartStore_ensures accounts stored settled).mono ?_ ?_
  · rintro _ next ⟨clock, rfl⟩
    exact ⟨rfl, rfl⟩
  · exact fun error next stopped => stopped.2

theorem Settles.eq_of_settled {parts : Directory} {ledger next : PublicationLedger}
    (settles : Settles parts ledger next) (settled : ledger.intents = []) : next = ledger := by
  rcases Relation.ReflTransGen.cases_head settles with same | ⟨middle, step, -⟩
  · exact same.symm
  · cases step with
    | publish member =>
        rw [settled] at member
        cases member
    | drop member =>
        rw [settled] at member
        cases member

/-- A ledger with one intent is settled with the part of it or without. -/
theorem Settles.eq_of_single {parts : Directory} {ledger next : PublicationLedger}
    {intent : PublicationIntent} (settles : Settles parts ledger next)
    (single : ledger.intents = [intent]) (settled : next.intents = []) :
    next = ledger.published intent ∨ next = ledger.deleteIntent intent.part.index := by
  have empty : (ledger.deleteIntent intent.part.index).intents = [] := by
    unfold PublicationLedger.deleteIntent
    dsimp only
    rw [single]
    simp
  rcases Relation.ReflTransGen.cases_head settles with rfl | ⟨middle, step, rest⟩
  · rw [settled] at single
    cases single
  · cases step with
    | publish member =>
        rw [single] at member
        obtain rfl := List.mem_singleton.mp member
        exact .inl (Settles.eq_of_settled rest empty)
    | drop member =>
        rw [single] at member
        obtain rfl := List.mem_singleton.mp member
        exact .inr (Settles.eq_of_settled rest empty)

/-- However often an opening is stopped, it goes on where it was. -/
theorem reopenings (sound : StoreSound around store) (attempts : ℕ) :
    Opening around (store.files .parts) store.ledger
      ((after (reopenJob around))^[attempts] store) := by
  induction attempts with
  | zero => exact .refl sound.ledger sound.files
  | succ attempts ih =>
      rw [Function.iterate_succ_apply']
      have ensures := reopenJob_ensures ih.sound
      have opening := (ensures.mono (fun _ _ ok => ok.opening) fun _ _ failed => failed.1).ends
      rw [ih.parts] at opening
      exact ⟨opening.sound, ih.settles.trans opening.settles, opening.parts⟩

end Recovering

section Sample

def noteContent : Bytes := [0x21, 0x42, 0x44, 0x4e]

def noteDigest : Text :=
  "bf4dbde9d2d1d0d973604c46228ae0d1f8c2869a1d6dee86243807db65ea9faa".toList

def notePart : PublishedPart where
  index := 1
  filename := "archive-00001.pst".toList
  byteLen := 4
  sha256 := some noteDigest
  oversize := false

def noteSidecar : PartSidecar where
  schemaVersion := "1.1.0".toList
  producerVersion := "0.1.0".toList
  index := 1
  filename := "archive-00001.pst".toList
  byteLen := 4
  sha256 := some noteDigest
  publishedDevice := none
  publishedInode := none
  storeRecordKey := "00112233445566778899aabbccddeeff".toList
  folderCount := 1
  messageCount := 1
  oversize := false
  incomplete := false
  omittedFolders := 0
  omittedProperties := 0
  omittedAttachments := 0
  reconstructions := ⟨[], []⟩

/-- The description of the part as it is written. -/
def noteDocument : Bytes :=
  ("\x7b\n" ++
    "  \"schema_version\": \"1.1.0\",\n" ++
    "  \"producer_version\": \"0.1.0\",\n" ++
    "  \"index\": 1,\n" ++
    "  \"filename\": \"archive-00001.pst\",\n" ++
    "  \"byte_len\": 4,\n" ++
    "  \"sha256\": \"bf4dbde9d2d1d0d973604c46228ae0d1f8c2869a1d6dee86243807db65ea9faa\",\n" ++
    "  \"store_record_key\": \"00112233445566778899aabbccddeeff\",\n" ++
    "  \"folder_count\": 1,\n" ++
    "  \"message_count\": 1,\n" ++
    "  \"oversize\": false,\n" ++
    "  \"partial\": false,\n" ++
    "  \"omitted_folders\": 0,\n" ++
    "  \"omitted_properties\": 0,\n" ++
    "  \"omitted_attachments\": 0,\n" ++
    "  \"reconstructions\": \x7b\n" ++
    "    \"derived\": \x7b\x7d,\n" ++
    "    \"generated\": \x7b\x7d\n" ++
    "  \x7d\n" ++
    "\x7d\n").toList.map fun char => UInt8.ofNat char.toNat

def noteSurroundings (fault : Nat → Option PublicationError) : JobSurroundings where
  sha256 bytes := if bytes = noteContent then noteDigest else []
  render sidecar := if sidecar = noteSidecar then noteDocument else []
  parse bytes := if bytes = noteDocument then some noteSidecar else none
  fault
  written _ := 7
  identity now := (1, now)

/-- Stop the publication behind the move of the part, and the opening that follows. -/
def noteFaults (now : Nat) : Option PublicationError :=
  if now = 12 ∨ now = 15 then some .interrupted else none

def noteKey : ItemKey := ⟨.normal, some 2097188, none, 0⟩

def enclosedKey : ItemKey := ⟨.normal, some 2097220, none, 0⟩

def noteMetadata (embeddedPath : List Nat) : MessageMetadata :=
  ⟨some 32802, none, none, embeddedPath, false, none, none, none, none, none, none, none, true⟩

/-- A note, and a note that is attached to it. -/
def noteDatabase : Database :=
  { Database.empty with
    candidates :=
      [⟨noteKey, .complete, .spooled, noteMetadata [], none, none, none, []⟩,
        ⟨enclosedKey, .complete, .spooled, noteMetadata [0], none, some noteKey, some 0, [0]⟩] }

def stagedName : Text := "archive-00001.pst.partial".toList

def noteFile : StoredFile := ⟨true, true, 1, 100, noteContent⟩

/-- The work in progress is written first, and the notes are spooled after that. -/
def workingNote : JobStore :=
  { JobStore.created with files := insertFile JobStore.created.files .staging stagedName noteFile }

def stagedNote : JobStore :=
  { workingNote with ledger := ⟨noteDatabase, [], [], []⟩ }

variable (fault : Nat → Option PublicationError)

theorem stagedName_named : ¬ ".json.partial".toList <:+ stagedName := by decide

theorem noteDatabase_recovered : Recovered Database.empty noteDatabase where
  candidates := ⟨noteDatabase.candidates, rfl, by decide⟩
  distinct := by decide
  references := by decide
  valid := by decide
  rejected := by decide

theorem stagedNote_reachable : Reachable (noteSurroundings fault) stagedNote := by
  have removable : Removable stagedName noteFile := ⟨rfl, rfl, by decide, by decide⟩
  have staged : JobStep (noteSurroundings fault) .created workingNote :=
    .stage removable stagedName_named
  have spooled : JobStep (noteSurroundings fault) workingNote stagedNote :=
    .spool noteDatabase_recovered
  exact (Relation.ReflTransGen.single staged).tail spooled

theorem notePart_publishable : Publishable stagedNote.ledger notePart [noteKey] where
  index := List.not_mem_nil
  distinct := List.nodup_singleton _
  apart := fun _ _ => List.not_mem_nil
  single := fun large => by cases large

/-- The note after a publication. -/
def publishedNote : JobStore :=
  after (publishPart (noteSurroundings fault) stagedName notePart noteSidecar [noteKey]) stagedNote

theorem publishedNote_reachable : Reachable (noteSurroundings fault) (publishedNote fault) :=
  (stagedNote_reachable fault).tail (.publish stagedName_named notePart_publishable)

/-- The notes when nothing stops the process and the outer one is rejected. -/
def rejectedNote : JobStore :=
  after (markCandidateRejections (noteSurroundings fun _ => none)
    [(noteKey, .writerInputRejected)]) stagedNote

def strandedNote : JobStore :=
  after (markStrandedEmbeddedCandidatesUnsupported (noteSurroundings fun _ => none)) rejectedNote

theorem rejectedNote_reachable : Reachable (noteSurroundings fun _ => none) rejectedNote :=
  (stagedNote_reachable _).tail (.reject fun _ _ => List.not_mem_nil)

end Sample

section Results

variable {around : JobSurroundings} {store : JobStore}

/-- After any number of openings that were stopped, one that is not stopped settles the job. -/
theorem reopenings_settle (sound : StoreSound around store) (attempts : ℕ) :
    ∃ next, reopenJob around.quiet ((after (reopenJob around))^[attempts] store) = .ok () next ∧
      StoreSound around next ∧ (∀ name, fileAt next.files .staging name = none) ∧
        next.ledger.intents = [] ∧ Settles (store.files .parts) store.ledger next.ledger := by
  have before := reopenings sound attempts
  obtain ⟨next, hrun, reopened⟩ := reopenJob_quiet before.sound
  have settles := reopened.opening.settles
  rw [before.parts] at settles
  exact ⟨next, hrun, reopened.opening.sound, reopened.staging, reopened.intents,
    before.settles.trans settles⟩

theorem mapM_readRejection {database : Database} (rows : List CandidateRow)
    (rejected : ∀ row ∈ rows, (database.rejections row.itemKey).length =
      if row.status = .unsupported then 1 else 0) :
    rows.mapM (readRejection database) =
      .ok (rows.map fun row => database.rejections row.itemKey) := by
  induction rows with
  | nil => rfl
  | cons row rest ih =>
      obtain ⟨here, others⟩ := List.forall_mem_cons.mp rejected
      rw [List.mapM_cons, readRejection_ok here, ih others]
      rfl

theorem count_rejections {database : Database} (category : CandidateRejectionCategory)
    (rows : List CandidateRow) (rejected : ∀ row ∈ rows,
      (database.rejections row.itemKey).length = if row.status = .unsupported then 1 else 0) :
    (rows.map fun row => database.rejections row.itemKey).flatten.count category =
      rows.countP fun row => database.rejections row.itemKey = [category] := by
  induction rows with
  | nil => rfl
  | cons row rest ih =>
      obtain ⟨here, others⟩ := List.forall_mem_cons.mp rejected
      rw [List.map_cons, List.flatten_cons, List.count_append, ih others, List.countP_cons,
        Nat.add_comm]
      congr 1
      cases found : database.rejections row.itemKey with
      | nil => rfl
      | cons first more =>
          have none : more = [] := by
            rw [found, List.length_cons] at here
            apply List.eq_nil_of_length_eq_zero
            split at here <;> omega
          rw [none, List.count_singleton]
          by_cases same : first = category
          · simp [same]
          · simp [same]

/-- A candidate that is written is in one part, and any other in none. -/
theorem LedgerSound.inParts {ledger : PublicationLedger} (sound : LedgerSound ledger)
    {row : CandidateRow} (member : row ∈ ledger.database.candidates) :
    ledger.partItems.countP (·.2 = row.itemKey) = if row.status = .written then 1 else 0 := by
  have counted : ledger.partItems.countP (·.2 = row.itemKey) =
      (ledger.partItems.map (·.2)).count row.itemKey := by
    rw [List.count, List.countP_map]
    apply List.countP_congr
    intro item _
    simp
  rw [counted, sound.items.count]
  simp only [sound.written row member]

/-- The files of a place are those of a list, when each of them is listed and stored. -/
theorem isSome_fileAt_iff {files : Place → Directory} {place : Place} {names : List Text}
    (listed : ∀ name file, fileAt files place name = some file → name ∈ names)
    (stored : ∀ name ∈ names, ∃ file, fileAt files place name = some file) (name : Text) :
    (fileAt files place name).isSome = true ↔ name ∈ names := by
  rw [Option.isSome_iff_exists]
  exact ⟨fun ⟨file, found⟩ => listed name file found, stored name⟩

/-- Marking the stranded candidates rejects these, at whatever depth they are embedded, with one
reason, and nothing else; none is stranded any more. -/
theorem strandedCandidates_rejected (reachable : Reachable around store)
    (settled : store.ledger.intents = []) {count : Nat} {next : JobStore}
    (hrun : markStrandedEmbeddedCandidatesUnsupported around store = .ok count next) :
    (∀ key, ¬ Stranded next.ledger.database key) ∧
      (∀ row ∈ store.ledger.database.candidates,
        (Stranded store.ledger.database row.itemKey →
          { row with status := .unsupported } ∈ next.ledger.database.candidates ∧
            next.ledger.database.rejections row.itemKey = [.strandedEmbeddedItem]) ∧
        (¬ Stranded store.ledger.database row.itemKey →
          row ∈ next.ledger.database.candidates ∧ next.ledger.database.rejections row.itemKey =
            store.ledger.database.rejections row.itemKey)) ∧
      ∃ keys : List ItemKey, keys.Nodup ∧
        (∀ key, key ∈ keys ↔ Stranded store.ledger.database key) ∧ count = keys.length := by
  have accounts := reachable.sound.ledger
  have apart : ∀ key ∈ strandedKeys store.ledger.database, key ∉ store.ledger.intendedKeys := by
    intro key _
    unfold PublicationLedger.intendedKeys
    rw [settled]
    exact List.not_mem_nil
  obtain ⟨-, counted, database, rejected, same⟩ :=
    (markStrandedEmbeddedCandidatesUnsupported_ensures reachable.sound apart).run_ok hrun
  let keys := strandedKeys store.ledger.database
  have distinct : keys.Nodup := strandedKeys_nodup accounts.candidates
  obtain ⟨candidates, rejections⟩ := rejectAlike_spec accounts.candidates rejected
  have nextCandidates : next.ledger.database.candidates =
      (store.ledger.database.withStatus keys .unsupported).candidates := by
    rw [same]
    exact candidates
  have nextRejections : ∀ key, next.ledger.database.rejections key =
      store.ledger.database.rejections key ++
        List.replicate (keys.count key) .strandedEmbeddedItem := by
    intro key
    rw [same]
    exact rejections key
  have mem_next : ∀ row, row ∈ next.ledger.database.candidates ↔
      ∃ before ∈ store.ledger.database.candidates, row =
        if before.itemKey ∈ keys then { before with status := .unsupported } else before := by
    intro row
    rw [nextCandidates]
    exact mem_withStatus
  refine ⟨fun _ => not_stranded_rejected nextCandidates,
    fun row member => ⟨fun stranded => ?_, fun notStranded => ?_⟩,
    keys, distinct, fun key => mem_strandedKeys, counted⟩
  · have inside : row.itemKey ∈ keys := mem_strandedKeys.mpr stranded
    constructor
    · refine (mem_next _).mpr ⟨row, member, ?_⟩
      rw [if_pos inside]
    · obtain ⟨other, there, isKey, spooled⟩ := stranded.spooled
      obtain rfl := row_unique accounts.candidates there member isKey
      have none := accounts.rejected other there
      rw [spooled, if_neg CandidateStatus.noConfusion] at none
      rw [nextRejections, List.eq_nil_of_length_eq_zero none, List.nil_append,
        List.count_eq_one_of_mem distinct inside]
      rfl
  · have outside : row.itemKey ∉ keys := fun inside => notStranded (mem_strandedKeys.mp inside)
    constructor
    · refine (mem_next _).mpr ⟨row, member, ?_⟩
      rw [if_neg outside]
    · rw [nextRejections, List.count_eq_zero_of_not_mem outside]
      exact List.append_nil _

theorem strandedCandidates_rejected_note :
    ∃ count next, markStrandedEmbeddedCandidatesUnsupported (noteSurroundings fun _ => none)
        rejectedNote = .ok count next ∧ ∀ key, ¬ Stranded next.ledger.database key := by
  have success : succeeds (markStrandedEmbeddedCandidatesUnsupported
      (noteSurroundings fun _ => none)) rejectedNote = true := by decide +kernel
  have settled : rejectedNote.ledger.intents = [] := by decide +kernel
  obtain ⟨count, next, hrun⟩ := exists_run_ok success
  have rejected := strandedCandidates_rejected rejectedNote_reachable settled hrun
  exact ⟨count, next, hrun, rejected.1⟩

end Results

end PstForge.Job
