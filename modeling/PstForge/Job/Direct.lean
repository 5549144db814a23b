import PstForge.Job.Messages

/-! # What the ledger tells of candidates

The candidates of a ledger are asked for one top-level candidate after another, in the
order of their rows, and each with the candidates that are embedded in it.
-/

namespace PstForge.Job

open PstForge.Foundation PstForge.Catalog

section Queries

/-- Whether the message of a candidate has ended. -/
def CandidateStatus.isCommitted : CandidateStatus → Bool
  | .spooled | .written | .unsupported => true
  | .pending | .failed => false

/-- A top-level candidate with the number of its row. -/
structure DirectTopLevelCandidate where
  rowid : Nat
  itemKey : ItemKey
  provenance : CatalogProvenance
  sourceNodeId : Option Nat
  recoveryIndex : Option Nat
  deriving DecidableEq, Repr

/-- The first top-level candidate behind a row; rows are numbered from one. -/
def nextDirectTopLevelCandidate (afterRowid : Nat) (database : Database) :
    Option DirectTopLevelCandidate :=
  ((database.candidates.zipIdx 1).find? fun entry =>
    afterRowid < entry.2 && entry.1.parentItemKey.isNone && entry.1.status.isCommitted).map
    fun entry => ⟨entry.2, entry.1.itemKey, entry.1.itemKey.provenance,
      entry.1.itemKey.sourceNodeId, entry.1.itemKey.recoveryIndex⟩

/-- Whether nothing remains to be written of a candidate. -/
def candidateIsTerminal (key : ItemKey) (database : Database) : Except JobError Bool := do
  let row ← okOr (.integrity "direct worker candidate is absent from the catalog")
    (database.candidates.find? fun row => row.itemKey = key && row.status.isCommitted)
  return row.status = .written ∨ row.status = .unsupported

/-- The candidates of the given ones and those embedded in them. -/
def withChildren (database : Database) (keys : List ItemKey) : List ItemKey :=
  keys ++ (database.candidates.filter fun row =>
    row.status.isCommitted && row.parentItemKey.any (keys.contains ·)).map (·.itemKey)

/-- A candidate that can be written, and all that are embedded in it; no chain of
candidates is longer than their number. -/
def treeKeys (database : Database) (root : ItemKey) : List ItemKey :=
  (withChildren database)^[database.candidates.length]
    ((database.candidates.filter fun row => row.itemKey = root && row.status = .spooled).map
      (·.itemKey))

def ItemKey.text (key : ItemKey) : String :=
  provenance ++ ":" ++ number key.sourceNodeId ++ ":" ++ number key.recoveryIndex ++ ":" ++
    toString key.occurrence
where
  provenance := match key.provenance with
    | .normal => "normal"
    | .recovered => "recovered"
    | .orphan => "orphan"
    | .fragment => "fragment"
  number : Option Nat → String
    | some value => toString value
    | none => "-"

structure SpooledEvent where
  sequence : Nat
  detail : EventDetail
  blob : Option BlobRef
  deriving DecidableEq, Repr

structure SpooledCandidate where
  itemKey : ItemKey
  completeness : Completeness
  metadata : MessageMetadata
  parentItemKey : Option ItemKey
  parentAttachmentIndex : Option Nat
  unit : Option RecoveryUnit
  events : List SpooledEvent
  deriving DecidableEq, Repr

structure CandidateOwnership where
  itemKey : ItemKey
  sourceNodeId : Option Nat
  writable : Bool
  parentItemKey : Option ItemKey
  parentAttachmentIndex : Option Nat
  embeddedPath : List Nat
  metadata : MessageMetadata
  deriving DecidableEq, Repr

structure SpooledCandidateTree where
  candidates : List SpooledCandidate
  ownerships : List CandidateOwnership
  deriving DecidableEq, Repr

/-- The events of a candidate in their order. -/
def spooledEvents (database : Database) (key : ItemKey) : List SpooledEvent :=
  ((database.events.filter (·.itemKey = key)).map fun row =>
    ⟨row.sequence, row.detail, row.blob⟩).insertionSort fun first second =>
      first.sequence ≤ second.sequence

def CandidateRow.spooled (database : Database) (row : CandidateRow) : SpooledCandidate where
  itemKey := row.itemKey
  completeness := row.completeness
  metadata := row.metadata
  parentItemKey := row.parentItemKey
  parentAttachmentIndex := row.parentAttachmentIndex
  unit := row.unit
  events := spooledEvents database row.itemKey

def CandidateRow.ownership (row : CandidateRow) : CandidateOwnership where
  itemKey := row.itemKey
  sourceNodeId := row.itemKey.sourceNodeId
  writable := row.status = .spooled
  parentItemKey := row.parentItemKey
  parentAttachmentIndex := row.parentAttachmentIndex
  embeddedPath := row.embeddedPath
  metadata := row.metadata

/-- The rows of a tree in the order of their keys. -/
def treeRows (database : Database) (root : ItemKey) : List CandidateRow :=
  let keys := treeKeys database root
  (database.candidates.filter fun row => keys.contains row.itemKey).insertionSort
    fun first second => ¬ second.itemKey.text < first.itemKey.text

def spooledCandidateTree (root : ItemKey) (database : Database) :
    Except JobError SpooledCandidateTree := do
  let rows := treeRows database root
  let writable := rows.filter (·.status = .spooled)
  refuse (writable = [])
    (.integrity "requested top-level spooled candidate does not exist")
  refuse (rows.any (fun row => row.parentItemKey.isSome != row.parentAttachmentIndex.isSome) = true)
    (.integrity "candidate has incomplete embedded ownership")
  return ⟨writable.map (CandidateRow.spooled database), rows.map CandidateRow.ownership⟩

/-- What the ledger counts of the candidates that have ended. -/
structure JobSummary where
  committedCandidates : Nat
  recoveredCandidates : Nat
  orphanCandidates : Nat
  fragmentCandidates : Nat
  completeCandidates : Nat
  partialCandidates : Nat
  unsupportedCandidates : Nat
  deriving DecidableEq, Repr

def summary (database : Database) : JobSummary :=
  let rows := database.candidates.filter (·.status.isCommitted)
  { committedCandidates := rows.length
    recoveredCandidates := rows.countP (·.itemKey.provenance = .recovered)
    orphanCandidates := rows.countP (·.itemKey.provenance = .orphan)
    fragmentCandidates := rows.countP (·.itemKey.provenance = .fragment)
    completeCandidates := rows.countP (·.completeness = .complete)
    partialCandidates := rows.countP (·.completeness = .partialContent)
    unsupportedCandidates := rows.countP (·.status = .unsupported) }

end Queries

section Families

variable {sha256 : Bytes → Bytes}

/-- Candidates of one tree with their paths, the latest first. -/
abbrev Family := List (List Nat × ItemKey)

/-- A message is recorded in a row. -/
structure WholeMessage.Recorded (message : WholeMessage) (row : CandidateRow) : Prop where
  provenance : row.itemKey.provenance = message.start.provenance
  sourceNodeId : row.itemKey.sourceNodeId =
    if message.start.id = 0 then none else some message.start.id
  recoveryIndex : row.itemKey.recoveryIndex = message.start.recoveryIndex
  embeddedPath : row.embeddedPath = message.start.metadata.embeddedPath
  completeness : row.completeness = if message.complete then .complete else .partialContent
  status : row.status = if message.start.metadata.supported then .spooled else .unsupported

theorem WholeMessage.recorded (message : WholeMessage) (sink : DurableCatalogSink)
    (parent : Option ItemKey) : message.Recorded (message.row sink parent) :=
  ⟨rfl, rfl, rfl, rfl, rfl, rfl⟩

section Recorded

variable {messages : List WholeMessage} {rows : List CandidateRow}

theorem committed_of_recorded (recorded : List.Forall₂ WholeMessage.Recorded messages rows) :
    ∀ row ∈ rows, row.status.isCommitted = true := by
  induction recorded with
  | nil =>
      intro row member
      cases member
  | cons first _ ih =>
      intro row member
      rcases List.mem_cons.mp member with rfl | member
      · rw [first.status]
        split <;> rfl
      · exact ih row member

theorem paths_of_recorded (recorded : List.Forall₂ WholeMessage.Recorded messages rows) :
    rows.map (·.embeddedPath) = messages.map fun message =>
      message.start.metadata.embeddedPath := by
  induction recorded with
  | nil => rfl
  | cons first _ ih => rw [List.map_cons, List.map_cons, first.embeddedPath, ih]

end Recorded

/-- Every message of a list is embedded in one that came before it, at a path of its own. -/
def Nested : (paths : List (List Nat)) → List WholeMessage → Prop
  | _, [] => True
  | paths, message :: more =>
      message.EndsOnce ∧ message.start.metadata.parentMessageId.isSome = true ∧
        message.start.metadata.embeddedPath.dropLast ∈ paths ∧
        message.start.metadata.embeddedPath ∉ paths ∧
        Nested (message.start.metadata.embeddedPath :: paths) more

theorem Nested.unknown {paths : List (List Nat)} {messages : List WholeMessage}
    (nested : Nested paths messages) :
    ∀ message ∈ messages, message.start.metadata.embeddedPath ∉ paths := by
  induction messages generalizing paths with
  | nil =>
      intro message member
      cases member
  | cons first messages ih =>
      obtain ⟨-, -, -, new, nested⟩ := nested
      intro message member
      rcases List.mem_cons.mp member with rfl | member
      · exact new
      · exact fun known => ih nested message member (List.mem_cons_of_mem _ known)

/-- No message of a nested list comes behind one that is embedded in it. -/
theorem Nested.parents_first {paths : List (List Nat)} {messages : List WholeMessage}
    (nested : Nested paths messages) :
    messages.Pairwise fun earlier later => ∀ index,
      earlier.start.metadata.embeddedPath ≠ later.start.metadata.embeddedPath ++ [index] := by
  induction messages generalizing paths with
  | nil => exact .nil
  | cons message messages ih =>
      obtain ⟨-, -, behind, -, nested⟩ := nested
      refine .cons (fun later member index same => ?_) (ih nested)
      -- the path before that of a message is known when it comes
      have known : later.start.metadata.embeddedPath ∈
          message.start.metadata.embeddedPath :: paths := by
        rw [same, List.dropLast_concat] at behind
        exact List.mem_cons_of_mem _ behind
      exact nested.unknown later member known

/-- Messages of a nested list have paths of their own. -/
theorem Nested.distinct {paths : List (List Nat)} {messages : List WholeMessage}
    (nested : Nested paths messages) :
    (messages.map fun message => message.start.metadata.embeddedPath).Nodup := by
  induction messages generalizing paths with
  | nil => exact .nil
  | cons message messages ih =>
      obtain ⟨-, -, -, -, nested⟩ := nested
      rw [List.map_cons, List.nodup_cons]
      refine ⟨fun member => ?_, ih nested⟩
      obtain ⟨other, there, same⟩ := List.mem_map.mp member
      exact nested.unknown other there (same ▸ List.mem_cons_self)

/-- Every row is behind the row of its parent, which stands at the path before its own. -/
def Linked : Family → List CandidateRow → Prop
  | _, [] => True
  | family, row :: rows =>
      (row.embeddedPath.dropLast, row.parentItemKey) ∈ family.map (fun member =>
        (member.1, some member.2)) ∧
        row.parentItemKey.isSome = row.parentAttachmentIndex.isSome ∧
        Linked ((row.embeddedPath, row.itemKey) :: family) rows

/-- The rows of messages that were added to a ledger. -/
structure AddedRows (sink : DurableCatalogSink) (messages : List WholeMessage)
    (rows : List CandidateRow) (next : DurableCatalogSink) : Prop where
  poised : Poised next
  candidates : next.connection.database.candidates = sink.connection.database.candidates ++ rows
  recent : next.recentCandidates =
    (rows.map fun row => (row.embeddedPath, row.itemKey)).reverse ++ sink.recentCandidates
  unit : next.unit = sink.unit
  recorded : List.Forall₂ WholeMessage.Recorded messages rows
  fresh : ∀ row ∈ rows, ∀ other ∈ sink.connection.database.candidates,
    other.itemKey ≠ row.itemKey
  distinct : (rows.map (·.itemKey)).Nodup

variable {sink next : DurableCatalogSink}

/-- A message and the messages behind it add their rows. -/
theorem AddedRows.cons {middle : DurableCatalogSink} {message : WholeMessage}
    {parent : Option ItemKey} {messages : List WholeMessage} {rows : List CandidateRow}
    (added : Added sink message parent middle) (more : AddedRows middle messages rows next) :
    AddedRows sink (message :: messages) (message.row sink parent :: rows) next := by
  have there : ∀ other ∈ sink.connection.database.candidates ++ [message.row sink parent],
      other ∈ middle.connection.database.candidates := by
    rw [added.candidates]
    exact fun _ member => member
  refine ⟨more.poised, ?_, ?_, more.unit.trans added.unit,
    .cons (message.recorded sink parent) more.recorded, fun row member other old => ?_, ?_⟩
  · rw [more.candidates, added.candidates, List.append_assoc]
    rfl
  · rw [more.recent, added.recent, List.map_cons, List.reverse_cons, List.append_assoc]
    rfl
  · rcases List.mem_cons.mp member with rfl | member
    · exact added.fresh other old
    · exact more.fresh row member other (there other (List.mem_append_left _ old))
  · rw [List.map_cons, List.nodup_cons]
    refine ⟨fun member => ?_, more.distinct⟩
    obtain ⟨row, member, same⟩ := List.mem_map.mp member
    exact more.fresh row member _ (there _ (List.mem_append_right _ (List.mem_singleton_self _)))
      same.symm

/-- The parent of an embedded message is the member of its family at the path before. -/
theorem parentOf_member {family : Family} {older : Family} {start : MessageStart}
    {parent : Option ItemKey} (recent : sink.recentCandidates = family ++ older)
    (embedded : start.metadata.parentMessageId.isSome = true)
    (member : start.metadata.embeddedPath.dropLast ∈ family.map (·.1))
    (owner : parentOf sink start = .ok parent) :
    (start.metadata.embeddedPath.dropLast, parent) ∈
      family.map (fun member => (member.1, some member.2)) := by
  obtain ⟨id, is⟩ := Option.isSome_iff_exists.mp embedded
  obtain ⟨entry, there, path⟩ := List.mem_map.mp member
  have found : ∃ key, recentCandidate sink start.metadata.embeddedPath.dropLast = some key ∧
      (start.metadata.embeddedPath.dropLast, key) ∈ family := by
    have some : (family.find? (·.1 = start.metadata.embeddedPath.dropLast)).isSome = true := by
      rw [List.find?_isSome]
      exact ⟨entry, there, by simp [path]⟩
    obtain ⟨first, search⟩ := Option.isSome_iff_exists.mp some
    have same : first.1 = start.metadata.embeddedPath.dropLast := by
      simpa using List.find?_some search
    refine ⟨first.2, ?_, ?_⟩
    · simp [recentCandidate, recent, List.find?_append, search]
    · rw [← same]
      exact List.mem_of_find?_eq_some search
  obtain ⟨key, recentKey, inFamily⟩ := found
  simp only [parentOf, is, parentKey, recentKey, bind_eq_ok] at owner
  obtain ⟨_, ⟨_, -, _, -, same⟩, owner⟩ := owner
  rw [← Except.ok.inj owner, ← Except.ok.inj same]
  exact List.mem_map.mpr ⟨_, inFamily, rfl⟩

/-- Messages that are embedded in a family add their rows behind it. -/
theorem handleEvents_nested {messages : List WholeMessage} {family older : Family}
    (poised : Poised sink) (nested : Nested (family.map (·.1)) messages)
    (recent : sink.recentCandidates = family ++ older)
    (handled : handleEvents sha256 (messages.flatMap WholeMessage.events) sink = .ok () next) :
    ∃ rows, AddedRows sink messages rows next ∧ Linked family rows := by
  induction messages generalizing sink family with
  | nil =>
      obtain ⟨-, rfl⟩ := pure_run_ok.mp handled
      refine ⟨[], ⟨poised, (List.append_nil _).symm, rfl, rfl, .nil, ?_, List.nodup_nil⟩, trivial⟩
      intro row member
      cases member
  | cons message messages ih =>
      obtain ⟨endsOnce, embedded, behind, new, nested⟩ := nested
      rw [List.flatMap_cons, handleEvents_append] at handled
      obtain ⟨_, middle, first, rest⟩ := bind_run_ok.mp handled
      obtain ⟨parent, added⟩ := handleEvents_message poised endsOnce first
      have recent' : middle.recentCandidates =
          ((message.start.metadata.embeddedPath, startedKey sink.connection.database message.start)
            :: family) ++ older := by
        rw [added.recent, recent]
        rfl
      have nested' : Nested (((message.start.metadata.embeddedPath,
          startedKey sink.connection.database message.start) :: family).map (·.1)) messages :=
        nested
      obtain ⟨rows, more, linked⟩ := ih added.poised nested' recent' rest
      exact ⟨_, AddedRows.cons added more, parentOf_member recent embedded behind added.owner,
        added.complete, linked⟩

/-- A top-level message with those embedded in it adds the rows of a family. -/
theorem handleEvents_family {root : WholeMessage} {messages : List WholeMessage}
    (poised : Poised sink) (endsOnce : root.EndsOnce)
    (topLevel : root.start.metadata.parentMessageId = none)
    (nested : Nested [root.start.metadata.embeddedPath] messages)
    (handled : handleEvents sha256 ((root :: messages).flatMap WholeMessage.events) sink =
      .ok () next) :
    ∃ row rows, AddedRows sink (root :: messages) (row :: rows) next ∧
      row.parentItemKey = none ∧ row.parentAttachmentIndex = none ∧
      Linked [(row.embeddedPath, row.itemKey)] rows := by
  rw [List.flatMap_cons, handleEvents_append] at handled
  obtain ⟨_, middle, first, rest⟩ := bind_run_ok.mp handled
  obtain ⟨parent, added⟩ := handleEvents_message poised endsOnce first
  have none : parent = none := by
    have owner := added.owner
    simp only [parentOf, topLevel] at owner
    exact (Except.ok.inj owner).symm
  have recent : middle.recentCandidates = [(root.start.metadata.embeddedPath,
      startedKey sink.connection.database root.start)] ++ sink.recentCandidates := added.recent
  have nested' : Nested ([(root.start.metadata.embeddedPath,
      startedKey sink.connection.database root.start)].map (·.1)) messages := nested
  obtain ⟨rows, more, linked⟩ := handleEvents_nested added.poised nested' recent rest
  refine ⟨root.row sink parent, rows, .cons added more, none, ?_, linked⟩
  have whole := added.complete
  rw [none] at whole
  exact Option.not_isSome_iff_eq_none.mp (by simp [← whole, WholeMessage.row, startedRow])

end Families

section Trees

variable {database : Database}

theorem subset_withChildren (keys : List ItemKey) : keys ⊆ withChildren database keys :=
  List.subset_append_left _ _

theorem subset_iterate (count : Nat) (keys : List ItemKey) :
    keys ⊆ (withChildren database)^[count] keys := by
  induction count generalizing keys with
  | zero => exact fun _ member => member
  | succ count ih =>
      rw [Function.iterate_succ_apply]
      exact fun key member => ih _ (subset_withChildren keys member)

/-- Nothing but a set that has all children of its members is reached from its members. -/
theorem iterate_subset {within : ItemKey → Prop}
    (closed : ∀ row ∈ database.candidates, ∀ parent, row.parentItemKey = some parent →
      within parent → within row.itemKey) {keys : List ItemKey} (start : ∀ key ∈ keys, within key)
    (count : Nat) : ∀ key ∈ (withChildren database)^[count] keys, within key := by
  induction count generalizing keys with
  | zero => exact start
  | succ count ih =>
      rw [Function.iterate_succ_apply]
      refine ih fun key member => ?_
      rcases List.mem_append.mp member with old | child
      · exact start key old
      · obtain ⟨row, there, rfl⟩ := List.mem_map.mp child
        obtain ⟨there, chosen⟩ := List.mem_filter.mp there
        rw [Bool.and_eq_true, Option.any_eq_true] at chosen
        obtain ⟨-, parent, is, among⟩ := chosen
        exact closed row there parent is (start parent (List.contains_iff_mem.mp among))

/-- Every row of a family is reached from its first members. -/
theorem Linked.reached {family : Family} {rows : List CandidateRow} (linked : Linked family rows)
    (there : ∀ row ∈ rows, row ∈ database.candidates)
    (committed : ∀ row ∈ rows, row.status.isCommitted = true) {keys : List ItemKey}
    (known : ∀ member ∈ family, member.2 ∈ keys) {count : Nat} (enough : rows.length ≤ count) :
    ∀ row ∈ rows, row.itemKey ∈ (withChildren database)^[count] keys := by
  induction rows generalizing family keys count with
  | nil =>
      intro row member
      cases member
  | cons first rows ih =>
      obtain ⟨count, rfl⟩ := Nat.exists_eq_add_one_of_ne_zero
        (Nat.ne_of_gt (Nat.zero_lt_of_lt enough))
      obtain ⟨parent, -, linked⟩ := linked
      obtain ⟨member, inFamily, is⟩ := List.mem_map.mp parent
      have isParent : first.parentItemKey = some member.2 := (congrArg Prod.snd is).symm
      have chosen : first.itemKey ∈ withChildren database keys := by
        refine List.mem_append_right _ (List.mem_map.mpr ⟨first, List.mem_filter.mpr
          ⟨there first List.mem_cons_self, ?_⟩, rfl⟩)
        rw [Bool.and_eq_true, isParent]
        exact ⟨committed first List.mem_cons_self,
          List.contains_iff_mem.mpr (known member inFamily)⟩
      rw [Function.iterate_succ_apply]
      intro row member
      rcases List.mem_cons.mp member with rfl | member
      · exact subset_iterate count _ chosen
      · refine ih linked (fun row member => there row (List.mem_cons_of_mem _ member))
          (fun row member => committed row (List.mem_cons_of_mem _ member)) (fun entry inside => ?_)
          (Nat.le_of_succ_le_succ enough) row member
        rcases List.mem_cons.mp inside with rfl | inside
        · exact chosen
        · exact subset_withChildren keys (known entry inside)

/-- The tree of a top-level candidate that was just added has the rows of its family and
no others. -/
theorem mem_treeKeys {old : List CandidateRow} {root : CandidateRow} {rows : List CandidateRow}
    (candidates : database.candidates = old ++ root :: rows)
    (closed : ∀ row ∈ old, ∀ parent, row.parentItemKey = some parent →
      ∃ other ∈ old, other.itemKey = parent)
    (fresh : ∀ row ∈ root :: rows, ∀ other ∈ old, other.itemKey ≠ row.itemKey)
    (linked : Linked [(root.embeddedPath, root.itemKey)] rows)
    (spooled : root.status = .spooled)
    (committed : ∀ row ∈ rows, row.status.isCommitted = true) (key : ItemKey) :
    key ∈ treeKeys database root.itemKey ↔ key ∈ (root :: rows).map (·.itemKey) := by
  have start : ((database.candidates.filter fun row =>
      row.itemKey = root.itemKey && row.status = .spooled).map (·.itemKey)) ⊆ [root.itemKey] := by
    intro key member
    obtain ⟨row, chosen, rfl⟩ := List.mem_map.mp member
    have same := (List.mem_filter.mp chosen).2
    simp only [Bool.and_eq_true, decide_eq_true_eq] at same
    exact List.mem_singleton.mpr same.1
  have began : root.itemKey ∈ ((database.candidates.filter fun row =>
      row.itemKey = root.itemKey && row.status = .spooled).map (·.itemKey)) := by
    refine List.mem_map.mpr ⟨root, List.mem_filter.mpr ⟨?_, by simp [spooled]⟩, rfl⟩
    simp [candidates]
  constructor
  · have closed' : ∀ row ∈ database.candidates, ∀ parent, row.parentItemKey = some parent →
        parent ∈ (root :: rows).map (·.itemKey) → row.itemKey ∈ (root :: rows).map (·.itemKey) := by
      intro row there parent is among
      rw [candidates] at there
      rcases List.mem_append.mp there with older | newer
      · obtain ⟨other, isOld, same⟩ := closed row older parent is
        obtain ⟨here, isNew, same'⟩ := List.mem_map.mp among
        exact absurd (same.trans same'.symm) (fresh here isNew other isOld)
      · exact List.mem_map_of_mem newer
    refine iterate_subset closed' (fun key member => ?_) _ key
    rw [List.mem_singleton.mp (start member)]
    exact List.mem_cons_self
  · intro among
    obtain ⟨row, member, rfl⟩ := List.mem_map.mp among
    rcases List.mem_cons.mp member with rfl | member
    · exact subset_iterate _ _ began
    · refine linked.reached (fun row member => ?_) committed (fun entry inside => ?_) ?_ row member
      · rw [candidates]
        exact List.mem_append_right _ (List.mem_cons_of_mem _ member)
      · rw [List.mem_singleton.mp inside]
        exact began
      · rw [candidates, List.length_append, List.length_cons]
        omega

/-- A family of rows at the end of a ledger. -/
structure Latest (database : Database) (old : List CandidateRow) (root : CandidateRow)
    (rows : List CandidateRow) : Prop where
  candidates : database.candidates = old ++ root :: rows
  closed : ∀ row ∈ old, ∀ parent, row.parentItemKey = some parent →
    ∃ other ∈ old, other.itemKey = parent
  fresh : ∀ row ∈ root :: rows, ∀ other ∈ old, other.itemKey ≠ row.itemKey
  topLevel : root.parentItemKey = none ∧ root.parentAttachmentIndex = none
  linked : Linked [(root.embeddedPath, root.itemKey)] rows
  committed : ∀ row ∈ root :: rows, row.status.isCommitted = true

variable {old : List CandidateRow} {root : CandidateRow} {rows : List CandidateRow}

/-- The next top-level candidate is the one that was added last, when all before it were
asked for. -/
theorem Latest.next (latest : Latest database old root rows) {afterRowid : Nat}
    (asked : ∀ entry ∈ old.zipIdx 1, entry.1.parentItemKey = none → entry.2 ≤ afterRowid)
    (within : afterRowid ≤ old.length) :
    nextDirectTopLevelCandidate afterRowid database = some ⟨old.length + 1, root.itemKey,
      root.itemKey.provenance, root.itemKey.sourceNodeId, root.itemKey.recoveryIndex⟩ := by
  have none : (old.zipIdx 1).find? (fun entry => afterRowid < entry.2 &&
      entry.1.parentItemKey.isNone && entry.1.status.isCommitted) = none := by
    rw [List.find?_eq_none]
    intro entry member chosen
    simp only [Bool.and_eq_true, decide_eq_true_eq, Option.isNone_iff_eq_none] at chosen
    have bound := asked entry member chosen.1.2
    omega
  have found : (decide (afterRowid < 1 + old.length) && root.parentItemKey.isNone &&
      root.status.isCommitted) = true := by
    have here : afterRowid < 1 + old.length := by omega
    simp [here, latest.topLevel.1, latest.committed root List.mem_cons_self]
  rw [nextDirectTopLevelCandidate, latest.candidates, List.zipIdx_append, List.find?_append, none,
    Option.none_or, List.zipIdx_cons, List.find?_cons, found]
  simp only [Option.map_some, Nat.add_comm 1]

theorem Latest.terminal (latest : Latest database old root rows) :
    candidateIsTerminal root.itemKey database =
      .ok (decide (root.status = .written ∨ root.status = .unsupported)) := by
  have none : old.find? (fun row => row.itemKey = root.itemKey && row.status.isCommitted) =
      none := by
    rw [List.find?_eq_none]
    intro row member chosen
    simp only [Bool.and_eq_true, decide_eq_true_eq] at chosen
    exact latest.fresh root List.mem_cons_self row member chosen.1
  have found : (decide (root.itemKey = root.itemKey) && root.status.isCommitted) = true := by
    simp [latest.committed root List.mem_cons_self]
  rw [candidateIsTerminal, latest.candidates, List.find?_append, none, Option.none_or,
    List.find?_cons, found]
  rfl

theorem Latest.mem_treeRows (latest : Latest database old root rows)
    (spooled : root.status = .spooled) (row : CandidateRow) :
    row ∈ treeRows database root.itemKey ↔ row ∈ root :: rows := by
  have keys := mem_treeKeys latest.candidates latest.closed latest.fresh latest.linked spooled
    fun row member => latest.committed row (List.mem_cons_of_mem _ member)
  rw [treeRows, List.mem_insertionSort, List.mem_filter, List.contains_iff_mem, keys,
    latest.candidates, List.mem_append]
  constructor
  · rintro ⟨older | newer, among⟩
    · obtain ⟨here, isNew, same⟩ := List.mem_map.mp among
      exact absurd same.symm (latest.fresh here isNew row older)
    · exact newer
  · exact fun member => ⟨.inr member, List.mem_map_of_mem member⟩

/-- The parents of a family are in it or among those it is added to. -/
theorem Linked.parents {family : Family} (linked : Linked family rows) :
    ∀ row ∈ rows, ∃ parent, row.parentItemKey = some parent ∧
      (parent ∈ family.map (·.2) ∨ ∃ other ∈ rows, other.itemKey = parent) := by
  induction rows generalizing family with
  | nil =>
      intro row member
      cases member
  | cons first rows ih =>
      obtain ⟨parent, -, linked⟩ := linked
      obtain ⟨entry, known, same⟩ := List.mem_map.mp parent
      intro row member
      rcases List.mem_cons.mp member with rfl | member
      · exact ⟨entry.2, (congrArg Prod.snd same).symm, .inl (List.mem_map_of_mem known)⟩
      obtain ⟨parent, is, known⟩ := ih linked row member
      refine ⟨parent, is, ?_⟩
      rcases known with known | ⟨other, isRow, same⟩
      · rcases List.mem_cons.mp known with rfl | known
        · exact .inr ⟨first, List.mem_cons_self, rfl⟩
        · exact .inl known
      · exact .inr ⟨other, List.mem_cons_of_mem _ isRow, same⟩

theorem Linked.whole {family : Family} (linked : Linked family rows) :
    ∀ row ∈ rows, row.parentItemKey.isSome = row.parentAttachmentIndex.isSome := by
  induction rows generalizing family with
  | nil =>
      intro row member
      cases member
  | cons first rows ih =>
      intro row member
      rcases List.mem_cons.mp member with rfl | member
      · exact linked.2.1
      · exact ih linked.2.2 row member

/-- The tree of the candidate that was added last has its family for owners. -/
theorem Latest.tree (latest : Latest database old root rows) (spooled : root.status = .spooled) :
    ∃ tree, spooledCandidateTree root.itemKey database = .ok tree ∧
      ∀ ownership, ownership ∈ tree.ownerships ↔
        ∃ row ∈ root :: rows, row.ownership = ownership := by
  have among := latest.mem_treeRows spooled
  have writable : ¬ (treeRows database root.itemKey).filter (·.status = .spooled) = [] := by
    refine List.ne_nil_of_mem (List.mem_filter.mpr ⟨(among root).mpr List.mem_cons_self, ?_⟩)
    simp [spooled]
  have whole : ¬ (treeRows database root.itemKey).any (fun row =>
      row.parentItemKey.isSome != row.parentAttachmentIndex.isSome) = true := by
    rw [List.any_eq_true]
    rintro ⟨row, member, different⟩
    rw [among] at member
    rcases List.mem_cons.mp member with rfl | member
    · simp [latest.topLevel.1, latest.topLevel.2] at different
    · simp [latest.linked.whole row member] at different
  refine ⟨⟨((treeRows database root.itemKey).filter (·.status = .spooled)).map
    (CandidateRow.spooled database), (treeRows database root.itemKey).map
    CandidateRow.ownership⟩, ?_, fun ownership => ?_⟩
  · simp only [spooledCandidateTree, refuse, writable, whole, ↓reduceIte, bind, Except.bind, pure,
      Except.pure]
    rfl
  · simp only [List.mem_map, among]

end Trees

end PstForge.Job
