import PstForge.Worker.Binding

/-! # Candidates from the pipe

What comes for one top-level message is frames outside of messages, the metadata of the
message, and the end of its metadata. The sink gets every frame of it, message by message;
the candidate that comes of it is the row of the message, and what was captured of its
values is bound to the rows of the messages it was captured in.
-/

namespace PstForge.Worker

open PstForge.Foundation PstForge.Catalog PstForge.Job

section Messages

variable {json : Json} {message : MetadataMessage}

/-- The events of a top-level message are those of a family. -/
theorem MetadataMessage.WellFormed.nested (wellFormed : message.WellFormed json) :
    Nested [message.start.metadata.embeddedPath] (message.body.nested.map OwnMessage.whole) := by
  have last : Nested ((message.body.nested.map OwnMessage.path).reverse ++
      [message.start.metadata.embeddedPath]) [] := trivial
  have nested := nested_of_wellFormed wellFormed.body (List.mem_singleton.mpr rfl)
    (fun other member child isChild within => ?_) last
  · rw [List.append_nil] at nested
    exact nested
  -- a child is further than its parent
  rw [List.mem_singleton.mp member] at within
  obtain ⟨index, rfl⟩ := children_path wellFormed.body child isChild
  have longer := within.length_le
  rw [List.length_append, List.length_singleton] at longer
  omega

theorem whole_paths (messages : List OwnMessage) :
    ((messages.map OwnMessage.whole).map fun whole => whole.start.metadata.embeddedPath) =
      messages.map OwnMessage.path := by
  rw [List.map_map]
  rfl

theorem MetadataMessage.WellFormed.distinct (wellFormed : message.WellFormed json) :
    (message.messages.map OwnMessage.path).Nodup := by
  have nested := wellFormed.nested
  rw [MetadataMessage.messages, List.map_cons, List.nodup_cons]
  refine ⟨fun member => ?_, whole_paths message.body.nested ▸ nested.distinct⟩
  obtain ⟨part, isPart, at_⟩ := List.mem_map.mp member
  refine nested.unknown part.whole (List.mem_map_of_mem isPart) ?_
  rw [List.mem_singleton]
  exact at_

theorem MetadataMessage.WellFormed.allEvents (wellFormed : message.WellFormed json) :
    AllEvents message.sequenced := by
  intro frame member
  have own : ∀ part ∈ message.messages, ∀ frame ∈ part.own, frame.control.isMetadata = true := by
    intro part isPart
    rcases List.mem_cons.mp isPart with rfl | isPart
    · exact own_metadata wellFormed.body
    · exact nested_metadata wellFormed.body part isPart
  obtain ⟨part, isPart, member⟩ := List.mem_flatMap.mp member
  rcases List.mem_cons.mp member with rfl | member
  · exact ⟨_, rfl⟩
  rcases List.mem_append.mp member with member | member
  · obtain ⟨event, is, -⟩ := metadata_event (own part isPart frame member)
    exact ⟨event, is⟩
  · rw [List.mem_singleton.mp member]
    exact ⟨_, rfl⟩

/-- What was captured of a message. -/
def MetadataMessage.captured (message : MetadataMessage) :
    AList fun _ : DirectPathStreamIdentity => Bytes :=
  captureBody message.start.metadata.embeddedPath message.body ∅

/-- What was captured at the path of a message is the beginnings that its frames have. -/
theorem MetadataMessage.WellFormed.captured (wellFormed : message.WellFormed json)
    {part : OwnMessage} (member : part ∈ message.messages) (owner : DirectStreamOwner) :
    message.captured.lookup ⟨part.path, owner⟩ = beginning owner part.own := by
  obtain ⟨here, inside⟩ := captureBody_same wellFormed.distinct owner ∅
  rcases List.mem_cons.mp member with rfl | member
  · exact here
  · exact inside part member

theorem captured_elsewhere {path : List Nat}
    (nowhere : path ∉ message.messages.map OwnMessage.path) (owner : DirectStreamOwner) :
    message.captured.lookup ⟨path, owner⟩ = none := by
  rw [MetadataMessage.messages, List.map_cons, List.mem_cons, not_or] at nowhere
  exact captureBody_other nowhere.1 nowhere.2 owner ∅

end Messages

section Accept

variable {json : Json} {message : MetadataMessage} {sha256 : Bytes → Bytes}

/-- Rows of which all top-level candidates were asked for, and that have the parents of all
candidates. -/
structure Asked (old : List CandidateRow) (afterRowid : Nat) : Prop where
  closed : ∀ row ∈ old, ∀ parent, row.parentItemKey = some parent →
    ∃ other ∈ old, other.itemKey = parent
  asked : ∀ entry ∈ old.zipIdx 1, entry.1.parentItemKey = none → entry.2 ≤ afterRowid
  within : afterRowid ≤ old.length

/-- The candidate of a row. -/
def candidateOf (rowid : Nat) (row : CandidateRow) : DirectTopLevelCandidate :=
  ⟨rowid, row.itemKey, row.itemKey.provenance, row.itemKey.sourceNodeId, row.itemKey.recoveryIndex⟩

/-- What a whole message leads to: the rows of its messages, and the candidate of the
first of them. -/
structure Accepted (message : MetadataMessage) (old : List CandidateRow)
    (next : DurableCatalogSink) (candidate : DirectTopLevelCandidate) (root : CandidateRow)
    (rows : List CandidateRow) : Prop where
  candidates : next.connection.database.candidates = old ++ root :: rows
  recorded : List.Forall₂ WholeMessage.Recorded (message.messages.map OwnMessage.whole)
    (root :: rows)
  fresh : ∀ row ∈ root :: rows, ∀ other ∈ old, other.itemKey ≠ row.itemKey
  distinct : ((root :: rows).map (·.itemKey)).Nodup
  topLevel : root.parentItemKey = none ∧ root.parentAttachmentIndex = none
  linked : Linked [(root.embeddedPath, root.itemKey)] rows
  candidate : candidate = candidateOf (old.length + 1) root
  poised : Poised next

/-- A message that the sink takes leads to its rows. -/
theorem accepted_of_handled {job next : DurableCatalogSink} {old : List CandidateRow}
    (poised : Poised job) (rowsAre : job.connection.database.candidates = old)
    (wellFormed : message.WellFormed json)
    (handled : handleEvents sha256 (eventsOf message.sequenced) job = .ok () next) :
    ∃ root rows, Accepted message old next (candidateOf (old.length + 1) root) root rows := by
  subst rowsAre
  rw [MetadataMessage.sequenced, eventsOf_messages] at handled
  obtain ⟨root, rows, added, topLevel, whole, linked⟩ := handleEvents_family poised
    (endsOnce_of_metadata (own_metadata wellFormed.body)) wellFormed.topLevel wellFormed.nested
      handled
  exact ⟨root, rows, added.candidates, added.recorded, added.fresh, added.distinct,
    ⟨topLevel, whole⟩, linked, rfl, added.poised⟩

variable {old : List CandidateRow} {next : DurableCatalogSink}
  {candidate : DirectTopLevelCandidate} {root : CandidateRow} {rows : List CandidateRow}

theorem Accepted.status (accepted : Accepted message old next candidate root rows) :
    root.status = if message.start.metadata.supported then .spooled else .unsupported := by
  have recorded := accepted.recorded
  rw [MetadataMessage.messages, List.map_cons, List.forall₂_cons] at recorded
  exact recorded.1.status

theorem Accepted.latest {afterRowid : Nat}
    (accepted : Accepted message old next candidate root rows) (asked : Asked old afterRowid) :
    Latest next.connection.database old root rows :=
  ⟨accepted.candidates, asked.closed, accepted.fresh, accepted.topLevel, accepted.linked,
    committed_of_recorded accepted.recorded⟩

/-- What was captured of messages is bound to their rows, and nothing else is. -/
structure Bound (messages : List OwnMessage) (rows : List CandidateRow)
    (prefixes : AList fun _ : DirectStreamIdentity => Bytes) : Prop where
  captured : List.Forall₂ (fun message row => ∀ owner,
    prefixes.lookup ⟨row.itemKey, owner⟩ = beginning owner message.own) messages rows
  nothingElse : ∀ identity, identity.itemKey ∉ rows.map (·.itemKey) →
    prefixes.lookup identity = none

/-- Every beginning that was captured of a message is bound to a row of its tree. -/
theorem bindPrefixes_captured (wellFormed : message.WellFormed json) {rows : List CandidateRow}
    {ownerships : List CandidateOwnership}
    (recorded : List.Forall₂ WholeMessage.Recorded (message.messages.map OwnMessage.whole) rows)
    (distinct : (rows.map (·.itemKey)).Nodup)
    (owners : ∀ ownership, ownership ∈ ownerships ↔ ∃ row ∈ rows, row.ownership = ownership) :
    ∃ prefixes, bindPrefixes (pathKeysOf ownerships) message.captured.entries ∅ = .ok prefixes ∧
      Bound message.messages rows prefixes := by
  have paths : rows.map (·.embeddedPath) = message.messages.map OwnMessage.path :=
    (paths_of_recorded recorded).trans (whole_paths _)
  have apart : (rows.map (·.embeddedPath)).Nodup := paths ▸ wellFormed.distinct
  have found : ∀ entry ∈ message.captured.entries, ∃ row ∈ rows, row.embeddedPath =
      entry.1.embeddedPath := by
    intro entry member
    have there := AList.mem_lookup_iff.mpr member
    by_cases known : entry.1.embeddedPath ∈ message.messages.map OwnMessage.path
    · rw [← paths] at known
      exact List.mem_map.mp known
    · rw [captured_elsewhere known] at there
      cases there
  have injective : ∀ first second key, (pathKeysOf ownerships).lookup first = some key →
      (pathKeysOf ownerships).lookup second = some key → first = second := by
    intro first second key isFirst isSecond
    obtain ⟨row, member, rfl, rfl⟩ := lookup_pathKeysOf_some owners apart isFirst
    obtain ⟨other, member', rfl, same⟩ := lookup_pathKeysOf_some owners apart isSecond
    rw [List.inj_on_of_nodup_map distinct member' member same]
  have bound : ∀ entry ∈ message.captured.entries, ∃ key,
      (pathKeysOf ownerships).lookup entry.1.embeddedPath = some key := by
    intro entry member
    obtain ⟨row, isRow, same⟩ := found entry member
    exact ⟨row.itemKey, same ▸ lookup_pathKeysOf owners apart isRow⟩
  obtain ⟨prefixes, done⟩ := bindPrefixes_ok bound ∅
  refine ⟨prefixes, done, ?_, fun identity nowhere => ?_⟩
  · obtain ⟨length, pairs⟩ := List.forall₂_iff_zip.mp (List.forall₂_map_left_iff.mp recorded)
    refine List.forall₂_iff_zip.mpr ⟨length, fun {part row} pair owner => ?_⟩
    obtain ⟨isPart, isRow⟩ := List.of_mem_zip pair
    have path : row.embeddedPath = part.path := (pairs pair).embeddedPath
    have captured := wellFormed.captured isPart owner
    have known := lookup_pathKeysOf owners apart isRow
    rw [path] at known
    cases is : message.captured.lookup ⟨part.path, owner⟩ with
    | some bytes =>
        rw [← captured, is]
        exact bindPrefixes_same message.captured.nodupKeys injective done
          (AList.mem_lookup_iff.mp is) known
    | none =>
        rw [← captured, is, bindPrefixes_other done fun entry member sameOwner isKey => ?_]
        · exact AList.lookup_empty _
        -- another beginning for the row would have been captured at its path
        have samePath := injective _ _ _ isKey known
        have there := AList.mem_lookup_iff.mpr member
        have identity : entry.1 = ⟨part.path, owner⟩ := by
          rw [← samePath]
          exact congrArg (DirectPathStreamIdentity.mk _) sameOwner
        rw [identity, is] at there
        cases there
  · rw [bindPrefixes_other done fun entry member _ known => ?_]
    · exact AList.lookup_empty _
    obtain ⟨row, isRow, -, same⟩ := lookup_pathKeysOf_some owners apart known
    exact nowhere (List.mem_map.mpr ⟨row, isRow, same⟩)

/-- A message that was handed on whole is bound to its rows; of one that is not supported
nothing is kept. -/
theorem acceptMessage_run {source : DirectProtocolSource} {job : DurableCatalogSink}
    {afterRowid : Nat} (wellFormed : message.WellFormed json)
    (accepted : Accepted message old next candidate root rows) (asked : Asked old afterRowid)
    (captured : source.unboundPrefixes = message.captured)
    (handled : handleEvents sha256 (eventsOf message.sequenced) job = .ok () next) :
    ∃ pathKeys prefixes, acceptMessage sha256
        (holdMessage message.start message.body message.complete) afterRowid ⟨source, job⟩ =
      .ok candidate ⟨{ source with pathKeys, prefixes, unboundPrefixes := ∅ }, next⟩ ∧
      if message.start.metadata.supported then Bound message.messages (root :: rows) prefixes
      else prefixes = ∅ := by
  have latest := accepted.latest asked
  have first : nextDirectTopLevelCandidate afterRowid next.connection.database = some candidate :=
    accepted.candidate ▸ latest.next asked.asked asked.within
  have itemKey : candidate.itemKey = root.itemKey := by rw [accepted.candidate, candidateOf]
  have sent := emit_buffered sha256 source job wellFormed.allEvents
  rw [handled] at sent
  simp only [acceptMessage, run_bind, order_holdMessage, sent, askJob, first, attempt, okOr_some,
    itemKey, latest.terminal, accepted.status]
  cases supported : message.start.metadata.supported with
  | false => exact ⟨∅, ∅, rfl, rfl⟩
  | true =>
      have spooled : root.status = .spooled := by rw [accepted.status, supported, if_pos rfl]
      obtain ⟨tree, isTree, owners⟩ := latest.tree spooled
      obtain ⟨prefixes, done, bound⟩ := bindPrefixes_captured wellFormed accepted.recorded
        accepted.distinct owners
      refine ⟨pathKeysOf tree.ownerships, prefixes, ?_, bound⟩
      replace done : bindPrefixes (tree.ownerships.foldl (fun keys ownership =>
          keys.insert ownership.embeddedPath ownership.itemKey) ∅)
          source.unboundPrefixes.entries ∅ = .ok prefixes := captured ▸ done
      have asksTree : askJob (spooledCandidateTree root.itemKey) ⟨source, next⟩ =
          .ok tree ⟨source, next⟩ := by
        simp only [askJob, isTree]
      simp only [reduceCtorEq, or_self, ↓reduceIte, decide_false, Bool.false_eq_true,
        run_bind, asksTree]
      simp only [run_get, attempt, done]
      rfl

/-- After a message, its candidate is the last top-level candidate. -/
theorem Accepted.asked {afterRowid : Nat}
    (accepted : Accepted message old next candidate root rows) (asked : Asked old afterRowid) :
    Asked next.connection.database.candidates candidate.rowid := by
  have parents := accepted.linked.parents
  rw [accepted.candidates, accepted.candidate, candidateOf]
  refine ⟨fun row member parent is => ?_, fun entry member topLevel => ?_, ?_⟩
  · rcases List.mem_append.mp member with member | member
    · obtain ⟨other, there, same⟩ := asked.closed row member parent is
      exact ⟨other, List.mem_append_left _ there, same⟩
    rcases List.mem_cons.mp member with rfl | member
    · rw [accepted.topLevel.1] at is
      cases is
    obtain ⟨parent', is', known⟩ := parents row member
    obtain rfl := Option.some.inj (is'.symm.trans is)
    rcases known with known | ⟨other, there, same⟩
    · refine ⟨root, List.mem_append_right _ List.mem_cons_self, ?_⟩
      exact (List.mem_singleton.mp known).symm
    · exact ⟨other, List.mem_append_right _ (List.mem_cons_of_mem _ there), same⟩
  · rw [List.zipIdx_append, List.zipIdx_cons] at member
    rcases List.mem_append.mp member with member | member
    · have bound := asked.asked entry member topLevel
      have within := asked.within
      dsimp only
      omega
    rcases List.mem_cons.mp member with rfl | member
    · exact Nat.le_of_eq (Nat.add_comm 1 _)
    -- the others of the family have parents
    · obtain ⟨parent, is, -⟩ := parents entry.1 (List.fst_mem_of_mem_zipIdx member)
      rw [topLevel] at is
      cases is
  · rw [List.length_append, List.length_cons]
    dsimp only
    omega

end Accept

section Pass

variable {json : Json} {sha256 : Bytes → Bytes}

/-- The end of the metadata of a top-level message. -/
def metadataEnd : Frame := ⟨.topLevelMetadataEnd, []⟩

/-- What comes for a top-level message up to the end of its metadata. -/
structure TopLevelMetadata where
  lead : List Frame
  message : MetadataMessage

namespace TopLevelMetadata

def received (metadata : TopLevelMetadata) : List Frame :=
  metadata.lead ++ (metadata.message.received ++ [metadataEnd])

/-- The frames in the order in which they are handed on. -/
def handedOn (metadata : TopLevelMetadata) : List Frame :=
  metadata.lead ++ metadata.message.sequenced

structure WellFormed (json : Json) (metadata : TopLevelMetadata) : Prop where
  lead : ∀ frame ∈ metadata.lead, frame.control.isOutside = true ∧ frame.Short json
  message : metadata.message.WellFormed json
  legible : Legible json .topLevelMetadataEnd

end TopLevelMetadata

/-- A source with its job between two top-level messages. -/
structure Between (pass : OnePass) (afterRowid : Nat) : Prop where
  noPath : pass.source.activePaths = []
  nothingCaptured : pass.source.unboundPrefixes = ∅
  poised : Poised pass.job
  asked : Asked pass.job.connection.database.candidates afterRowid

/-- A top-level message was taken from the pipe. -/
structure Forwarded (sha256 : Bytes → Bytes) (metadata : TopLevelMetadata) (pass next : OnePass)
    (candidate : DirectTopLevelCandidate) (root : CandidateRow) (rows : List CandidateRow) :
      Prop where
  sent : handleEvents sha256 (eventsOf metadata.handedOn) pass.job = .ok () next.job
  accepted : Accepted metadata.message pass.job.connection.database.candidates next.job candidate
    root rows
  bound : if metadata.message.start.metadata.supported then
      Bound metadata.message.messages (root :: rows) next.source.prefixes
    else next.source.prefixes = ∅
  between : Between next candidate.rowid

/-- The end of the metadata hands on the message that is whole. -/
theorem takeFrames_metadataEnd {source : DirectProtocolSource} (job : DurableCatalogSink)
    {rest : Bytes} (afterRowid fuel : Nat) (root : BufferedMetadataMessage)
    (budget : DirectMetadataBudget) (legible : Legible json .topLevelMetadataEnd)
    (ahead : Ahead json source [metadataEnd] rest) :
    takeFrames json sha256 afterRowid (fuel + 1) ⟨[], some root, budget⟩ ⟨source, job⟩ =
      (do return some (← acceptMessage sha256 root afterRowid) :
          Passing (Option DirectTopLevelCandidate)) ⟨source.taken rest, job⟩ := by
  have taken : onSource (nextControl json) ⟨source, job⟩ =
      .ok .topLevelMetadataEnd ⟨source.taken rest, job⟩ := by
    simp only [onSource, zoom, ahead.next legible]
    rfl
  rw [takeFrames, run_bind, taken]
  rfl

/-- Frames outside of messages leave the rows of the ledger alone. -/
theorem lead_keeps {job next : DurableCatalogSink} {metadata : TopLevelMetadata}
    (wellFormed : metadata.WellFormed json) (poised : Poised job)
    (handled : handleEvents sha256 (eventsOf metadata.lead) job = .ok () next) :
    Poised next ∧ next.connection.database.candidates = job.connection.database.candidates := by
  have outside : ∀ event ∈ eventsOf metadata.lead, (∀ start, event ≠ .messageStart start) ∧
      ∀ id complete, event ≠ .messageEnd id complete := by
    intro event member
    obtain ⟨frame, there, is⟩ := List.mem_filterMap.mp member
    obtain ⟨event', is', notStart, notEnd⟩ := outside_event (wellFormed.lead frame there).1
    rw [is'] at is
    obtain rfl := Option.some.inj is
    exact ⟨notStart, notEnd⟩
  exact handleEvents_outside poised (fun event member => (outside event member).1)
    (fun event member => (outside event member).2) handled

/-- The outcome of one pass: the frames outside of messages are handed on, then the
message, if it is within the budget. -/
theorem nextOnePassCandidate_run {pass : OnePass} {metadata : TopLevelMetadata} {rest : Bytes}
    {afterRowid : Nat} (wellFormed : metadata.WellFormed json)
    (ahead : Ahead json pass.source metadata.received rest) (between : Between pass afterRowid) :
    match handleEvents sha256 (eventsOf metadata.lead) pass.job with
    | .error error job => ∃ source', nextOnePassCandidate json sha256 afterRowid pass =
        .error (.worker (.sink error)) ⟨source', job⟩
    | .ok _ job =>
        match chargeAll json metadata.message.received .production with
        | .error error => ∃ source', nextOnePassCandidate json sha256 afterRowid pass =
            .error error ⟨source', job⟩
        | .ok _ =>
            match handleEvents sha256 (eventsOf metadata.message.sequenced) job with
            | .error error job' => ∃ source', nextOnePassCandidate json sha256 afterRowid pass =
                .error (.worker (.sink error)) ⟨source', job'⟩
            | .ok _ job' => ∃ source' candidate root rows,
                nextOnePassCandidate json sha256 afterRowid pass =
                  .ok (some candidate) ⟨source', job'⟩ ∧
                Ahead json source' [] rest ∧
                Forwarded sha256 metadata pass ⟨source', job'⟩ candidate root rows := by
  obtain ⟨source, start⟩ := pass
  obtain ⟨lead, message⟩ := metadata
  obtain ⟨fuel, bound⟩ : ∃ fuel, source.frameBound =
      lead.length + (message.received.length + (fuel + 1)) := by
    have enough := ahead.length_le
    simp only [TopLevelMetadata.received, List.length_append, List.length_singleton] at enough
    exact ⟨source.frameBound - (lead.length + message.received.length + 1), by omega⟩
  have run : nextOnePassCandidate json sha256 afterRowid ⟨source, start⟩ =
      takeFrames json sha256 afterRowid (lead.length + (message.received.length + (fuel + 1)))
        ⟨[], none, .production⟩ ⟨source, start⟩ := by
    rw [← bound]
    rfl
  rw [run]
  have outside := takeFrames_outside sha256 start wellFormed.lead afterRowid
    (message.received.length + (fuel + 1)) .production ahead
  cases leads : handleEvents sha256 (eventsOf lead) start with
  | error error job =>
      rw [leads] at outside
      exact outside
  | ok value job =>
      rw [leads] at outside
      obtain ⟨middle, went, ahead, noPath, unbound⟩ := outside
      rw [went]
      have whole := takeFrames_message sha256 job wellFormed.message afterRowid (fuel + 1)
        .production ahead (noPath.trans between.noPath) (unbound.trans between.nothingCaptured)
      dsimp only
      cases charge : chargeAll json message.received .production with
      | error error =>
          rw [charge] at whole
          exact whole
      | ok charged =>
          rw [charge] at whole
          obtain ⟨last, went, ahead, noPath, unbound⟩ := whole
          rw [went, takeFrames_metadataEnd job afterRowid fuel _ _ wellFormed.legible ahead,
            run_bind]
          dsimp only
          cases sent : handleEvents sha256 (eventsOf message.sequenced) job with
          | error error job' =>
              have failed := emit_buffered sha256 (last.taken rest) job wellFormed.message.allEvents
              rw [sent] at failed
              refine ⟨last.taken rest, ?_⟩
              rw [acceptMessage, run_bind, order_holdMessage, failed]
          | ok value job' =>
              obtain ⟨poised, same⟩ := lead_keeps wellFormed between.poised leads
              obtain ⟨root, rows, accepted⟩ :=
                accepted_of_handled poised same wellFormed.message sent
              have captured : (last.taken rest).unboundPrefixes = message.captured := unbound
              obtain ⟨pathKeys, prefixes, accepts, bound⟩ := acceptMessage_run wellFormed.message
                accepted between.asked captured sent
              rw [accepts]
              refine ⟨_, _, root, rows, rfl, rfl, ?_, accepted, bound, noPath, rfl, accepted.poised,
                accepted.asked between.asked⟩
              rw [TopLevelMetadata.handedOn, eventsOf_append, handleEvents_append, run_bind, leads]
              exact sent

/-- A pass fails by the sink, or by the budget, or the message is forwarded. -/
theorem nextOnePassCandidate_outcome {pass : OnePass} {metadata : TopLevelMetadata} {rest : Bytes}
    {afterRowid : Nat} (wellFormed : metadata.WellFormed json)
    (ahead : Ahead json pass.source metadata.received rest) (between : Between pass afterRowid) :
    (∃ fault next, nextOnePassCandidate json sha256 afterRowid pass =
        .error (.worker (.sink fault)) next ∧
      handleEvents sha256 (eventsOf metadata.handedOn) pass.job = .error fault next.job) ∨
    (∃ error next, nextOnePassCandidate json sha256 afterRowid pass = .error error next ∧
      chargeAll json metadata.message.received .production = .error error ∧
      handleEvents sha256 (eventsOf metadata.lead) pass.job = .ok () next.job) ∨
    ∃ next candidate root rows,
      nextOnePassCandidate json sha256 afterRowid pass = .ok (some candidate) next ∧
        Ahead json next.source [] rest ∧ Forwarded sha256 metadata pass next candidate root
          rows := by
  have outcome := @nextOnePassCandidate_run _ sha256 _ _ _ _ wellFormed ahead between
  have handed : handleEvents sha256 (eventsOf metadata.handedOn) pass.job =
      (do handleEvents sha256 (eventsOf metadata.lead)
          handleEvents sha256 (eventsOf metadata.message.sequenced) : Sinking Unit) pass.job := by
    rw [TopLevelMetadata.handedOn, eventsOf_append, handleEvents_append]
  rw [handed, run_bind]
  cases leads : handleEvents sha256 (eventsOf metadata.lead) pass.job with
  | error error job =>
      rw [leads] at outcome
      obtain ⟨source', run⟩ := outcome
      exact .inl ⟨error, _, run, rfl⟩
  | ok value job =>
      rw [leads] at outcome
      dsimp only at outcome ⊢
      cases charge : chargeAll json metadata.message.received .production with
      | error error =>
          rw [charge] at outcome
          obtain ⟨source', run⟩ := outcome
          exact .inr (.inl ⟨error, _, run, rfl, rfl⟩)
      | ok charged =>
          rw [charge] at outcome
          dsimp only at outcome
          cases sent : handleEvents sha256 (eventsOf metadata.message.sequenced) job with
          | error error job' =>
              rw [sent] at outcome
              obtain ⟨source', run⟩ := outcome
              exact .inl ⟨error, _, run, rfl⟩
          | ok value job' =>
              rw [sent] at outcome
              obtain ⟨source', candidate, root, rows, run, ahead, forwarded⟩ := outcome
              exact .inr (.inr ⟨_, candidate, root, rows, run, ahead, forwarded⟩)

/-- A message within the budget that the sink takes is forwarded. -/
theorem nextOnePassCandidate_taken {pass : OnePass} {metadata : TopLevelMetadata} {rest : Bytes}
    {afterRowid : Nat} (wellFormed : metadata.WellFormed json)
    (ahead : Ahead json pass.source metadata.received rest) (between : Between pass afterRowid)
    {charged : DirectMetadataBudget} {job : DurableCatalogSink}
    (within : chargeAll json metadata.message.received .production = .ok charged)
    (handled : handleEvents sha256 (eventsOf metadata.handedOn) pass.job = .ok () job) :
    ∃ next candidate root rows,
      nextOnePassCandidate json sha256 afterRowid pass = .ok (some candidate) next ∧
        next.job = job ∧ Forwarded sha256 metadata pass next candidate root rows := by
  rcases @nextOnePassCandidate_outcome _ sha256 _ _ _ _ wellFormed ahead between with
    ⟨fault, next, -, refused⟩ | ⟨error, next, -, exceeded, -⟩ |
      ⟨next, candidate, root, rows, run, -, forwarded⟩
  · rw [handled] at refused
    cases refused
  · rw [within] at exceeded
    cases exceeded
  · have sent := forwarded.sent
    rw [handled] at sent
    cases sent
    exact ⟨next, candidate, root, rows, run, rfl, forwarded⟩

/-- How the frames of a top-level message are handed on: every frame once and as one event,
each message in one piece and in its own order, and no message before its parent. -/
structure TopLevelMetadata.InOrder (metadata : TopLevelMetadata) : Prop where
  everyFrame : metadata.handedOn.Perm (metadata.lead ++ metadata.message.received)
  onePiece : metadata.handedOn =
    metadata.lead ++ metadata.message.messages.flatMap OwnMessage.frames
  ownOrder : ∀ part ∈ metadata.message.messages, part.frames.Sublist metadata.message.received
  parentsFirst : (metadata.message.messages.map OwnMessage.path).Pairwise fun earlier later =>
    ∀ index, earlier ≠ later ++ [index]
  oneEvent : metadata.handedOn.map (fun frame => frame.buffered.event) =
    (eventsOf metadata.handedOn).map .ok

theorem MetadataMessage.WellFormed.parentsFirst {message : MetadataMessage}
    (wellFormed : message.WellFormed json) : (message.messages.map OwnMessage.path).Pairwise
      fun earlier later => ∀ index, earlier ≠ later ++ [index] := by
  rw [MetadataMessage.messages, List.map_cons, List.pairwise_cons]
  refine ⟨fun path member index same => ?_, ?_⟩
  · obtain ⟨part, isPart, rfl⟩ := List.mem_map.mp member
    have within := (nested_below wellFormed.body part isPart).length_le
    replace same : message.start.metadata.embeddedPath = part.path ++ [index] := same
    rw [same, List.length_append, List.length_singleton] at within
    omega
  · rw [← whole_paths, List.pairwise_map]
    exact wellFormed.nested.parents_first

theorem AllEvents.oneEvent {frames : List Frame} (all : AllEvents frames) :
    frames.map (fun frame => frame.buffered.event) = (eventsOf frames).map .ok := by
  induction frames with
  | nil => rfl
  | cons frame frames ih =>
      obtain ⟨event, is⟩ := all frame List.mem_cons_self
      have head : eventsOf (frame :: frames) = event :: eventsOf frames := by
        simp [eventsOf, is, Except.toOption]
      rw [head, List.map_cons, List.map_cons, is,
        ih fun frame member => all frame (List.mem_cons_of_mem _ member)]

theorem TopLevelMetadata.WellFormed.inOrder {metadata : TopLevelMetadata}
    (wellFormed : metadata.WellFormed json) : metadata.InOrder where
  everyFrame := (sequenced_perm metadata.message).append_left metadata.lead
  onePiece := rfl
  ownOrder := messages_sublist metadata.message
  parentsFirst := wellFormed.message.parentsFirst
  oneEvent := AllEvents.oneEvent fun frame member => by
    rcases List.mem_append.mp member with member | member
    · obtain ⟨event, is, -⟩ := outside_event (wellFormed.lead frame member).1
      exact ⟨event, is⟩
    · exact wellFormed.message.allEvents frame member

/-- One pass over the metadata of a top-level message hands on what it received, message by
message; its candidate is that of the message, and what was captured of the messages of a
supported message is bound to their candidates. A pass fails only by the sink or by the
budget. -/
theorem nextOnePassCandidate_forwards (sha256 : Bytes →
    Bytes) {pass : OnePass} {metadata : TopLevelMetadata} {rest : Bytes}
    {afterRowid : Nat} (wellFormed : metadata.WellFormed json)
    (ahead : Ahead json pass.source metadata.received rest) (between : Between pass afterRowid) :
    metadata.InOrder ∧
    (∀ candidate next, nextOnePassCandidate json sha256 afterRowid pass = .ok candidate next →
      ∃ taken root rows, candidate = some taken ∧ Ahead json next.source [] rest ∧
        Forwarded sha256 metadata pass next taken root rows) ∧
    (∀ charged job, chargeAll json metadata.message.received .production = .ok charged →
      handleEvents sha256 (eventsOf metadata.handedOn) pass.job = .ok () job →
      ∃ candidate next, nextOnePassCandidate json sha256 afterRowid pass = .ok candidate next ∧
        next.job = job) ∧
    ∀ error next, nextOnePassCandidate json sha256 afterRowid pass = .error error next →
      (∃ fault, error = .worker (.sink fault) ∧
        handleEvents sha256 (eventsOf metadata.handedOn) pass.job = .error fault next.job) ∨
      (chargeAll json metadata.message.received .production = .error error ∧
        handleEvents sha256 (eventsOf metadata.lead) pass.job = .ok () next.job) := by
  have outcome := @nextOnePassCandidate_outcome _ sha256 _ _ _ _ wellFormed ahead between
  refine ⟨wellFormed.inOrder, fun candidate next run => ?_, fun charged job within handled => ?_,
    fun error next failed => ?_⟩
  · rcases outcome with ⟨fault, last, failed, -⟩ | ⟨error, last, failed, -⟩ |
      ⟨last, taken, root, rows, runs, ahead, forwarded⟩
    · rw [failed] at run
      cases run
    · rw [failed] at run
      cases run
    · rw [runs] at run
      cases run
      exact ⟨taken, root, rows, rfl, ahead, forwarded⟩
  · obtain ⟨next, candidate, root, rows, run, same, -⟩ :=
      nextOnePassCandidate_taken wellFormed ahead between within handled
    exact ⟨some candidate, next, run, same⟩
  · rcases outcome with ⟨fault, last, fails, refused⟩ | ⟨error', last, fails, exceeded, lead⟩ |
      ⟨last, taken, root, rows, run, -⟩
    · rw [fails] at failed
      cases failed
      exact .inl ⟨fault, rfl, refused⟩
    · rw [fails] at failed
      cases failed
      exact .inr ⟨exceeded, lead⟩
    · rw [run] at failed
      cases failed

end Pass

section Notes

/-- The start of a note. -/
def noteHead (supported : Bool) : MessageStart :=
  ⟨4, .normal, none, ⟨some 290, none, none, [], false, some 1, none, none, none, none, none, none,
    supported⟩⟩

/-- The start of a note that is embedded in it. -/
def innerHead : MessageStart :=
  ⟨5, .normal, none, ⟨some 290, some 4, some 1, [1], false, some 1, none, none, none, none, none,
    none, true⟩⟩

/-- The texts of the frames of the notes. -/
def notesTexts : List (ControlFrame × String) := [
  (.messageStart (noteHead true),
    "\x7b\"type\":\"message_start\",\"id\":4,\"provenance\":\"normal\",\"recovery_index\":null,\"folder_id\":290,\"parent_message_id\":null,\"parent_attachment_index\":null,\"embedded_path\":[],\"associated\":false,\"item_type\":1,\"message_class\":null,\"subject\":null,\"sender_name\":null,\"sender_email\":null,\"submit_filetime\":null,\"delivery_filetime\":null,\"supported\":true\x7d"),
  (.messageStart (noteHead false),
    "\x7b\"type\":\"message_start\",\"id\":4,\"provenance\":\"normal\",\"recovery_index\":null,\"folder_id\":290,\"parent_message_id\":null,\"parent_attachment_index\":null,\"embedded_path\":[],\"associated\":false,\"item_type\":1,\"message_class\":null,\"subject\":null,\"sender_name\":null,\"sender_email\":null,\"submit_filetime\":null,\"delivery_filetime\":null,\"supported\":false\x7d"),
  (.messageStart innerHead,
    "\x7b\"type\":\"message_start\",\"id\":5,\"provenance\":\"normal\",\"recovery_index\":null,\"folder_id\":290,\"parent_message_id\":4,\"parent_attachment_index\":1,\"embedded_path\":[1],\"associated\":false,\"item_type\":1,\"message_class\":null,\"subject\":null,\"sender_name\":null,\"sender_email\":null,\"submit_filetime\":null,\"delivery_filetime\":null,\"supported\":true\x7d"),
  (.attachmentStart 4 ⟨0, some 1, some 2, none, none⟩,
    "\x7b\"type\":\"attachment_start\",\"message_id\":4,\"index\":0,\"attachment_type\":1,\"data_size\":2,\"filename\":null,\"detected_mime\":null\x7d"),
  (.attachmentStart 4 ⟨1, some 0x69, none, none, none⟩,
    "\x7b\"type\":\"attachment_start\",\"message_id\":4,\"index\":1,\"attachment_type\":105,\"data_size\":null,\"filename\":null,\"detected_mime\":null\x7d"),
  (.attachmentStart 5 ⟨0, some 1, some 1, none, none⟩,
    "\x7b\"type\":\"attachment_start\",\"message_id\":5,\"index\":0,\"attachment_type\":1,\"data_size\":1,\"filename\":null,\"detected_mime\":null\x7d"),
  (.attachmentData 4 0 2,
    "\x7b\"type\":\"attachment_data\",\"message_id\":4,\"index\":0,\"byte_len\":2\x7d"),
  (.attachmentData 5 0 1,
    "\x7b\"type\":\"attachment_data\",\"message_id\":5,\"index\":0,\"byte_len\":1\x7d"),
  (.attachmentEnd 4 0, "\x7b\"type\":\"attachment_end\",\"message_id\":4,\"index\":0\x7d"),
  (.attachmentEnd 4 1, "\x7b\"type\":\"attachment_end\",\"message_id\":4,\"index\":1\x7d"),
  (.attachmentEnd 5 0, "\x7b\"type\":\"attachment_end\",\"message_id\":5,\"index\":0\x7d"),
  (.messageEnd 4 true, "\x7b\"type\":\"message_end\",\"id\":4,\"complete\":true\x7d"),
  (.messageEnd 5 true, "\x7b\"type\":\"message_end\",\"id\":5,\"complete\":true\x7d"),
  (.topLevelMetadataEnd, "\x7b\"type\":\"top_level_metadata_end\"\x7d")]

/-- How the frames of the notes are written. -/
def notesJson : Json := .ofTable notesTexts

/-- The notes, of whose attachments bytes were captured. -/
def notesMetadata (supported : Bool) : TopLevelMetadata :=
  ⟨[], noteHead supported,
    .frame ⟨.attachmentStart 4 ⟨0, some 1, some 2, none, none⟩, []⟩ <|
    .frame ⟨.attachmentData 4 0 2, [1, 2]⟩ <|
    .frame ⟨.attachmentEnd 4 0, []⟩ <|
    .frame ⟨.attachmentStart 4 ⟨1, some 0x69, none, none, none⟩, []⟩ <|
    .message innerHead
      (.frame ⟨.attachmentStart 5 ⟨0, some 1, some 1, none, none⟩, []⟩ <|
        .frame ⟨.attachmentData 5 0 1, [3]⟩ <|
        .frame ⟨.attachmentEnd 5 0, []⟩ .nil) true <|
    .frame ⟨.attachmentEnd 4 1, []⟩ .nil, true⟩

set_option maxRecDepth 4000 in
theorem notesTexts_small : ∀ entry ∈ notesTexts,
    entry.2 ≠ "" ∧ (textBytes entry.2).length ≤ 1600 := by
  have small : ∀ chars : List Char, chars.length ≤ 400 →
      (textBytes (String.ofList chars)).length ≤ 1600 := fun chars short =>
    (length_textBytes_ofList chars).trans (Nat.mul_le_mul_left 4 short)
  simp only [notesTexts, List.forall_mem_cons]
  refine ⟨⟨by simp, small _ ?_⟩, ⟨by simp, small _ ?_⟩, ⟨by simp, small _ ?_⟩,
    ⟨by simp, small _ ?_⟩, ⟨by simp, small _ ?_⟩, ⟨by simp, small _ ?_⟩, ⟨by simp, small _ ?_⟩,
    ⟨by simp, small _ ?_⟩, ⟨by simp, small _ ?_⟩, ⟨by simp, small _ ?_⟩, ⟨by simp, small _ ?_⟩,
    ⟨by simp, small _ ?_⟩, ⟨by simp, small _ ?_⟩, ⟨by simp, small _ ?_⟩,
    fun entry none => by cases none⟩
  all_goals decide

theorem notesJson_legible {entry : ControlFrame × String} (member : entry ∈ notesTexts) :
    Legible notesJson entry.1 := by
  refine Json.legible_ofTable (by decide) (by simp [notesTexts]) (fun entry member => ?_) member
  obtain ⟨nonempty, small⟩ := notesTexts_small entry member
  exact ⟨nonempty, small.trans (by decide)⟩

theorem notes_legible (frame : ControlFrame) (known : frame ∈ notesTexts.map (·.1)) :
    Legible notesJson frame := by
  obtain ⟨entry, member, rfl⟩ := List.mem_map.mp known
  exact notesJson_legible member

theorem notesMetadata_wellFormed (supported : Bool) :
    (notesMetadata supported).WellFormed notesJson := by
  have short : ∀ frame : Frame, frame.control ∈ notesTexts.map (·.1) →
      frame.payload.length = frame.control.byteLen.getD 0 →
        frame.payload.length ≤ streamChunkBytes →
      frame.Short notesJson := fun frame known announced small =>
    ⟨⟨notes_legible frame.control known, announced⟩, small⟩
  refine ⟨fun frame member => (by cases member), ⟨notes_legible _ ?_, notes_legible _ ?_, rfl, ?_⟩,
    notes_legible _ ?_⟩
  · cases supported <;> decide
  · cases supported <;> decide
  · refine ⟨rfl, short _ ?_ rfl ?_, rfl, short _ ?_ rfl ?_, rfl, short _ ?_ rfl ?_, rfl,
      short _ ?_ rfl ?_, notes_legible _ ?_, notes_legible _ ?_, rfl, ⟨1, rfl⟩, by decide,
      ⟨rfl, short _ ?_ rfl ?_, rfl, short _ ?_ rfl ?_, rfl, short _ ?_ rfl ?_, trivial⟩, rfl,
      short _ ?_ rfl ?_, trivial⟩
    all_goals decide
  · decide

/-- The pipe with the metadata of the notes, and a job without candidates. -/
def notesPass (supported : Bool) : OnePass :=
  ⟨.new (wire notesJson (notesMetadata supported).received), createWithCapture (.bounded 4 3)⟩

theorem notesPass_between (supported : Bool) : Between (notesPass supported) 0 where
  noPath := rfl
  nothingCaptured := rfl
  poised := ⟨⟨rfl, rfl, rfl⟩, rfl, rfl, rfl, fun _ none => nomatch none⟩
  asked := ⟨fun _ none => (nomatch none), fun _ none => (nomatch none), Nat.le_refl 0⟩

theorem notesPass_ahead (supported : Bool) :
    Ahead notesJson (notesPass supported).source (notesMetadata supported).received [] :=
  (List.append_nil _).symm

/-- The notes are within the budget. -/
theorem notes_within (supported : Bool) : ∃ charged,
    chargeAll notesJson (notesMetadata supported).message.received .production = .ok charged := by
  have known : ∀ frame ∈ (notesMetadata supported).message.received,
      frame.control ∈ notesTexts.map (·.1) ∧ frame.payload.length ≤ 2 := by
    cases supported <;> decide
  have cost : ∀ cost ∈ (notesMetadata supported).message.received.map (Frame.cost notesJson),
      cost ≤ 2000 := by
    intro cost member
    obtain ⟨frame, received, rfl⟩ := List.mem_map.mp member
    obtain ⟨there, few⟩ := known frame received
    obtain ⟨entry, isEntry, same⟩ := List.mem_map.mp there
    have text : notesJson.toVec entry.1 = textBytes entry.2 :=
      Json.toVec_ofTable (by decide) isEntry
    have small := (notesTexts_small entry isEntry).2
    rw [Frame.cost, ← same, text, DirectMetadataBudget.frameOverhead]
    omega
  have sum := List.sum_le_card_nsmul _ 2000 cost
  rw [List.length_map, smul_eq_mul] at sum
  have length : (notesMetadata supported).message.received.length = 12 := by
    cases supported <;> rfl
  refine chargeAll_within notesJson ?_ ?_ (by decide)
  · dsimp only [DirectMetadataBudget.production]
    omega
  · dsimp only [DirectMetadataBudget.production]
    omega

/-- The keys of the notes. -/
def notesKeys : List ItemKey := [⟨.normal, some 4, none, 0⟩, ⟨.normal, some 5, none, 0⟩]

/-- The sink takes the notes. -/
theorem notes_handled (supported : Bool) : ∃ job,
    handleEvents id (eventsOf (notesMetadata supported).handedOn) (notesPass supported).job =
      .ok () job ∧ job.connection.database.candidates.map CandidateRow.itemKey = notesKeys := by
  refine ⟨_, succeeds_run_ok ?_, ?_⟩
  all_goals cases supported <;> decide +kernel

/-- Two bytes of the note and one of the note in it were captured. -/
theorem notes_beginnings (supported : Bool) :
    (notesMetadata supported).message.messages.map (fun part =>
      beginning (.attachmentData 0) part.own) = [some [1, 2], some [3]] := by
  cases supported <;> decide +kernel

/-- What was captured of the notes is bound to two candidates. -/
theorem notes_bound {supported : Bool} {rows : List CandidateRow}
    {prefixes : AList fun _ : DirectStreamIdentity => Bytes}
    (bound : Bound (notesMetadata supported).message.messages rows prefixes) :
    rows.map (fun row => prefixes.lookup ⟨row.itemKey, .attachmentData 0⟩) =
      [some [1, 2], some [3]] := by
  rw [← notes_beginnings supported]
  have captured := bound.captured
  clear bound
  generalize (notesMetadata supported).message.messages = messages at captured
  induction captured with
  | nil => rfl
  | cons first _ ih => rw [List.map_cons, List.map_cons, first, ih]

/-- The metadata of the notes is taken: two bytes are bound to the note, and one to the
note that is embedded in it. -/
theorem nextOnePassCandidate_forwards_notes : ∃ candidate next,
    nextOnePassCandidate notesJson id 0 (notesPass true) = .ok (some candidate) next ∧
      candidate.itemKey = ⟨.normal, some 4, none, 0⟩ ∧
      next.source.prefixes.lookup ⟨⟨.normal, some 4, none, 0⟩, .attachmentData 0⟩ = some [1, 2] ∧
      next.source.prefixes.lookup ⟨⟨.normal, some 5, none, 0⟩, .attachmentData 0⟩ = some [3] := by
  obtain ⟨-, outcomes, runs, -⟩ := nextOnePassCandidate_forwards id (notesMetadata_wellFormed true)
    (notesPass_ahead true) (notesPass_between true)
  obtain ⟨charged, within⟩ := notes_within true
  obtain ⟨job, handled, keys⟩ := notes_handled true
  obtain ⟨candidate, next, run, rfl⟩ := runs charged job within handled
  obtain ⟨taken, root, rows, rfl, -, forwarded⟩ := outcomes _ _ run
  have rowsAre : next.job.connection.database.candidates = root :: rows :=
    forwarded.accepted.candidates
  have lookups := notes_bound (if_pos rfl ▸ forwarded.bound)
  rw [rowsAre] at keys
  have both := congrArg (List.map fun key =>
    next.source.prefixes.lookup ⟨key, .attachmentData 0⟩) keys
  rw [List.map_map] at both
  replace both := both.symm.trans lookups
  obtain ⟨outer, inner⟩ := List.cons.inj both
  refine ⟨taken, _, run, ?_, outer, (List.cons.inj inner).1⟩
  rw [forwarded.accepted.candidate]
  exact (List.cons.inj keys).1

/-- Nothing that was captured of a message which is not supported stays bound to it. -/
theorem unsupported_note_unbound :
    ¬ ∀ (sha256 : Bytes → Bytes) (json : Json) (pass : OnePass) (metadata : TopLevelMetadata)
      (rest : Bytes) (afterRowid : Nat), metadata.WellFormed json →
      Ahead json pass.source metadata.received rest → Between pass afterRowid →
      ∀ candidate next, nextOnePassCandidate json sha256 afterRowid pass = .ok candidate next →
        ∃ root rows, next.job.connection.database.candidates =
            pass.job.connection.database.candidates ++ root :: rows ∧
          Bound metadata.message.messages (root :: rows) next.source.prefixes := by
  intro claim
  obtain ⟨charged, within⟩ := notes_within false
  obtain ⟨job, handled, -⟩ := notes_handled false
  obtain ⟨next, candidate, root, rows, run, -, forwarded⟩ := nextOnePassCandidate_taken
    (notesMetadata_wellFormed false) (notesPass_ahead false)
      (notesPass_between false) within handled
  have empty : next.source.prefixes = ∅ := forwarded.bound
  obtain ⟨root, rows, -, bound⟩ := claim id notesJson (notesPass false) (notesMetadata false)
    [] 0 (notesMetadata_wellFormed false) (notesPass_ahead false) (notesPass_between false) _ _ run
  have lost := notes_bound bound
  obtain ⟨lost, -⟩ := List.cons.inj lost
  dsimp only at lost
  rw [empty, AList.lookup_empty] at lost
  cases lost

end Notes

end PstForge.Worker
