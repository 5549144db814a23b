import PstForge.Job.PackBatches

/-! # The payload pack over whole runs

A job is created or opened again, takes events, gives up and commits batches, and may
be killed at any of its steps. Where every step is orderly the pack keeps what the
ledger has: no two blobs overlap, each lies in the pack with the bytes it is known by,
and opening the job again finds all that was committed.
-/

namespace PstForge.Job

open PstForge.Foundation PstForge.Catalog

section Reopen

variable {sha256 : Bytes → Bytes} {database : Database}

theorem packOverlaps_false (ordered : database.blobs.Pairwise Before) :
    packOverlaps database = false := by
  have follow : (packRanges database).Pairwise fun first second => first.2 ≤ second.1 := by
    refine List.pairwise_filterMap.mpr ((ordered.filter _).imp ?_)
    intro first second before range here range' there
    obtain ⟨offset, at_, rfl⟩ := Option.map_eq_some_iff.mp here
    obtain ⟨offset', at_', rfl⟩ := Option.map_eq_some_iff.mp there
    exact before offset' at_' offset at_
  have upward : ∀ range ∈ packRanges database, range.1 ≤ range.2 := by
    intro range member
    obtain ⟨row, -, found⟩ := List.mem_filterMap.mp member
    obtain ⟨offset, -, rfl⟩ := Option.map_eq_some_iff.mp found
    exact Nat.le_add_right _ _
  have sorted : (packRanges database).Pairwise fun first second => first.1 ≤ second.1 :=
    follow.imp_of_mem fun member _ le => (upward _ member).trans le
  simp only [packOverlaps, sorted.insertionSort_eq]
  rw [List.any_eq_false]
  intro pair member
  -- neighbours are in the order of the list
  obtain ⟨index, bound, same⟩ := List.mem_iff_getElem.mp member
  have small : index + 1 < (packRanges database).length := by
    simp only [List.length_zip, List.length_tail] at bound
    omega
  have le := List.pairwise_iff_getElem.mp follow index (index + 1) (by omega) small (by omega)
  simp only [List.getElem_zip, List.getElem_tail] at same
  rw [← same]
  simpa using le

theorem committedEnd_le {limit : Nat} (ahead : ∀ row ∈ database.blobs, Ahead limit row) :
    committedEnd database ≤ limit := by
  have all : ∀ ends : List Nat, (∀ last ∈ ends, last ≤ limit) → ∀ start, start ≤ limit →
      ends.foldl max start ≤ limit := by
    intro ends
    induction ends with
    | nil => exact fun _ start le => le
    | cons last rest ih =>
        intro below start le
        exact ih (fun other member => below other (.tail _ member)) _
          (Nat.max_le.mpr ⟨le, below last (.head _)⟩)
  refine all _ (fun last member => ?_) 0 (Nat.zero_le _)
  obtain ⟨row, there, found⟩ := List.mem_filterMap.mp member
  obtain ⟨offset, at_, rfl⟩ := Option.map_eq_some_iff.mp found
  exact ahead row there offset at_

theorem le_committedEnd {row : BlobRow} (member : row ∈ database.blobs) :
    Ahead (committedEnd database) row := by
  intro offset at_
  have start : ∀ (ends : List Nat) (start : Nat), start ≤ ends.foldl max start := by
    intro ends
    induction ends with
    | nil => exact fun start => le_rfl
    | cons last rest ih => exact fun start => (Nat.le_max_left start last).trans (ih _)
  have all : ∀ (ends : List Nat) (start last : Nat), last ∈ ends →
      last ≤ ends.foldl max start := by
    intro ends
    induction ends with
    | nil => exact fun _ _ none => nomatch none
    | cons first rest ih =>
        intro begin last there
        rcases List.mem_cons.mp there with rfl | there
        · exact (Nat.le_max_right begin last).trans (start rest _)
        · exact ih _ last there
  refine all _ 0 _ (List.mem_filterMap.mpr ⟨row, member, ?_⟩)
  simp [BlobRow.packEnd, at_]

/-- What outlives a crash is opened again as a sound sink. -/
theorem openExpected_sound {rows : List BlobRow} {sink : DurableCatalogSink}
    (keeping : Keeping sha256 rows sink) {found : Bytes}
    (survives : sink.payloadPack.Survives found) :
    ∃ next, openExpected sink.connection.durable found = .ok next ∧ Sound sha256 next ∧
      next.connection.database = sink.connection.durable := by
  have ordered := keeping.ordered.sublist keeping.among.sublist
  have fits : committedEnd sink.connection.durable ≤ found.length :=
    (committedEnd_le keeping.synced).trans survives.1
  -- the blobs are found again in any file that begins like the one that was found
  have stored : ∀ file : PackFile, (∃ length, committedEnd sink.connection.durable ≤ length ∧
      file.bytes = found.take length) →
      ∀ row ∈ sink.connection.durable.blobs, Stored sha256 file row := by
    intro file begins row member offset at_
    obtain ⟨length, enough, bytes⟩ := begins
    have below := le_committedEnd member offset at_
    have hash := (keeping.stored row (keeping.among.subset member) offset at_).2
    have size : offset + row.byteLen ≤ file.bytes.length := by
      rw [bytes, List.length_take]
      omega
    refine ⟨size, ?_⟩
    rw [← hash]
    congr 1
    rw [← survives.range (keeping.synced row member offset at_) ⟨found, 0, 0⟩ rfl]
    apply PackFile.range_of_take
    rw [bytes, List.take_take]
    congr 1
    omega
  have sound : ∀ file : PackFile, (∃ length, committedEnd sink.connection.durable ≤ length ∧
      file.bytes = found.take length) → file.offset = file.bytes.length →
      file.synced = file.bytes.length →
      Sound sha256 (.resting sink.connection.durable file .full) := by
    intro file begins atEnd synced
    have stored := stored file begins
    exact ⟨⟨stored, ordered, List.prefix_rfl, fun row member => synced ▸ (stored row member).ahead⟩,
      rfl, atEnd, ⟨rfl, rfl⟩, (fun _ gone => nomatch gone), (fun _ gone => nomatch gone)⟩
  unfold openExpected reconcilePayloadPack
  simp only [packOverlaps_false ordered, refuse, Bool.false_eq_true, ↓reduceIte,
    Nat.not_lt.mpr fits]
  refine ⟨_, rfl, sound _ ?_ rfl ?_, rfl⟩
  · split
    · refine ⟨_, le_rfl, ?_⟩
      simp only [PackFile.seek, PackFile.sync, PackFile.setLen]
      rw [Nat.sub_eq_zero_of_le fits]
      exact List.append_nil _
    · exact ⟨found.length, fits, List.take_length.symm⟩
  · split <;> rfl

end Reopen

section Runs

variable (sha256 : Bytes → Bytes)

/-- What is done with a sink. -/
inductive Operation where
  | event (event : CatalogEvent)
  | abortWorkerAttempt
  | rollback
  | checkpoint
  | enableDirectMetadataCapture (propertyPrefixBytes attachmentPrefixBytes : Nat)

def perform : Operation → Sinking Unit
  | .event event => handleEvent sha256 event
  | .abortWorkerAttempt => abortWorkerAttempt
  | .rollback => rollback
  | .checkpoint => checkpoint
  | .enableDirectMetadataCapture propertyPrefixBytes attachmentPrefixBytes =>
      enableDirectMetadataCapture propertyPrefixBytes attachmentPrefixBytes

/-- The sinks that runs lead to, whose steps meet a condition. Every step has its own
number of operations after which the process is killed, if it is; a killed process does
nothing but be opened again, over any remains of its pack. -/
inductive Reached (condition : DurableCatalogSink → Operation → Prop) : DurableCatalogSink → Prop
  | create (mode : CatalogCaptureMode) : Reached condition (createWithCapture mode)
  | perform {sink : DurableCatalogSink} (operation : Operation) (life : Option Nat)
      (earlier : Reached condition sink) (alive : sink.life ≠ some 0)
      (meets : condition sink operation) :
      Reached condition (after (perform sha256 operation) { sink with life })
  | reopen {sink next : DurableCatalogSink} {found : Bytes} (earlier : Reached condition sink)
      (survives : sink.payloadPack.Survives found)
      (opened : openExpected sink.connection.durable found = .ok next) : Reached condition next

/-- Two blobs do not share bytes of the pack. -/
def Apart (first second : BlobRow) : Prop :=
  ∀ offset offset', first.packOffset = some offset → second.packOffset = some offset' →
    offset + first.byteLen ≤ offset' ∨ offset' + second.byteLen ≤ offset

/-- The pack holds what the ledger has of it: what was committed at any time, everything
while the process lives, and what was committed when the job is opened again. -/
structure PackIntact (sink : DurableCatalogSink) : Prop where
  committed : ∀ row ∈ sink.connection.durable.blobs, Stored sha256 sink.payloadPack row
  apart : sink.connection.durable.blobs.Pairwise Apart
  living : sink.life ≠ some 0 →
    (∀ row ∈ sink.connection.database.blobs, Stored sha256 sink.payloadPack row) ∧
    sink.connection.database.blobs.Pairwise Apart ∧
    sink.payloadPackPosition = sink.payloadPack.bytes.length
  reopened : ∀ found, sink.payloadPack.Survives found →
    ∃ next, openExpected sink.connection.durable found = .ok next ∧
      next.connection.database = sink.connection.durable ∧
      next.payloadPackPosition = next.payloadPack.bytes.length ∧
      ∀ row ∈ sink.connection.durable.blobs, Stored sha256 next.payloadPack row

/-- The steps that leave the pack in order. A property is given up only where no blob
of the ledger reaches beyond the offset it remembers, which is zero where its bytes stay
out of the pack. In the pack, an attachment is neither written nor finished while a
property is open, and an empty property that the ledger does not have yet is not finished
while an attachment is being written. -/
def Orderly (sink : DurableCatalogSink) : Operation → Prop
  | .event (.propertyAbort _ _) => CutsBehind sink
  | .event (.messageEnd _ complete) => complete = false → CutsBehind sink
  | .event (.propertyEnd _) => sink.captureMode.isBounded = false → NotInMidst sha256 sink
  | .event (.attachmentData _ _ _) | .event (.attachmentEnd _ _) | .event (.attachmentAbort _ _) =>
      sink.captureMode.isBounded = false → sink.property = none
  | _ => True

variable {sha256} {sink : DurableCatalogSink}

theorem Before.apart {first second : BlobRow} (before : Before first second) :
    Apart first second :=
  fun offset offset' here there => .inl (before offset' there offset here)

theorem Fine.intact (fine : Fine sha256 sink) : PackIntact sha256 sink := by
  obtain ⟨⟨rows, keeping⟩, living⟩ := fine
  refine ⟨fun row member => keeping.stored row (keeping.among.subset member), ?_,
    fun alive => ?_, fun found survives => ?_⟩
  · exact (keeping.ordered.sublist keeping.among.sublist).imp Before.apart
  · have sound := living alive
    exact ⟨sound.kept.stored, sound.kept.ordered.imp Before.apart, sound.cursor⟩
  · obtain ⟨next, opened, sound, same⟩ := openExpected_sound keeping survives
    exact ⟨next, opened, same, sound.cursor, same ▸ sound.kept.stored⟩

theorem handleFolder_ensures (sound : Sound sha256 sink) (id : Nat) (parentId : Option Nat)
    (name containerClass : Option Text) :
    Ensures (handleFolder id parentId name containerClass) sink (fun _ => Fine sha256)
      (fun _ => Fine sha256) := by
  refine .get_bind (.attempt_bind (fun _ _ => ?_) fun _ _ => sound.fine)
  refine (execute_sound sound fun database changed => ?_).mono (fun _ _ done => done.1.fine)
    fun _ _ fine => fine
  rw [← Except.ok.inj changed]
  rfl

theorem handleRecipient_ensures (sound : Sound sha256 sink) (messageId : Nat)
    (recipient : Recipient) :
    Ensures (handleRecipient messageId recipient) sink (fun _ => Fine sha256)
      (fun _ => Fine sha256) := by
  refine .get_bind (.attempt_bind (fun _ _ => ?_) fun _ _ => sound.fine)
  refine .attempt_bind (fun _ _ => ?_) fun _ _ => sound.fine
  refine .bind (recordEvent_ensures sound _ _ _) fun _ next done => .of_modify ?_
  obtain ⟨sound, -⟩ := done
  have shape := sound.batch
  unfold BatchShape at shape
  refine Sound.fine ⟨sound.kept, sound.cursor, sound.atEnd, ?_, fun property there => ?_,
    fun attachment there => ?_⟩
  · unfold BatchShape
    cases busy : next.active with
    | none =>
        rw [busy] at shape
        exact shape
    | some active =>
        rw [busy] at shape
        exact shape
  · obtain ⟨captured, whole, owned⟩ := sound.property property there
    exact ⟨captured, whole, fun recorded => by simpa using owned recorded⟩
  · obtain ⟨busy, rests⟩ := sound.attachment attachment there
    exact ⟨by simpa using busy, rests⟩

theorem matchAttachment_ensures (sound : Sound sha256 sink) (what : String)
    (messageId index : Nat) :
    Ensures (discard (requireAttachment what messageId index)) sink (fun _ next => next = sink)
      (fun _ => Fine sha256) := by
  refine .of_discard ((requireAttachment_ensures what messageId index).mono
    (fun _ _ found => found.1) fun _ _ same => ?_)
  rw [same]
  exact sound.fine

/-- An orderly event leaves a sound sink. -/
theorem handleEvent_ensures (sound : Sound sha256 sink) {event : CatalogEvent}
    (orderly : Orderly sha256 sink (.event event)) :
    Ensures (handleEvent sha256 event) sink (fun _ => Fine sha256) (fun _ => Fine sha256) := by
  cases event with
  | unitStart unit =>
      refine .get_bind (.attempt_bind (fun _ _ => .modify_bind ?_) fun _ _ => sound.fine)
      exact .attempt_bind (fun _ _ => .of_modify (Sound.fine ⟨sound.kept, sound.cursor,
        sound.atEnd, sound.batch, sound.property, sound.attachment⟩)) fun _ _ => Sound.fine
        ⟨sound.kept, sound.cursor, sound.atEnd, sound.batch, sound.property, sound.attachment⟩
  | unitEnd unit =>
      refine .get_bind ?_
      split
      · exact .modify_bind (.attempt_bind (fun _ _ => .of_modify (Sound.fine ⟨sound.kept,
          sound.cursor, sound.atEnd, sound.batch, sound.property, sound.attachment⟩))
          fun _ _ => Sound.fine ⟨sound.kept, sound.cursor, sound.atEnd, sound.batch,
            sound.property, sound.attachment⟩)
      · exact .of_throw sound.fine
  | folder id parentId name containerClass =>
      exact handleFolder_ensures sound id parentId name containerClass
  | messageStart start => exact startCandidate_ensures sound start
  | recipient messageId recipient => exact handleRecipient_ensures sound messageId recipient
  | attachmentStart messageId attachment =>
      exact handleAttachmentStart_ensures sound messageId attachment
  | attachmentMimeProbe messageId index mimeType =>
      refine .bind (matchAttachment_ensures sound _ _ _) fun _ next same => ?_
      rw [same]
      exact (recordEvent_ensures sound _ _ _).mono (fun _ _ done => done.1.fine)
        fun _ _ fine => fine
  | attachmentData messageId index bytes =>
      exact handleAttachmentData_ensures sound orderly messageId index bytes
  | attachmentEnd messageId index =>
      refine .bind (matchAttachment_ensures sound _ _ _) fun _ next same => ?_
      rw [same]
      exact (finishAttachment_ensures sound orderly true).mono (fun _ _ done => done.1.fine)
        fun _ _ fine => fine
  | attachmentAbort messageId index =>
      refine .bind (matchAttachment_ensures sound _ _ _) fun _ next same => ?_
      rw [same]
      exact (finishAttachment_ensures sound orderly false).mono (fun _ _ done => done.1.fine)
        fun _ _ fine => fine
  | propertyStart descriptor => exact handlePropertyStart_ensures sound descriptor
  | namedProperty descriptor identity =>
      refine .get_bind (.attempt_bind (fun _ _ => ?_) fun _ _ => sound.fine)
      exact .attempt_bind (fun _ _ => .of_modify (Sound.fine ⟨sound.kept, sound.cursor,
        sound.atEnd, sound.batch, sound.property, sound.attachment⟩)) fun _ _ => sound.fine
  | propertyData descriptor bytes => exact handlePropertyData_ensures sound descriptor bytes
  | propertyEnd descriptor => exact finishProperty_ensures sound orderly descriptor
  | propertyAbort descriptor reason =>
      exact handlePropertyAbort_ensures sound orderly descriptor reason
  | messageEnd id complete => exact handleMessageEnd_ensures sound id complete orderly
  | deferredPropertyData | deferredAttachmentData | topLevelMetadataEnd | topLevelPayloadEnd =>
      exact .of_throw sound.fine

theorem perform_ensures (sound : Sound sha256 sink) {operation : Operation}
    (orderly : Orderly sha256 sink operation) :
    Ensures (perform sha256 operation) sink (fun _ => Fine sha256) (fun _ => Fine sha256) := by
  cases operation with
  | event event => exact handleEvent_ensures sound orderly
  | abortWorkerAttempt => exact abortWorkerAttempt_ensures sound
  | rollback => exact rollback_ensures sound
  | checkpoint => exact checkpoint_ensures sound
  | enableDirectMetadataCapture propertyPrefixBytes attachmentPrefixBytes =>
      exact enableDirectMetadataCapture_ensures sound propertyPrefixBytes attachmentPrefixBytes

theorem createWithCapture_sound (mode : CatalogCaptureMode) :
    Sound sha256 (createWithCapture mode) :=
  ⟨⟨(fun _ none => nomatch none), .nil, List.prefix_rfl, (fun _ none => nomatch none)⟩, rfl, rfl,
    ⟨rfl, rfl⟩, (fun _ gone => nomatch gone), (fun _ gone => nomatch gone)⟩

/-- In a run of orderly steps every sink is fine. -/
theorem Reached.fine (reached : Reached sha256 (Orderly sha256) sink) : Fine sha256 sink := by
  induction reached with
  | create mode => exact (createWithCapture_sound mode).fine
  | @perform sink operation life _ alive orderly fine =>
      have done := perform_ensures ((fine.2 alive).revive life)
        (show Orderly sha256 { sink with life } operation from by
          cases operation with
          | event event => cases event <;> exact orderly
          | _ => trivial)
      unfold Ensures at done
      unfold after
      split at done <;> exact done
  | reopen _ survives opened fine =>
      obtain ⟨⟨rows, keeping⟩, -⟩ := fine
      obtain ⟨next, reopened, sound, -⟩ := openExpected_sound keeping survives
      rw [opened] at reopened
      rw [Except.ok.inj reopened]
      exact sound.fine

/-- In a run of orderly steps the pack stays intact. -/
theorem packIntact_of_orderly (reached : Reached sha256 (Orderly sha256) sink) :
    PackIntact sha256 sink := reached.fine.intact

/-- A plain message of a folder. -/
def noteStart (id : Nat) : CatalogEvent :=
  .messageStart ⟨id, .normal, none, ⟨some 290, none, none, [], false, some 1, none, none, none,
    none, none, none, true⟩⟩

/-- Its subject, of one byte. -/
def noteSubject (id : Nat) : PropertyDescriptor := ⟨.message id, 0, 0, some 0x37, some 0x1E, 1⟩

/-- A message with a subject, and its batch committed. -/
def capturedNote (id : Nat) : List Operation :=
  [.event (noteStart id), .event (.propertyStart (noteSubject id)),
    .event (.propertyData (noteSubject id) [65]), .event (.propertyEnd (noteSubject id)),
    .event (.messageEnd id true), .checkpoint]

/-- A message whose subject cannot be read. -/
def unreadableNote (id : Nat) : List Operation :=
  [.event (noteStart id), .event (.propertyStart (noteSubject id)),
    .event (.propertyAbort (noteSubject id) "unreadable".toList)]

/-- Perform operations one after another, in a process that is not killed. -/
def performAll (sha256 : Bytes → Bytes) (operations : List Operation)
    (sink : DurableCatalogSink) : DurableCatalogSink :=
  operations.foldl (fun sink operation => after (perform sha256 operation) { sink with life :=
    none })
    sink

/-- Every operation of a list meets a condition, in a process that lives. -/
def AllMeet (condition : DurableCatalogSink → Operation → Prop) (sha256 : Bytes → Bytes) :
    List Operation → DurableCatalogSink → Prop
  | [], _ => True
  | operation :: rest, sink => sink.life ≠ some 0 ∧ condition sink operation ∧
      AllMeet condition sha256 rest (after (perform sha256 operation) { sink with life := none })

theorem Reached.performAll {condition : DurableCatalogSink → Operation → Prop}
    (reached : Reached sha256 condition sink) (operations : List Operation)
    (meet : AllMeet condition sha256 operations sink) :
    Reached sha256 condition (performAll sha256 operations sink) := by
  induction operations generalizing sink with
  | nil => exact reached
  | cons operation rest ih =>
      exact ih (reached.perform operation none meet.1 meet.2.1) meet.2.2

/-- The pack after a message was committed. -/
theorem packIntact_of_orderly_note :
    PackIntact id (performAll id (capturedNote 7) (createWithCapture .full)) := by
  refine packIntact_of_orderly ((Reached.create .full).performAll (capturedNote 7) ?_)
  refine ⟨by decide, trivial, by decide, trivial, by decide, trivial, by decide, ?_, by decide, ?_,
    by decide, trivial, trivial⟩
  · intro _ property there _ empty
    obtain rfl := Option.some.inj there
    exact absurd empty (by decide)
  · exact fun incomplete => nomatch incomplete

/-- A property that is given up while the bytes stay out of the pack cuts off what was
committed there before. -/
theorem unreadable_property_cuts_pack :
    ¬ ∀ sink, Reached id (fun _ _ => True) sink → PackIntact id sink := by
  intro claim
  have created : Reached id (fun _ _ => True) (createWithCapture .full) := .create .full
  have meet : AllMeet (fun _ _ => True) id
      (capturedNote 7 ++ .enableDirectMetadataCapture 4 3 :: unreadableNote 8)
      (createWithCapture .full) := by
    simp only [capturedNote, unreadableNote, List.cons_append, List.nil_append, AllMeet, true_and,
      and_true]
    decide
  have intact := claim _ (created.performAll _ meet)
  have lost := intact.committed ⟨[65], 1, some 0⟩ (by decide) 0 rfl
  exact absurd lost.1 (by decide)

end Runs

end PstForge.Job
