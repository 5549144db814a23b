import PstForge.Job.PackRules

/-! # What finishing a blob keeps of the pack

A finished blob becomes a row of the ledger whose range is the end of the pack, or it
is cut off because the ledger has it already. Either way the sink stays sound.
-/

namespace PstForge.Job

open PstForge.Foundation PstForge.Catalog

variable {sha256 : Bytes → Bytes} {sink : DurableCatalogSink}

section Verify

/-- The range of a row that is kept has the hash of the row. -/
theorem verifyPackRange_ensures {row : BlobRow} {offset packLen : Nat}
    (stored : Stored sha256 sink.payloadPack row) (at_ : row.packOffset = some offset) :
    Ensures (verifyPackRange sha256 packLen offset row.byteLen row.sha256) sink
      (fun _ next => ∃ position,
        next = { sink with payloadPack := sink.payloadPack.seek position })
      (fun _ next => next = sink) := by
  obtain ⟨inside, hash⟩ := stored offset at_
  refine .attempt_bind (fun endOffset added => ?_) fun _ _ => rfl
  obtain ⟨rfl, -⟩ := checkedAdd_eq_some.mp (okOr_eq_ok.mp added)
  refine .attempt_bind (fun _ _ => ?_) fun _ _ => rfl
  refine .get_bind (.modify_bind ?_)
  have length : (sink.payloadPack.range offset row.byteLen).length = row.byteLen := by
    simp only [PackFile.range, List.length_take, List.length_drop]
    omega
  refine .attempt_bind (fun _ _ => .of_attempt (fun _ _ => ⟨_, rfl⟩) fun error failed => ?_)
    fun error failed => ?_
  · simp only [refuse, hash, ne_eq, not_true_eq_false, ↓reduceIte] at failed
    cases failed
  · simp only [refuse, length, ne_eq, not_true_eq_false, ↓reduceIte] at failed
    cases failed

theorem verifyInlineBlob_ensures (hash : Bytes) (byteLen : Nat) :
    Ensures (verifyInlineBlob sha256 hash byteLen) sink (fun _ next => next = sink)
      (fun _ next => next = sink) :=
  .get_bind (.attempt_bind (fun _ _ => .of_attempt (fun _ _ => rfl) fun _ _ => rfl)
    fun _ _ => rfl)

end Verify

section Insert

/-- A row at the end of the pack, or one out of it. -/
theorem insertBlob_sound {limit : Nat} (sound : SoundAt sha256 limit sink)
    (free : sink.captureMode.isBounded = false → sink.property = none)
    {active : ActiveCandidate} (busy : sink.active = some active) {row : BlobRow}
    (stored : Stored sha256 sink.payloadPack row)
    (behind : ∀ other ∈ sink.connection.database.blobs, Before other row)
    (moved : sink.captureMode.isBounded = false → ∀ attachment blob,
      sink.attachment = some attachment → attachment.blob = some blob →
      Beneath sink.connection.database.blobs sink.payloadPack limit blob →
      Beneath (sink.connection.database.blobs ++ [row]) sink.payloadPack
        sink.payloadPack.bytes.length blob)
    (inside : sink.captureMode.isBounded = false → limit ≤ sink.payloadPack.bytes.length) :
    Ensures (execute (Database.insertBlob row)) sink
      (fun _ next => Sound sha256 next ∧ SameOpen sink next) (fun _ => Fine sha256) := by
  refine (execute_ensures sink _).mono ?_ fun error next stuck =>
    (sound.settle free inside).stuck stuck
  intro _ _ changed
  obtain ⟨life, database, changed, rfl⟩ := changed
  simp only [Database.insertBlob, bind_eq_ok, refuse_eq_ok] at changed
  obtain ⟨_, -, changed⟩ := changed
  obtain rfl := Except.ok.inj changed
  have shape := sound.batch
  unfold BatchShape at shape
  rw [busy] at shape
  obtain ⟨-, begun, -, isBegun, -⟩ := shape
  have same : SameOpen sink { sink with
      connection := { sink.connection with
        database := { sink.connection.database with
          blobs := sink.connection.database.blobs ++ [row] } }
      life } := ⟨rfl, rfl, rfl, rfl⟩
  refine ⟨sound.change free same ?_ sound.cursor sound.atEnd
    (sound.batch.execute busy (List.prefix_append _ _)) moved, same⟩
  have kept : Kept sha256 _ sink.connection.durable.blobs _ := sound.kept.push stored behind
  rw [← Connection.durable_execute isBegun { sink.connection.database with
    blobs := sink.connection.database.blobs ++ [row] }] at kept
  exact kept

end Insert

section Finish

/-- A blob that is being finished: in the pack, it is the end. An empty one is not put
into the midst of an attachment. -/
structure Finishing (sha256 : Bytes → Bytes) (sink : DurableCatalogSink) (blob : BlobWriter) :
    Prop where
  free : sink.captureMode.isBounded = false → sink.property = none
  captured : blob.inline.isSome = sink.captureMode.isBounded
  beneath : blob.inline = none →
    Beneath sink.connection.database.blobs sink.payloadPack sink.payloadPack.bytes.length blob
  spare : sink.captureMode.isBounded = false → blob.bytes = 0 →
    (∀ attachment, sink.attachment = some attachment → attachment.blob = none) ∨
      sink.connection.database.blobs.any (·.sha256 = sha256 blob.hashed) = true

variable {blob : BlobWriter}

theorem Finishing.inside (finishing : Finishing sha256 sink blob)
    (full : sink.captureMode.isBounded = false) :
    blob.startOffset ≤ sink.payloadPack.bytes.length := by
  rcases finishing.beneath (captured_full finishing.captured full) with whole | beyond
  · exact whole.start
  · omega

theorem Finishing.settle (finishing : Finishing sha256 sink blob)
    (sound : SoundAt sha256 blob.startOffset sink) : Sound sha256 sink :=
  sound.settle finishing.free finishing.inside

theorem Whole.stored
    (whole : Whole sink.connection.database.blobs sink.payloadPack sink.payloadPack.bytes.length
      blob) :
    Stored sha256 sink.payloadPack ⟨sha256 blob.hashed, blob.bytes, some blob.startOffset⟩ := by
  intro offset at_
  obtain rfl := Option.some.inj at_
  have content := whole.content
  rw [List.take_length] at content
  refine ⟨whole.reaches.le, ?_⟩
  simp only [PackFile.range, content, whole.length, List.take_length]

/-- What is checked of a stored copy moves at most the offset of the file. -/
theorem verifyStoredBlob_ensures {stored : BlobRow}
    (kept : Keeping sha256 sink.connection.database.blobs sink)
    (member : stored ∈ sink.connection.database.blobs) (packLen : Nat) :
    Ensures (verifyStoredBlob sha256 packLen stored) sink
      (fun _ next => ∃ position,
        next = { sink with payloadPack := sink.payloadPack.seek position })
      (fun _ next => next = sink) := by
  refine .get_bind ?_
  split
  case h_1 offset at_ _ => exact verifyPackRange_ensures (kept.stored stored member) at_
  case h_2 =>
    exact (verifyInlineBlob_ensures _ _).mono (fun _ _ same => ⟨_, same⟩) fun _ _ same => same
  case h_3 => exact .of_throw rfl

/-- The end of the pack is cut off behind everything that is kept. -/
theorem truncate_sound {limit : Nat} (sound : SoundAt sha256 limit sink)
    (free : sink.captureMode.isBounded = false → sink.property = none)
    (behind : ∀ row ∈ sink.connection.database.blobs, Ahead limit row) (position : Nat) :
    Ensures (truncatePayloadPack limit)
      { sink with payloadPack := sink.payloadPack.seek position }
      (fun _ next => Sound sha256 next ∧ SameOpen sink next) (fun _ => Fine sha256) := by
  have kept : Keeping sha256 sink.connection.database.blobs
      { sink with payloadPack := sink.payloadPack.seek position } :=
    ⟨sound.kept.stored, sound.kept.ordered, sound.kept.among, sound.kept.synced⟩
  refine (truncatePayloadPack_ensures _ _).mono ?_ fun _ next stuck => kept.killed stuck
  intro _ _ cut
  obtain ⟨life, rfl⟩ := cut
  have length : (sink.payloadPack.setLen limit).bytes.length = limit :=
    PackFile.setLen_length _
  refine ⟨sound.change free ⟨rfl, rfl, rfl, rfl⟩ ?_ length.symm length.symm sound.batch ?_,
    rfl, rfl, rfl, rfl⟩
  · exact sound.kept.cut List.prefix_rfl sound.kept.among behind
  · intro _ attachment other _ _ beneath
    exact beneath.cut

theorem storePackBlob_ensures (sound : SoundAt sha256 blob.startOffset sink)
    (finishing : Finishing sha256 sink blob) {active : ActiveCandidate}
    (busy : sink.active = some active)
    (whole : Whole sink.connection.database.blobs sink.payloadPack
      sink.payloadPack.bytes.length blob) (expectedEnd : Nat) :
    Ensures (storePackBlob sha256 blob (sha256 blob.hashed) expectedEnd) sink
      (fun _ next => Sound sha256 next ∧ SameOpen sink next) (fun _ => Fine sha256) := by
  have settled := finishing.settle sound
  refine .get_bind ?_
  split
  case h_1 stored found =>
    refine .attempt_bind (fun _ _ => ?_) fun _ _ => settled.fine
    refine .bind ((verifyStoredBlob_ensures sound.kept (List.mem_of_find?_eq_some found) _).mono
      (fun _ _ moved => moved) fun _ _ same => same ▸ settled.fine) ?_
    intro _ _ moved
    obtain ⟨position, rfl⟩ := moved
    exact truncate_sound sound finishing.free whole.behind position
  case h_2 absent =>
    refine insertBlob_sound sound finishing.free busy whole.stored ?_ ?_ finishing.inside
    · intro other member offset at_
      obtain rfl := Option.some.inj at_
      exact whole.behind other member
    · intro full attachment other there written beneath
      -- an empty row is not put above an attachment
      rcases Nat.eq_zero_or_pos blob.bytes with empty | longer
      · rcases finishing.spare full empty with alone | known
        · rw [alone attachment there] at written
          cases written
        · obtain ⟨row, member, hash⟩ := List.any_eq_true.mp known
          exact absurd hash (List.find?_eq_none.mp absent row member)
      · have reaches := whole.reaches
        exact beneath.past (by omega)

theorem finishPackBlob_ensures (sound : SoundAt sha256 blob.startOffset sink)
    (finishing : Finishing sha256 sink blob) {active : ActiveCandidate}
    (busy : sink.active = some active) (pack : blob.inline = none) :
    Ensures (finishPackBlob sha256 blob) sink
      (fun _ next => Sound sha256 next ∧ SameOpen sink next) (fun _ => Fine sha256) := by
  have settled := finishing.settle sound
  refine .attempt_bind (fun expectedEnd added => ?_) fun _ _ => settled.fine
  refine .get_bind (.attempt_bind (fun _ reached => ?_) fun _ _ => settled.fine)
  obtain ⟨rfl, -⟩ := checkedAdd_eq_some.mp (okOr_eq_ok.mp added)
  rw [refuse_eq_ok, sound.cursor, not_not] at reached
  rcases finishing.beneath pack with whole | beyond
  · exact .bind (storePackBlob_ensures sound finishing busy whole _)
      fun _ _ done => .of_pure done
  · omega

/-- A row out of the pack changes nothing there. -/
theorem Beneath.push_inline {rows : List BlobRow} {file : PackFile} {limit : Nat}
    (beneath : Beneath rows file limit blob) {row : BlobRow} (outside : row.packOffset = none) :
    Beneath (rows ++ [row]) file limit blob := by
  refine beneath.imp_left fun whole => ⟨whole.length, fun other member => ?_, whole.start,
    whole.inside, whole.content⟩
  rcases List.mem_append.mp member with member | member
  · exact whole.behind other member
  · intro offset at_
    rw [List.mem_singleton.mp member, outside] at at_
    cases at_

theorem finishInlineBlob_ensures (sound : Sound sha256 sink)
    (free : sink.captureMode.isBounded = false → sink.property = none)
    {active : ActiveCandidate} (busy : sink.active = some active) (blob : BlobWriter)
    (data : Bytes) :
    Ensures (finishInlineBlob sha256 blob data) sink
      (fun _ next => Sound sha256 next ∧ SameOpen sink next) (fun _ => Fine sha256) := by
  refine .attempt_bind (fun _ _ => ?_) fun _ _ => sound.fine
  refine .bind ?_ fun _ _ done => .of_pure done
  refine .get_bind ?_
  split
  case h_1 =>
    refine .attempt_bind (fun _ _ => ?_) fun _ _ => sound.fine
    refine (verifyInlineBlob_ensures _ _).mono ?_ fun _ _ same => same ▸ sound.fine
    rintro _ _ rfl
    exact ⟨sound, rfl, rfl, rfl, rfl⟩
  case h_2 =>
    refine .bind (insertBlob_sound sound free busy (fun _ at_ => by cases at_)
      (fun _ _ _ at_ => by cases at_) ?_ ?_) fun _ next done => ?_
    · intro full attachment other _ _ beneath
      rw [attachmentLimit, free full] at beneath
      exact beneath.push_inline rfl
    · intro full
      rw [attachmentLimit, free full]
      exact le_rfl
    · refine (execute_sound done.1 fun database changed => ?_).mono
        (fun _ last kept => ⟨kept.1, done.2.trans kept.2⟩) fun _ _ fine => fine
      simp only [Database.insertInlineBlob, bind_eq_ok] at changed
      obtain ⟨_, -, _, -, changed⟩ := changed
      rw [← Except.ok.inj changed]

theorem finishBlob_ensures (sound : SoundAt sha256 blob.startOffset sink)
    (finishing : Finishing sha256 sink blob) {active : ActiveCandidate}
    (busy : sink.active = some active) (expected : Option Nat) :
    Ensures (finishBlob sha256 blob expected) sink
      (fun _ next => Sound sha256 next ∧ SameOpen sink next) (fun _ => Fine sha256) := by
  have settled := finishing.settle sound
  refine .attempt_bind (fun _ _ => ?_) fun _ _ => settled.fine
  split
  case h_1 data _ => exact finishInlineBlob_ensures settled finishing.free busy blob data
  case h_2 pack => exact finishPackBlob_ensures sound finishing busy pack

end Finish

end PstForge.Job
