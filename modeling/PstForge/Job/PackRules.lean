import PstForge.Job.Pack

/-! # What the operations of the sink keep of the pack

A sink is sound when every blob of its ledger is kept in the pack, the cursor stands at
the end, the transaction can be taken back to rows that lie ahead of where the pack is
then cut, and the property that is being written is the end of the pack. An attachment
that is being written lies beneath the property, or it cannot be finished any more. A
process that is killed leaves a ledger whose blobs are kept.
-/

namespace PstForge.Job

open PstForge.Foundation PstForge.Catalog

section Primitives

variable (sink : DurableCatalogSink)

/-- An operation did nothing: the process was killed before it, or it failed. -/
def Stuck (failed : Prop) (next : DurableCatalogSink) : Prop :=
  ∃ life, next = { sink with life } ∧ (life = some 0 ∨ failed)

theorem spend_ensures :
    Ensures spend sink (fun _ next => ∃ life, next = { sink with life })
      (fun _ next => next = sink ∧ sink.life = some 0) := by
  refine .get_bind ?_
  split
  case h_1 _ alive => exact .of_pure ⟨none, by rw [← alive]⟩
  case h_2 _ dying => exact .of_throw ⟨rfl, dying⟩
  case h_3 _ left _ => exact ⟨some left, rfl⟩

theorem execute_ensures (change : Database → Except JobError Database) :
    Ensures (execute change) sink
      (fun _ next => ∃ life database, change sink.connection.database = .ok database ∧
        next = { sink with connection := { sink.connection with database }, life })
      (fun error => Stuck sink (change sink.connection.database = .error error)) := by
  refine .bind ((spend_ensures sink).mono (fun _ _ alive => alive) ?_) ?_
  · rintro _ _ ⟨rfl, dying⟩
    exact ⟨_, rfl, .inl dying⟩
  · rintro _ _ ⟨life, rfl⟩
    refine .get_bind (.attempt_bind (fun database changed => ?_) fun error failed => ?_)
    · exact .of_modify ⟨life, database, changed, rfl⟩
    · exact ⟨life, rfl, .inr failed⟩

theorem transact_ensures (statement : Connection → Except JobError Connection) :
    Ensures (transact statement) sink
      (fun _ next => ∃ life connection, statement sink.connection = .ok connection ∧
        next = { sink with connection, life })
      (fun error => Stuck sink (statement sink.connection = .error error)) := by
  refine .bind ((spend_ensures sink).mono (fun _ _ alive => alive) ?_) ?_
  · rintro _ _ ⟨rfl, dying⟩
    exact ⟨_, rfl, .inl dying⟩
  · rintro _ _ ⟨life, rfl⟩
    refine .get_bind (.attempt_bind (fun connection changed => ?_) fun error failed => ?_)
    · exact .of_modify ⟨life, connection, changed, rfl⟩
    · exact ⟨life, rfl, .inr failed⟩

theorem touchPack_ensures (change : PackFile → PackFile) :
    Ensures (touchPack change) sink
      (fun _ next => ∃ life, next = { sink with payloadPack := change sink.payloadPack, life })
      (fun _ => Stuck sink False) := by
  refine .bind ((spend_ensures sink).mono (fun _ _ alive => alive) ?_) ?_
  · rintro _ _ ⟨rfl, dying⟩
    exact ⟨_, rfl, .inl dying⟩
  · rintro _ _ ⟨life, rfl⟩
    exact .of_modify ⟨life, rfl⟩

theorem truncatePayloadPack_ensures (length : Nat) :
    Ensures (truncatePayloadPack length) sink
      (fun _ next => ∃ life, next = { sink with
        payloadPack := (sink.payloadPack.setLen length).seek length
        payloadPackPosition := length
        life })
      (fun _ => Stuck sink False) := by
  refine .bind (touchPack_ensures sink _) ?_
  rintro _ _ ⟨life, rfl⟩
  exact .of_modify ⟨life, rfl⟩

end Primitives

section Blobs

/-- The bytes of a blob lie in the pack between its start and a limit, behind all rows. -/
structure Whole (rows : List BlobRow) (file : PackFile) (limit : Nat) (blob : BlobWriter) :
    Prop where
  length : blob.bytes = blob.hashed.length
  behind : ∀ row ∈ rows, Ahead blob.startOffset row
  start : blob.startOffset ≤ limit
  inside : limit ≤ file.bytes.length
  content : (file.bytes.take limit).drop blob.startOffset = blob.hashed

/-- A blob beneath a limit: it is whole, or the limit is out of its reach. -/
def Beneath (rows : List BlobRow) (file : PackFile) (limit : Nat) (blob : BlobWriter) : Prop :=
  Whole rows file limit blob ∨ blob.startOffset + blob.bytes < limit

variable {rows : List BlobRow} {file : PackFile} {limit : Nat} {blob : BlobWriter}

theorem Whole.reaches (whole : Whole rows file limit blob) :
    blob.startOffset + blob.bytes = limit := by
  have count := congrArg List.length whole.content
  rw [List.length_drop, List.length_take] at count
  have := whole.length
  have := whole.start
  have := whole.inside
  omega

/-- Only the bytes before the limit matter. -/
theorem Whole.of_take (whole : Whole rows file limit blob) {other : PackFile}
    (inside : limit ≤ other.bytes.length)
    (same : other.bytes.take limit = file.bytes.take limit) : Whole rows other limit blob where
  length := whole.length
  behind := whole.behind
  start := whole.start
  inside := inside
  content := by
    rw [same]
    exact whole.content

theorem Whole.cut (whole : Whole rows file limit blob) :
    Whole rows ((file.setLen limit).seek limit) limit blob := by
  have length : (file.setLen limit).bytes.length = limit := PackFile.setLen_length limit
  refine whole.of_take length.ge ?_
  have inside := whole.inside
  simp only [PackFile.seek, PackFile.setLen]
  rw [List.take_append_of_le_length (by simp; omega), List.take_take, Nat.min_self]

theorem Beneath.cut (beneath : Beneath rows file limit blob) :
    Beneath rows ((file.setLen limit).seek limit) ((file.setLen limit).seek limit).bytes.length
      blob := by
  have length : ((file.setLen limit).seek limit).bytes.length = limit :=
    PackFile.setLen_length limit
  rw [length]
  exact beneath.imp Whole.cut id

/-- A blob that lies beneath the start of a row is out of reach behind the row. -/
theorem Beneath.past (beneath : Beneath rows file limit blob) {others : List BlobRow}
    {other : PackFile} {further : Nat} (less : limit < further) :
    Beneath others other further blob := by
  right
  rcases beneath with whole | beyond
  · rw [whole.reaches]
    exact less
  · omega

theorem Whole.write (whole : Whole rows file limit blob)
    (atEnd : file.offset = file.bytes.length) (data : Bytes) :
    Whole rows (file.write data) limit blob := by
  have inside := whole.inside
  refine whole.of_take ?_ ?_
  · rw [PackFile.write_bytes atEnd, List.length_append]
    omega
  · rw [PackFile.write_bytes atEnd, List.take_append_of_le_length inside]

/-- A blob at the end of the pack that is written on. -/
theorem Whole.grow (whole : Whole rows file file.bytes.length blob)
    (atEnd : file.offset = file.bytes.length) (data : Bytes) :
    Whole rows (file.write data) (file.write data).bytes.length
      { blob with hashed := blob.hashed ++ data, bytes := blob.bytes + data.length } where
  length := by
    have := whole.length
    simp only [List.length_append]
    omega
  behind := whole.behind
  start := by
    have := whole.start
    rw [PackFile.write_bytes atEnd, List.length_append]
    exact this.trans (Nat.le_add_right _ _)
  inside := le_rfl
  content := by
    have content := whole.content
    rw [List.take_length] at content ⊢
    rw [PackFile.write_bytes atEnd, List.drop_append_of_le_length whole.start, content]

theorem Whole.sync (whole : Whole rows file limit blob) : Whole rows file.sync limit blob :=
  ⟨whole.length, whole.behind, whole.start, whole.inside, whole.content⟩

/-- A new blob starts at the end of the pack. -/
theorem Whole.new (ahead : ∀ row ∈ rows, Ahead file.bytes.length row) :
    Whole rows file file.bytes.length (.new file.bytes.length) where
  length := rfl
  behind := ahead
  start := le_rfl
  inside := le_rfl
  content := by
    rw [List.take_length]
    exact List.drop_length

theorem captured_full {mode : CatalogCaptureMode}
    (captured : blob.inline.isSome = mode.isBounded) (full : mode.isBounded = false) :
    blob.inline = none := by
  rw [full] at captured
  exact Option.not_isSome_iff_eq_none.mp (by simp [captured])

end Blobs

section Sound

variable (sha256 : Bytes → Bytes)

/-- The transaction of a batch, and the savepoint of an open candidate in it. -/
def BatchShape (sink : DurableCatalogSink) : Prop :=
  match sink.active with
  | some active => sink.batchOpen = true ∧ ∃ begun saved,
      sink.connection.begun = some begun ∧ sink.connection.savepoints = [saved] ∧
      begun.blobs <+: saved.blobs ∧ saved.blobs <+: sink.connection.database.blobs ∧
      (∀ row ∈ begun.blobs, Ahead sink.batchPackStart row) ∧
      ∀ row ∈ saved.blobs, Ahead active.packStart row
  | none => sink.connection.savepoints = [] ∧
      if sink.batchOpen then ∃ begun, sink.connection.begun = some begun ∧
        begun.blobs <+: sink.connection.database.blobs ∧
        ∀ row ∈ begun.blobs, Ahead sink.batchPackStart row
      else sink.connection.begun = none

/-- The blobs of the ledger are kept, with those that outlive a crash among them. -/
def Keeping (rows : List BlobRow) (sink : DurableCatalogSink) : Prop :=
  Kept sha256 rows sink.connection.durable.blobs sink.payloadPack

/-- What a sink is while an attachment that is being written may reach up to a limit. -/
structure SoundAt (limit : Nat) (sink : DurableCatalogSink) : Prop where
  kept : Keeping sha256 sink.connection.database.blobs sink
  cursor : sink.payloadPackPosition = sink.payloadPack.bytes.length
  atEnd : sink.payloadPack.offset = sink.payloadPack.bytes.length
  batch : BatchShape sink
  property : ∀ property, sink.property = some property →
    property.blob.inline.isSome = sink.captureMode.isBounded ∧
    (property.blob.inline = none → Whole sink.connection.database.blobs sink.payloadPack
      sink.payloadPack.bytes.length property.blob) ∧
    (property.record = true → sink.active.isSome = true)
  attachment : ∀ attachment, sink.attachment = some attachment → sink.active.isSome = true ∧
    ∀ blob, attachment.blob = some blob → blob.inline.isSome = sink.captureMode.isBounded ∧
      (blob.inline = none →
        Beneath sink.connection.database.blobs sink.payloadPack limit blob)

/-- An attachment may reach up to the open property, or to the end of the pack. -/
def attachmentLimit (sink : DurableCatalogSink) : Nat :=
  (sink.property.map fun property => property.blob.startOffset).getD
    sink.payloadPack.bytes.length

def Sound (sink : DurableCatalogSink) : Prop := SoundAt sha256 (attachmentLimit sink) sink

/-- However an operation ends: what outlives a crash is kept, and a process that lives
on has a sound sink. -/
def Fine (sink : DurableCatalogSink) : Prop :=
  (∃ rows, Keeping sha256 rows sink) ∧ (sink.life ≠ some 0 → Sound sha256 sink)

variable {sha256}

section

variable {sink : DurableCatalogSink} {limit : Nat}

theorem Sound.fine (sound : Sound sha256 sink) : Fine sha256 sink :=
  ⟨⟨_, sound.kept⟩, fun _ => sound⟩

theorem SoundAt.revive (sound : SoundAt sha256 limit sink) (life : Option Nat) :
    SoundAt sha256 limit { sink with life } :=
  ⟨sound.kept, sound.cursor, sound.atEnd, sound.batch, sound.property, sound.attachment⟩

theorem Sound.revive (sound : Sound sha256 sink) (life : Option Nat) :
    Sound sha256 { sink with life } := SoundAt.revive sound life

theorem Sound.stuck {failed : Prop} {next : DurableCatalogSink} (sound : Sound sha256 sink)
    (stuck : Stuck sink failed next) : Fine sha256 next := by
  obtain ⟨life, rfl, -⟩ := stuck
  exact (sound.revive life).fine

/-- A process that is killed leaves what was kept. -/
theorem Keeping.killed {rows : List BlobRow} {next : DurableCatalogSink}
    (keeping : Keeping sha256 rows sink) (stuck : Stuck sink False next) : Fine sha256 next := by
  obtain ⟨life, rfl, dying | failed⟩ := stuck
  · exact ⟨⟨rows, keeping⟩, fun alive => absurd dying alive⟩
  · exact failed.elim

end

theorem Connection.durable_blobs {connection : Connection} {database : Database}
    (same : database.blobs = connection.database.blobs) :
    ({ connection with database } : Connection).durable.blobs = connection.durable.blobs := by
  unfold Connection.durable
  cases connection.begun with
  | some begun => rfl
  | none =>
      cases connection.savepoints.getLast? with
      | some saved => rfl
      | none => exact same

/-- Within a transaction, statements change nothing that outlives a crash. -/
theorem Connection.durable_execute {connection : Connection} {begun : Database}
    (isBegun : connection.begun = some begun) (database : Database) :
    ({ connection with database } : Connection).durable = connection.durable := by
  simp [Connection.durable, isBegun]

/-- What is open stays the same. -/
structure SameOpen (sink next : DurableCatalogSink) : Prop where
  active : next.active.isSome = sink.active.isSome
  property : next.property = sink.property
  attachment : next.attachment = sink.attachment
  captureMode : next.captureMode = sink.captureMode

theorem SameOpen.trans {sink next last : DurableCatalogSink} (first : SameOpen sink next)
    (second : SameOpen next last) : SameOpen sink last where
  active := second.active.trans first.active
  property := second.property.trans first.property
  attachment := second.attachment.trans first.attachment
  captureMode := second.captureMode.trans first.captureMode

/-- Where no property is being written in the pack, only the rows, the pack and what an
attachment has there matter. -/
theorem SoundAt.change {sink next : DurableCatalogSink} {limit : Nat}
    (sound : SoundAt sha256 limit sink)
    (free : sink.captureMode.isBounded = false → sink.property = none)
    (same : SameOpen sink next)
    (kept : Keeping sha256 next.connection.database.blobs next)
    (cursor : next.payloadPackPosition = next.payloadPack.bytes.length)
    (atEnd : next.payloadPack.offset = next.payloadPack.bytes.length) (batch : BatchShape next)
    (moved : sink.captureMode.isBounded = false → ∀ attachment blob,
      sink.attachment = some attachment → attachment.blob = some blob →
      Beneath sink.connection.database.blobs sink.payloadPack limit blob →
      Beneath next.connection.database.blobs next.payloadPack next.payloadPack.bytes.length
        blob) :
    Sound sha256 next where
  kept := kept
  cursor := cursor
  atEnd := atEnd
  batch := batch
  property property there := by
    rw [same.property] at there
    obtain ⟨captured, -, owned⟩ := sound.property property there
    rw [same.captureMode, same.active]
    refine ⟨captured, fun pack => ?_, owned⟩
    rw [pack, Option.isSome_none] at captured
    rw [free captured.symm] at there
    cases there
  attachment attachment there := by
    rw [same.attachment] at there
    obtain ⟨owned, opened⟩ := sound.attachment attachment there
    rw [same.captureMode, same.active]
    refine ⟨owned, fun blob written => ⟨(opened blob written).1, fun pack => ?_⟩⟩
    obtain ⟨captured, beneath⟩ := opened blob written
    rw [pack, Option.isSome_none] at captured
    have none : next.property = none := same.property.trans (free captured.symm)
    rw [attachmentLimit, none]
    exact moved captured.symm attachment blob there written (beneath pack)

/-- Once no property is open any more, an attachment may reach up to the end. -/
theorem SoundAt.settle {sink : DurableCatalogSink} {limit : Nat}
    (sound : SoundAt sha256 limit sink)
    (free : sink.captureMode.isBounded = false → sink.property = none)
    (inside : sink.captureMode.isBounded = false → limit ≤ sink.payloadPack.bytes.length) :
    Sound sha256 sink := by
  refine sound.change free ⟨rfl, rfl, rfl, rfl⟩ sound.kept sound.cursor sound.atEnd sound.batch ?_
  intro full attachment blob _ _ beneath
  rcases Nat.lt_or_eq_of_le (inside full) with less | rfl
  · exact beneath.past less
  · exact beneath

end Sound

section Rows

variable {sha256 : Bytes → Bytes} {sink : DurableCatalogSink}

/-- The rows may be changed while a candidate is open, as they were at its start or
beyond. -/
theorem BatchShape.execute {active : ActiveCandidate} (shape : BatchShape sink)
    (busy : sink.active = some active) {database : Database} {life : Option Nat}
    (grows : sink.connection.database.blobs <+: database.blobs) :
    BatchShape { sink with connection := { sink.connection with database }, life } := by
  unfold BatchShape at shape ⊢
  rw [busy] at shape
  simp only [busy]
  obtain ⟨opened, begun, saved, isBegun, isSaved, earlier, later, behind⟩ := shape
  exact ⟨opened, begun, saved, isBegun, isSaved, earlier, later.trans grows, behind⟩

/-- A statement that leaves the blobs as they are. -/
theorem SoundAt.execute {limit : Nat} (sound : SoundAt sha256 limit sink) {database : Database}
    (life : Option Nat) (same : database.blobs = sink.connection.database.blobs) :
    SoundAt sha256 limit
      { sink with connection := { sink.connection with database }, life } where
  kept := by
    unfold Keeping
    rw [Connection.durable_blobs same, same]
    exact sound.kept
  cursor := sound.cursor
  atEnd := sound.atEnd
  batch := by
    have shape := sound.batch
    unfold BatchShape at shape ⊢
    simp only [same]
    exact shape
  property := by
    simp only [same]
    exact sound.property
  attachment := by
    simp only [same]
    exact sound.attachment

theorem execute_sound (sound : Sound sha256 sink) {change : Database → Except JobError Database}
    (same : ∀ database, change sink.connection.database = .ok database →
      database.blobs = sink.connection.database.blobs) :
    Ensures (Job.execute change) sink
      (fun _ next => Sound sha256 next ∧ SameOpen sink next) (fun _ => Fine sha256) := by
  refine (execute_ensures sink change).mono ?_ fun error next stuck => sound.stuck stuck
  intro _ _ changed
  obtain ⟨life, database, changed, rfl⟩ := changed
  exact ⟨SoundAt.execute sound life (same database changed), rfl, rfl, rfl, rfl⟩

end Rows

end PstForge.Job
