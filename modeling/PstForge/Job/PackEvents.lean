import PstForge.Job.PackBlobs

/-! # What the events of a message keep of the pack

Between the start and the end of a message, properties and attachments are written and
finished. The pack is cut when a property is given up, and where the bytes stay out of
the pack this cuts at its beginning. Values are not written into each other's midst.
-/

namespace PstForge.Job

open PstForge.Foundation PstForge.Catalog

variable {sha256 : Bytes → Bytes} {sink : DurableCatalogSink}

section Open

/-- An open property that is let go of. -/
theorem Sound.close (sound : Sound sha256 sink) {property : ActiveProperty}
    (there : sink.property = some property) :
    SoundAt sha256 property.blob.startOffset { sink with property := none } := by
  have limit : attachmentLimit sink = property.blob.startOffset := by
    rw [attachmentLimit, there]
    rfl
  have attached := sound.attachment
  rw [limit] at attached
  refine ⟨sound.kept, sound.cursor, sound.atEnd, sound.batch, fun _ gone => ?_, attached⟩
  cases gone

theorem Sound.dropProperty (sound : Sound sha256 sink) :
    Sound sha256 { sink with property := none } := by
  cases there : sink.property with
  | none =>
      have same : ({ sink with property := none } : DurableCatalogSink) = sink := by
        rw [← there]
      rw [same]
      exact sound
  | some property =>
      refine (sound.close there).settle (fun _ => rfl) fun full => ?_
      obtain ⟨captured, whole, -⟩ := sound.property property there
      exact (whole (captured_full captured full)).start

theorem Sound.dropAttachment (sound : Sound sha256 sink) (limit : Nat) :
    SoundAt sha256 limit { sink with attachment := none } :=
  ⟨sound.kept, sound.cursor, sound.atEnd, sound.batch, sound.property, fun _ gone => nomatch gone⟩

theorem newBlobWriter_ensures (sound : Sound sha256 sink) :
    Ensures newBlobWriter sink
      (fun blob next => next = sink ∧ blob.bytes = 0 ∧
        blob.inline.isSome = sink.captureMode.isBounded ∧
        (blob.inline = none → blob.startOffset = sink.payloadPack.bytes.length ∧
          Whole sink.connection.database.blobs sink.payloadPack
            sink.payloadPack.bytes.length blob))
      (fun _ => Fine sha256) := by
  refine .get_bind ?_
  split
  case h_1 mode =>
    refine .of_pure ⟨rfl, rfl, by rw [mode]; rfl, fun _ => ?_⟩
    rw [sound.cursor]
    exact ⟨rfl, .new sound.kept.ahead⟩
  case h_2 _ _ mode => exact .of_pure ⟨rfl, rfl, by rw [mode]; rfl, fun pack => nomatch pack⟩

theorem recordEvent_ensures (sound : Sound sha256 sink) (kind : String) (detail : EventDetail)
    (blob : Option BlobRef) :
    Ensures (recordEvent kind detail blob) sink
      (fun _ next => Sound sha256 next ∧ SameOpen sink next) (fun _ => Fine sha256) := by
  refine .get_bind (.attempt_bind (fun active busy => ?_) fun _ _ => sound.fine)
  refine .attempt_bind (fun sequence _ => .modify_bind ?_) fun _ _ => sound.fine
  replace busy := okOr_eq_ok.mp busy
  have shape := sound.batch
  unfold BatchShape at shape
  rw [busy] at shape
  have counted : Sound sha256 { sink with active := some { active with sequence } } :=
    ⟨sound.kept, sound.cursor, sound.atEnd, shape,
      fun property there => ⟨(sound.property property there).1, (sound.property property there).2.1,
        fun _ => rfl⟩,
      fun attachment there => ⟨rfl, (sound.attachment attachment there).2⟩⟩
  refine (execute_sound counted fun database changed => ?_).mono (fun _ next done => ?_)
    fun _ _ fine => fine
  · simp only [Database.insertEvent, bind_eq_ok] at changed
    obtain ⟨_, -, _, -, changed⟩ := changed
    rw [← Except.ok.inj changed]
  · refine ⟨done.1, ?_, done.2.property, done.2.attachment, done.2.captureMode⟩
    rw [done.2.active, busy]
    rfl

theorem takeDirectBlobIdIf_ensures (sound : Sound sha256 sink) (streamed : Bool) :
    Ensures (takeDirectBlobIdIf streamed) sink
      (fun _ next => Sound sha256 next ∧ SameOpen sink next) (fun _ => Fine sha256) := by
  unfold takeDirectBlobIdIf
  split
  · refine .bind (M := fun _ next => Sound sha256 next ∧ SameOpen sink next) ?_
      fun _ _ done => .of_pure done
    refine .get_bind (.attempt_bind (fun next _ => .modify_bind (.of_pure ⟨?_, rfl, rfl, rfl, rfl⟩))
      fun _ _ => sound.fine)
    exact ⟨sound.kept, sound.cursor, sound.atEnd, sound.batch, sound.property, sound.attachment⟩
  · exact .of_pure ⟨sound, rfl, rfl, rfl, rfl⟩

end Open

section Write

theorem Beneath.grow {rows : List BlobRow} {file : PackFile} {blob : BlobWriter}
    (beneath : Beneath rows file file.bytes.length blob)
    (atEnd : file.offset = file.bytes.length) (data : Bytes) :
    Beneath rows (file.write data) (file.write data).bytes.length
      { blob with hashed := blob.hashed ++ data, bytes := blob.bytes + data.length } := by
  refine beneath.imp (fun whole => whole.grow atEnd data) fun beyond => ?_
  rw [PackFile.write_bytes atEnd, List.length_append]
  dsimp only
  omega

/-- What writing on a blob does. -/
inductive Writes (sink : DurableCatalogSink) (blob : BlobWriter) (data : Bytes) :
    BlobWriter → DurableCatalogSink → Prop
  | inline {kept : Bytes} (pack : blob.inline = some kept) (total : Nat) :
      Writes sink blob data
        { blob with inline := some (kept ++ data), hashed := blob.hashed ++ data, bytes := total }
        sink
  | pack (pack : blob.inline = none) (life : Option Nat) :
      Writes sink blob data
        { blob with hashed := blob.hashed ++ data, bytes := blob.bytes + data.length }
        { sink with
          payloadPack := sink.payloadPack.write data
          payloadPackPosition := (sink.payloadPack.write data).bytes.length
          life }

theorem writeBlob_ensures (sound : Sound sha256 sink) (blob : BlobWriter) (data : Bytes) :
    Ensures (writeBlob blob data) sink (Writes sink blob data) (fun _ => Fine sha256) := by
  unfold writeBlob
  split
  case h_1 kept inline =>
    exact .attempt_bind (fun total _ => .of_pure (.inline inline total)) fun _ _ => sound.fine
  case h_2 pack =>
    refine .get_bind (.attempt_bind (fun _ small => ?_) fun _ _ => sound.fine)
    rw [refuse_eq_ok, Nat.not_lt] at small
    refine .bind ((touchPack_ensures sink _).mono (fun _ _ written => written)
      fun _ _ stuck => sound.kept.killed stuck) ?_
    intro _ _ written
    obtain ⟨life, rfl⟩ := written
    have length : (sink.payloadPack.write data).bytes.length =
        sink.payloadPack.bytes.length + data.length := by
      rw [PackFile.write_bytes sound.atEnd, List.length_append]
    refine .get_bind (.attempt_bind (fun position added => ?_) fun error failed => ?_)
    · obtain ⟨rfl, -⟩ := checkedAdd_eq_some.mp (okOr_eq_ok.mp added)
      refine .modify_bind (.of_pure ?_)
      have done : Writes sink blob data _ _ := .pack pack life
      rw [length, ← sound.cursor] at done
      exact done
    · -- a file cannot be as long as the counter could overflow
      have cursor := sound.cursor
      have atEnd := sound.atEnd
      have fits : checkedAdd 64 sink.payloadPackPosition data.length =
          some (sink.payloadPackPosition + data.length) := by
        refine checkedAdd_eq_some.mpr ⟨rfl, ?_⟩
        simp only [maxFileSize] at small
        simp only [wordCount]
        omega
      simp only [fits, okOr_some] at failed
      cases failed

/-- A property that is written on. -/
theorem Writes.property (sound : Sound sha256 sink) {property : ActiveProperty}
    (there : sink.property = some property) {data : Bytes} {blob : BlobWriter}
    {next : DurableCatalogSink} (writes : Writes sink property.blob data blob next) :
    Sound sha256 { next with property := some { property with blob } } := by
  obtain ⟨captured, whole, owned⟩ := sound.property property there
  have limit : attachmentLimit sink = property.blob.startOffset := by
    rw [attachmentLimit, there]
    rfl
  cases writes with
  | inline inline total =>
      refine ⟨sound.kept, sound.cursor, sound.atEnd, sound.batch, fun other same => ?_,
        fun attachment attached => ?_⟩
      · obtain rfl := Option.some.inj same
        rw [inline] at captured
        refine ⟨captured, fun pack => ?_, owned⟩
        cases pack
      · have opened := sound.attachment attachment attached
        rw [limit] at opened
        exact opened
  | pack pack life =>
      have whole := whole pack
      refine ⟨sound.kept.write sound.atEnd data, rfl, ?_, sound.batch, fun other same => ?_,
        fun attachment attached => ?_⟩
      · dsimp only
        rw [PackFile.write_bytes sound.atEnd, List.length_append, ← sound.atEnd]
        rfl
      · obtain rfl := Option.some.inj same
        exact ⟨captured, fun _ => whole.grow sound.atEnd data, owned⟩
      · obtain ⟨busy, opened⟩ := sound.attachment attachment attached
        refine ⟨busy, fun other written => ⟨(opened other written).1, fun inPack => ?_⟩⟩
        have beneath := (opened other written).2 inPack
        rw [limit] at beneath
        exact beneath.imp_left fun under => under.write sound.atEnd data

/-- An attachment that is written on, while no property is open in the pack. -/
theorem Writes.attachment (sound : Sound sha256 sink) {attachment : ActiveAttachment}
    (there : sink.attachment = some attachment)
    (free : sink.captureMode.isBounded = false → sink.property = none)
    {blob : BlobWriter} (captured : blob.inline.isSome = sink.captureMode.isBounded)
    (beneath : blob.inline = none → Beneath sink.connection.database.blobs sink.payloadPack
      sink.payloadPack.bytes.length blob)
    {data : Bytes} {written : BlobWriter} {next : DurableCatalogSink}
    (writes : Writes sink blob data written next) :
    Sound sha256 { next with attachment := some { attachment with blob := some written } } := by
  have busy := (sound.attachment attachment there).1
  cases writes with
  | inline inline total =>
      refine ⟨sound.kept, sound.cursor, sound.atEnd, sound.batch, sound.property,
        fun other same => ?_⟩
      obtain rfl := Option.some.inj same
      refine ⟨busy, fun last same => ?_⟩
      obtain rfl := Option.some.inj same
      rw [inline] at captured
      exact ⟨captured, fun pack => nomatch pack⟩
  | pack pack life =>
      have full : sink.captureMode.isBounded = false := by
        rw [← captured, pack]
        rfl
      have none := free full
      refine ⟨sound.kept.write sound.atEnd data, rfl, ?_, sound.batch, fun property some => ?_,
        fun other same => ?_⟩
      · dsimp only
        rw [PackFile.write_bytes sound.atEnd, List.length_append, ← sound.atEnd]
        rfl
      · rw [none] at some
        cases some
      · obtain rfl := Option.some.inj same
        refine ⟨busy, fun last same => ?_⟩
        obtain rfl := Option.some.inj same
        refine ⟨captured, fun _ => ?_⟩
        rw [attachmentLimit, none]
        exact (beneath pack).grow sound.atEnd data

end Write

section Property

theorem handlePropertyStart_ensures (sound : Sound sha256 sink)
    (descriptor : PropertyDescriptor) :
    Ensures (handlePropertyStart descriptor) sink (fun _ => Fine sha256) (fun _ =>
      Fine sha256) := by
  refine .get_bind (.attempt_bind (fun _ closed => ?_) fun _ _ => sound.fine)
  refine .attempt_bind (fun _ valid => .modify_bind ?_) fun _ _ => sound.fine
  have cleared : Sound sha256 { sink with pendingNamedProperty := none } :=
    ⟨sound.kept, sound.cursor, sound.atEnd, sound.batch, sound.property, sound.attachment⟩
  refine .attempt_bind (fun _ _ => ?_) fun _ _ => cleared.fine
  refine .bind (newBlobWriter_ensures cleared) ?_
  intro blob _ opened
  obtain ⟨rfl, -, captured, whole⟩ := opened
  refine .of_modify (Sound.fine ⟨sound.kept, sound.cursor, sound.atEnd, sound.batch,
    fun property same => ?_, fun attachment there => ?_⟩)
  · obtain rfl := Option.some.inj same
    refine ⟨captured, fun pack => (whole pack).2, fun recorded => ?_⟩
    dsimp only at recorded ⊢
    cases owner : descriptor.owner <;>
      simp only [owner, validatePropertyOwner, PropertyOwner.isFolder, Bool.not_true,
        bind_eq_ok] at valid recorded
    case folder => cases recorded
    all_goals cases busy : sink.active <;> simp_all [requireMessage]
  · obtain ⟨busy, rests⟩ := sound.attachment attachment there
    refine ⟨busy, fun other written => ⟨(rests other written).1, fun pack => ?_⟩⟩
    have beneath := (rests other written).2 pack
    have full : sink.captureMode.isBounded = false := by
      rw [← (rests other written).1, pack]
      rfl
    rw [refuse_eq_ok, not_not] at closed
    rw [attachmentLimit, closed] at beneath
    have start := (whole (captured_full captured full)).1
    rw [attachmentLimit]
    dsimp only [Option.map_some, Option.getD_some]
    rw [start]
    exact beneath

theorem handlePropertyData_ensures (sound : Sound sha256 sink)
    (descriptor : PropertyDescriptor) (bytes : Bytes) :
    Ensures (handlePropertyData descriptor bytes) sink (fun _ => Fine sha256)
      (fun _ => Fine sha256) := by
  refine .get_bind (.attempt_bind (fun property there => ?_) fun _ _ => sound.fine)
  refine .attempt_bind (fun _ _ => ?_) fun _ _ => sound.fine
  refine .bind (writeBlob_ensures sound _ _) fun blob next writes => .of_modify ?_
  exact (writes.property sound (okOr_eq_ok.mp there)).fine

/-- The pack is cut back to the start of a property that is let go of. -/
theorem cutProperty_ensures {property : ActiveProperty}
    (sound : SoundAt sha256 property.blob.startOffset sink) (closed : sink.property = none)
    (behind : ∀ row ∈ sink.connection.database.blobs, Ahead property.blob.startOffset row)
    (reason : Text) (record : Bool) :
    Ensures (cutProperty property reason record) sink
      (fun _ next => Sound sha256 next ∧ SameOpen sink next) (fun _ => Fine sha256) := by
  refine .bind (truncate_sound sound (fun _ => closed) behind sink.payloadPack.offset) ?_
  intro _ next cut
  split
  · refine (recordEvent_ensures cut.1 _ _ _).mono (fun _ last done => ⟨done.1, ?_⟩)
      fun _ _ fine => fine
    exact cut.2.trans done.2
  · exact .of_pure cut

/-- Where the pack may be cut back to the start of the open property: no row of the
ledger reaches beyond it. -/
def CutsBehind (sink : DurableCatalogSink) : Prop :=
  ∀ property, sink.property = some property →
    ∀ row ∈ sink.connection.database.blobs, Ahead property.blob.startOffset row

theorem handlePropertyAbort_ensures (sound : Sound sha256 sink) (behind : CutsBehind sink)
    (descriptor : PropertyDescriptor) (reason : Text) :
    Ensures (handlePropertyAbort descriptor reason) sink (fun _ => Fine sha256)
      (fun _ => Fine sha256) := by
  have dropped := sound.dropProperty
  refine .get_bind (.modify_bind (.attempt_bind (fun property there => ?_)
    fun _ _ => dropped.fine))
  refine .attempt_bind (fun _ _ => ?_) fun _ _ => dropped.fine
  replace there := okOr_eq_ok.mp there
  exact (cutProperty_ensures (sound.close there) rfl (behind property there) reason _).mono
    (fun _ _ done => done.1.fine) fun _ _ fine => fine

/-- An empty value is not recorded in the midst of an attachment, unless the ledger has
it already. -/
def NotInMidst (sha256 : Bytes → Bytes) (sink : DurableCatalogSink) : Prop :=
  ∀ property, sink.property = some property → property.record = true → property.blob.bytes = 0 →
    (∀ attachment, sink.attachment = some attachment → attachment.blob = none) ∨
      sink.connection.database.blobs.any (·.sha256 = sha256 property.blob.hashed) = true

theorem discardBlob_ensures {blob : BlobWriter}
    (sound : SoundAt sha256 blob.startOffset sink)
    (free : sink.captureMode.isBounded = false → sink.property = none)
    (behind : blob.inline = none →
      ∀ row ∈ sink.connection.database.blobs, Ahead blob.startOffset row)
    (settled : Sound sha256 sink) (expected : Nat) :
    Ensures (discardBlob blob expected) sink (fun _ => Fine sha256) (fun _ => Fine sha256) := by
  refine .attempt_bind (fun _ _ => ?_) fun _ _ => settled.fine
  split
  case isTrue pack =>
    exact (truncate_sound sound free (behind (Option.isNone_iff_eq_none.mp pack))
      sink.payloadPack.offset).mono (fun _ _ done => done.1.fine) fun _ _ fine => fine
  case isFalse => exact .of_pure settled.fine

theorem finishProperty_ensures (sound : Sound sha256 sink)
    (spare : sink.captureMode.isBounded = false → NotInMidst sha256 sink)
    (descriptor : PropertyDescriptor) :
    Ensures (finishProperty sha256 descriptor) sink (fun _ => Fine sha256)
      (fun _ => Fine sha256) := by
  have dropped := sound.dropProperty
  refine .get_bind (.modify_bind (.attempt_bind (fun property there => ?_)
    fun _ _ => dropped.fine))
  refine .attempt_bind (fun _ _ => ?_) fun _ _ => dropped.fine
  replace there := okOr_eq_ok.mp there
  have closed := sound.close there
  obtain ⟨captured, whole, owned⟩ := sound.property property there
  split
  case isTrue recorded =>
    obtain ⟨active, busy⟩ := Option.isSome_iff_exists.mp (owned recorded)
    have finishing : Finishing sha256 { sink with property := none } property.blob :=
      ⟨fun _ => rfl, captured, fun pack => .inl (whole pack),
        fun full => spare full property there recorded⟩
    refine .bind (finishBlob_ensures closed finishing busy _) fun blob next done => ?_
    refine .bind (takeDirectBlobIdIf_ensures done.1 _) fun directId last taken => ?_
    exact (recordEvent_ensures taken.1 _ _ _).mono (fun _ _ told => told.1.fine)
      fun _ _ fine => fine
  case isFalse =>
    exact discardBlob_ensures closed (fun _ => rfl) (fun pack => (whole pack).behind) dropped _

end Property

section Attachment

theorem requireAttachment_ensures (what : String) (messageId index : Nat) :
    Ensures (requireAttachment what messageId index) sink
      (fun attachment next => next = sink ∧ sink.attachment = some attachment)
      (fun _ next => next = sink) := by
  refine .get_bind (.attempt_bind (fun _ _ => ?_) fun _ _ => rfl)
  refine .attempt_bind (fun attachment there => ?_) fun _ _ => rfl
  exact .attempt_bind (fun _ _ => .of_pure ⟨rfl, okOr_eq_ok.mp there⟩) fun _ _ => rfl

theorem handleAttachmentStart_ensures (sound : Sound sha256 sink) (messageId : Nat)
    (attachment : Attachment) :
    Ensures (handleAttachmentStart messageId attachment) sink (fun _ => Fine sha256)
      (fun _ => Fine sha256) := by
  refine .get_bind (.attempt_bind (fun _ matched => ?_) fun _ _ => sound.fine)
  refine .attempt_bind (fun _ _ => ?_) fun _ _ => sound.fine
  have busy : sink.active.isSome = true := by
    cases active : sink.active with
    | none => simp [active, requireMessage] at matched
    | some _ => rfl
  refine .bind (recordEvent_ensures sound _ _ _) fun _ next done => .of_modify ?_
  refine Sound.fine ⟨done.1.kept, done.1.cursor, done.1.atEnd, done.1.batch, done.1.property,
    fun other same => ?_⟩
  obtain rfl := Option.some.inj same
  exact ⟨done.2.active.trans busy, fun _ none => nomatch none⟩

theorem handleAttachmentData_ensures (sound : Sound sha256 sink)
    (free : sink.captureMode.isBounded = false → sink.property = none)
    (messageId index : Nat) (bytes : Bytes) :
    Ensures (handleAttachmentData messageId index bytes) sink (fun _ => Fine sha256)
      (fun _ => Fine sha256) := by
  refine .bind (newBlobWriter_ensures sound) ?_
  intro fresh next opened
  obtain ⟨same, -, captured, whole⟩ := opened
  rw [same]
  refine .bind ((requireAttachment_ensures _ _ _).mono (fun _ _ found => found)
    fun _ _ same => same ▸ sound.fine) ?_
  intro attachment next found
  obtain ⟨same, there⟩ := found
  rw [same]
  obtain ⟨busy, rests⟩ := sound.attachment attachment there
  have holds : (attachment.blob.getD fresh).inline.isSome = sink.captureMode.isBounded ∧
      ((attachment.blob.getD fresh).inline = none → Beneath sink.connection.database.blobs
        sink.payloadPack sink.payloadPack.bytes.length (attachment.blob.getD fresh)) := by
    cases written : attachment.blob with
    | none => exact ⟨captured, fun pack => .inl (whole pack).2⟩
    | some blob =>
        refine ⟨(rests blob written).1, fun pack => ?_⟩
        have full : sink.captureMode.isBounded = false := by
          rw [← (rests blob written).1]
          exact congrArg Option.isSome pack
        have beneath := (rests blob written).2 pack
        rw [attachmentLimit, free full] at beneath
        exact beneath
  have started : Sound sha256 { sink with
      attachment := some { attachment with blob := some (attachment.blob.getD fresh) } } := by
    refine ⟨sound.kept, sound.cursor, sound.atEnd, sound.batch, sound.property,
      fun other same => ?_⟩
    obtain rfl := Option.some.inj same
    refine ⟨busy, fun last same => ?_⟩
    obtain rfl := Option.some.inj same
    refine ⟨holds.1, fun pack => ?_⟩
    have none := free (by rw [← holds.1, pack]; rfl)
    rw [attachmentLimit]
    dsimp only
    rw [none]
    exact holds.2 pack
  refine .modify_bind (.bind (writeBlob_ensures started _ _) fun written next writes =>
    .of_modify ?_)
  exact (Writes.attachment started rfl free holds.1 holds.2 writes).fine

theorem finishAttachment_ensures (sound : Sound sha256 sink)
    (free : sink.captureMode.isBounded = false → sink.property = none) (complete : Bool) :
    Ensures (finishAttachment sha256 complete) sink
      (fun _ next => Sound sha256 next ∧ next.attachment = none ∧
        next.property = sink.property ∧ next.active.isSome = sink.active.isSome)
      (fun _ => Fine sha256) := by
  have dropped := sound.dropAttachment
  refine .get_bind (.modify_bind ?_)
  have recorded : ∀ {next : DurableCatalogSink}, Sound sha256 next →
      SameOpen { sink with attachment := none } next → ∀ kind detail blob,
      Ensures (recordEvent kind detail blob) next
        (fun _ last => Sound sha256 last ∧ last.attachment = none ∧
          last.property = sink.property ∧ last.active.isSome = sink.active.isSome)
        (fun _ => Fine sha256) := by
    intro next sound same kind detail blob
    refine (recordEvent_ensures sound kind detail blob).mono (fun _ last done => ?_)
      fun _ _ fine => fine
    have both := same.trans done.2
    exact ⟨done.1, both.attachment, both.property, both.active⟩
  have idle : Sound sha256 { sink with attachment := none } := dropped _
  have here : SameOpen { sink with attachment := none } { sink with attachment := none } :=
    ⟨rfl, rfl, rfl, rfl⟩
  split
  case h_1 => exact .of_pure ⟨idle, rfl, rfl, rfl⟩
  case h_2 attachment there =>
    obtain ⟨owned, rests⟩ := sound.attachment attachment there
    obtain ⟨active, busy⟩ := Option.isSome_iff_exists.mp owned
    split
    case h_1 blob written =>
      have finishing : Finishing sha256 { sink with attachment := none } blob := by
        refine ⟨free, (rests blob written).1, fun pack => ?_, fun _ _ => .inl fun _ gone =>
          nomatch gone⟩
        have full : sink.captureMode.isBounded = false := by
          rw [← (rests blob written).1, pack]
          rfl
        have beneath := (rests blob written).2 pack
        rw [attachmentLimit, free full] at beneath
        exact beneath
      refine .bind (finishBlob_ensures (dropped _) finishing busy _) fun ref next done => ?_
      refine .bind (takeDirectBlobIdIf_ensures done.1 _) fun directId last taken => ?_
      exact recorded taken.1 (done.2.trans taken.2) _ _ _
    case h_2 =>
      split
      · exact .of_pure ⟨idle, rfl, rfl, rfl⟩
      · split
        · exact recorded idle here _ _ _
        · split
          · refine .bind (newBlobWriter_ensures idle) ?_
            intro blob next opened
            obtain ⟨same, -, captured, whole⟩ := opened
            rw [same]
            have finishing : Finishing sha256 { sink with attachment := none } blob :=
              ⟨free, captured, fun pack => .inl (whole pack).2, fun _ _ => .inl fun _ gone =>
                nomatch gone⟩
            refine .bind (finishBlob_ensures (dropped _) finishing busy _) fun ref next done => ?_
            exact recorded done.1 done.2 _ _ _
          · split
            · exact .of_throw idle.fine
            · exact recorded idle here _ _ _

end Attachment

end PstForge.Job
