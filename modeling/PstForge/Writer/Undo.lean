import PstForge.Writer.Growth

/-! # Undoing appends and batches

A failed append, a projection and a rolled-back batch are undone from checkpoints
of lengths and counters. Here every operation of the writer is followed through
both of its ends: the writer has only grown, and where something was undone it is
the writer it was before, provided that no new named property came in between. The
checkpoints do not cover the list of named properties.
-/

namespace PstForge.Writer

open PstForge.Foundation PstForge.Ndb PstForge.Ltp

variable {τ : Type}

section Grown

/-- A folder has only taken in messages. -/
structure FolderGrew (before after : MailFolderSpec) : Prop where
  path : after.path = before.path
  location : after.location = before.location
  role : after.role = before.role
  containerClass : after.containerClass = before.containerClass
  messages : before.messages <+: after.messages
  associatedMessages : before.associatedMessages <+: after.associatedMessages

namespace FolderGrew

theorem refl (folder : MailFolderSpec) : FolderGrew folder folder :=
  ⟨rfl, rfl, rfl, rfl, List.prefix_rfl, List.prefix_rfl⟩

theorem trans {first second third : MailFolderSpec} (left : FolderGrew first second)
    (right : FolderGrew second third) : FolderGrew first third where
  path := right.path.trans left.path
  location := right.location.trans left.location
  role := right.role.trans left.role
  containerClass := right.containerClass.trans left.containerClass
  messages := left.messages.trans right.messages
  associatedMessages := left.associatedMessages.trans right.associatedMessages

theorem add (associated : Bool) (message : MessageSpec) (folder : MailFolderSpec) :
    FolderGrew folder (folder.add associated message) := by
  cases associated with
  | true => exact { refl folder with associatedMessages := List.prefix_append _ _ }
  | false => exact { refl folder with messages := List.prefix_append _ _ }

end FolderGrew

/-- The folders have taken in messages, and further folders may stand behind them. -/
structure FoldersGrew (before after : List MailFolderSpec) : Prop where
  length : before.length ≤ after.length
  folder : ∀ (index : Nat) folder, before[index]? = some folder →
    ∃ grown, after[index]? = some grown ∧ FolderGrew folder grown

namespace FoldersGrew

theorem refl (folders : List MailFolderSpec) : FoldersGrew folders folders :=
  ⟨Nat.le_refl _, fun _ folder found => ⟨folder, found, .refl folder⟩⟩

theorem trans {first second third : List MailFolderSpec} (left : FoldersGrew first second)
    (right : FoldersGrew second third) : FoldersGrew first third := by
  refine ⟨left.length.trans right.length, fun index folder found => ?_⟩
  obtain ⟨middle, foundMiddle, grewFirst⟩ := left.folder index folder found
  obtain ⟨last, foundLast, grewSecond⟩ := right.folder index middle foundMiddle
  exact ⟨last, foundLast, grewFirst.trans grewSecond⟩

theorem add (folders : List MailFolderSpec) (index : Nat) (associated : Bool)
    (message : MessageSpec) :
    FoldersGrew folders (folders.modify index (MailFolderSpec.add associated message)) := by
  refine ⟨by simp, fun position folder found => ?_⟩
  rw [List.getElem?_modify, found]
  split
  · exact ⟨_, rfl, .add associated message folder⟩
  · exact ⟨_, rfl, .refl folder⟩

theorem append (folders observed : List MailFolderSpec) :
    FoldersGrew folders (folders ++ observed) := by
  refine ⟨by simp, fun index folder found => ⟨folder, ?_, .refl folder⟩⟩
  have bound := (List.getElem?_eq_some_iff.mp found).1
  rw [List.getElem?_append_left bound, found]

/-- The recorded lengths bring grown folders back, when none was added. -/
theorem truncate {before after : List MailFolderSpec} (grew : FoldersGrew before after)
    (same : after.length = before.length) :
    truncateFolders (before.map fun folder =>
      (folder.messages.length, folder.associatedMessages.length)) after = before := by
  have cut {β : Type} {short long : List β} (isPrefix : short <+: long) :
      long.take short.length = short := (List.prefix_iff_eq_take.mp isPrefix).symm
  apply List.ext_getElem?
  intro index
  rw [truncateFolders, List.getElem?_map]
  cases found : before[index]? with
  | none =>
      have beyond : before.length ≤ index := List.getElem?_eq_none_iff.mp found
      rw [List.getElem?_eq_none (by simp; omega)]
      rfl
  | some folder =>
      obtain ⟨grown, foundGrown, grew⟩ := grew.folder index folder found
      rw [List.getElem?_zip_eq_some (z := (grown, folder.messages.length,
        folder.associatedMessages.length)) |>.mpr ⟨foundGrown, by simp [found]⟩]
      obtain ⟨path, location, role, containerClass, messages, associated⟩ := grew
      simp only [Option.map_some, cut messages, cut associated, path, location, role,
        containerClass]

/-- Taking a message back out leaves the folders as they were. -/
theorem pop_add (folders : List MailFolderSpec) (index : Nat) (associated : Bool)
    (message : MessageSpec) :
    (folders.modify index (MailFolderSpec.add associated message)).modify index
      (MailFolderSpec.pop associated) = folders := by
  apply List.ext_getElem?
  intro position
  rw [List.getElem?_modify, List.getElem?_modify]
  have undone : ∀ folder : MailFolderSpec,
      (folder.add associated message).pop associated = folder := by
    intro folder
    cases associated <;> simp [MailFolderSpec.add, MailFolderSpec.pop]
  split
  · cases folders[position]? <;> simp [undone]
  · cases folders[position]? <;> simp

end FoldersGrew

/-- The writer has only grown. -/
structure WriterGrew (before after : TransactionalMailStoreWriter) : Prop where
  storeName : after.spec.storeName = before.spec.storeName
  recordKey : after.spec.recordKey = before.spec.recordKey
  folders : FoldersGrew before.spec.folders after.spec.folders
  namedIdentities : before.namedIdentities <+: after.namedIdentities
  dynamicNamedProperties : after.dynamicNamedProperties = before.dynamicNamedProperties
  messageStream : Extends before.messageStream after.messageStream
  preserveEmptyFolders : after.preserveEmptyFolders = before.preserveEmptyFolders

namespace WriterGrew

theorem refl (writer : TransactionalMailStoreWriter) : WriterGrew writer writer :=
  ⟨rfl, rfl, .refl _, List.prefix_rfl, rfl, .refl _, rfl⟩

theorem trans {first second third : TransactionalMailStoreWriter} (left : WriterGrew first second)
    (right : WriterGrew second third) : WriterGrew first third where
  storeName := right.storeName.trans left.storeName
  recordKey := right.recordKey.trans left.recordKey
  folders := left.folders.trans right.folders
  namedIdentities := left.namedIdentities.trans right.namedIdentities
  dynamicNamedProperties := right.dynamicNamedProperties.trans left.dynamicNamedProperties
  messageStream := left.messageStream.trans right.messageStream
  preserveEmptyFolders := right.preserveEmptyFolders.trans left.preserveEmptyFolders

end WriterGrew

end Grown

section Names

/-- Every named property of a message is one that the writer has numbered already,
or the writer numbers no new ones. -/
def NamesKnown (writer : TransactionalMailStoreWriter) (message : MessageSpec) : Prop :=
  writer.dynamicNamedProperties = false ∨
    ∀ identity ∈ collectNamedIdentities message, identity ∈ writer.namedIdentities

/-- The list of named properties has grown, and only by identities it did not have. -/
def Numbered (known : Prop) (before after : Transaction τ) : Prop :=
  ∃ identities, after = { before with writer := { before.writer with
      namedIdentities := identities } } ∧
    before.writer.namedIdentities <+: identities ∧
    (known → identities = before.writer.namedIdentities)

theorem Numbered.refl (known : Prop) (transaction : Transaction τ) :
    Numbered known transaction transaction :=
  ⟨transaction.writer.namedIdentities, rfl, List.prefix_rfl, fun _ => rfl⟩

theorem namedIdentityIndex_isSome {identities : List NamedIdentity} {identity : NamedIdentity} :
    (namedIdentityIndex identities identity).isSome = true ↔ identity ∈ identities := by
  simp [namedIdentityIndex, List.findIdx?_isSome]

theorem pushIdentity_ensures (identity : NamedIdentity) (transaction : Transaction τ) :
    Ensures (pushIdentity identity) transaction
      (fun _ => Numbered (identity ∈ transaction.writer.namedIdentities) transaction)
      (fun _ => Numbered (identity ∈ transaction.writer.namedIdentities) transaction) := by
  refine .get_bind ?_
  dsimp only
  split
  case isTrue => exact .of_pure (.refl _ _)
  case isFalse unknown =>
    rw [namedIdentityIndex_isSome] at unknown
    refine .attempt_bind (fun _ _ => ?_) fun _ _ => .refl _ _
    exact .of_modify ⟨_, rfl, List.prefix_append _ _, fun known => absurd known unknown⟩

theorem pushIdentities_ensures (identities : List NamedIdentity) :
    ∀ transaction : Transaction τ, Ensures (pushIdentities identities) transaction
      (fun _ => Numbered (∀ identity ∈ identities, identity ∈ transaction.writer.namedIdentities)
        transaction)
      (fun _ => Numbered (∀ identity ∈ identities, identity ∈ transaction.writer.namedIdentities)
        transaction) := by
  induction identities with
  | nil => exact fun transaction => .of_pure (.refl _ _)
  | cons identity rest ih =>
      intro transaction
      refine .bind ((pushIdentity_ensures identity transaction).mono (fun _ _ holds => holds) ?_) ?_
      · rintro _ _ ⟨pushed, rfl, grew, same⟩
        exact ⟨pushed, rfl, grew, fun known => same (known identity List.mem_cons_self)⟩
      · rintro _ _ ⟨pushed, rfl, grew, same⟩
        have carry : ∀ next : Transaction τ, Numbered (∀ identity ∈ rest, identity ∈ pushed)
              { transaction with writer := { transaction.writer with namedIdentities := pushed } }
              next →
            Numbered (∀ known ∈ identity :: rest, known ∈ transaction.writer.namedIdentities)
              transaction next := by
          rintro _ ⟨more, rfl, grewMore, sameMore⟩
          refine ⟨more, rfl, grew.trans grewMore, fun known => ?_⟩
          have pushedSame := same (known identity List.mem_cons_self)
          rw [sameMore fun other member => ?_, pushedSame]
          rw [pushedSame]
          exact known other (List.mem_cons_of_mem _ member)
        exact (ih _).mono (fun _ => carry) fun _ => carry

theorem prepareNamedIdentities_ensures (message : MessageSpec) (transaction : Transaction τ) :
    Ensures (prepareNamedIdentities message) transaction
      (fun _ => Numbered (NamesKnown transaction.writer message) transaction)
      (fun _ => Numbered (NamesKnown transaction.writer message) transaction) := by
  refine .get_bind ?_
  dsimp only
  split
  case isTrue dynamic =>
    have weaken : ∀ next : Transaction τ,
        Numbered (∀ identity ∈ collectNamedIdentities message,
            identity ∈ transaction.writer.namedIdentities) transaction next →
          Numbered (NamesKnown transaction.writer message) transaction next := by
      rintro _ ⟨identities, rfl, grew, same⟩
      refine ⟨identities, rfl, grew, fun known => same ?_⟩
      rcases known with static | known
      · rw [dynamic] at static; cases static
      · exact known
    exact (pushIdentities_ensures _ transaction).mono (fun _ => weaken) fun _ => weaken
  case isFalse => exact .of_attempt (fun _ _ => .refl _ _) fun _ _ => .refl _ _

end Names

section Append

variable (around : Surroundings τ) (accepts : MessageSpec → Except WriterError Unit)

/-- Cutting the private file back never fails. -/
def Truncates : Prop := ∀ now, around.truncateFault now = none

/-- A message that passes validation brings no new named property. -/
def Known (writer : TransactionalMailStoreWriter) (message : MessageSpec) : Prop :=
  accepts message = .ok () → NamesKnown writer message

/-- The writer has grown, and its named properties are the same where they are known. -/
structure Offered (known : Prop) (before after : TransactionalMailStoreWriter) : Prop where
  grew : WriterGrew before after
  layout : after.spec.folders.length = before.spec.folders.length
  names : known → after.namedIdentities = before.namedIdentities

theorem Offered.refl (known : Prop) (writer : TransactionalMailStoreWriter) :
    Offered known writer writer := ⟨.refl writer, rfl, fun _ => rfl⟩

/-- The writer has grown, and it is the same where the names are known and the file
can be cut back. -/
structure Undone (known : Prop) (before after : TransactionalMailStoreWriter) : Prop
    extends Offered known before after where
  restored : known → Truncates around → after = before

theorem Undone.refl (known : Prop) (writer : TransactionalMailStoreWriter) :
    Undone around known writer writer := ⟨.refl known writer, fun _ _ => rfl⟩

theorem inspect_ensures {α : Type} (program : Live τ α) (transaction : Transaction τ) :
    Ensures (inspect program) transaction (fun _ next => next.writer = transaction.writer)
      (fun _ next => next.writer = transaction.writer) := by
  refine .of_zoom ?_
  unfold Ensures
  split <;> rfl

/-- The writer differs only in its stream, which has grown. -/
def Streamed (before after : TransactionalMailStoreWriter) : Prop :=
  ∃ stream, after = { before with messageStream := stream } ∧ Extends before.messageStream stream

theorem streamFiled_ensures (output : Output) (live : Bool) (key : FolderKey) (associated : Bool)
    (message : MessageSpec) (transaction : Transaction τ) :
    Ensures (streamFiled around output live key associated message) transaction
      (fun _ next => Streamed transaction.writer next.writer)
      (fun _ next => Streamed transaction.writer next.writer) := by
  have same : Streamed transaction.writer transaction.writer := ⟨_, rfl, .refl _⟩
  refine .get_bind (.attempt_bind (fun parent _ => ?_) fun _ _ => same)
  refine .attempt_bind (fun contents _ => ?_) fun _ _ => same
  refine .attempt_bind (fun associatedTable _ => ?_) fun _ _ => same
  refine .of_zoom ((Ensures.of_keeps (streamMessage_growing around output _ _ _ _ _ _ _) _).mono
    ?_ ?_)
  · exact fun _ session grown => ⟨session.stream, rfl, grown⟩
  · exact fun _ session grown => ⟨session.stream, rfl, grown⟩

theorem rollbackMessage_ensures (checkpoint : MessageAppendCheckpoint)
    (transaction : Transaction τ) :
    Ensures (rollbackMessage around checkpoint) transaction
      (fun _ next => next.writer = { transaction.writer with
        messageStream := transaction.writer.messageStream.restore checkpoint })
      (fun _ next => next.writer = transaction.writer ∧ ¬ Truncates around) := by
  refine .bind (M := fun _ next => next.writer = transaction.writer) ?_ ?_
  · refine .of_zoom ?_
    refine .bind (M := fun _ _ => True) trivial fun now session _ => ?_
    refine .of_attempt (fun _ _ => rfl) fun error failed => ⟨rfl, fun truncates => ?_⟩
    rw [truncates now] at failed
    cases failed
  · intro _ next same
    exact .of_modify (by simp only [same])

variable {accepts}

theorem Numbered.undone {message : MessageSpec} {before after : Transaction τ}
    (accepted : accepts message = .ok ())
    (numbered : Numbered (NamesKnown before.writer message) before after) :
    Undone around (Known accepts before.writer message) before.writer after.writer := by
  obtain ⟨identities, rfl, grew, same⟩ := numbered
  have same' := fun known : Known accepts before.writer message => same (known accepted)
  refine ⟨⟨{ WriterGrew.refl before.writer with namedIdentities := grew }, rfl, same'⟩, ?_⟩
  intro known _
  simp only [same' known]

variable (accepts)

theorem findFolder_ensures (key : FolderKey) (transaction : Transaction τ) :
    Ensures (findFolder key) transaction (fun _ next => next = transaction)
      (fun _ next => next = transaction) :=
  .get_bind (.of_attempt (fun _ _ => rfl) fun _ _ => rfl)

/-- An append that fails is undone. -/
theorem appendMessageDeferredFrom_ensures (live : Bool) (key : FolderKey) (associated : Bool)
    (message : MessageSpec) (transaction : Transaction τ) :
    Ensures (appendMessageDeferredFrom around accepts live key associated message) transaction
      (fun _ next => Offered (Known accepts transaction.writer message) transaction.writer
        next.writer)
      (fun _ next => Undone around (Known accepts transaction.writer message) transaction.writer
        next.writer) := by
  refine .bind ((inspect_ensures _ transaction).mono (fun _ _ same => same)
    fun _ _ same => same ▸ .refl around _ _) fun _ checked same => ?_
  rw [← same]
  refine .attempt_bind (fun _ accepted => ?_) fun _ _ => .refl around _ _
  refine .bind ((prepareNamedIdentities_ensures message checked).mono (fun _ _ holds => holds)
    fun _ _ holds => holds.undone around accepted) fun _ prepared numbered => ?_
  refine .bind ((findFolder_ensures key prepared).mono (fun _ _ holds => holds)
    fun _ _ found => found ▸ numbered.undone around accepted) ?_
  rintro index _ rfl
  obtain ⟨identities, rfl, grew, same⟩ := numbered
  replace same := fun known : Known accepts checked.writer message => same (known accepted)
  -- the message is filed in its folder before it is streamed, and taken out again on a failure
  refine .modify_bind (.get_bind (.of_onError ((streamFiled_ensures around _ _ _ _ _ _).mono
    ?_ fun _ _ streamed => streamed) ?_))
  · rintro _ next ⟨stream, streamed, extended⟩
    rw [streamed]
    exact ⟨{ WriterGrew.refl checked.writer with
      folders := .add _ index associated message
      namedIdentities := grew
      messageStream := extended }, by simp, same⟩
  · rintro error failed ⟨stream, streamed, extended⟩
    refine .modify_bind (.bind ((rollbackMessage_ensures around _ _).mono
      (fun _ _ restored => restored) ?_) ?_)
    · rintro _ next ⟨unrestored, fault⟩
      rw [unrestored]
      simp only [streamed, FoldersGrew.pop_add]
      exact ⟨⟨{ WriterGrew.refl checked.writer with
        namedIdentities := grew
        messageStream := extended }, rfl, same⟩, fun _ truncates => absurd truncates fault⟩
    · intro _ next restored
      refine .of_throw ?_
      rw [restored]
      simp only [streamed, FoldersGrew.pop_add, extended.restore]
      refine ⟨⟨{ WriterGrew.refl checked.writer with namedIdentities := grew }, rfl, same⟩, ?_⟩
      intro known _
      simp only [same known]

/-- A projected append that fails is undone. -/
theorem appendMessageDirectProjectionDeferred_ensures (key : FolderKey) (associated : Bool)
    (message : MessageSpec) (transaction : Transaction τ) :
    Ensures (appendMessageDirectProjectionDeferred around accepts key associated message)
      transaction
      (fun _ next => Offered (Known (projects accepts) transaction.writer message)
        transaction.writer next.writer)
      (fun _ next => Undone around (Known (projects accepts) transaction.writer message)
        transaction.writer next.writer) := by
  refine .bind ((inspect_ensures _ transaction).mono (fun _ _ same => same)
    fun _ _ same => same ▸ .refl around _ _) fun _ checked same => ?_
  rw [← same]
  refine .attempt_bind (fun _ accepted => ?_) fun _ _ => .refl around _ _
  refine .bind ((prepareNamedIdentities_ensures message checked).mono (fun _ _ holds => holds)
    fun _ _ holds => holds.undone around accepted) fun _ prepared numbered => ?_
  refine .bind ((findFolder_ensures key prepared).mono (fun _ _ holds => holds)
    fun _ _ found => found ▸ numbered.undone around accepted) ?_
  rintro index _ rfl
  obtain ⟨identities, rfl, grew, same⟩ := numbered
  replace same := fun known : Known (projects accepts) checked.writer message =>
    same (known accepted)
  refine .get_bind (.modify_bind (.of_onError (.of_discard
    ((streamFiled_ensures around _ _ _ _ _ _).mono ?_ fun _ _ streamed => streamed)) ?_))
  · rintro _ next ⟨stream, streamed, extended⟩
    rw [streamed]
    exact ⟨{ WriterGrew.refl checked.writer with
      folders := .add _ index associated message
      namedIdentities := grew
      messageStream := extended }, by simp, same⟩
  · rintro error failed ⟨stream, streamed, extended⟩
    refine .modify_bind (.modify_bind (.of_throw ?_))
    simp only [streamed, FoldersGrew.pop_add, extended.restore]
    refine ⟨⟨{ WriterGrew.refl checked.writer with namedIdentities := grew }, rfl, same⟩, ?_⟩
    intro known _
    simp only [same known]

end Append

section Batch

variable (around : Surroundings τ) (accepts : MessageSpec → Except WriterError Unit)

theorem Offered.trans {known : Prop} {first second third : TransactionalMailStoreWriter}
    (left : Offered known first second) (right : Offered known second third) :
    Offered known first third where
  grew := left.grew.trans right.grew
  layout := right.layout.trans left.layout
  names holds := (right.names holds).trans (left.names holds)

/-- A grown writer whose folders and stream are cut back differs only in its names. -/
theorem WriterGrew.cutBack {before after : TransactionalMailStoreWriter}
    (grew : WriterGrew before after)
    (layout : after.spec.folders.length = before.spec.folders.length) :
    ({ after with
        spec := { after.spec with
          folders := truncateFolders before.batchCheckpoint.folderLengths after.spec.folders }
        messageStream := after.messageStream.restore before.batchCheckpoint.messageStream } :
      TransactionalMailStoreWriter) =
      { before with namedIdentities := after.namedIdentities } := by
  simp only [TransactionalMailStoreWriter.batchCheckpoint, grew.folders.truncate layout,
    grew.messageStream.restore, grew.storeName, grew.recordKey, grew.dynamicNamedProperties,
    grew.preserveEmptyFolders]

/-- Rolling back to a checkpoint restores all but the named properties. -/
theorem rollbackBatch_ensures {before : TransactionalMailStoreWriter}
    {transaction : Transaction τ} (grew : WriterGrew before transaction.writer) :
    Ensures (rollbackBatch around before.batchCheckpoint) transaction
      (fun _ next => transaction.writer.spec.folders.length = before.spec.folders.length ∧
        next.writer = { before with namedIdentities := transaction.writer.namedIdentities })
      (fun _ next => next.writer = transaction.writer ∧
        (transaction.writer.spec.folders.length = before.spec.folders.length →
          ¬ Truncates around)) := by
  refine .get_bind (.attempt_bind (fun _ accepted => ?_) fun _ refused => ⟨rfl, fun layout => ?_⟩)
  · have layout : transaction.writer.spec.folders.length = before.spec.folders.length := by
      rw [refuse_eq_ok, not_not] at accepted
      rw [← accepted, TransactionalMailStoreWriter.batchCheckpoint, List.length_map]
    refine .bind ((rollbackMessage_ensures around _ transaction).mono (fun _ _ holds => holds)
      fun _ _ holds => ⟨holds.1, fun _ => holds.2⟩) fun _ next restored => ?_
    refine .of_modify ⟨layout, ?_⟩
    rw [restored]
    exact grew.cutBack layout
  · simp [refuse, TransactionalMailStoreWriter.batchCheckpoint, layout] at refused

theorem rollbackProjectedBatch_ensures {before : TransactionalMailStoreWriter}
    {transaction : Transaction τ} (grew : WriterGrew before transaction.writer) :
    Ensures (rollbackProjectedBatch before.batchCheckpoint) transaction
      (fun _ next => transaction.writer.spec.folders.length = before.spec.folders.length ∧
        next.writer = { before with namedIdentities := transaction.writer.namedIdentities })
      (fun _ next => next.writer = transaction.writer ∧
        transaction.writer.spec.folders.length ≠ before.spec.folders.length) := by
  refine .get_bind (.attempt_bind (fun _ accepted => ?_) fun _ refused => ⟨rfl, fun layout => ?_⟩)
  · have layout : transaction.writer.spec.folders.length = before.spec.folders.length := by
      rw [refuse_eq_ok, not_not] at accepted
      rw [← accepted, TransactionalMailStoreWriter.batchCheckpoint, List.length_map]
    exact .modify_bind (.of_modify ⟨layout, grew.cutBack layout⟩)
  · simp [refuse, TransactionalMailStoreWriter.batchCheckpoint, layout] at refused

/-- A writer that was cut back is the one before, where the names are the same. -/
theorem Offered.undone {known : Prop} {before after : TransactionalMailStoreWriter}
    (offered : Offered known before after) :
    Undone around known before
      { before with namedIdentities := after.namedIdentities } := by
  refine ⟨⟨{ WriterGrew.refl before with namedIdentities := offered.grew.namedIdentities }, rfl,
    offered.names⟩, fun holds _ => ?_⟩
  simp only [offered.names holds]

/-- A computation that undoes its batch on failure. -/
theorem undoingFailure_ensures {α : Type} {known : Prop} {before : TransactionalMailStoreWriter}
    {transaction : Transaction τ} {program : Writing τ α} {Q : α → Transaction τ → Prop}
    (ensures : Ensures program transaction Q
      (fun _ next => Offered known before next.writer)) :
    Ensures (undoingFailure around before.batchCheckpoint program) transaction Q
      (fun _ next => Undone around known before next.writer) := by
  refine .of_onError ensures fun error failed offered => ?_
  refine .bind ((rollbackBatch_ensures around offered.grew).mono (fun _ _ holds => holds) ?_) ?_
  · rintro _ next ⟨unrestored, fault⟩
    rw [unrestored]
    exact ⟨offered, fun _ truncates => absurd truncates (fault offered.layout)⟩
  · rintro _ next ⟨-, restored⟩
    exact .of_throw (restored ▸ offered.undone around)

/-- A computation that undoes its projected batch however it ends. -/
theorem undoingProjection_ensures {α : Type} {known : Prop}
    {before : TransactionalMailStoreWriter} {transaction : Transaction τ} {program : Writing τ α}
    (ensures : Ensures program transaction (fun _ next => Offered known before next.writer)
      (fun _ next => Offered known before next.writer)) :
    Ensures (undoingProjection before.batchCheckpoint program) transaction
      (fun _ next => Undone around known before next.writer)
      (fun _ next => Undone around known before next.writer) := by
  refine .bind (M := fun _ next => Offered known before next.writer)
    (.of_onError ensures fun error failed offered => ?_) fun value between offered => ?_
  · refine .bind ((rollbackProjectedBatch_ensures offered.grew).mono (fun _ _ holds => holds)
      fun _ _ holds => absurd offered.layout holds.2) ?_
    rintro _ next ⟨-, restored⟩
    exact .of_throw (restored ▸ offered.undone around)
  · refine .bind ((rollbackProjectedBatch_ensures offered.grew).mono (fun _ _ holds => holds)
      fun _ _ holds => absurd offered.layout holds.2) ?_
    rintro _ next ⟨-, restored⟩
    exact .of_pure (restored ▸ offered.undone around)

end Batch

section Operations

variable (around : Surroundings τ) (accepts : MessageSpec → Except WriterError Unit)
variable (key : FolderKey) (associated : Bool) (message : MessageSpec)
variable (transaction : Transaction τ)

theorem projectedFileEof_ensures :
    Ensures (projectedFileEof around) transaction
      (fun _ next => next.writer = transaction.writer)
      (fun _ next => next.writer = transaction.writer) := by
  refine .bind (inspect_ensures _ transaction) fun _ checked same => ?_
  rw [← same]
  refine .get_bind (.attempt_bind (fun _ _ => ?_) fun _ _ => rfl)
  refine .attempt_bind (fun plans _ => ?_) fun _ _ => rfl
  exact .bind (inspect_ensures _ checked) fun _ _ same => .of_pure same

theorem projectMessageDirectPrivateEof_ensures :
    Ensures (projectMessageDirectPrivateEof around accepts key associated message) transaction
      (fun _ next => Undone around (Known (projects accepts) transaction.writer message)
        transaction.writer next.writer)
      (fun _ next => Undone around (Known (projects accepts) transaction.writer message)
        transaction.writer next.writer) := by
  refine .get_bind (undoingProjection_ensures around ?_)
  refine .bind ((appendMessageDirectProjectionDeferred_ensures around accepts key associated
    message transaction).mono (fun _ _ holds => holds) fun _ _ undone => undone.toOffered) ?_
  exact fun _ _ offered => .get_bind (.of_pure offered)

theorem projectMessageDirectExtents_ensures :
    Ensures (projectMessageDirectExtents around accepts key associated message) transaction
      (fun _ next => Undone around (Known (projects accepts) transaction.writer message)
        transaction.writer next.writer)
      (fun _ next => Undone around (Known (projects accepts) transaction.writer message)
        transaction.writer next.writer) := by
  refine .get_bind (.bind (appendMessageDirectProjectionDeferred_ensures around accepts key
    associated message transaction) fun _ appended offered => ?_)
  refine .get_bind (.bind (undoingProjection_ensures around
    ((projectedFileEof_ensures around appended).mono ?_ ?_)) fun _ _ undone => .of_pure undone)
  · exact fun _ _ same => same ▸ offered
  · exact fun _ _ same => same ▸ offered

theorem appendMessageDirectPreflighted_ensures (expected : Nat) :
    Ensures (appendMessageDirectPreflighted around accepts key associated message expected)
      transaction
      (fun _ next => Offered (Known accepts transaction.writer message) transaction.writer
        next.writer)
      (fun _ next => Undone around (Known accepts transaction.writer message) transaction.writer
        next.writer) := by
  refine .get_bind (.bind (appendMessageDeferredFrom_ensures around accepts true key associated
    message transaction) fun completions appended offered => ?_)
  refine .bind (undoingFailure_ensures around (Q := fun _ next =>
    Offered (Known accepts transaction.writer message) transaction.writer next.writer) ?_)
    fun _ _ offered => .of_pure offered
  refine .bind ((projectedFileEof_ensures around appended).mono (fun _ _ same => same)
    fun _ _ same => same ▸ offered) fun actual measured same => ?_
  exact .of_attempt (fun _ _ => same ▸ offered) fun _ _ => same ▸ offered

theorem appendMessageDirectPreflightedPrivate_ensures (expected : Nat) :
    Ensures (appendMessageDirectPreflightedPrivate around accepts key associated message expected)
      transaction
      (fun _ next => Offered (Known accepts transaction.writer message) transaction.writer
        next.writer)
      (fun _ next => Undone around (Known accepts transaction.writer message) transaction.writer
        next.writer) := by
  refine .get_bind (.bind (appendMessageDeferredFrom_ensures around accepts true key associated
    message transaction) fun completions appended offered => ?_)
  refine .bind (undoingFailure_ensures around (Q := fun _ next =>
    Offered (Known accepts transaction.writer message) transaction.writer next.writer) ?_)
    fun _ _ offered => .of_pure offered
  exact .get_bind (.of_attempt (fun _ _ => offered) fun _ _ => offered)

/-- An append within a size limit is undone when it fails and when the part is full. -/
theorem appendMessage_ensures (maximum : Nat) :
    Ensures (appendMessage around accepts key associated message maximum) transaction
      (fun result next => Offered (Known accepts transaction.writer message) transaction.writer
          next.writer ∧
        ∀ rejected, result = .partFull rejected →
          Undone around (Known accepts transaction.writer message) transaction.writer next.writer)
      (fun _ next => Undone around (Known accepts transaction.writer message) transaction.writer
        next.writer) := by
  refine .attempt_bind (fun _ _ => .get_bind ?_) fun _ _ => .refl around _ _
  refine .bind (undoingFailure_ensures around (Q := fun _ next =>
    Offered (Known accepts transaction.writer message) transaction.writer next.writer) ?_) ?_
  · refine .bind (M := fun _ next =>
        Offered (Known accepts transaction.writer message) transaction.writer next.writer)
      (.of_discard ((appendMessageDeferredFrom_ensures around accepts false key associated
        message transaction).mono (fun _ _ holds => holds) fun _ _ undone => undone.toOffered))
      fun _ appended offered => ?_
    exact (projectedFileEof_ensures around appended).mono (fun _ _ same => same ▸ offered)
      fun _ _ same => same ▸ offered
  · intro projected appended offered
    refine .get_bind ?_
    split
    · refine .bind ((rollbackBatch_ensures around offered.grew).mono (fun _ _ holds => holds) ?_) ?_
      · rintro _ next ⟨unrestored, fault⟩
        rw [unrestored]
        exact ⟨offered, fun _ truncates => absurd truncates (fault offered.layout)⟩
      · rintro _ next ⟨-, restored⟩
        have undone := offered.undone around
        rw [← restored] at undone
        exact .of_pure ⟨undone.toOffered, fun _ _ => undone⟩
    · refine .of_pure ⟨offered, fun rejected full => ?_⟩
      cases full

/-- A folder that is refused leaves the writer as it was. -/
theorem observeFolder_ensures (folder : MailFolderSpec) :
    Ensures (observeFolder folder) transaction
      (fun _ next => WriterGrew transaction.writer next.writer ∧
        next.writer.namedIdentities = transaction.writer.namedIdentities)
      (fun _ next => next.writer = transaction.writer) := by
  refine .attempt_bind (fun _ _ => .get_bind ?_) fun _ _ => rfl
  dsimp only
  split
  · exact .of_attempt (fun _ _ => ⟨.refl _, rfl⟩) fun _ _ => rfl
  · refine .modify_bind (.of_onError (.of_attempt (fun _ _ => ?_) fun _ _ => rfl) ?_)
    · exact ⟨{ WriterGrew.refl transaction.writer with folders := .append _ _ }, rfl⟩
    · rintro error failed rfl
      refine .modify_bind (.of_throw ?_)
      simp only [List.dropLast_concat]

end Operations

end PstForge.Writer
