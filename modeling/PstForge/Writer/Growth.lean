import PstForge.Writer.Transaction

/-! # What building a message can do to the stream

However a message build ends, the lists of the block stream have only grown: what
stood in them before is still there, at the same places. The counters and the
cursor may have moved to any value, so this is exactly what a checkpoint of
lengths and counters needs in order to bring the stream back.
-/

namespace PstForge.Writer

open PstForge.Foundation PstForge.Ndb PstForge.Ltp

variable {τ α : Type}

/-- The lists of a stream have grown. -/
structure Extends (before after : MessageStreamState) : Prop where
  written : before.written <+: after.written
  streamedSubnodes : before.streamedSubnodes <+: after.streamedSubnodes
  contentsRows : before.contentsRows <+: after.contentsRows
  associatedRows : before.associatedRows <+: after.associatedRows
  topNodes : before.topNodes <+: after.topNodes

namespace Extends

theorem refl (state : MessageStreamState) : Extends state state :=
  ⟨List.prefix_rfl, List.prefix_rfl, List.prefix_rfl, List.prefix_rfl, List.prefix_rfl⟩

theorem trans {first second third : MessageStreamState} (left : Extends first second)
    (right : Extends second third) : Extends first third where
  written := left.written.trans right.written
  streamedSubnodes := left.streamedSubnodes.trans right.streamedSubnodes
  contentsRows := left.contentsRows.trans right.contentsRows
  associatedRows := left.associatedRows.trans right.associatedRows
  topNodes := left.topNodes.trans right.topNodes

/-- A checkpoint brings an extended stream back to where it was taken. -/
theorem restore {before after : MessageStreamState} (grown : Extends before after) :
    after.restore before.checkpoint = before := by
  have cut {β : Type} {short long : List β} (isPrefix : short <+: long) :
      long.take short.length = short := (List.prefix_iff_eq_take.mp isPrefix).symm
  simp only [MessageStreamState.restore, MessageStreamState.checkpoint, cut grown.written,
    cut grown.streamedSubnodes, cut grown.contentsRows, cut grown.associatedRows,
    cut grown.topNodes]

end Extends

/-- A computation on the stream extends it, however it ends. -/
def Growing (program : Live τ α) : Prop :=
  Keeps (fun before after => Extends before.stream after.stream) program

namespace Growing

variable {β : Type}

theorem of_pure (value : α) : Growing (pure value : Live τ α) :=
  Keeps.of_pure (fun session => Extends.refl session.stream) value

theorem of_throw (error : WriterError) : Growing (throw error : Live τ α) :=
  Keeps.of_throw (fun session => Extends.refl session.stream) error

theorem of_attempt (source : Except WriterError α) : Growing (attempt source : Live τ α) :=
  Keeps.of_attempt (fun session => Extends.refl session.stream) source

theorem of_get : Growing (get : Live τ (Session τ)) :=
  Keeps.of_get fun session => Extends.refl session.stream

theorem of_modify {f : Session τ → Session τ}
    (step : ∀ session, Extends session.stream (f session).stream) :
    Growing (modify f : Live τ PUnit) :=
  Keeps.of_modify step

theorem bind {first : Live τ α} {next : α → Live τ β} (growingFirst : Growing first)
    (growingNext : ∀ value, Growing (next value)) : Growing (first >>= next) := by
  refine Keeps.bind ?_ growingFirst growingNext
  exact fun left right => left.trans right

/-- Taking identifiers moves only the counters. -/
theorem of_takeIds (program : Ids α) : Growing (takeIds program : Live τ α) :=
  Keeps.zoom fun session _ => { Extends.refl session.stream with }

end Growing

/-- The lists have grown, and no value node was taken. -/
structure Appends (before after : MessageStreamState) : Prop extends Extends before after where
  values : SameValues before.counters after.counters

namespace Appends

theorem refl (state : MessageStreamState) : Appends state state :=
  ⟨Extends.refl state, SameValues.refl _⟩

theorem trans {first second third : MessageStreamState} (left : Appends first second)
    (right : Appends second third) : Appends first third :=
  ⟨left.toExtends.trans right.toExtends, left.values.trans right.values⟩

end Appends

/-- A computation on the stream extends it and takes no value node, however it ends. -/
def Appending (program : Live τ α) : Prop :=
  Keeps (fun before after => Appends before.stream after.stream) program

namespace Appending

variable {β : Type}

theorem growing {program : Live τ α} (appending : Appending program) : Growing program :=
  appending.mono fun appends => appends.toExtends

theorem of_pure (value : α) : Appending (pure value : Live τ α) :=
  Keeps.of_pure (fun session => Appends.refl session.stream) value

theorem of_attempt (source : Except WriterError α) : Appending (attempt source : Live τ α) :=
  Keeps.of_attempt (fun session => Appends.refl session.stream) source

theorem of_get : Appending (get : Live τ (Session τ)) :=
  Keeps.of_get fun session => Appends.refl session.stream

theorem of_modify {f : Session τ → Session τ}
    (step : ∀ session, Appends session.stream (f session).stream) :
    Appending (modify f : Live τ PUnit) :=
  Keeps.of_modify step

theorem bind {first : Live τ α} {next : α → Live τ β} (appendingFirst : Appending first)
    (appendingNext : ∀ value, Appending (next value)) : Appending (first >>= next) := by
  refine Keeps.bind ?_ appendingFirst appendingNext
  exact fun left right => left.trans right

theorem of_takeBlockId (isInternal : Bool) :
    Appending (takeIds (takeBlockId isInternal) : Live τ BlockId) :=
  Keeps.zoom_of (takeBlockId_values isInternal) fun session _ same =>
    { Appends.refl session.stream with values := same }

/-- What a successful run leaves of the count of value nodes. -/
theorem values {program : Live τ α} (appending : Appending program) {session final : Session τ}
    {value : α} (hrun : program session = .ok value final) :
    final.stream.counters.nextValueNode = session.stream.counters.nextValueNode := by
  have kept := appending session
  rw [after, hrun] at kept
  exact kept.values

end Appending

section Blocks

variable (around : Surroundings τ) (output : Output)

theorem tick_appending : Appending (tick : Live τ Nat) :=
  .bind .of_get fun _ => .bind (.of_modify fun session => Appends.refl session.stream) fun _ =>
    .of_pure _

theorem checkInterrupted_appending : Appending (checkInterrupted around) :=
  .bind tick_appending fun _ => .of_attempt _

theorem touch_appending (fault : Nat → Option String) : Appending (touch fault : Live τ Unit) :=
  .bind tick_appending fun _ => .of_attempt _

theorem allocate_appending (size : Nat) : Appending (allocate size : Live τ Nat) :=
  .bind .of_get fun _ => .bind (.of_attempt _) fun _ =>
    .bind (.of_modify fun session => { Appends.refl session.stream with }) fun _ => .of_pure _

theorem listBlock_appending (block : WrittenBlock) : Appending (listBlock block : Live τ Unit) :=
  .of_modify fun session =>
    { Appends.refl session.stream with written := List.prefix_append _ _ }

theorem writeBlock_appending (block : BlockSpec) : Appending (writeBlock around block) :=
  .bind (checkInterrupted_appending around) fun _ => .bind (.of_attempt _) fun _ =>
    .bind (.of_attempt _) fun _ => .bind (allocate_appending _) fun _ =>
      .bind (touch_appending _) fun _ => .bind (.of_attempt _) fun _ =>
        .bind (touch_appending _) fun _ => listBlock_appending _

theorem projectBlock_appending (block : BlockSpec) : Appending (projectBlock around block) :=
  .bind (checkInterrupted_appending around) fun _ => .bind (.of_attempt _) fun _ =>
    .bind (allocate_appending _) fun _ => listBlock_appending _

theorem emit_appending (block : BlockSpec) : Appending (emit around output block) := by
  cases output with
  | physical => exact writeBlock_appending around block
  | projected => exact projectBlock_appending around block

theorem emitAll_appending (blocks : List BlockSpec) : Appending (emitAll around output blocks) := by
  induction blocks with
  | nil => exact .of_pure _
  | cons block rest ih => exact .bind (emit_appending around output block) fun _ => ih

end Blocks

section DataTree

variable (around : Surroundings τ) (output : Output)

theorem emitXBlock_appending (what : String) (leaves : List (BlockId × Nat)) :
    Appending (emitXBlock around output what leaves) :=
  .bind (.of_attempt _) fun _ => .bind (.of_takeBlockId _) fun _ =>
    .bind (emit_appending around output _) fun _ => .of_pure _

theorem streamLeaves_appending {ρ : Type}
    (piece : ρ → Nat → Except WriterError (BlockPayload × ρ)) (what : String) (turns : Nat) :
    ∀ remaining progress,
      Appending (streamLeaves around output piece what turns remaining progress) := by
  induction turns with
  | zero => exact fun _ _ => .of_pure _
  | succ turns ih =>
      intro remaining progress
      refine .bind (.of_attempt _) fun _ => .bind (.of_takeBlockId _) fun _ =>
        .bind (emit_appending around output _) fun _ => ?_
      dsimp only
      split
      · exact .bind (emitXBlock_appending around output what _) fun _ => ih _ _
      · exact ih _ _

theorem closeStreamedTree_appending {ρ : Type} (names : TreeNames) (progress : TreeProgress ρ) :
    Appending (closeStreamedTree around output names progress) := by
  unfold closeStreamedTree
  dsimp only
  split
  · exact .of_pure _
  · refine .bind (emitXBlock_appending around output _ _) fun _ => ?_
    split
    · exact .of_pure _
    · exact .bind (.of_attempt _) fun _ => .bind (.of_attempt _) fun _ =>
        .bind (.of_takeBlockId _) fun _ => .bind (emit_appending around output _)
          fun _ => .of_pure _

theorem appendDeclaredDataTree_appending (blob : DirectBlobSpec) :
    Appending (appendDeclaredDataTree around output blob) :=
  .bind (streamLeaves_appending around output _ _ _ _ _) fun _ => .bind (.of_attempt _) fun _ =>
    .bind (closeStreamedTree_appending around output _ _) fun _ => .of_pure _

theorem appendReaderDataTree_appending (reader : Reader) (byteLen : Nat) (expected : Option Bytes)
    (requireEof : Bool) :
    Appending (appendReaderDataTree around output reader byteLen expected requireEof) := by
  refine .bind (streamLeaves_appending around output _ _ _ _ _) fun _ => .bind (.of_attempt _)
    fun _ => .bind (.of_attempt _) fun _ => .bind (.of_attempt _) fun _ => ?_
  split
  · exact .bind (.of_takeBlockId _) fun _ => .bind (emit_appending around output _)
      fun _ => .of_pure _
  · exact .bind (closeStreamedTree_appending around output _ _) fun _ => .of_pure _

theorem appendSpooledDataTree_appending (blob : FileBlobSpec) :
    Appending (appendSpooledDataTree around output blob) :=
  .bind (.of_attempt _) fun _ => .bind (.of_attempt _) fun _ => .bind (.of_attempt _) fun _ =>
    .bind (appendReaderDataTree_appending around output _ _ _ _) fun _ => .of_pure _

theorem appendDirectDataTree_appending (absent : String) (blob : DirectBlobSpec) :
    Appending (appendDirectDataTree around output absent blob) :=
  .bind .of_get fun _ => .bind (.of_attempt _) fun _ =>
    .bind (.of_modify fun session => Appends.refl session.stream) fun _ =>
      .bind (.of_attempt _) fun _ =>
        .bind (appendReaderDataTree_appending around output _ _ _ _) fun _ =>
          .bind (.of_modify fun session => Appends.refl session.stream) fun _ => .of_pure _

theorem appendBlobDataTree_appending (absent : String) (blob : DirectBlobSpec) :
    Appending (appendBlobDataTree around output absent blob) := by
  cases output with
  | physical => exact appendDirectDataTree_appending around _ absent blob
  | projected => exact appendDeclaredDataTree_appending around _ blob

end DataTree

section Properties

variable (around : Surroundings τ) (output : Output)

theorem appendStreamedProperties_growing {spec : Type} (what valueNode : String)
    (id propertyType : spec → Nat) {append : spec → Live τ (BlockId × Nat)}
    (growing : ∀ spec, Growing (append spec)) (specs : List spec) :
    ∀ total, Growing
      (appendStreamedProperties what valueNode id propertyType append total specs) := by
  induction specs with
  | nil => exact fun _ => .of_pure _
  | cons spec rest ih =>
      exact fun total => .bind (.of_attempt _) fun _ => .bind (.of_takeIds _) fun _ =>
        .bind (growing spec) fun _ => .bind (.of_attempt _) fun _ => .bind (ih _) fun _ =>
          .of_pure _

theorem appendSpooledProperties_growing (specs : List SpooledPropertySpec) :
    Growing (appendSpooledProperties around output specs) := by
  unfold appendSpooledProperties
  exact appendStreamedProperties_growing _ _ _ _
    (fun spec => (appendSpooledDataTree_appending around output spec.blob).growing) specs 0

theorem appendDirectProperties_growing (absent : String) (specs : List DirectPropertySpec) :
    Growing (appendDirectProperties around output absent specs) := by
  cases specs with
  | nil => exact .of_pure _
  | cons spec rest =>
      unfold appendDirectProperties
      refine .bind (.bind .of_get fun _ => .of_attempt _) fun _ => ?_
      apply appendStreamedProperties_growing
      exact fun spec => (appendBlobDataTree_appending around output absent spec.blob).growing

end Properties

section Message

variable (around : Surroundings τ) (output : Output) (identities : List NamedIdentity)

theorem streamContent_growing (kind : NodeIdType) (what : String)
    {append : Live τ (BlockId × Nat)} (growing : Growing append) :
    Growing (streamContent kind what append) :=
  .bind (.of_takeIds _) fun _ => .bind growing fun _ => .of_pure _

theorem buildContent_growing (content : AttachmentContent) :
    Growing (buildContent around output content) := by
  cases content with
  | binary data => exact .of_pure _
  | spooled blob =>
      exact .bind (streamContent_growing _ _ (appendSpooledDataTree_appending around output
        blob).growing)
        fun _ => .of_pure _
  | direct blob =>
      exact .bind (streamContent_growing _ _ (appendBlobDataTree_appending around output _
        blob).growing)
        fun _ => .of_pure _
  | embedded message => exact .of_throw _
  | reference reference => exact .of_pure _
  | ole ole =>
      simp only [buildContent]
      split
      · exact .bind (.of_attempt _) fun _ => .of_pure _
      · exact .bind (streamContent_growing _ _ (appendSpooledDataTree_appending around output
          _).growing)
          fun _ => .bind (.of_attempt _) fun _ => .of_pure _
  | directOle ole =>
      simp only [buildContent]
      split
      · exact .of_pure _
      · exact .bind (streamContent_growing _ _ (appendBlobDataTree_appending around output _
          _).growing)
          fun _ => .bind (.of_attempt _) fun _ => .of_pure _

theorem buildAttachment_growing (index : Nat) (reserved : NodeId × BlockId)
    (attachment : AttachmentSpec) (content : ContentBuild) (streamed : Nat) :
    Growing (buildAttachment around output identities index reserved attachment content
      streamed) :=
  .bind (.of_attempt _) fun _ => .bind (.of_attempt _) fun _ => .bind (.of_attempt _) fun _ =>
    .bind (.of_attempt _) fun _ => .bind (appendSpooledProperties_growing around output _) fun _ =>
      .bind (.of_attempt _) fun _ => .bind (.of_attempt _) fun _ =>
        .bind (appendDirectProperties_growing around output _ _) fun _ =>
          .bind (.of_attempt _) fun _ => .bind (.of_attempt _) fun _ =>
            .bind (.of_attempt _) fun _ => .bind (.of_takeIds _) fun _ =>
              .bind (.of_takeIds _) fun _ => .bind (.of_takeIds _) fun _ => .of_pure _

theorem closeMessage_growing (message : MessageSpec) (associated : Bool) (recordKey : Bytes)
    (propertyBlock attachmentTableBlock : BlockId) (recipients : RecipientBuild)
    (attachments : AttachmentsBuild) (streamed : Nat) :
    Growing (closeMessage around output message associated recordKey identities propertyBlock
      attachmentTableBlock recipients attachments streamed) :=
  .bind (.of_attempt _) fun _ => .bind (.of_attempt _) fun _ => .bind (.of_attempt _) fun _ =>
    .bind (appendSpooledProperties_growing around output _) fun _ => .bind (.of_attempt _) fun _ =>
      .bind (appendDirectProperties_growing around output _ _) fun _ =>
        .bind (.of_attempt _) fun _ => .bind (.of_takeIds _) fun _ => .bind (.of_attempt _) fun _ =>
          .bind (.of_attempt _) fun _ => .bind (.of_attempt _) fun _ =>
            .bind (.of_takeIds _) fun _ => .of_pure _

mutual

theorem buildMessageBlocks_growing (message : MessageSpec) (associated : Bool) (recordKey : Bytes)
    (frame : MessageFrame) :
    Growing (buildMessageBlocks around output identities message associated recordKey frame) :=
  match message with
  | { attachments, .. } => by
      simp only [buildMessageBlocks]
      exact .bind (.of_takeIds _) fun _ =>
        .bind (buildAttachments_growing attachments 0 recordKey 0) fun _ =>
          closeMessage_growing around output identities _ _ _ _ _ _ _ _

theorem buildAttachments_growing (attachments : List AttachmentSpec) (index : Nat)
    (recordKey : Bytes) (streamed : Nat) :
    Growing (buildAttachments around output identities attachments index recordKey streamed) :=
  match attachments with
  | [] => by simp only [buildAttachments]; exact .of_pure _
  | { content, .. } :: rest => by
      simp only [buildAttachments]
      exact .bind (.of_takeIds _) fun _ =>
        .bind (buildAttachmentContent_growing content index recordKey) fun _ =>
          .bind (buildAttachment_growing around output identities _ _ _ _ _) fun _ =>
            .bind (buildAttachments_growing rest (index + 1) recordKey _) fun _ => .of_pure _

theorem buildAttachmentContent_growing (content : AttachmentContent) (index : Nat)
    (recordKey : Bytes) :
    Growing (buildAttachmentContent around output identities content index recordKey) :=
  match content with
  | .embedded message => by
      simp only [buildAttachmentContent]
      exact .bind (.of_takeIds _) fun _ =>
        .bind (buildMessageBlocks_growing message false _ _) fun _ => .of_takeIds _
  | .binary _ | .spooled _ | .direct _ | .reference _ | .ole _ | .directOle _ => by
      simp only [buildAttachmentContent]
      exact buildContent_growing around output _

end

theorem listMessage_growing (message : MessageSpec) (messageNode parent : NodeId)
    (associated : Bool) (storeKey : Bytes) (built : MessageBlocks)
    (contentsColumns associatedColumns : List TableColumnDescriptor) :
    Growing (listMessage message messageNode parent associated storeKey built contentsColumns
      associatedColumns : Live τ Unit) := by
  unfold listMessage
  split
  · exact .of_modify fun session =>
      { Extends.refl session.stream with associatedRows := List.prefix_append _ _ }
  · exact .bind (.of_attempt _) fun _ => .of_modify fun session =>
      { Extends.refl session.stream with contentsRows := List.prefix_append _ _ }

/-- However appending a message to the stream ends, the stream has only grown. -/
theorem streamMessage_growing (message : MessageSpec) (parent : NodeId) (associated : Bool)
    (storeKey : Bytes) (contentsColumns associatedColumns : List TableColumnDescriptor) :
    Growing (streamMessage around output message parent associated storeKey identities
      contentsColumns associatedColumns) :=
  .bind (checkInterrupted_appending around).growing fun _ => .bind .of_get fun _ =>
    .bind (.of_attempt _) fun _ => .bind (.of_takeIds _) fun _ =>
      .bind (buildMessageBlocks_growing around output identities _ _ _ _) fun _ =>
        .bind (listMessage_growing _ _ _ _ _ _ _ _) fun _ =>
          .bind (.of_modify fun session =>
            { Extends.refl session.stream with topNodes := List.prefix_append _ _ }) fun _ =>
            .bind (.of_takeIds _) fun _ =>
              .bind (.of_modify fun session =>
                { Extends.refl session.stream with
                  streamedSubnodes := List.prefix_append _ _ }) fun _ =>
                .bind (emitAll_appending around output _).growing fun _ =>
                  .bind (.of_modify fun session => { Extends.refl session.stream with }) fun _ =>
                    .bind .of_get fun _ => .of_pure _

end Message

end PstForge.Writer
