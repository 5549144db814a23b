import PstForge.Writer.StreamAccounts

/-! # The accounts of a message

A message is built around the blocks that were set aside for it. Its account says
which of them it refers to: the attachment table always, the recipient table unless
that took the external form. The blocks of the two tables themselves are written by
the caller, who knows how many references they have.
-/

namespace PstForge.Writer

open PstForge.Foundation PstForge.Ndb PstForge.Ltp

variable {τ : Type}

section Recipients

/-- Whether a recipient table goes into the block that was set aside for it: it does
when the message refers to that block, and for the template it does in any case. -/
def TableKept (recipientBlock : BlockId) (referenced : Bool) (table : Option Bytes) : Prop :=
  match table with
  | some bytes => bytes ≠ [] ∧ (referenced = true ∨ recipientBlock = leafBlock 17)
  | none => referenced = false ∧ recipientBlock ≠ leafBlock 17

/-- The reference of a message to the block that was set aside for its recipients. -/
def recipientReference (recipientBlock : BlockId) (referenced : Bool) : List BlockId :=
  if referenced then [recipientBlock] else []

theorem buildRecipientTable_built {recipients : List RecipientSpec} {recipientBlock : BlockId}
    {counters final : Counters} {build : RecipientBuild}
    (hrun : buildRecipientTable recipients recipientBlock counters = .ok build final) :
    TableKept recipientBlock build.referenced build.table ∧
      Built counters final [] (recipientReference recipientBlock build.referenced)
        (build.dataBlock :: build.subnodeBlock.toList) build.blocks := by
  simp only [buildRecipientTable, bind_run_ok, attempt_run_ok] at hrun
  obtain ⟨columns, _, ⟨-, rfl⟩, rows, counters, ⟨-, rfl⟩, hrun⟩ := hrun
  generalize htable : tableContext columns rows = result at hrun
  split at hrun
  · obtain ⟨rfl, rfl⟩ := pure_run_ok.mp hrun
    exact ⟨⟨tableContext_ne_nil htable, .inl rfl⟩, .idle (Nat.le_refl _) _⟩
  · simp only [bind_run_ok, attempt_run_ok, pure_run_ok] at hrun
    obtain ⟨external, _, hexternal, template, _, ⟨htemplate, rfl⟩, table, _, ⟨hkept, rfl⟩, rfl,
      rfl⟩ := hrun
    obtain rfl := leafBid_eq_ok htemplate
    refine ⟨?_, tableContextExternal_built hexternal⟩
    split at hkept
    · rename_i isTemplate
      cases hempty : tableContext columns [] with
      | error error => simp [hempty, Functor.map, Except.map] at hkept
      | ok bytes =>
          simp only [hempty, Functor.map, Except.map] at hkept
          cases hkept
          exact ⟨tableContext_ne_nil hempty, .inr isTemplate⟩
    · rename_i notTemplate
      cases hkept
      exact ⟨rfl, notTemplate⟩
  · simp at hrun

end Recipients

section Content

variable {around : Surroundings τ}

theorem streamContent_accounted {kind : NodeIdType} {what : String}
    {append : Live τ (BlockId × Nat)} {session final : Session τ} {node : NodeId} {root : BlockId}
    {size : Nat}
    (accounted : ∀ {session final root size}, append session = .ok (root, size) final →
      Accounted session.stream final.stream [] [] [root] [])
    (hrun : streamContent kind what append session = .ok (node, root, size) final) :
    Accounted session.stream final.stream [] [] (entryReferences [⟨node, root, none⟩]) [] := by
  simp only [streamContent, bind_run_ok, pure_run_ok, Prod.mk.injEq] at hrun
  obtain ⟨valueNode, taken, htake, ⟨id, length⟩, _, happend, ⟨rfl, rfl, rfl⟩, rfl⟩ := hrun
  exact (takeValueNode_accounted htake).append (accounted happend)

theorem buildContent_accounted {content : AttachmentContent} {session final : Session τ}
    {build : ContentBuild} (hrun : buildContent around .physical content session = .ok build
      final) :
    Accounted session.stream final.stream [] [] (entryReferences build.subnodes) build.blocks := by
  cases content with
  | binary data =>
      obtain ⟨rfl, rfl⟩ := pure_run_ok.mp hrun
      exact .idle _ _
  | spooled blob =>
      simp only [buildContent, bind_run_ok, pure_run_ok] at hrun
      obtain ⟨⟨node, root, size⟩, _, hstream, rfl, rfl⟩ := hrun
      exact streamContent_accounted appendSpooledDataTree_accounted hstream
  | direct blob =>
      simp only [buildContent, bind_run_ok, pure_run_ok] at hrun
      obtain ⟨⟨node, root, size⟩, _, hstream, rfl, rfl⟩ := hrun
      exact streamContent_accounted appendBlobDataTree_accounted hstream
  | embedded message => simp [buildContent] at hrun
  | reference reference =>
      obtain ⟨rfl, rfl⟩ := pure_run_ok.mp hrun
      exact .idle _ _
  | ole ole =>
      simp only [buildContent] at hrun
      split at hrun
      · simp only [bind_run_ok, attempt_run_ok, pure_run_ok] at hrun
        obtain ⟨_, _, ⟨-, rfl⟩, rfl, rfl⟩ := hrun
        exact .idle _ _
      · simp only [bind_run_ok, attempt_run_ok, pure_run_ok] at hrun
        obtain ⟨⟨node, root, size⟩, _, hstream, data, _, ⟨-, rfl⟩, rfl, rfl⟩ := hrun
        exact streamContent_accounted appendSpooledDataTree_accounted hstream
  | directOle ole =>
      simp only [buildContent] at hrun
      split at hrun
      · obtain ⟨rfl, rfl⟩ := pure_run_ok.mp hrun
        exact .idle _ _
      · simp only [bind_run_ok, attempt_run_ok, pure_run_ok] at hrun
        obtain ⟨⟨node, root, size⟩, _, hstream, data, _, ⟨-, rfl⟩, rfl, rfl⟩ := hrun
        exact streamContent_accounted appendBlobDataTree_accounted hstream

/-- The account of a message around its frame: it refers to the attachment table, and
to the recipient table unless that took the external form. -/
structure MessageAccount (frame : MessageFrame) (before after : MessageStreamState)
    (built : MessageBlocks) : Prop where
  recipients : TableKept frame.recipientBlock built.recipientTableReferencedByMessage
    built.recipientTable
  attachments : built.attachmentTable ≠ []
  accounted : Accounted before after [frame.propertyBlock]
    (recipientReference frame.recipientBlock built.recipientTableReferencedByMessage
      ++ [frame.attachmentBlock])
    (built.propertyDataBlock :: entryReferences built.subnodes) built.dynamicBlocks

theorem reserveEmbedded_accounted {index : Nat} {session middle : Session τ}
    {reserved : EmbeddedBlocks} {last : MessageStreamState} {given outer roots : List BlockId}
    {blocks : List BlockSpec} (high : 28 ≤ session.stream.counters.nextBlockIndex)
    (hreserve : takeIds (reserveEmbedded index) session = .ok reserved middle)
    (accounted : Accounted middle.stream last
      (reserved.attachmentBlock :: reserved.recipientBlock :: reserved.propertyBlock :: given)
      outer roots blocks) :
    Accounted session.stream last given outer roots blocks ∧
      reserved.recipientBlock ≠ leafBlock 17 := by
  obtain ⟨counters, hrun, rfl⟩ := takeIds_ok hreserve
  simp only [reserveEmbedded, bind_run_ok, attempt_run_ok, pure_run_ok] at hrun
  obtain ⟨_, _, ⟨-, rfl⟩, node, start, ⟨-, hstart⟩, property, first, hfirst, recipient, second,
    hsecond, attachment, third, hthird, rfl, rfl⟩ := hrun
  obtain ⟨indexFirst, -, rfl⟩ := takeBlockId_ok hfirst
  obtain ⟨indexSecond, -, rfl⟩ := takeBlockId_ok hsecond
  obtain ⟨indexThird, -, rfl⟩ := takeBlockId_ok hthird
  subst hstart
  obtain ⟨emitted, streams, plain, built⟩ := accounted
  refine ⟨⟨emitted, ⟨streams.specs, streams.streamedSubnodes, streams.contentsRows,
    streams.associatedRows, streams.topNodes⟩, plain, ?_⟩, ?_⟩
  · exact Built.claim indexFirst rfl
      (Built.claim indexSecond rfl (Built.claim indexThird rfl built))
  · intro same
    have index : recipient.index = 17 := (congrArg BlockId.index same).trans (leafBlock_index 17)
    rw [indexSecond] at index
    dsimp only at index
    omega

/-- Close an embedded message over its frame. -/
theorem closeEmbedded_built {reserved : EmbeddedBlocks} {embedded : MessageBlocks}
    {counters final : Counters} {build : ContentBuild}
    (kept : TableKept reserved.recipientBlock embedded.recipientTableReferencedByMessage
      embedded.recipientTable)
    (notTemplate : reserved.recipientBlock ≠ leafBlock 17)
    (attachments : embedded.attachmentTable ≠ [])
    (hrun : closeEmbedded reserved embedded counters = .ok build final) :
    ∃ own, build.blocks.Perm (embedded.dynamicBlocks ++ own) ∧
      Built counters final [reserved.attachmentBlock, reserved.recipientBlock]
        (embedded.propertyDataBlock :: entryReferences embedded.subnodes)
        (recipientReference reserved.recipientBlock embedded.recipientTableReferencedByMessage
          ++ [reserved.attachmentBlock] ++ entryReferences build.subnodes) own := by
  simp only [closeEmbedded, bind_run_ok, pure_run_ok] at hrun
  obtain ⟨subnodeBlock, taken, htake, tree, _, htree, rfl, rfl⟩ := hrun
  obtain ⟨index, internal, moved⟩ := takeBlockId_ok htake
  have attachmentBuilt : Built taken taken [reserved.attachmentBlock] []
      [reserved.attachmentBlock] [⟨reserved.attachmentBlock, .data embedded.attachmentTable, 2⟩] :=
    Built.single taken (show Writable ⟨_, .data _, 2⟩ from attachments)
  have recipientBuilt : Built taken taken [reserved.recipientBlock] []
      (recipientReference reserved.recipientBlock embedded.recipientTableReferencedByMessage)
      (embedded.recipientTable.toList.map fun table => ⟨reserved.recipientBlock, .data table,
        2⟩) := by
    cases htable : embedded.recipientTable with
    | none =>
        rw [htable] at kept
        rw [recipientReference, kept.1]
        exact (Built.idle (Nat.le_refl _) []).spare _
    | some table =>
        rw [htable] at kept
        rw [recipientReference, kept.2.resolve_right notTemplate]
        exact Built.single taken (show Writable ⟨_, .data table, 2⟩ from kept.1)
  have treeBuilt := appendSubnodeTreeAt_built internal htree
  have start : Built taken taken [] [embedded.propertyDataBlock] [embedded.propertyDataBlock] [] :=
    .idle (Nat.le_refl _) _
  have whole := (start.append (recipientBuilt.append attachmentBuilt)).append treeBuilt
  refine ⟨_, List.perm_append_comm, Built.claim index (by rw [moved])
    (whole.congr (fun other => ?_) fun id => ?_)⟩
  · simp only [indexCount_append, indexCount_cons, indexCount_nil]
    omega
  · simp only [entryReferences_cons, entryReferences_nil, Option.toList_some, List.append_nil,
      List.count_append, List.count_cons, List.count_nil, List.singleton_append]
    omega

end Content

section Attachments

variable {around : Surroundings τ} {identities : List NamedIdentity}

theorem attachmentSubnodeBlock_built {subnodes : List LeafSubnodeEntry} {counters final : Counters}
    {block : Option BlockId} {blocks : List BlockSpec}
    (hrun : attachmentSubnodeBlock subnodes counters = .ok (block, blocks) final) :
    Built counters final [] (entryReferences subnodes) block.toList blocks := by
  unfold attachmentSubnodeBlock at hrun
  split at hrun
  · rename_i empty
    simp only [pure_run_ok, Prod.mk.injEq] at hrun
    obtain ⟨⟨rfl, rfl⟩, rfl⟩ := hrun
    rw [List.isEmpty_iff.mp empty]
    exact .idle (Nat.le_refl _) []
  · simp only [bind_run_ok, pure_run_ok, Prod.mk.injEq] at hrun
    obtain ⟨id, taken, htake, ⟨rfl, rfl⟩, rfl⟩ := hrun
    obtain ⟨index, internal, moved⟩ := takeBlockId_ok htake
    have writable : Writable ⟨id, .subnode (sortByKey (·.node.value) subnodes), 2⟩ := internal
    have single := Built.claim index (by rw [moved]) (Built.single final writable)
    refine single.congr (fun _ => rfl) fun other => ?_
    rw [references_subnode, count_entryReferences_sort]
    rfl

theorem buildAttachment_accounted {index : Nat} {reserved : NodeId × BlockId}
    {attachment : AttachmentSpec} {content : ContentBuild} {streamed total : Nat}
    {session final : Session τ} {build : AttachmentsBuild}
    (hrun : buildAttachment around .physical identities index reserved attachment content streamed
      session = .ok (build, total) final) :
    ∃ own, build.blocks = content.blocks ++ own ∧
      Accounted session.stream final.stream [reserved.2] (entryReferences content.subnodes)
        (entryReferences build.subnodes) own := by
  simp only [buildAttachment, bind_run_ok, attempt_run_ok, pure_run_ok, Prod.mk.injEq] at hrun
  obtain ⟨_, _, ⟨-, rfl⟩, number, _, ⟨-, rfl⟩, properties, _, ⟨-, rfl⟩, _, session, ⟨-, rfl⟩,
    spooled, _, hspooled, _, _, ⟨-, rfl⟩, _, afterSpooled, ⟨-, rfl⟩, direct, _, hdirect, _, _,
    ⟨-, rfl⟩, size, _, ⟨-, rfl⟩, sized, afterDirect, ⟨-, rfl⟩, moved, afterMoved, hmoved, context,
    afterContext, hcontext, ⟨subnodeBlock, subnodeBlocks⟩, _, hsubnodes, ⟨rfl, rfl⟩, rfl⟩ := hrun
  have spooledAccount := appendSpooledProperties_accounted hspooled
  have directAccount := appendDirectProperties_accounted hdirect
  have movedAccount := accounted_takeIds hmoved fun _ => externalizeLargeProperties_built
  have contextAccount := accounted_takeIds hcontext fun _ => buildPropertyContext_built
  have subnodeAccount := accounted_takeIds hsubnodes fun _ => attachmentSubnodeBlock_built
  have whole := (((spooledAccount.append directAccount).append movedAccount).append
    contextAccount).append subnodeAccount
  refine ⟨moved.blocks ++ context.blocks ++ subnodeBlocks, by simp [List.append_assoc],
    whole.congr (fun _ => rfl) fun id => ?_⟩
  simp only [entryReferences_append, entryReferences_cons, entryReferences_nil, List.append_nil,
    List.nil_append, List.count_append, List.count_cons, List.count_nil]
  omega

theorem closeMessage_accounted {message : MessageSpec} {associated : Bool} {recordKey : Bytes}
    {propertyBlock attachmentTableBlock : BlockId} {recipients : RecipientBuild}
    {attachments : AttachmentsBuild} {streamed : Nat} {session final : Session τ}
    {built : MessageBlocks}
    (hrun : closeMessage around .physical message associated recordKey identities propertyBlock
      attachmentTableBlock recipients attachments streamed session = .ok built final) :
    built.recipientTable = recipients.table ∧
      built.recipientTableReferencedByMessage = recipients.referenced ∧
      built.attachmentTable ≠ [] ∧
      ∃ own, built.dynamicBlocks = recipients.blocks ++ attachments.blocks ++ own ∧
        Accounted session.stream final.stream [propertyBlock]
          (recipients.dataBlock :: recipients.subnodeBlock.toList ++ [attachmentTableBlock]
            ++ entryReferences attachments.subnodes)
          (built.propertyDataBlock :: entryReferences built.subnodes) own := by
  simp only [closeMessage, bind_run_ok, attempt_run_ok, pure_run_ok] at hrun
  obtain ⟨columns, _, ⟨-, rfl⟩, table, _, ⟨htable, rfl⟩, properties, session, ⟨-, rfl⟩, spooled, _,
    hspooled, _, afterSpooled, ⟨-, rfl⟩, direct, _, hdirect, _, afterDirect, ⟨-, rfl⟩, moved, _,
    hmoved, _, _, ⟨-, rfl⟩, size, _, ⟨-, rfl⟩, sized, afterMoved, ⟨-, rfl⟩, context, _, hcontext,
    rfl, rfl⟩ := hrun
  have spooledAccount := appendSpooledProperties_accounted hspooled
  have directAccount := appendDirectProperties_accounted hdirect
  have movedAccount := accounted_takeIds hmoved fun _ => externalizeLargeProperties_built
  have contextAccount := accounted_takeIds hcontext fun _ => buildPropertyContext_built
  have whole := ((spooledAccount.append directAccount).append movedAccount).append contextAccount
  refine ⟨rfl, rfl, tableContext_ne_nil htable, moved.blocks ++ context.blocks,
    by simp [List.append_assoc], whole.congr (fun _ => rfl) fun id => ?_⟩
  simp only [count_entryReferences_sort, entryReferences_append, entryReferences_cons,
    Option.toList_none, List.append_nil, List.nil_append, List.cons_append,
    List.count_append, List.count_cons, List.count_nil]
  omega

theorem reserveAttachment_accounted {index : Nat} {session middle : Session τ}
    {reserved : NodeId × BlockId} {last : MessageStreamState} {given outer roots : List BlockId}
    {blocks : List BlockSpec}
    (hreserve : takeIds (reserveAttachment index) session = .ok reserved middle)
    (accounted : Accounted middle.stream last (reserved.2 :: given) outer roots blocks) :
    Accounted session.stream last given outer roots blocks := by
  obtain ⟨counters, hrun, rfl⟩ := takeIds_ok hreserve
  simp only [reserveAttachment, bind_run_ok, attempt_run_ok, pure_run_ok] at hrun
  obtain ⟨_, _, ⟨-, rfl⟩, _, _, ⟨-, rfl⟩, node, start, ⟨-, hstart⟩, block, taken, htake, rfl,
    rfl⟩ := hrun
  subst hstart
  obtain ⟨index, -, rfl⟩ := takeBlockId_ok htake
  obtain ⟨emitted, streams, plain, built⟩ := accounted
  exact ⟨emitted, ⟨streams.specs, streams.streamedSubnodes, streams.contentsRows,
    streams.associatedRows, streams.topNodes⟩, plain, built.claim index rfl⟩

end Attachments

section Build

variable {around : Surroundings τ} {identities : List NamedIdentity}

mutual

theorem buildMessageBlocks_accounted (message : MessageSpec) {associated : Bool}
    {recordKey : Bytes} {frame : MessageFrame} {session final : Session τ} {built : MessageBlocks}
    (high : 28 ≤ session.stream.counters.nextBlockIndex)
    (hrun : buildMessageBlocks around .physical identities message associated recordKey frame
      session = .ok built final) :
    MessageAccount frame session.stream final.stream built :=
  match message with
  | { attachments, .. } => by
      simp only [buildMessageBlocks, bind_run_ok] at hrun
      obtain ⟨recipients, afterRecipients, hrecipients, ⟨attachmentsBuilt, streamed⟩,
        afterAttachments, hattachments, hclose⟩ := hrun
      obtain ⟨counters, hrecipient, -⟩ := takeIds_ok hrecipients
      have kept := (buildRecipientTable_built hrecipient).1
      have recipientAccount := accounted_takeIds hrecipients fun _ hrun =>
        (buildRecipientTable_built hrun).2
      have attachmentAccount := buildAttachments_accounted attachments
        (high.trans recipientAccount.indexes) hattachments
      obtain ⟨table, referenced, nonempty, own, hblocks, closeAccount⟩ :=
        closeMessage_accounted hclose
      refine ⟨by rw [table, referenced]; exact kept, nonempty, ?_⟩
      have whole := (recipientAccount.append attachmentAccount).append closeAccount
      rw [hblocks, referenced]
      refine whole.congr (fun _ => rfl) fun id => ?_
      simp only [List.append_nil, List.cons_append, List.count_append, List.count_cons,
        List.count_nil]
      omega

theorem buildAttachments_accounted (attachments : List AttachmentSpec) {index : Nat}
    {recordKey : Bytes} {streamed total : Nat} {session final : Session τ}
    {build : AttachmentsBuild} (high : 28 ≤ session.stream.counters.nextBlockIndex)
    (hrun : buildAttachments around .physical identities attachments index recordKey streamed
      session = .ok (build, total) final) :
    Accounted session.stream final.stream [] [] (entryReferences build.subnodes) build.blocks :=
  match attachments with
  | [] => by
      simp only [buildAttachments, pure_run_ok, Prod.mk.injEq] at hrun
      obtain ⟨⟨rfl, rfl⟩, rfl⟩ := hrun
      exact .idle _ _
  | { content, .. } :: rest => by
      simp only [buildAttachments, bind_run_ok, pure_run_ok, Prod.mk.injEq] at hrun
      obtain ⟨reserved, taken, hreserve, contentBuilt, afterContent, hcontent, ⟨head, middleTotal⟩,
        afterHead, hhead, ⟨tail, lastTotal⟩, _, htail, ⟨rfl, rfl⟩, rfl⟩ := hrun
      have start : 28 ≤ taken.stream.counters.nextBlockIndex :=
        high.trans (reserveAttachment_accounted hreserve (.spare (.idle _ []) [_])).indexes
      have contentAccount := buildAttachmentContent_accounted content start hcontent
      obtain ⟨own, hblocks, ownAccount⟩ := buildAttachment_accounted hhead
      have headAccount := contentAccount.link ownAccount
      rw [← hblocks] at headAccount
      have before := start.trans headAccount.indexes
      have tailAccount := buildAttachments_accounted rest before htail
      have whole := reserveAttachment_accounted hreserve (headAccount.append tailAccount)
      rw [entryReferences_append]
      exact whole

theorem buildAttachmentContent_accounted (content : AttachmentContent) {index : Nat}
    {recordKey : Bytes} {session final : Session τ} {build : ContentBuild}
    (high : 28 ≤ session.stream.counters.nextBlockIndex)
    (hrun : buildAttachmentContent around .physical identities content index recordKey session =
      .ok build final) :
    Accounted session.stream final.stream [] [] (entryReferences build.subnodes) build.blocks :=
  match content with
  | .embedded message => by
      simp only [buildAttachmentContent, bind_run_ok] at hrun
      obtain ⟨reserved, taken, hreserve, embedded, afterMessage, hmessage, hclose⟩ := hrun
      obtain ⟨spent, notTemplate⟩ := reserveEmbedded_accounted high hreserve
        (.spare (.idle _ []) [_, _, _])
      obtain ⟨kept, nonempty, messageAccount⟩ := buildMessageBlocks_accounted message
        (high.trans spent.indexes) hmessage
      obtain ⟨counters, hclosed, rfl⟩ := takeIds_ok hclose
      obtain ⟨own, reordered, ownBuilt⟩ := closeEmbedded_built kept notTemplate nonempty hclosed
      have whole := (messageAccount.append (accounted_of_built ownBuilt)).perm reordered
      refine (reserveEmbedded_accounted high hreserve (whole.congr (fun other => ?_)
        fun id => ?_)).1
      · simp only [indexCount_append, indexCount_cons, indexCount_nil]
        omega
      · simp only [List.count_append, List.count_cons, List.count_nil]
        omega
  | .binary _ | .spooled _ | .direct _ | .reference _ | .ole _ | .directOle _ => by
      simp only [buildAttachmentContent] at hrun
      exact buildContent_accounted hrun

end

end Build

section Append

variable {around : Surroundings τ} {identities : List NamedIdentity}

/-- Whether a message is the first of its store. -/
abbrev isFirst (index : Nat) : Bool := index = 0

/-- The identifiers that are set aside for the first message of a store. -/
def firstIds (index : Nat) : List BlockId :=
  if isFirst index then [leafBlock 12, leafBlock 17, leafBlock 18, ⟨27 * 4 + 2⟩] else []

/-- The references of the table templates to the tables of the first message. -/
def templateReferences (index : Nat) : List BlockId :=
  if isFirst index then [leafBlock 17, leafBlock 18] else []

theorem messageFrame_accounted {index : Nat} {session middle : Session τ} {frame : MessageFrame}
    {subnodeBlock : BlockId} {last : MessageStreamState} {outer roots : List BlockId}
    {blocks : List BlockSpec}
    (hframe : takeIds (messageFrame index) session = .ok (frame, subnodeBlock) middle)
    (accounted : Accounted middle.stream last
      [subnodeBlock, frame.attachmentBlock, frame.recipientBlock, frame.propertyBlock] outer roots
      blocks) :
    Accounted session.stream last (firstIds index) outer roots blocks := by
  obtain ⟨counters, hrun, rfl⟩ := takeIds_ok hframe
  unfold messageFrame at hrun
  split at hrun
  · rename_i first
    simp only [bind_run_ok, attempt_run_ok, pure_run_ok, Prod.mk.injEq] at hrun
    obtain ⟨property, _, ⟨hproperty, rfl⟩, recipient, _, ⟨hrecipient, rfl⟩, attachment, _,
      ⟨hattachment, rfl⟩, subnode, start, ⟨hsubnode, hstart⟩, ⟨rfl, rfl⟩, rfl⟩ := hrun
    obtain rfl := leafBid_eq_ok hproperty
    obtain rfl := leafBid_eq_ok hrecipient
    obtain rfl := leafBid_eq_ok hattachment
    obtain ⟨-, rfl⟩ := blockId_eq_ok.mp hsubnode
    subst hstart
    obtain ⟨emitted, streams, plain, built⟩ := accounted
    refine ⟨emitted, streams, plain, built.congr (fun other => ?_) fun _ => rfl⟩
    simp only [firstIds, isFirst, first, decide_true, ↓reduceIte, indexCount_cons, indexCount_nil]
    omega
  · rename_i later
    simp only [bind_run_ok, pure_run_ok, Prod.mk.injEq] at hrun
    obtain ⟨property, _, hproperty, recipient, _, hrecipient, attachment, _, hattachment, subnode,
      _, hsubnode, ⟨rfl, rfl⟩, rfl⟩ := hrun
    obtain ⟨indexProperty, -, rfl⟩ := takeBlockId_ok hproperty
    obtain ⟨indexRecipient, -, rfl⟩ := takeBlockId_ok hrecipient
    obtain ⟨indexAttachment, -, rfl⟩ := takeBlockId_ok hattachment
    obtain ⟨indexSubnode, -, rfl⟩ := takeBlockId_ok hsubnode
    obtain ⟨emitted, streams, plain, built⟩ := accounted
    refine ⟨emitted, ⟨streams.specs, streams.streamedSubnodes, streams.contentsRows,
      streams.associatedRows, streams.topNodes⟩, plain, ?_⟩
    rw [firstIds, isFirst, decide_eq_false later, if_neg Bool.false_ne_true]
    exact .claim indexProperty rfl (.claim indexRecipient rfl
      (.claim indexAttachment rfl (.claim indexSubnode rfl built)))

/-- The frame of a message holds the block of the recipient table template exactly
when the message is the first of its store. -/
theorem messageFrame_ids {index : Nat} {counters final : Counters} {frame : MessageFrame}
    {subnodeBlock : BlockId} (high : 28 ≤ counters.nextBlockIndex)
    (hrun : messageFrame index counters = .ok (frame, subnodeBlock) final) :
    subnodeBlock.isInternal = true ∧
      (isFirst index = true ↔ frame.recipientBlock = leafBlock 17) ∧
      (isFirst index = true → frame.attachmentBlock = leafBlock 18) := by
  unfold messageFrame at hrun
  split at hrun
  · rename_i first
    simp only [bind_run_ok, attempt_run_ok, pure_run_ok, Prod.mk.injEq] at hrun
    obtain ⟨property, _, ⟨-, rfl⟩, recipient, _, ⟨hrecipient, rfl⟩, attachment, _,
      ⟨hattachment, rfl⟩, subnode, _, ⟨hsubnode, rfl⟩, ⟨rfl, rfl⟩, rfl⟩ := hrun
    obtain rfl := leafBid_eq_ok hrecipient
    obtain rfl := leafBid_eq_ok hattachment
    refine ⟨(@blockId_index true _ _ hsubnode).2, ?_, fun _ => rfl⟩
    simp [isFirst, first]
  · rename_i later
    simp only [bind_run_ok, pure_run_ok, Prod.mk.injEq] at hrun
    obtain ⟨property, _, hproperty, recipient, _, hrecipient, attachment, _, hattachment, subnode,
      _, hsubnode, ⟨rfl, rfl⟩, rfl⟩ := hrun
    obtain ⟨-, -, rfl⟩ := takeBlockId_ok hproperty
    obtain ⟨indexRecipient, -, -⟩ := takeBlockId_ok hrecipient
    obtain ⟨-, internal, -⟩ := takeBlockId_ok hsubnode
    refine ⟨internal, ?_, fun first => absurd (of_decide_eq_true first) later⟩
    constructor
    · exact fun first => absurd (of_decide_eq_true first) later
    · intro same
      have index : recipient.index = 17 := (congrArg BlockId.index same).trans (leafBlock_index 17)
      rw [indexRecipient] at index
      dsimp only at index
      omega

/-- The recipient table of a message in its frame: the message refers to it unless it
took the external form, and the template refers to that of the first message. -/
theorem recipientTable_built {frame : MessageFrame} {message : MessageBlocks} {shared : Bool}
    (counters : Counters)
    (kept : TableKept frame.recipientBlock message.recipientTableReferencedByMessage
      message.recipientTable)
    (template : shared = true ↔ frame.recipientBlock = leafBlock 17) :
    Built counters counters [frame.recipientBlock] []
      (recipientReference frame.recipientBlock message.recipientTableReferencedByMessage
        ++ if shared then [frame.recipientBlock] else [])
      (message.recipientTable.toList.map fun table => ⟨frame.recipientBlock, .data table,
        if shared && message.recipientTableReferencedByMessage then 3 else 2⟩) := by
  cases htable : message.recipientTable with
  | none =>
      rw [htable] at kept
      have notShared : shared = false := by
        rw [← Bool.not_eq_true, template]
        exact kept.2
      rw [recipientReference, kept.1, notShared]
      exact (Built.idle (Nat.le_refl _) []).spare _
  | some table =>
      rw [htable] at kept
      have counted (references : Nat) : Built counters counters [frame.recipientBlock] []
          (List.replicate references frame.recipientBlock)
          [⟨frame.recipientBlock, .data table, references + 1⟩] :=
        .counted references counters (show Writable ⟨_, .data table, _⟩ from kept.1)
      cases shared with
      | false =>
          have referenced := kept.2.resolve_right fun same =>
            Bool.false_ne_true (template.mpr same)
          rw [recipientReference, referenced]
          exact counted 1
      | true =>
          cases referenced : message.recipientTableReferencedByMessage with
          | true => exact counted 2
          | false => exact counted 1

theorem builtMessageBlockSpecs_built {frame : MessageFrame} {subnodeBlock : BlockId}
    {shared : Bool} {message : MessageBlocks} {counters final : Counters} {blocks : List BlockSpec}
    (internal : subnodeBlock.isInternal = true)
    (template : shared = true ↔ frame.recipientBlock = leafBlock 17)
    (kept : TableKept frame.recipientBlock message.recipientTableReferencedByMessage
      message.recipientTable)
    (attachments : message.attachmentTable ≠ [])
    (hrun : builtMessageBlockSpecs frame subnodeBlock shared message counters = .ok blocks final) :
    ∃ own, blocks.Perm (message.dynamicBlocks ++ own) ∧
      Built counters final [frame.recipientBlock, frame.attachmentBlock, subnodeBlock]
        (message.propertyDataBlock :: entryReferences message.subnodes)
        (recipientReference frame.recipientBlock message.recipientTableReferencedByMessage
          ++ [frame.attachmentBlock] ++ [message.propertyDataBlock, subnodeBlock]
          ++ if shared then [frame.recipientBlock, frame.attachmentBlock] else []) own := by
  simp only [builtMessageBlockSpecs, bind_run_ok, pure_run_ok] at hrun
  obtain ⟨tree, _, htree, rfl, rfl⟩ := hrun
  have recipientBuilt := recipientTable_built counters kept template
  have attachmentBuilt : Built counters counters [frame.attachmentBlock] []
      ([frame.attachmentBlock] ++ if shared then [frame.attachmentBlock] else [])
      [⟨frame.attachmentBlock, .data message.attachmentTable, if shared then 3 else 2⟩] := by
    cases shared with
    | true => exact .counted 2 counters (show Writable ⟨_, .data _, _⟩ from attachments)
    | false => exact .counted 1 counters (show Writable ⟨_, .data _, _⟩ from attachments)
  have start : Built counters counters [] [message.propertyDataBlock] [message.propertyDataBlock]
      [] := .idle (Nat.le_refl _) _
  have whole := (start.append (recipientBuilt.append attachmentBuilt)).append
    (appendSubnodeTreeAt_built internal htree)
  refine ⟨_, (sortByKey_perm _ _).trans List.perm_append_comm, whole.congr (fun other => ?_)
    fun id => ?_⟩
  · simp only [indexCount_append, indexCount_cons, indexCount_nil]
    omega
  · cases shared <;>
      simp only [Bool.false_eq_true, ↓reduceIte, List.append_nil, List.count_append,
        List.count_cons, List.count_nil] <;> omega

theorem subnodeIds_append (first second : List BlockSpec) :
    subnodeIds (first ++ second) = subnodeIds first ++ subnodeIds second :=
  List.flatMap_append

theorem emitAll_ok {blocks : List BlockSpec} :
    ∀ {session final : Session τ} {value : Unit},
      emitAll around .physical blocks session = .ok value final →
        Streams session.stream final.stream blocks ∧
          final.stream.counters = session.stream.counters := by
  induction blocks with
  | nil =>
      intro session final value hrun
      obtain ⟨-, rfl⟩ := pure_run_ok.mp hrun
      exact ⟨.refl _, rfl⟩
  | cons block rest ih =>
      intro session final value hrun
      simp only [emitAll, emit, bind_run_ok] at hrun
      obtain ⟨_, middle, hwrite, hrest⟩ := hrun
      obtain ⟨-, streams, counters⟩ := writeBlock_ok hwrite
      obtain ⟨streamsRest, countersRest⟩ := ih hrest
      exact ⟨streams.trans streamsRest, countersRest.trans counters⟩

theorem listMessage_ok {message : MessageSpec} {messageNode parent : NodeId} {associated : Bool}
    {storeKey : Bytes} {built : MessageBlocks}
    {contentsColumns associatedColumns : List TableColumnDescriptor} {session final : Session τ}
    {value : Unit}
    (hrun : listMessage message messageNode parent associated storeKey built contentsColumns
      associatedColumns session = .ok value final) :
    final.stream.written = session.stream.written ∧
      final.stream.counters = session.stream.counters ∧
      final.stream.streamedSubnodes = session.stream.streamedSubnodes ∧
      final.stream.topNodes = session.stream.topNodes := by
  unfold listMessage at hrun
  split at hrun
  · rw [modify_run_ok] at hrun
    subst hrun
    exact ⟨rfl, rfl, rfl, rfl⟩
  · simp only [bind_run_ok, attempt_run_ok, modify_run_ok] at hrun
    obtain ⟨row, _, ⟨-, rfl⟩, rfl⟩ := hrun
    exact ⟨rfl, rfl, rfl, rfl⟩

/-- A message that was appended to a stream: its blocks keep the balance, its node is
listed behind the earlier ones, and so are the nodes of its subnodes. -/
structure MessageAppended (before after : MessageStreamState) (top : TopMessageNode)
    (blocks : List BlockSpec) : Prop where
  specs : after.specs = before.specs ++ blocks
  built : Built before.counters after.counters (firstIds before.messageCount) []
    ([top.propertyBlock, top.subnodeBlock] ++ templateReferences before.messageCount) blocks
  topNodes : after.topNodes = before.topNodes ++ [top]
  streamedSubnodes : after.streamedSubnodes = before.streamedSubnodes ++ subnodeIds blocks

theorem streamMessage_appended {message : MessageSpec} {parent : NodeId} {associated : Bool}
    {storeKey : Bytes} {contentsColumns associatedColumns : List TableColumnDescriptor}
    {session final : Session τ} {completions : List DirectBlobCompletion}
    (high : 28 ≤ session.stream.counters.nextBlockIndex)
    (hrun : streamMessage around .physical message parent associated storeKey identities
      contentsColumns associatedColumns session = .ok completions final) :
    ∃ top blocks, messageNode associated session.stream.messageCount = .ok top.node ∧
      top.parent = parent ∧ MessageAppended session.stream final.stream top blocks := by
  simp only [streamMessage, bind_run_ok, attempt_run_ok, get_run_ok, modify_run_ok,
    pure_run_ok] at hrun
  obtain ⟨_, _, hcheck, _, _, ⟨rfl, rfl⟩, topNode, checked, ⟨hnode, rfl⟩, ⟨frame, subnodeBlock⟩,
    framed, hframe, built, afterBuild, hbuild, _, listed, hlist, _, _, rfl, blocks, filed, hfiled,
    _, _, rfl, _, emitted, hemit, _, _, rfl, _, _, ⟨rfl, rfl⟩, rfl, rfl⟩ := hrun
  have checkedStream := checkInterrupted_ok hcheck
  rw [← checkedStream] at high ⊢
  obtain ⟨_, hframed, -⟩ := takeIds_ok hframe
  obtain ⟨internal, template, attachmentBlock⟩ := messageFrame_ids high hframed
  have spent := messageFrame_accounted hframe (.spare (.idle _ []) [_, _, _, _])
  obtain ⟨kept, nonempty, messageAccount⟩ :=
    buildMessageBlocks_accounted message (high.trans spent.indexes) hbuild
  obtain ⟨listedWritten, listedCounters, listedSubnodes, listedNodes⟩ := listMessage_ok hlist
  obtain ⟨counters, hspecs, rfl⟩ := takeIds_ok hfiled
  dsimp only at hspecs hemit
  rw [listedCounters] at hspecs
  obtain ⟨own, reordered, ownBuilt⟩ :=
    builtMessageBlockSpecs_built internal template kept nonempty hspecs
  have templates : templateReferences checked.stream.messageCount =
      if isFirst checked.stream.messageCount then [frame.recipientBlock, frame.attachmentBlock]
        else [] := by
    unfold templateReferences
    split
    · rename_i first
      rw [template.mp first, attachmentBlock first]
    · rfl
  have both := (messageAccount.append (accounted_of_built ownBuilt)).perm reordered
  have whole : Accounted framed.stream { afterBuild.stream with counters }
      [subnodeBlock, frame.attachmentBlock, frame.recipientBlock, frame.propertyBlock] []
      ([built.propertyDataBlock, subnodeBlock]
        ++ templateReferences checked.stream.messageCount) blocks := by
    refine both.congr (fun other => ?_) fun id => ?_
    · simp only [indexCount_append, indexCount_cons, indexCount_nil]
      omega
    · rw [templates]
      simp only [List.count_append, List.count_cons, List.count_nil]
      omega
  obtain ⟨streamed, streams, plain, wholeBuilt⟩ := messageFrame_accounted hframe whole
  obtain ⟨emits, emitCounters⟩ := emitAll_ok hemit
  refine ⟨⟨topNode, built.propertyDataBlock, subnodeBlock, parent⟩, streamed ++ blocks, hnode,
    rfl, ⟨?_, ?_, ?_, ?_⟩⟩
  · have specs : emitted.stream.specs = listed.stream.specs ++ blocks := emits.specs
    have same : listed.stream.specs = afterBuild.stream.specs := by
      rw [MessageStreamState.specs, listedWritten]
      rfl
    have streamedSpecs : afterBuild.stream.specs = checked.stream.specs ++ streamed := streams.specs
    rw [← List.append_assoc, ← streamedSpecs, ← same, ← specs]
    rfl
  · rw [emitCounters]
    exact wholeBuilt
  · rw [emits.topNodes]
    dsimp only
    rw [listedNodes, streams.topNodes]
  · rw [emits.streamedSubnodes, subnodeIds_append, plain]
    dsimp only
    rw [listedSubnodes, streams.streamedSubnodes, List.nil_append]

end Append

end PstForge.Writer
