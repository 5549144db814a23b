import PstForge.Ndb.SubnodeTree
import PstForge.Writer.Growth
import PstForge.Writer.StreamAccounts

/-! # The nodes under a message

A message has its two tables, its attachments and the values that were moved or streamed out of
its properties as subnodes, and an attachment its embedded message or such values. Value nodes are
numbered by a count that only the taking of one moves on, attachments by their position, and the
kinds of node differ. So no two entries of one list have the same node, and the trees that are
built over the lists can be searched.
-/

namespace PstForge.Writer

open PstForge.Foundation PstForge.Ndb PstForge.Ltp

variable {τ : Type}

section Numbering

/-- Nodes of some kinds, numbered between two counts and all different. -/
structure NumberedNodes (kinds : List NodeIdType) (first last : Nat) (nodes : List NodeId) :
    Prop where
  le : first ≤ last
  kind : ∀ node ∈ nodes, node.typeCode ∈ kinds.map NodeIdType.code
  inside : ∀ node ∈ nodes, first ≤ node.index ∧ node.index < last
  distinct : nodes.Nodup

namespace NumberedNodes

variable {kinds : List NodeIdType} {first middle last : Nat} {nodes others : List NodeId}

theorem nil (kinds : List NodeIdType) (count : Nat) : NumberedNodes kinds count count [] :=
  ⟨Nat.le_refl _, List.forall_mem_nil _, List.forall_mem_nil _, List.nodup_nil⟩

theorem single {kind : NodeIdType} (known : kind ∈ kinds) {node : NodeId}
    (code : node.typeCode = kind.code) :
    NumberedNodes kinds node.index (node.index + 1) [node] where
  le := Nat.le_succ _
  kind := List.forall_mem_singleton.mpr (code ▸ List.mem_map_of_mem known)
  inside := List.forall_mem_singleton.mpr ⟨Nat.le_refl _, Nat.lt_succ_self _⟩
  distinct := List.nodup_singleton _

theorem append (left : NumberedNodes kinds first middle nodes)
    (right : NumberedNodes kinds middle last others) :
    NumberedNodes kinds first last (nodes ++ others) where
  le := left.le.trans right.le
  kind node member := (List.mem_append.mp member).elim (left.kind node) (right.kind node)
  inside node member := by
    have le := left.le
    have le' := right.le
    rcases List.mem_append.mp member with here | there
    · have bounds := left.inside node here
      omega
    · have bounds := right.inside node there
      omega
  distinct := by
    refine List.nodup_append.mpr ⟨left.distinct, right.distinct, ?_⟩
    rintro node here other there rfl
    have before := left.inside node here
    have behind := right.inside node there
    omega

theorem of_kinds {kinds' : List NodeIdType} (numbered : NumberedNodes kinds first last nodes)
    (known : ∀ code ∈ kinds.map NodeIdType.code, code ∈ kinds'.map NodeIdType.code) :
    NumberedNodes kinds' first last nodes :=
  { numbered with kind := fun node member => known _ (numbered.kind node member) }

/-- Nodes of different kinds differ. -/
theorem apart {kinds' : List NodeIdType} {first' last' : Nat}
    (left : NumberedNodes kinds first last nodes) (right : NumberedNodes kinds' first' last' others)
    (differ : ∀ code ∈ kinds.map NodeIdType.code, code ∉ kinds'.map NodeIdType.code) :
    (nodes ++ others).Nodup := by
  refine List.nodup_append.mpr ⟨left.distinct, right.distinct, ?_⟩
  rintro node here other there rfl
  exact differ _ (left.kind node here) (right.kind node there)

end NumberedNodes

/-- The nodes of some subnode entries. -/
def nodesOf (entries : List LeafSubnodeEntry) : List NodeId := entries.map (·.node)

@[simp] theorem nodesOf_append (first second : List LeafSubnodeEntry) :
    nodesOf (first ++ second) = nodesOf first ++ nodesOf second :=
  List.map_append

/-- The kinds of node that carry a value. -/
def valueKinds : List NodeIdType := [.oleObjectData, .listsTablesProperties]

/-- Entries whose nodes were taken from the count of value nodes. -/
def TakenValues (before after : Counters) (entries : List LeafSubnodeEntry) : Prop :=
  NumberedNodes valueKinds before.nextValueNode after.nextValueNode (nodesOf entries)

theorem takenValues_nil {before after : Counters} (same : SameValues before after) :
    TakenValues before after [] := by
  unfold TakenValues
  rw [same]
  exact .nil _ _

theorem takenValues_single {kind : NodeIdType} (known : kind ∈ valueKinds) {what : String}
    {before taken after : Counters} {node : NodeId}
    (htake : takeValueNode kind what before = .ok node taken) (same : SameValues taken after)
    (root : BlockId) : TakenValues before after [⟨node, root, none⟩] := by
  obtain ⟨index, code, rfl⟩ := takeValueNode_ok htake
  have single := NumberedNodes.single known code
  rw [index] at single
  unfold TakenValues
  rw [same]
  exact single

end Numbering

section Memory

theorem appendLeaves_values (pieces : List Bytes) : Keeps SameValues (appendLeaves pieces) := by
  induction pieces with
  | nil => exact Keeps.of_pure SameValues.refl _
  | cons piece rest ih =>
      apply sameValues_bind (takeBlockId_values false)
      intro id
      apply sameValues_bind ih
      exact fun _ => Keeps.of_pure SameValues.refl _

theorem appendXBlocks_values {describe : List (BlockId × Nat) → Ids (BlockId × Nat)}
    (keeps : ∀ group, Keeps SameValues (describe group)) (groups : List (List (BlockId × Nat))) :
    Keeps SameValues (appendXBlocks describe groups) := by
  induction groups with
  | nil => exact Keeps.of_pure SameValues.refl _
  | cons group rest ih =>
      apply sameValues_bind (keeps group)
      intro described
      apply sameValues_bind ih
      exact fun _ => Keeps.of_pure SameValues.refl _

theorem closeDataTree_values {describe : List (BlockId × Nat) → Ids (BlockId × Nat)}
    (keeps : ∀ group, Keeps SameValues (describe group)) (tooMany tooLarge : String)
    (leaves : List (BlockId × Nat)) :
    Keeps SameValues (closeDataTree describe tooMany tooLarge leaves) := by
  unfold closeDataTree
  split
  · exact Keeps.of_pure SameValues.refl _
  · apply sameValues_bind (appendXBlocks_values keeps _)
    intro made
    dsimp only
    split
    · exact Keeps.of_pure SameValues.refl _
    · apply sameValues_bind (Keeps.of_attempt SameValues.refl _)
      intro _
      apply sameValues_bind (Keeps.of_attempt SameValues.refl _)
      intro total
      apply sameValues_bind (takeBlockId_values true)
      exact fun _ => Keeps.of_pure SameValues.refl _

theorem appendDataTree_values (bytes : Bytes) : Keeps SameValues (appendDataTree bytes) := by
  apply sameValues_bind (appendLeaves_values _)
  intro made
  apply sameValues_bind
  · apply closeDataTree_values
    intro group
    apply sameValues_bind (takeBlockId_values true)
    intro id
    apply sameValues_bind (Keeps.of_attempt SameValues.refl _)
    exact fun _ => Keeps.of_pure SameValues.refl _
  · exact fun _ => Keeps.of_pure SameValues.refl _

/-- The values that are moved out of a property list get nodes of their own. -/
theorem externalizeLargeProperties_taken {properties : Properties} :
    ∀ {before after : Counters} {moved : Externalized},
      externalizeLargeProperties properties before = .ok moved after →
        TakenValues before after moved.subnodes := by
  induction properties with
  | nil =>
      intro before after moved hrun
      obtain ⟨rfl, rfl⟩ := pure_run_ok.mp hrun
      exact takenValues_nil rfl
  | cons property rest ih =>
      intro before after moved hrun
      obtain ⟨propertyId, value⟩ := property
      simp only [externalizeLargeProperties, attempt_bind_run_ok] at hrun
      obtain ⟨encoded, -, hrun⟩ := hrun
      have kept {next : Counters} (hkeep : (do
            let tail ← externalizeLargeProperties rest
            return { tail with properties := (propertyId, value) :: tail.properties })
          before = .ok moved next) : TakenValues before next moved.subnodes := by
        obtain ⟨tail, _, htail, hpure⟩ := bind_run_ok.mp hkeep
        obtain ⟨rfl, rfl⟩ := pure_run_ok.mp hpure
        have taken := ih htail
        exact taken
      cases encoded with
      | none => exact kept hrun
      | some bytes =>
          obtain ⟨_, -, hrun⟩ := attempt_bind_run_ok.mp hrun
          split at hrun
          · exact kept hrun
          · simp only [bind_run_ok, pure_run_ok] at hrun
            obtain ⟨node, taken, htake, ⟨root, blocks⟩, middle, htree, tail, _, htail, rfl,
              rfl⟩ := hrun
            have same : SameValues taken middle := by
              have kept := appendDataTree_values bytes taken
              rwa [Foundation.after, htree] at kept
            exact (takenValues_single (by decide) htake same root).append (ih htail)

end Memory

section Streamed

variable {around : Surroundings τ} {output : Output}

/-- Streaming a payload into a value node takes this node only. -/
theorem streamContent_taken {kind : NodeIdType} (known : kind ∈ valueKinds) {what : String}
    {append : Live τ (BlockId × Nat)} (appending : Appending append) {session final : Session τ}
    {node : NodeId} {root : BlockId} {size : Nat}
    (hrun : streamContent kind what append session = .ok (node, root, size) final) :
    TakenValues session.stream.counters final.stream.counters [⟨node, root, none⟩] := by
  simp only [streamContent, bind_run_ok, pure_run_ok, Prod.mk.injEq] at hrun
  obtain ⟨taken, _, htake, ⟨top, length⟩, _, happend, ⟨rfl, rfl, rfl⟩, rfl⟩ := hrun
  obtain ⟨counters, hnode, rfl⟩ := takeIds_ok htake
  exact takenValues_single known hnode (appending.values happend) _

theorem appendStreamedProperties_taken {α : Type} {what valueNode : String}
    {id propertyType : α → Nat} {append : α → Live τ (BlockId × Nat)}
    (appending : ∀ spec, Appending (append spec)) {specs : List α} :
    ∀ {total : Nat} {session final : Session τ} {streamed : StreamedProperties},
      appendStreamedProperties what valueNode id propertyType append total specs session =
          .ok streamed final →
        TakenValues session.stream.counters final.stream.counters streamed.subnodes := by
  induction specs with
  | nil =>
      intro total session final streamed hrun
      obtain ⟨rfl, rfl⟩ := pure_run_ok.mp hrun
      exact takenValues_nil rfl
  | cons spec rest ih =>
      intro total session final streamed hrun
      simp only [appendStreamedProperties, bind_run_ok, attempt_run_ok, pure_run_ok] at hrun
      obtain ⟨kind, _, ⟨-, rfl⟩, node, _, htake, ⟨root, size⟩, middle, happend, sum, _, ⟨-, hsame⟩,
        tail, _, htail, rfl, rfl⟩ := hrun
      subst hsame
      obtain ⟨counters, hnode, rfl⟩ := takeIds_ok htake
      have known : NodeIdType.listsTablesProperties ∈ valueKinds := by decide
      have one := takenValues_single known hnode ((appending spec).values happend) root
      exact one.append (ih htail)

theorem appendSpooledProperties_taken {specs : List SpooledPropertySpec}
    {session final : Session τ} {streamed : StreamedProperties}
    (hrun : appendSpooledProperties around output specs session = .ok streamed final) :
    TakenValues session.stream.counters final.stream.counters streamed.subnodes := by
  have appending (spec : SpooledPropertySpec) :=
    appendSpooledDataTree_appending around output spec.blob
  exact appendStreamedProperties_taken appending hrun

theorem appendDirectProperties_taken {absent : String} {specs : List DirectPropertySpec}
    {session final : Session τ} {streamed : StreamedProperties}
    (hrun : appendDirectProperties around output absent specs session = .ok streamed final) :
    TakenValues session.stream.counters final.stream.counters streamed.subnodes := by
  cases specs with
  | nil =>
      obtain ⟨rfl, rfl⟩ := pure_run_ok.mp hrun
      exact takenValues_nil rfl
  | cons spec rest =>
      simp only [appendDirectProperties, requireSource, bind_run_ok, get_run_ok,
        attempt_run_ok] at hrun
      obtain ⟨_, _, ⟨_, _, ⟨rfl, rfl⟩, -, rfl⟩, hrun⟩ := hrun
      have appending (spec : DirectPropertySpec) :=
        appendBlobDataTree_appending around output absent spec.blob
      exact appendStreamedProperties_taken appending hrun

end Streamed

section Attachment

variable {around : Surroundings τ} {output : Output} {identities : List NamedIdentity}

/-- The content of an attachment needs value nodes, or the node of an embedded message. -/
def ContentEntries (before after : Counters) (entries : List LeafSubnodeEntry) : Prop :=
  TakenValues before after entries ∨
    ∃ index, NumberedNodes [.normalMessage] index (index + 1) (nodesOf entries)

theorem buildContent_entries {content : AttachmentContent} {session final : Session τ}
    {build : ContentBuild} (hrun : buildContent around output content session = .ok build final) :
    TakenValues session.stream.counters final.stream.counters build.subnodes := by
  cases content with
  | binary data =>
      obtain ⟨rfl, rfl⟩ := pure_run_ok.mp hrun
      exact takenValues_nil rfl
  | spooled blob =>
      simp only [buildContent, bind_run_ok, pure_run_ok] at hrun
      obtain ⟨⟨node, root, size⟩, _, hstream, rfl, rfl⟩ := hrun
      exact streamContent_taken (by decide) (appendSpooledDataTree_appending _ _ _) hstream
  | direct blob =>
      simp only [buildContent, bind_run_ok, pure_run_ok] at hrun
      obtain ⟨⟨node, root, size⟩, _, hstream, rfl, rfl⟩ := hrun
      exact streamContent_taken (by decide) (appendBlobDataTree_appending _ _ _ _) hstream
  | reference reference =>
      obtain ⟨rfl, rfl⟩ := pure_run_ok.mp hrun
      exact takenValues_nil rfl
  | ole ole =>
      have known : ole.dataKind.nodeType ∈ valueKinds := by cases ole.dataKind <;> decide
      simp only [buildContent] at hrun
      split at hrun
      · simp only [bind_run_ok, attempt_run_ok, pure_run_ok] at hrun
        obtain ⟨_, _, ⟨-, rfl⟩, rfl, rfl⟩ := hrun
        exact takenValues_nil rfl
      · simp only [bind_run_ok, attempt_run_ok, pure_run_ok] at hrun
        obtain ⟨⟨node, root, size⟩, middle, hstream, _, _, ⟨-, rfl⟩, rfl, rfl⟩ := hrun
        exact streamContent_taken known (appendSpooledDataTree_appending _ _ _) hstream
  | directOle ole =>
      have known : ole.dataKind.nodeType ∈ valueKinds := by cases ole.dataKind <;> decide
      simp only [buildContent] at hrun
      split at hrun
      · obtain ⟨rfl, rfl⟩ := pure_run_ok.mp hrun
        exact takenValues_nil rfl
      · simp only [bind_run_ok, attempt_run_ok, pure_run_ok] at hrun
        obtain ⟨⟨node, root, size⟩, middle, hstream, _, _, ⟨-, rfl⟩, rfl, rfl⟩ := hrun
        exact streamContent_taken known (appendBlobDataTree_appending _ _ _ _) hstream
  | embedded message => exact (throw_run_ok.mp hrun).elim

/-- An embedded message is the only subnode its attachment's content needs. -/
theorem embedded_entries {index : Nat} {before middle counters after : Counters}
    {reserved : EmbeddedBlocks} (hreserve : reserveEmbedded index before = .ok reserved middle)
    {embedded : MessageBlocks} {build : ContentBuild}
    (hclose : closeEmbedded reserved embedded counters = .ok build after) :
    ∃ first, NumberedNodes [.normalMessage] first (first + 1) (nodesOf build.subnodes) := by
  simp only [reserveEmbedded, bind_run_ok, attempt_run_ok, pure_run_ok] at hreserve
  obtain ⟨_, _, ⟨-, rfl⟩, node, _, ⟨hnode, rfl⟩, _, _, -, _, _, -, _, _, -, rfl, -⟩ := hreserve
  simp only [closeEmbedded, bind_run_ok, pure_run_ok] at hclose
  obtain ⟨_, _, -, _, _, -, rfl, -⟩ := hclose
  exact ⟨_, .single (List.mem_singleton_self _) (node_index hnode).2⟩

theorem buildAttachmentContent_entries {content : AttachmentContent} {index : Nat}
    {recordKey : Bytes} {session final : Session τ} {build : ContentBuild}
    (hrun : buildAttachmentContent around output identities content index recordKey session =
      .ok build final) :
    ContentEntries session.stream.counters final.stream.counters build.subnodes := by
  cases content with
  | embedded message =>
      simp only [buildAttachmentContent, bind_run_ok] at hrun
      obtain ⟨reserved, _, hreserve, embedded, _, -, hclose⟩ := hrun
      obtain ⟨_, hreserve, -⟩ := takeIds_ok hreserve
      obtain ⟨_, hclose, -⟩ := takeIds_ok hclose
      exact .inr (embedded_entries hreserve hclose)
  | binary _ | spooled _ | direct _ | reference _ | ole _ | directOle _ =>
      simp only [buildAttachmentContent] at hrun
      exact .inl (buildContent_entries hrun)

/-- The entries of an attachment, which its subnode block holds in order, have distinct nodes. -/
theorem buildAttachment_entries {index : Nat} {reserved : NodeId × BlockId}
    {attachment : AttachmentSpec} {content : ContentBuild} {streamed total : Nat}
    {before : Counters} {session final : Session τ} {build : AttachmentsBuild}
    (contents : ContentEntries before session.stream.counters content.subnodes)
    (hrun : buildAttachment around output identities index reserved attachment content streamed
      session = .ok (build, total) final) :
    nodesOf build.subnodes = [reserved.1] ∧
      ∃ entries, (nodesOf entries).Nodup ∧
        ∀ entry ∈ build.subnodes, (entries = [] ∧ entry.subnode = none) ∨
          ∃ block, entry.subnode = some block ∧
            ⟨block, .subnode (sortByKey (·.node.value) entries), 2⟩ ∈ build.blocks := by
  simp only [buildAttachment, bind_run_ok, attempt_run_ok, pure_run_ok, Prod.mk.injEq] at hrun
  obtain ⟨_, _, ⟨-, rfl⟩, number, _, ⟨-, rfl⟩, properties, _, ⟨-, rfl⟩, _, session, ⟨-, rfl⟩,
    spooled, _, hspooled, _, _, ⟨-, rfl⟩, _, afterSpooled, ⟨-, rfl⟩, direct, _, hdirect, _, _,
    ⟨-, rfl⟩, size, _, ⟨-, rfl⟩, sized, afterDirect, ⟨-, rfl⟩, moved, afterMoved, hmoved, context,
    afterContext, -, ⟨subnodeBlock, subnodeBlocks⟩, _, hsubnodes, ⟨rfl, rfl⟩, rfl⟩ := hrun
  obtain ⟨_, hmoved, -⟩ := takeIds_ok hmoved
  obtain ⟨_, hsubnodes, -⟩ := takeIds_ok hsubnodes
  have values := ((appendSpooledProperties_taken hspooled).append
    (appendDirectProperties_taken hdirect)).append (externalizeLargeProperties_taken hmoved)
  refine ⟨rfl, content.subnodes ++ spooled.subnodes ++ direct.subnodes ++ moved.subnodes, ?_, ?_⟩
  · simp only [nodesOf_append, List.append_assoc] at values ⊢
    rcases contents with taken | ⟨first, embedded⟩
    · exact (taken.append values).distinct
    · exact embedded.apart values (by decide)
  · simp only [attachmentSubnodeBlock] at hsubnodes
    rw [List.forall_mem_singleton]
    split at hsubnodes
    case isTrue empty =>
      obtain ⟨same, -⟩ := pure_run_ok.mp hsubnodes
      obtain ⟨rfl, rfl⟩ := Prod.mk.inj same
      exact .inl ⟨List.isEmpty_iff.mp empty, rfl⟩
    case isFalse =>
      simp only [bind_run_ok, pure_run_ok, Prod.mk.injEq] at hsubnodes
      obtain ⟨block, _, -, ⟨rfl, rfl⟩, -⟩ := hsubnodes
      exact .inr ⟨block, rfl, List.mem_append_right _ (List.mem_singleton_self _)⟩

/-- The attachments of a message are numbered by their position. -/
theorem buildAttachments_entries {attachments : List AttachmentSpec} :
    ∀ {index : Nat} {recordKey : Bytes} {streamed total : Nat} {session final : Session τ}
      {build : AttachmentsBuild},
      buildAttachments around output identities attachments index recordKey streamed session =
          .ok (build, total) final →
        NumberedNodes [.attachment] (0x20000 + index) (0x20000 + index + attachments.length)
          (nodesOf build.subnodes) := by
  induction attachments with
  | nil =>
      intro index recordKey streamed total session final build hrun
      simp only [buildAttachments, pure_run_ok, Prod.mk.injEq] at hrun
      obtain ⟨⟨rfl, -⟩, -⟩ := hrun
      exact .nil _ _
  | cons attachment rest ih =>
      intro index recordKey streamed total session final build hrun
      obtain ⟨_, content⟩ := attachment
      simp only [buildAttachments, bind_run_ok, pure_run_ok, Prod.mk.injEq] at hrun
      obtain ⟨reserved, _, hreserve, content, _, hcontent, ⟨head, _⟩, _, hhead, ⟨tail, _⟩, _, htail,
        ⟨rfl, -⟩, -⟩ := hrun
      obtain ⟨_, hreserved, rfl⟩ := takeIds_ok hreserve
      simp only [reserveAttachment, bind_run_ok, attempt_run_ok, pure_run_ok, okOr_eq_ok,
        tryFrom_eq_some, checkedAdd_eq_some] at hreserved
      obtain ⟨_, _, ⟨⟨rfl, -⟩, rfl⟩, nodeIndex, _, ⟨⟨rfl, -⟩, rfl⟩, node, _, ⟨hnode, rfl⟩,
        block, _, -,
        rfl, -⟩ := hreserved
      obtain ⟨number, code⟩ := node_index hnode
      have own := NumberedNodes.single (List.mem_singleton_self NodeIdType.attachment) code
      have entry := (buildAttachment_entries (buildAttachmentContent_entries hcontent) hhead).1
      rw [number] at own
      have others := ih htail
      rw [nodesOf_append, entry, List.length_cons, Nat.add_comm rest.length 1, ← Nat.add_assoc]
      exact own.append others

/-- The entries of a message have distinct nodes. -/
theorem buildMessageBlocks_entries {message : MessageSpec} {associated : Bool} {recordKey : Bytes}
    {frame : MessageFrame} {session final : Session τ} {built : MessageBlocks}
    (hrun : buildMessageBlocks around output identities message associated recordKey frame session =
      .ok built final) : (nodesOf built.subnodes).Nodup := by
  obtain ⟨_⟩ := message
  simp only [buildMessageBlocks, bind_run_ok] at hrun
  obtain ⟨recipients, _, -, ⟨attachments, streamed⟩, _, hattachments, hrun⟩ := hrun
  simp only [closeMessage, bind_run_ok, attempt_run_ok, pure_run_ok] at hrun
  obtain ⟨columns, _, ⟨-, rfl⟩, table, _, ⟨-, rfl⟩, properties, session, ⟨-, rfl⟩, spooled, _,
    hspooled, _, afterSpooled, ⟨-, rfl⟩, direct, _, hdirect, _, afterDirect, ⟨-, rfl⟩, moved, _,
    hmoved, _, _, ⟨-, rfl⟩, size, _, ⟨-, rfl⟩, sized, afterMoved, ⟨-, rfl⟩, context, _, -, rfl,
    rfl⟩ := hrun
  obtain ⟨_, hmoved, -⟩ := takeIds_ok hmoved
  have values := ((appendSpooledProperties_taken hspooled).append
    (appendDirectProperties_taken hdirect)).append (externalizeLargeProperties_taken hmoved)
  have nodes := buildAttachments_entries hattachments
  have tables : NumberedNodes [.attachmentTable, .recipientTable, .attachment] 0x33 0x20000
      [nidRecipientTableTemplate, nidAttachmentTableTemplate] :=
    ⟨by decide, by decide, by decide, by decide⟩
  have fixed := tables.append (nodes.of_kinds (by decide))
  have whole := fixed.apart values (by decide)
  have sorted (entries : List LeafSubnodeEntry) :
      (nodesOf (sortByKey (·.node.value) entries)).Perm (nodesOf entries) :=
    (sortByKey_perm _ _).map _
  refine (sorted _).nodup_iff.mpr (List.Perm.nodup ?_ whole)
  simp only [nodesOf_append, List.append_assoc]
  rw [← List.append_assoc]
  have order := sorted ([⟨nidRecipientTableTemplate, recipients.dataBlock, recipients.subnodeBlock⟩,
    ⟨nidAttachmentTableTemplate, frame.attachmentBlock, none⟩] ++ attachments.subnodes)
  rw [nodesOf_append] at order
  exact (order.append_right _).symm

/-- The tree of an embedded message is built over the entries of this message. -/
theorem buildEmbedded_isSubnodeTree {message : MessageSpec} {index : Nat} {recordKey : Bytes}
    {session final : Session τ} {build : ContentBuild}
    (hrun : buildAttachmentContent around output identities (.embedded message) index recordKey
      session = .ok build final) :
    ∃ node block entries root tree, build.subnodes = [⟨node, block, some root⟩] ∧
      (nodesOf entries).Nodup ∧ tree ⊆ build.blocks ∧ IsSubnodeTree entries root tree := by
  simp only [buildAttachmentContent, bind_run_ok] at hrun
  obtain ⟨reserved, _, -, embedded, _, hbuilt, hclose⟩ := hrun
  have distinct := buildMessageBlocks_entries hbuilt
  obtain ⟨_, hclosed, -⟩ := takeIds_ok hclose
  simp only [closeEmbedded, bind_run_ok, pure_run_ok] at hclosed
  obtain ⟨root, _, htake, tree, _, htree, rfl, -⟩ := hclosed
  obtain ⟨index, -, rfl⟩ := takeBlockId_ok htake
  have aside : root.index < _ + 1 := Nat.lt_succ_of_le (Nat.le_of_eq index)
  refine ⟨_, _, embedded.subnodes, root, tree, rfl, distinct, ?_,
    appendSubnodeTreeAt_isSubnodeTree distinct aside htree⟩
  intro block member
  exact List.mem_append_left _ (List.mem_append_right _ member)

/-- Both builders make trees that can be searched out of entries with distinct nodes, and the
entries of messages, of attachments and of embedded messages have distinct nodes. -/
theorem subnodeTrees_search (around : Surroundings τ) (output : Output)
    (identities : List NamedIdentity) :
    (∀ (entries : List LeafSubnodeEntry) (counters : Counters), (nodesOf entries).Nodup →
      entries.length ≤ maxSubnodeTreeEntries →
        (entries ≠ [] → counters.nextBlockIndex + 512 ≤ 2 ^ 62 →
          (∃ root blocks final, appendSubnodeTree entries counters = .ok (root, blocks) final) ∧
            ∀ root, ∃ blocks final, appendSubnodeTreeAt entries root counters = .ok blocks final) ∧
        (∀ root blocks final, appendSubnodeTree entries counters = .ok (root, blocks) final →
          IsSubnodeTree entries root blocks) ∧
        ∀ root blocks final, root.index < counters.nextBlockIndex →
          appendSubnodeTreeAt entries root counters = .ok blocks final →
            IsSubnodeTree entries root blocks) ∧
    (∀ message associated recordKey frame session built final,
      buildMessageBlocks around output identities message associated recordKey frame session =
          .ok built final → (nodesOf built.subnodes).Nodup) ∧
    (∀ message index recordKey session build final,
      buildAttachmentContent around output identities (.embedded message) index recordKey session =
          .ok build final →
        ∃ node block entries root tree, build.subnodes = [⟨node, block, some root⟩] ∧
          (nodesOf entries).Nodup ∧ tree ⊆ build.blocks ∧ IsSubnodeTree entries root tree) ∧
    ∀ content index recordKey session build middle,
      buildAttachmentContent around output identities content index recordKey session =
          .ok build middle →
        ∀ reserved attachment streamed own total final,
          buildAttachment around output identities index reserved attachment build streamed middle =
              .ok (own, total) final →
            ∃ entries, (nodesOf entries).Nodup ∧
              ∀ entry ∈ own.subnodes, (entries = [] ∧ entry.subnode = none) ∨
                ∃ block, entry.subnode = some block ∧
                  ⟨block, .subnode (sortByKey (·.node.value) entries), 2⟩ ∈ own.blocks := by
  refine ⟨?_, ?_, ?_, ?_⟩
  · intro entries counters distinct few
    refine ⟨fun nonempty room => appendSubnodeTrees_run nonempty few room, ?_, ?_⟩
    · intro root blocks final hrun
      exact appendSubnodeTree_isSubnodeTree distinct hrun
    · intro root blocks final aside hrun
      exact appendSubnodeTreeAt_isSubnodeTree distinct aside hrun
  · intro message associated recordKey frame session built final hrun
    exact buildMessageBlocks_entries hrun
  · intro message index recordKey session build final hrun
    exact buildEmbedded_isSubnodeTree hrun
  · intro content index recordKey session build middle hcontent reserved attachment streamed own
      total final hrun
    exact (buildAttachment_entries (buildAttachmentContent_entries hcontent) hrun).2

/-- Two values in a tree, and the subnodes of a note with an attachment. -/
theorem subnodeTrees_search_samples :
    (∃ root blocks, IsSubnodeTree [⟨⟨0x3F⟩, leafBlock 1, none⟩, ⟨⟨0x1F⟩, leafBlock 2, none⟩] root
      blocks) ∧
    ∃ built : MessageBlocks, (nodesOf built.subnodes).Nodup := by
  let around : Surroundings Unit := .quiet id fun _ source => (.error (.io "absent"), source)
  let session : Session Unit := ⟨.new, none, [], 0⟩
  let attachment : AttachmentSpec :=
    ⟨"a".toList, none, none, none, none, 0, [], [], [], .binary [1, 2]⟩
  let message : MessageSpec := { MessageSpec.note "s".toList "b".toList with
    attachments := [attachment] }
  obtain ⟨trees, messages, -, -⟩ := subnodeTrees_search around .physical []
  constructor
  · obtain ⟨runs, search, -⟩ := trees
      [⟨⟨0x3F⟩, leafBlock 1, none⟩, ⟨⟨0x1F⟩, leafBlock 2, none⟩] ⟨28, 0x40000⟩ (by decide)
      (by decide)
    obtain ⟨⟨root, blocks, final, hrun⟩, -⟩ := runs (by decide) (by decide)
    exact ⟨root, blocks, search root blocks final hrun⟩
  · have success : succeeds (buildMessageBlocks around .physical [] message false []
        ⟨leafBlock 12, leafBlock 17, leafBlock 18⟩) session = true := by decide +kernel
    obtain ⟨built, final, hrun⟩ := exists_run_ok success
    exact ⟨built, messages _ _ _ _ _ _ _ hrun⟩

end Attachment

end PstForge.Writer
