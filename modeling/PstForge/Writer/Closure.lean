import PstForge.Writer.Checkpoints
import PstForge.Writer.NodeIds

/-! # Referential closure of a finished store

The accounts of the messages and of the finalization plan add up over a whole run of
the writer: the block B-tree that results lists every block once and counts exactly
the references to it, and no reference leads out of it. The nodes of the node B-tree
are distinct, and the counters of the header stand behind all of them.
-/

namespace PstForge.Writer

open PstForge.Foundation PstForge.Ndb PstForge.Ltp

variable {τ : Type}

section Stream

/-- The account of a whole stream of messages. -/
structure StreamLedger (state : MessageStreamState) : Prop where
  built : Built ⟨28, 0⟩ state.counters (if state.messageCount = 0 then [] else firstIds 0) []
    (state.topNodes.flatMap (·.references)
      ++ if state.messageCount = 0 then [] else templateReferences 0) state.specs
  subnodes : state.streamedSubnodes = subnodeIds state.specs
  nodes : ∀ index top, state.topNodes[index]? = some top →
    ∃ associated, messageNode associated index = .ok top.node

namespace StreamLedger

theorem new : StreamLedger .new where
  built := .idle (by decide) []
  subnodes := rfl
  nodes := by simp [MessageStreamState.new]

/-- Appending a message keeps the account. -/
theorem append {before after : MessageStreamState} {associated : Bool} {top : TopMessageNode}
    {blocks : List BlockSpec} (ledger : StreamLedger before)
    (hnode : messageNode associated before.messageCount = .ok top.node)
    (appended : MessageAppended before after top blocks) : StreamLedger after where
  built := by
    have both := ledger.built.append appended.built
    have later : after.messageCount ≠ 0 := by
      simp [MessageStreamState.messageCount, appended.topNodes]
    rw [appended.specs, if_neg later, if_neg later]
    refine both.congr (fun index => ?_) fun id => ?_
    · by_cases first : before.messageCount = 0
      · simp [first]
      · simp [first, firstIds, isFirst]
    · rw [appended.topNodes, List.flatMap_append, List.flatMap_singleton]
      by_cases first : before.messageCount = 0
      · simp only [first, ↓reduceIte, List.append_nil, List.count_append,
          TopMessageNode.references]
        omega
      · simp only [first, ↓reduceIte, List.count_append, TopMessageNode.references,
          templateReferences, isFirst, decide_false, decide_true, Bool.false_eq_true,
          List.count_nil, List.append_nil]
        omega
  subnodes := by
    rw [appended.streamedSubnodes, appended.specs, subnodeIds_append, ledger.subnodes]
  nodes index node found := by
    rw [appended.topNodes] at found
    rcases Nat.lt_trichotomy index before.topNodes.length with below | rfl | above
    · rw [List.getElem?_append_left below] at found
      exact ledger.nodes index node found
    · rw [List.getElem?_append_right (Nat.le_refl _), Nat.sub_self] at found
      obtain rfl : top = node := by simpa using found
      exact ⟨associated, hnode⟩
    · rw [List.getElem?_eq_none (by simp; omega)] at found
      cases found

end StreamLedger

end Stream

section Plan

/-- The identifiers that are set aside for the blocks of a plan. -/
def planIds : List BlockId :=
  [10, 11, 1, 3, 5, 6, 8, 9, 13, 14, 15, 16, 19, 20, 21, 22, 23, 24, 25, 26, 4, 7, 2].map leafBlock

/-- The account of a finalization plan behind a stream: it balances with what the node
B-tree refers to, and the nodes of that are distinct. -/
structure PlanLedger (state : MessageStreamState) (plan : FinalizationPlan) : Prop where
  indexes : state.counters.nextBlockIndex ≤ plan.nextBlockIndex
  fresh : ∀ index, indexCount (blockIds plan.blocks) index ≤
    indexCount planIds index + span state.counters.nextBlockIndex plan.nextBlockIndex index
  balanced : ∀ id ≠ BlockId.null,
    (blockReferences plan.blocks).count id + (nodeReferences plan.nodes).count id =
      owed plan.blocks id + (state.topNodes.flatMap (·.references)).count id
        + (templateReferences 0).count id
  owned : ∀ block ∈ plan.blocks, 0 < block.refCount
  nodes : (plan.nodes.map (·.node)).Nodup

/-- Taking identifiers leaves the messages of a stream as they are. -/
theorem takeIds_topNodes {α : Type} {program : Ids α} {session final : Session τ} {value : α}
    (hrun : takeIds program session = .ok value final) :
    program session.stream.counters = .ok value final.stream.counters ∧
      final.stream.topNodes = session.stream.topNodes := by
  obtain ⟨counters, hprogram, rfl⟩ := takeIds_ok hrun
  exact ⟨hprogram, rfl⟩

/-- The accounts of the parts of a plan, taken together. -/
theorem planParts_built {first second third fourth last : Counters}
    {deleted : NodeId} {plans : List FolderPlan} {folderRoots rootRoots ipmRoots namedRoots :
      List BlockId}
    {folderBlocks fixedOnes rootBlocks ipmBlocks namedBlocks : List BlockSpec}
    (folderBuilt : Built first second (firstFolderIds 0)
      (plans.flatMap (sharedReferences deleted)) folderRoots folderBlocks)
    (fixedBuilt : Built second second
      ((fixedCounts deleted plans).map fun count => leafBlock count.1) []
      (countedReferences (fixedCounts deleted plans)) fixedOnes)
    (rootBuilt : Built second third [leafBlock 4] [] rootRoots rootBlocks)
    (ipmBuilt : Built third fourth [leafBlock 7] [] ipmRoots ipmBlocks)
    (namedBuilt : Built fourth last [leafBlock 2] [] namedRoots namedBlocks) :
    Built first last planIds (plans.flatMap (sharedReferences deleted))
      (folderRoots ++ countedReferences (fixedCounts deleted plans) ++ rootRoots ++ ipmRoots
        ++ namedRoots)
      (sortByKey (·.id.value)
        (fixedOnes ++ namedBlocks ++ rootBlocks ++ ipmBlocks ++ folderBlocks)) := by
  have whole := (((folderBuilt.append fixedBuilt).append rootBuilt).append ipmBuilt).append
    namedBuilt
  refine (whole.congr (fun index => ?_) fun id => ?_).perm ((sortByKey_perm _ _).trans ?_)
  · rfl
  · simp only [List.count_append, List.append_nil]
  · classical
    rw [List.perm_iff_count]
    intro block
    simp only [List.count_append]
    omega

theorem buildFinalizationPlan_ledger {around : Surroundings τ} {storeName : Text}
    {recordKey : Bytes} {identities : List NamedIdentity} {folders : List MailFolderSpec}
    {preserve : Bool} {plans : List FolderPlan} {session final : Session τ}
    {plan : FinalizationPlan} (ledger : StreamLedger session.stream)
    (hplans : planTransactionFolders folders preserve = .ok plans)
    (hrun : buildFinalizationPlan around storeName recordKey identities plans session =
      .ok plan final) : PlanLedger session.stream plan := by
  obtain ⟨distinct, planned⟩ := planTransactionFolders_nodes hplans
  simp only [buildFinalizationPlan, attempt_bind_run_ok] at hrun
  obtain ⟨schema, -, fixed, hfixed, hrun⟩ := hrun
  rw [bind_run_ok] at hrun
  obtain ⟨_, session, hget, hrun⟩ := hrun
  obtain ⟨rfl, rfl⟩ := get_run_ok.mp hget
  obtain ⟨⟨topFolders, folderBlocks, left⟩, afterFolders, hfolders, hrun⟩ := bind_run_ok.mp hrun
  simp only [attempt_bind_run_ok] at hrun
  obtain ⟨_, -, deleted, -, ipmRows, -, rootRows, -, rootBlock, hrootBlock, ipmBlock, hipmBlock,
    hrun⟩ := hrun
  obtain ⟨rootHierarchy, afterRoot, hrootHierarchy, hrun⟩ := bind_run_ok.mp hrun
  obtain ⟨ipmHierarchy, afterIpm, hipmHierarchy, hrun⟩ := bind_run_ok.mp hrun
  obtain ⟨named, afterNamed, hnamed, hrun⟩ := bind_run_ok.mp hrun
  simp only [attempt_bind_run_ok] at hrun
  obtain ⟨fixedOnes, hfixedOnes, nodes, hnodes, projected, -, hrun⟩ := hrun
  simp only [bind_run_ok, get_run_ok, pure_run_ok] at hrun
  obtain ⟨_, _, ⟨rfl, rfl⟩, rfl, rfl⟩ := hrun
  obtain rfl := leafBid_eq_ok hrootBlock
  obtain rfl := leafBid_eq_ok hipmBlock
  obtain ⟨sameNodes, topNodes, folderBuilt⟩ := buildFolders_built hfolders
  obtain ⟨hroot, -⟩ := takeIds_topNodes hrootHierarchy
  obtain ⟨hipm, -⟩ := takeIds_topNodes hipmHierarchy
  obtain ⟨hnamedRun, -⟩ := takeIds_topNodes hnamed
  have built := planParts_built folderBuilt
    (fixedBlocks_built afterFolders.stream.counters hfixedOnes)
    (buildTableContext_built hroot) (buildTableContext_built hipm)
    (buildNamedPropertyContext_built hnamedRun)
  refine ⟨built.indexes, built.fresh, fun id notNull => ?_, built.owned,
    nodeEntries_nodup hfixed sameNodes distinct planned ledger.nodes hnodes⟩
  have references := nodeEntries_references sameNodes distinct hnodes notNull
  have balanced := built.balanced id
  simp only [List.count_append] at balanced
  dsimp only at references balanced ⊢
  omega

end Plan

section Closed

/-- A store whose parts refer only to each other: what refers to its blocks are the
entries of the node B-tree and the blocks themselves. -/
structure Closed (blocks : List BlockSpec) (nodes : List NodeBTreeEntry) (nextBlockIndex : Nat)
    (nids : List Nat) : Prop where
  distinctBlocks : (blockIds blocks).Nodup
  below : ∀ id ∈ blockIds blocks, id.index < nextBlockIndex
  distinctNodes : (nodes.map (·.node)).Nodup
  listed : ∀ id ∈ nodeReferences nodes ++ blockReferences blocks,
    id ≠ .null → id ∈ blockIds blocks
  counted : ∀ block ∈ blocks, block.refCount =
    1 + (nodeReferences nodes ++ blockReferences blocks).count block.id
  topLevel : ∀ entry ∈ nodes, Covers nids true entry.node
  subnodes : ∀ id ∈ subnodeIds blocks, Covers nids false id

theorem owed_eq_zero {blocks : List BlockSpec} {id : BlockId} (absent : id ∉ blockIds blocks) :
    owed blocks id = 0 := by
  induction blocks with
  | nil => rfl
  | cons block rest ih =>
      rw [blockIds_cons, List.mem_cons, not_or] at absent
      rw [owed_cons, if_neg fun same => absent.1 same.symm, ih absent.2]

/-- Among blocks with distinct identifiers only a block itself is owed references
to it. -/
theorem owed_of_nodup {blocks : List BlockSpec} (distinct : (blockIds blocks).Nodup)
    {block : BlockSpec} (member : block ∈ blocks) : owed blocks block.id = block.refCount - 1 := by
  induction blocks with
  | nil => cases member
  | cons head rest ih =>
      rw [blockIds_cons, List.nodup_cons] at distinct
      rw [owed_cons]
      rcases List.mem_cons.mp member with rfl | member
      · rw [if_pos rfl, owed_eq_zero distinct.1, Nat.add_zero]
      · have other : head.id ≠ block.id := by
          intro same
          exact distinct.1 (same ▸ List.mem_map_of_mem member)
        rw [if_neg other, Nat.zero_add, ih distinct.2 member]

theorem reserved_once (index : Nat) :
    indexCount (firstIds 0) index + indexCount planIds index ≤ if index < 28 then 1 else 0 := by
  rw [← indexCount_append]
  split
  case isTrue below =>
    have all : ∀ index < 28, indexCount (firstIds 0 ++ planIds) index ≤ 1 := by decide
    exact all index below
  case isFalse above =>
    have all : ∀ id ∈ firstIds 0 ++ planIds, id.index < 28 := by decide
    rw [indexCount, Nat.le_zero, List.countP_eq_zero]
    intro id member
    have := all id member
    simp only [decide_eq_true_eq]
    omega

theorem reserved_positive : indexCount (firstIds 0 ++ planIds) 0 = 0 := by decide

/-- The accounts of a stream and of the plan behind it close the store. -/
theorem PlanLedger.closed {state : MessageStreamState} {plan : FinalizationPlan} {nids : List Nat}
    (ledger : StreamLedger state) (planLedger : PlanLedger state plan)
    (nonempty : state.messageCount ≠ 0)
    (hnids : nidCounters plan.nodes plan.blocks state.streamedSubnodes = .ok nids) :
    Closed (state.specs ++ plan.blocks) plan.nodes plan.nextBlockIndex nids := by
  have built := ledger.built
  rw [if_neg nonempty, if_neg nonempty] at built
  have lower : 28 ≤ state.counters.nextBlockIndex := built.indexes
  have upper := planLedger.indexes
  have total : ∀ index, indexCount (blockIds (state.specs ++ plan.blocks)) index ≤
      indexCount (firstIds 0) index + indexCount planIds index
        + span 28 plan.nextBlockIndex index := by
    intro index
    have first := built.fresh index
    have second := planLedger.fresh index
    rw [span_add lower upper, blockIds_append, indexCount_append]
    dsimp only at first
    omega
  have once : ∀ index, indexCount (blockIds (state.specs ++ plan.blocks)) index ≤ 1 := by
    intro index
    have reserved := reserved_once index
    have counted := total index
    unfold span at counted
    split at reserved <;> split at counted <;> omega
  have distinct := nodup_of_indexCount once
  have positive : ∀ id ∈ blockIds (state.specs ++ plan.blocks),
      0 < indexCount (blockIds (state.specs ++ plan.blocks)) id.index := by
    intro id member
    exact List.countP_pos_iff.mpr ⟨id, member, by simp⟩
  have notNull : BlockId.null ∉ blockIds (state.specs ++ plan.blocks) := by
    intro member
    have counted := total BlockId.null.index
    have used := positive _ member
    have reserved := reserved_positive
    rw [indexCount_append] at reserved
    have isZero : BlockId.null.index = 0 := rfl
    rw [isZero] at counted used
    rw [span, if_neg (by omega)] at counted
    omega
  have balanced : ∀ id ≠ BlockId.null,
      (nodeReferences plan.nodes ++ blockReferences (state.specs ++ plan.blocks)).count id =
        owed (state.specs ++ plan.blocks) id := by
    intro id notNull
    have first := built.balanced id
    have second := planLedger.balanced id notNull
    simp only [List.count_append, List.count_nil] at first
    simp only [List.count_append, blockReferences_append, owed_append]
    omega
  have covers := nidCounters_cover hnids
  refine ⟨distinct, fun id member => ?_, planLedger.nodes, fun id member present => ?_,
    fun block member => ?_, covers.1, fun id member => covers.2 id ?_⟩
  · have used := positive id member
    have reserved := reserved_once id.index
    have counted := total id.index
    unfold span at counted
    split at reserved <;> split at counted <;> omega
  · by_contra absent
    have counted := balanced id present
    rw [owed_eq_zero absent, List.count_eq_zero] at counted
    exact counted member
  · have present : block.id ≠ .null := by
      intro same
      exact notNull (same ▸ List.mem_map_of_mem member)
    have owned : 0 < block.refCount := by
      rcases List.mem_append.mp member with member | member
      · exact built.owned block member
      · exact planLedger.owned block member
    rw [balanced block.id present, owed_of_nodup distinct member]
    omega
  · rw [subnodeIds_append, ← ledger.subnodes, List.mem_append] at member
    exact List.mem_append.mpr member.symm

end Closed

section Run

variable (around : Surroundings τ) (accepts : MessageSpec → Except WriterError Unit)

/-- What a run offers to the writer: a folder, or a message for a folder, which may
read its payloads from the live source. -/
inductive Offer where
  | folder (folder : MailFolderSpec)
  | message (live : Bool) (key : FolderKey) (associated : Bool) (message : MessageSpec)

/-- Take in what is offered. -/
def Offer.take : Offer → Writing τ Unit
  | .folder observed => observeFolder observed
  | .message live key associated appended =>
      discard (appendMessageDeferredFrom around accepts live key associated appended)

/-- Take in a sequence of offers, all of which must succeed. -/
def takeOffers : List Offer → Writing τ Unit
  | [] => return ()
  | offer :: rest => do
      offer.take around accepts
      takeOffers rest

/-- A successful append streams its message onto the blocks of the writer. -/
theorem append_streams {live : Bool} {key : FolderKey} {associated : Bool} {message : MessageSpec}
    {transaction final : Transaction τ} {completions : List DirectBlobCompletion}
    (hrun : appendMessageDeferredFrom around accepts live key associated message transaction =
      .ok completions final) :
    ∃ (session after : Session τ) (parent : NodeId) (storeKey : Bytes)
      (identities : List NamedIdentity) (contents associatedTable : List TableColumnDescriptor),
      session.stream = transaction.writer.messageStream ∧
        after.stream = final.writer.messageStream ∧
        streamMessage around .physical message parent associated storeKey identities contents
          associatedTable session = .ok completions after := by
  simp only [appendMessageDeferredFrom, bind_run_ok, attempt_run_ok, get_run_ok, modify_run_ok,
    modifyFolders] at hrun
  obtain ⟨_, _, hcheck, _, checked, ⟨-, rfl⟩, _, prepared, hprepare, index, found, hfind, _, _, rfl,
    _, _, ⟨rfl, rfl⟩, hrun⟩ := hrun
  have sameStream : found.writer.messageStream = transaction.writer.messageStream := by
    obtain rfl := (findFolder_ensures key prepared).run_ok hfind
    obtain ⟨identities, rfl, -, -⟩ :=
      (prepareNamedIdentities_ensures message checked).run_ok hprepare
    rw [← (inspect_ensures _ transaction).run_ok hcheck]
  rcases onError_run_ok.mp hrun with hrun | ⟨error, middle, -, hrun⟩
  · simp only [streamFiled, bind_run_ok, attempt_run_ok, get_run_ok] at hrun
    obtain ⟨_, _, ⟨rfl, rfl⟩, parent, _, ⟨-, rfl⟩, contents, _, ⟨-, rfl⟩, associatedTable, _,
      ⟨-, rfl⟩, hrun⟩ := hrun
    obtain ⟨session, hsession, rfl⟩ := zoom_run_ok.mp hrun
    exact ⟨_, session, parent, _, _, contents, associatedTable, sameStream, rfl, hsession⟩
  · simp only [bind_run_ok, throw_run_ok] at hrun
    obtain ⟨_, _, -, _, _, -, ⟨⟩⟩ := hrun

theorem observeFolder_stream {folder : MailFolderSpec} {transaction final : Transaction τ}
    {value : Unit} (hrun : observeFolder folder transaction = .ok value final) :
    final.writer.messageStream = transaction.writer.messageStream := by
  simp only [observeFolder, bind_run_ok, attempt_run_ok, get_run_ok] at hrun
  obtain ⟨_, _, ⟨-, rfl⟩, _, transaction, ⟨rfl, rfl⟩, hrun⟩ := hrun
  generalize transaction.writer.spec.folders.find? _ = existing at hrun
  cases existing with
  | some existing =>
    obtain ⟨-, rfl⟩ := attempt_run_ok.mp hrun
    rfl
  | none =>
    simp only [bind_run_ok, modifyFolders, modify_run_ok, onError_run_ok, attempt_run_ok,
      throw_run_ok] at hrun
    obtain ⟨_, _, rfl, ⟨-, rfl⟩ | ⟨_, _, _, _, _, _, ⟨⟩⟩⟩ := hrun
    rfl

/-- What is taken in keeps the account of the stream. -/
theorem Offer.take_ledger {offer : Offer} {transaction final : Transaction τ} {value : Unit}
    (ledger : StreamLedger transaction.writer.messageStream)
    (hrun : offer.take around accepts transaction = .ok value final) :
    StreamLedger final.writer.messageStream := by
  cases offer with
  | folder observed =>
      rw [observeFolder_stream hrun]
      exact ledger
  | message live key associated message =>
      obtain ⟨completions, happend⟩ := discard_run_ok.mp hrun
      obtain ⟨session, after, parent, storeKey, identities, contents, associatedTable, before,
        behind, hstream⟩ := append_streams around accepts happend
      rw [← before] at ledger
      obtain ⟨top, blocks, hnode, -, appended⟩ :=
        streamMessage_appended ledger.built.indexes hstream
      rw [← behind]
      exact ledger.append hnode appended

theorem takeOffers_ledger {offers : List Offer} :
    ∀ {transaction final : Transaction τ} {value : Unit},
      StreamLedger transaction.writer.messageStream →
      takeOffers around accepts offers transaction = .ok value final →
        StreamLedger final.writer.messageStream := by
  induction offers with
  | nil =>
      intro transaction final value ledger hrun
      obtain ⟨-, rfl⟩ := pure_run_ok.mp hrun
      exact ledger
  | cons offer rest ih =>
      intro transaction final value ledger hrun
      obtain ⟨_, middle, hoffer, hrest⟩ := bind_run_ok.mp hrun
      exact ih (offer.take_ledger around accepts ledger hoffer) hrest

/-- The messages of a run and the plan behind them make a closed store. -/
theorem finalizationPlan_closed {layout : MailStoreSpec} {named : List NamedIdentity}
    {dynamicNamedProperties preserveEmptyFolders : Bool} {writer : TransactionalMailStoreWriter}
    {source : Option τ} {clock : Nat} {offers : List Offer} {taken final : Transaction τ}
    {plan : FinalizationPlan} {nids : List Nat}
    (hbegin : beginWithNamedPolicy layout named dynamicNamedProperties preserveEmptyFolders =
      .ok writer)
    (htake : takeOffers around accepts offers ⟨writer, source, clock⟩ = .ok () taken)
    (hplan : finalizationPlan around taken = .ok plan final)
    (hnids : nidCounters plan.nodes plan.blocks taken.writer.messageStream.streamedSubnodes =
      .ok nids) :
    Closed (taken.writer.messageStream.specs ++ plan.blocks) plan.nodes plan.nextBlockIndex
      nids := by
  have begun : StreamLedger writer.messageStream := by
    simp only [beginWithNamedPolicy, bind_eq_ok] at hbegin
    obtain ⟨_, -, _, -, hpure⟩ := hbegin
    cases hpure
    exact .new
  have ledger := takeOffers_ledger around accepts begun htake
  simp only [finalizationPlan, bind_run_ok, attempt_run_ok, get_run_ok] at hplan
  obtain ⟨_, _, ⟨rfl, rfl⟩, _, _, ⟨hcount, rfl⟩, first, _, ⟨-, rfl⟩, plans, _, ⟨hplans, rfl⟩, _,
    taken, ⟨-, rfl⟩, hbuild⟩ := hplan
  obtain ⟨session, hplanned, rfl⟩ := zoom_run_ok.mp hbuild
  have nonempty : taken.writer.messageStream.messageCount ≠ 0 := refuse_eq_ok.mp hcount
  exact (buildFinalizationPlan_ledger ledger hplans hplanned).closed ledger nonempty hnids

end Run

section Samples

/-- Append a note to an empty store and plan the rest of it. -/
def planNote : Writing Unit (MessageStreamState × FinalizationPlan × List Nat) := do
  takeOffers noSource (fun _ => .ok ()) [.message false inboxKey false (.note [] [])]
  let stream := (← get).writer.messageStream
  let plan ← finalizationPlan noSource
  let nids ← attempt (nidCounters plan.nodes plan.blocks stream.streamedSubnodes)
  return (stream, plan, nids)

theorem beginWithNamedPolicy_sample :
    beginWithNamedPolicy (sampleWriter true).spec [] true true = .ok (sampleWriter true) := by
  have valid : validateMailStoreLayoutExpected (sampleWriter true).spec = .ok () := by
    decide +kernel
  simp only [beginWithNamedPolicy, valid]
  rfl

theorem planNote_run : ∃ taken final plan nids,
    takeOffers noSource (fun _ => .ok ()) [.message false inboxKey false (.note [] [])]
      ⟨sampleWriter true, none, 0⟩ = .ok () taken ∧
    finalizationPlan noSource taken = .ok plan final ∧
    nidCounters plan.nodes plan.blocks taken.writer.messageStream.streamedSubnodes = .ok nids ∧
    BlockId.null ∈ nodeReferences plan.nodes ∧
    BlockId.null ∉ blockIds (taken.writer.messageStream.specs ++ plan.blocks) := by
  have ran : (match planNote ⟨sampleWriter true, none, 0⟩ with
    | .ok (stream, plan, _) _ => decide (BlockId.null ∈ nodeReferences plan.nodes ∧
        BlockId.null ∉ blockIds (stream.specs ++ plan.blocks))
    | .error _ _ => false) = true := by
    decide +kernel
  split at ran
  · rename_i stream plan nids final hrun
    simp only [planNote, bind_run_ok, get_run_ok, attempt_run_ok, pure_run_ok,
      Prod.mk.injEq] at hrun
    obtain ⟨_, _, htake, _, taken, ⟨rfl, rfl⟩, _, final, hplan, _, _, ⟨hnids, rfl⟩,
      ⟨rfl, rfl, rfl⟩, rfl⟩ := hrun
    exact ⟨taken, final, plan, nids, htake, hplan, hnids, of_decide_eq_true ran⟩
  · cases ran

/-- The plan behind a single note refers to the null block, which no block has. -/
theorem nullBlock_unlisted : ∃ taken final plan nids,
    beginWithNamedPolicy (sampleWriter true).spec [] true true = .ok (sampleWriter true) ∧
    takeOffers noSource (fun _ => .ok ()) [.message false inboxKey false (.note [] [])]
      ⟨sampleWriter true, none, 0⟩ = .ok () taken ∧
    finalizationPlan noSource taken = .ok plan final ∧
    nidCounters plan.nodes plan.blocks taken.writer.messageStream.streamedSubnodes = .ok nids ∧
    ¬ ∀ id ∈ nodeReferences plan.nodes,
      id ∈ blockIds (taken.writer.messageStream.specs ++ plan.blocks) := by
  obtain ⟨taken, final, plan, nids, htake, hplan, hnids, referenced, absent⟩ := planNote_run
  exact ⟨taken, final, plan, nids, beginWithNamedPolicy_sample, htake, hplan, hnids,
    fun listed => absent (listed _ referenced)⟩

theorem finalizationPlan_closed_note : ∃ taken final plan nids,
    takeOffers noSource (fun _ => .ok ()) [.message false inboxKey false (.note [] [])]
      ⟨sampleWriter true, none, 0⟩ = .ok () taken ∧
    finalizationPlan noSource taken = .ok plan final ∧
    Closed (taken.writer.messageStream.specs ++ plan.blocks) plan.nodes plan.nextBlockIndex
      nids := by
  obtain ⟨taken, final, plan, nids, htake, hplan, hnids, -⟩ := planNote_run
  exact ⟨taken, final, plan, nids, htake, hplan,
    finalizationPlan_closed noSource _ beginWithNamedPolicy_sample htake hplan hnids⟩

end Samples

end PstForge.Writer
