import PstForge.Writer.Filing

/-! # The length of a finished store

The length of a store is projected while messages are still streamed, and decides whether a
message stays in its part. What is written behind the last message takes just the extents that
the projection gave it, so that the length is never found to be another.
-/

namespace PstForge.Writer

open PstForge.Foundation PstForge.Ndb PstForge.Ltp

variable {τ : Type}

section Pages

/-- Pages that are placed in two parts. -/
theorem placePages_add {first second start middle last : Nat}
    (placed : placePages first start = .ok middle) (behind : placePages second middle = .ok last) :
    placePages (first + second) start = .ok last := by
  induction first generalizing start with
  | zero =>
      obtain rfl := Except.ok.inj placed
      rwa [Nat.zero_add]
  | succ first ih =>
      rw [placePages, bind_eq_ok] at placed
      obtain ⟨extent, allocated, placed⟩ := placed
      rw [Nat.add_right_comm, placePages, bind_eq_ok]
      exact ⟨extent, allocated, ih placed⟩

/-- Leaves are planned over as many pages as the entries fill. -/
theorem length_planLeafPages {count capacity : Nat} {ranges : List (Nat × Nat)} (some : count ≠ 0)
    (planned : planLeafPages count capacity = .ok ranges) :
    ranges.length = divCeil count capacity := by
  obtain ⟨_, -, planned⟩ := bind_eq_ok.mp planned
  rw [if_neg some] at planned
  obtain rfl := Except.ok.inj planned
  rw [List.length_map, List.length_range]

variable {around : Surroundings τ} {kind : BTreeKind}

theorem writeLevel_placed {level capacity : Nat} {isLeaf : Bool} {keys : List Nat}
    {ranges : List (Nat × Nat)} {cursor last : PageCursor} {parents : List BTreePageEntry}
    {session next : Session τ}
    (written : writeLevel around kind level capacity isLeaf keys ranges cursor session =
      .ok (parents, last) next) :
    parents.length = ranges.length ∧ placePages ranges.length cursor.offset = .ok last.offset := by
  induction ranges generalizing cursor session parents next with
  | nil =>
      obtain ⟨same, -⟩ := pure_run_ok.mp written
      cases same
      exact ⟨rfl, rfl⟩
  | cons range rest ih =>
      obtain ⟨⟨offset, behind⟩, allocated, written⟩ := attempt_bind_run_ok.mp written
      obtain ⟨_, -, written⟩ := attempt_bind_run_ok.mp written
      obtain ⟨_, _, -, written⟩ := bind_run_ok.mp written
      obtain ⟨_, _, -, written⟩ := bind_run_ok.mp written
      obtain ⟨page, -, written⟩ := attempt_bind_run_ok.mp written
      obtain ⟨⟨entries, final⟩, _, later, written⟩ := bind_run_ok.mp written
      obtain ⟨same, -⟩ := pure_run_ok.mp written
      cases same
      obtain ⟨length, placed⟩ := ih later
      refine ⟨congrArg Nat.succ length, ?_⟩
      rw [List.length_cons, placePages, bind_eq_ok]
      exact ⟨_, allocated, placed⟩

/-- The levels over one are placed on the pages that are counted for them. -/
theorem writeUpperLevels_placed {fuel : Nat} {final : List BTreePageEntry} {last : PageCursor}
    {next : Session τ} :
    ∀ {level count total : Nat} {roots : List BTreePageEntry} {cursor : PageCursor}
      {session : Session τ},
      writeUpperLevels around kind fuel level roots cursor session = .ok (final, last) next →
        upperPageCount 20 fuel roots.length count = .ok total →
          ∃ pages, total = count + pages ∧ placePages pages cursor.offset = .ok last.offset := by
  induction fuel with
  | zero =>
      intro level count total roots cursor session written counted
      obtain ⟨same, -⟩ := pure_run_ok.mp written
      cases same
      obtain rfl := Except.ok.inj counted
      exact ⟨0, rfl, rfl⟩
  | succ fuel ih =>
      intro level count total roots cursor session written counted
      rw [writeUpperLevels] at written
      rw [upperPageCount] at counted
      by_cases more : 1 < roots.length
      · rw [if_pos more] at written counted
        obtain ⟨pages, added, counted⟩ := bind_eq_ok.mp counted
        obtain ⟨rfl, -⟩ := checkedAdd_eq_some.mp (okOr_eq_ok.mp added)
        obtain ⟨ranges, planned, written⟩ := attempt_bind_run_ok.mp written
        obtain ⟨⟨parents, middle⟩, _, here, written⟩ := bind_run_ok.mp written
        obtain ⟨above, -, written⟩ := attempt_bind_run_ok.mp written
        obtain ⟨length, placed⟩ := writeLevel_placed here
        have nonempty : roots.length ≠ 0 := by omega
        rw [length_planLeafPages nonempty planned] at length placed
        rw [← length] at counted
        obtain ⟨upper, rfl, placedUpper⟩ := ih written counted
        refine ⟨_, ?_, placePages_add placed placedUpper⟩
        rw [length, Nat.add_assoc]
      · rw [if_neg more] at written counted
        obtain ⟨same, -⟩ := pure_run_ok.mp written
        cases same
        obtain rfl := Except.ok.inj counted
        exact ⟨0, rfl, rfl⟩

/-- A B-tree is placed on the pages that are counted for it. -/
theorem writeBTree_placed {keys : List Nat} {cursor last : PageCursor} {root : BTreePageEntry}
    {session next : Session τ} {count : Nat}
    (written : writeBTree around kind keys cursor session = .ok (root, last) next)
    (counted : btreePageCount keys.length kind.leafCapacity 20 = .ok count) :
    placePages count cursor.offset = .ok last.offset := by
  obtain ⟨_, positive, counted⟩ := bind_eq_ok.mp counted
  rw [refuse_eq_ok, not_or] at positive
  obtain ⟨ranges, planned, written⟩ := attempt_bind_run_ok.mp written
  obtain ⟨_, -, written⟩ := attempt_bind_run_ok.mp written
  obtain ⟨⟨leaves, middle⟩, _, here, written⟩ := bind_run_ok.mp written
  obtain ⟨⟨roots, behind⟩, _, above, written⟩ := bind_run_ok.mp written
  obtain ⟨first, -, written⟩ := attempt_bind_run_ok.mp written
  obtain ⟨same, -⟩ := pure_run_ok.mp written
  cases same
  obtain ⟨length, placed⟩ := writeLevel_placed here
  rw [length_planLeafPages positive.1 planned] at length placed
  rw [← length] at counted placed
  obtain ⟨upper, rfl, placedUpper⟩ := writeUpperLevels_placed above counted
  exact placePages_add placed placedUpper

end Pages

section Blocks

variable {around : Surroundings τ}

theorem writeBlock_placed {block : BlockSpec} {session final : Session τ} {value : Unit}
    (hrun : writeBlock around block session = .ok value final) :
    ∃ size physical offset, blockExtent block = .ok (size, physical) ∧
      allocateExtent session.stream.allocationCursor physical slotSize =
        .ok (offset, final.stream.allocationCursor) ∧
      final.stream.written.length = session.stream.written.length + 1 := by
  simp only [writeBlock, allocate, listBlock, bind_run_ok, attempt_run_ok, get_run_ok,
    modify_run_ok, pure_run_ok] at hrun
  obtain ⟨_, checked, hcheck, _, _, ⟨-, rfl⟩, ⟨size, physical⟩, _, ⟨hextent, rfl⟩, offset, placed,
    ⟨_, _, ⟨rfl, rfl⟩, ⟨_, cursor⟩, _, ⟨hallocate, rfl⟩, _, _, rfl, rfl, rfl⟩, _, touched, htouch,
    _, _, ⟨-, rfl⟩, _, again, hagain, rfl⟩ := hrun
  have stream := (touch_ok hagain).trans (touch_ok htouch)
  rw [checkInterrupted_ok hcheck] at hallocate stream
  refine ⟨size, physical, offset, hextent, ?_, ?_⟩
  · rw [stream]
    exact hallocate
  · rw [stream, List.length_append]
    rfl

/-- Blocks are written where they were projected. -/
theorem emitAll_placed {blocks : List BlockSpec} :
    ∀ {session final : Session τ} {value : Unit},
      emitAll around .physical blocks session = .ok value final →
        placeBlocks session.stream.allocationCursor blocks =
            .ok final.stream.allocationCursor ∧
          final.stream.written.length = session.stream.written.length + blocks.length := by
  induction blocks with
  | nil =>
      intro session final value hrun
      obtain ⟨-, rfl⟩ := pure_run_ok.mp hrun
      exact ⟨rfl, rfl⟩
  | cons block rest ih =>
      intro session final value hrun
      obtain ⟨_, middle, hwrite, hrest⟩ := bind_run_ok.mp hrun
      obtain ⟨size, physical, offset, hextent, hallocate, length⟩ := writeBlock_placed hwrite
      obtain ⟨placed, lengthRest⟩ := ih hrest
      constructor
      · rw [placeBlocks, bind_eq_ok]
        refine ⟨_, hextent, ?_⟩
        rw [bind_eq_ok]
        exact ⟨_, hallocate, placed⟩
      · rw [lengthRest, length, List.length_cons]
        omega

end Blocks

section Plan

variable {around : Surroundings τ}

/-- A plan projects the length that its blocks and nodes lead to. -/
theorem buildFinalizationPlan_projected {storeName : Text} {recordKey : Bytes}
    {identities : List NamedIdentity} {plans : List FolderPlan} {session final : Session τ}
    {plan : FinalizationPlan}
    (hrun : buildFinalizationPlan around storeName recordKey identities plans session =
      .ok plan final) :
    projectedFinalizedFileEof session.stream.allocationCursor session.stream.written.length
      plan.blocks plan.nodes.length = .ok plan.projectedFileEof := by
  simp only [buildFinalizationPlan, attempt_bind_run_ok] at hrun
  obtain ⟨schema, -, fixed, -, hrun⟩ := hrun
  rw [bind_run_ok] at hrun
  obtain ⟨_, session, hget, hrun⟩ := hrun
  obtain ⟨rfl, rfl⟩ := get_run_ok.mp hget
  obtain ⟨⟨topFolders, folderBlocks, left⟩, _, -, hrun⟩ := bind_run_ok.mp hrun
  simp only [attempt_bind_run_ok] at hrun
  obtain ⟨_, -, _, -, _, -, _, -, _, -, _, -, hrun⟩ := hrun
  obtain ⟨_, _, -, hrun⟩ := bind_run_ok.mp hrun
  obtain ⟨_, _, -, hrun⟩ := bind_run_ok.mp hrun
  obtain ⟨_, _, -, hrun⟩ := bind_run_ok.mp hrun
  simp only [attempt_bind_run_ok] at hrun
  obtain ⟨_, -, _, -, projected, hprojected, hrun⟩ := hrun
  simp only [bind_run_ok, get_run_ok, pure_run_ok] at hrun
  obtain ⟨_, _, ⟨rfl, rfl⟩, rfl, rfl⟩ := hrun
  exact hprojected

/-- What the plan of a finalization was built from. -/
theorem finalizationPlan_built {transaction planned : Transaction τ} {plan : FinalizationPlan}
    (hrun : finalizationPlan around transaction = .ok plan planned) :
    ∃ (plans : List FolderPlan) (final : Session τ),
      planTransactionFolders transaction.writer.spec.folders
        transaction.writer.preserveEmptyFolders = .ok plans ∧
      buildFinalizationPlan around transaction.writer.spec.storeName
        transaction.writer.spec.recordKey transaction.writer.namedIdentities plans
          (transaction.session false) = .ok plan final ∧
      planned.writer = transaction.writer := by
  simp only [finalizationPlan, bind_run_ok, attempt_run_ok, get_run_ok] at hrun
  obtain ⟨_, _, ⟨rfl, rfl⟩, _, _, ⟨-, rfl⟩, first, _, ⟨-, rfl⟩, plans, _, ⟨hplans, rfl⟩, _,
    _, ⟨-, rfl⟩, hbuild⟩ := hrun
  have same := (inspect_ensures _ _).run_ok hbuild
  obtain ⟨final, hplanned, -⟩ := zoom_run_ok.mp hbuild
  exact ⟨plans, final, hplans, hplanned, same⟩

/-- A finished store went through the writing of its plan, and has the length that the plan
projected. -/
theorem finalizeWithPolicy_steps {transaction final : Transaction τ} {store : FinishedStore}
    (hrun : finalizeWithPolicy around transaction = .ok store final) :
    ∃ (started planned : Transaction τ) (plan : FinalizationPlan) (filled between behind : Session τ)
      (blockRoot nodeRoot : BTreePageEntry) (middle last : PageCursor),
      started.writer = transaction.writer ∧
      finalizationPlan around started = .ok plan planned ∧
      writeBlocks around plan.blocks (planned.session false) = .ok () filled ∧
      writeBbt around (sortByKey (·.spec.id.value) filled.stream.written)
        ⟨alignUp filled.stream.allocationCursor pageSize, 0x100⟩ filled =
          .ok (blockRoot, middle) between ∧
      writeNbt around plan.nodes middle between = .ok (nodeRoot, last) behind ∧
      store.fileEof = plan.projectedFileEof := by
  obtain ⟨_, started, hcheck, hrun⟩ := bind_run_ok.mp hrun
  obtain ⟨plan, planned, hplan, hrun⟩ := bind_run_ok.mp hrun
  obtain ⟨_, hwrite, -⟩ := zoom_run_ok.mp hrun
  simp only [writeStore, bind_run_ok, get_run_ok, attempt_run_ok, pure_run_ok, refuse_eq_ok,
    not_not] at hwrite
  obtain ⟨_, _, ⟨rfl, rfl⟩, _, filled, hblocks, _, _, ⟨rfl, rfl⟩, ⟨blockRoot, middle⟩, between, hbbt,
    ⟨nodeRoot, last⟩, behind, hnbt, eof, _, ⟨-, rfl⟩, _, _, ⟨same, rfl⟩, _, _, -, _, _, ⟨-, rfl⟩,
    _, _, -, _, _, ⟨-, rfl⟩, _, _, ⟨-, rfl⟩, _, _, -, rfl, -⟩ := hwrite
  exact ⟨started, planned, plan, _, between, _, blockRoot, nodeRoot, middle, last,
    (inspect_ensures _ _).run_ok hcheck, hplan, hblocks, hbbt, hnbt, same⟩

/-- Finish a store with one note in its inbox. -/
def finishNote (maximum : Nat) : Writing Unit FinishedStore := do
  let appended ← appendMessage noSource (fun _ => .ok ()) inboxKey false (.note [] []) maximum
  attempt (refuse (appended matches .partFull _) (.invalidStructure "note was taken back"))
  finalizeWithPolicy noSource

/-- Finish a store behind a direct append of a note. -/
def finishDirectNote : Writing Unit FinishedStore := do
  let projection ← projectMessageDirectExtents noSource (fun _ => .ok ()) inboxKey false (.note [] [])
  discard (appendMessageDirectPreflightedExtents noSource (fun _ => .ok ()) inboxKey false
    (.note [] []) projection)
  finalizeWithPolicy noSource

/-- When the blocks of a plan and both B-trees have been written, the file has the projected
length: the comparison of the two lengths never refuses a store. -/
theorem finalization_agrees {transaction planned : Transaction τ} {plan : FinalizationPlan}
    {filled between behind : Session τ} {blockRoot nodeRoot : BTreePageEntry}
    {middle last : PageCursor}
    (hplan : finalizationPlan around transaction = .ok plan planned)
    (hblocks : writeBlocks around plan.blocks (planned.session false) = .ok () filled)
    (hbbt : writeBbt around (sortByKey (·.spec.id.value) filled.stream.written)
      ⟨alignUp filled.stream.allocationCursor pageSize, 0x100⟩ filled =
        .ok (blockRoot, middle) between)
    (hnbt : writeNbt around plan.nodes middle between = .ok (nodeRoot, last) behind) :
    allocationFileEof last.offset = .ok plan.projectedFileEof := by
  obtain ⟨plans, final, -, hbuild, same⟩ := finalizationPlan_built hplan
  have projected := buildFinalizationPlan_projected hbuild
  obtain ⟨placed, length⟩ := emitAll_placed hblocks
  have sameStream : (planned.session false).stream = (transaction.session false).stream := by
    unfold Transaction.session
    rw [same]
  rw [sameStream] at placed length
  simp only [projectedFinalizedFileEof, bind_eq_ok] at projected
  obtain ⟨cursor, hcursor, count, hcount, blockPages, hblockPages, afterBlocks, hafterBlocks,
    nodePages, hnodePages, afterNodes, hafterNodes, heof⟩ := projected
  rw [placed] at hcursor
  obtain rfl := Except.ok.inj hcursor
  obtain ⟨rfl, -⟩ := checkedAdd_eq_some.mp (okOr_eq_ok.mp hcount)
  rw [← length] at hblockPages
  have blockCount : ((sortByKey (·.spec.id.value) filled.stream.written).map
      (·.spec.id.value)).length = filled.stream.written.length := by
    rw [List.length_map, (sortByKey_perm _ _).length_eq]
  rw [← blockCount] at hblockPages
  have blocksPlaced := writeBTree_placed hbbt hblockPages
  rw [hafterBlocks] at blocksPlaced
  obtain rfl := Except.ok.inj blocksPlaced
  have nodeCount : (plan.nodes.map (·.node.value)).length = plan.nodes.length :=
    List.length_map _
  rw [← nodeCount] at hnodePages
  have nodesPlaced := writeBTree_placed hnbt hnodePages
  rw [hafterNodes] at nodesPlaced
  obtain rfl := Except.ok.inj nodesPlaced
  exact heof

theorem finalization_agrees_note : ∃ (transaction planned : Transaction Unit)
    (plan : FinalizationPlan) (last : PageCursor),
    finalizationPlan noSource transaction = .ok plan planned ∧
      allocationFileEof last.offset = .ok plan.projectedFileEof := by
  have success : succeeds finishDirectNote ⟨sampleWriter true, none, 0⟩ = true := by
    decide +kernel
  obtain ⟨store, final, hrun⟩ := exists_run_ok success
  obtain ⟨_, _, -, hrun⟩ := bind_run_ok.mp hrun
  obtain ⟨_, _, -, hfinish⟩ := bind_run_ok.mp hrun
  obtain ⟨started, planned, plan, filled, between, behind, blockRoot, nodeRoot, middle, last, -,
    hplan, hblocks, hbbt, hnbt, -⟩ := finalizeWithPolicy_steps hfinish
  exact ⟨started, planned, plan, last, hplan, finalization_agrees hplan hblocks hbbt hnbt⟩

/-- A store that was finished behind a writer has the length that was projected behind another
with the same places. -/
theorem SamePlaces.finished {measured measuring finishing final : Transaction τ}
    {bridge : Session τ} {eof : Nat} {store : FinishedStore}
    (same : SamePlaces finishing.writer measured.writer bridge)
    (hmeasure : Writer.projectedFileEof around measured = .ok eof measuring)
    (hfinish : finalizeWithPolicy around finishing = .ok store final) : store.fileEof = eof := by
  obtain ⟨started, planned, plan, -, -, -, -, -, -, -, begun, hplan, -, -, -, length⟩ :=
    finalizeWithPolicy_steps hfinish
  obtain ⟨plans, ended, hplans, hbuild, -⟩ := finalizationPlan_built hplan
  obtain ⟨plans', session', ended', plan', stream', hplans', hbuild', rfl⟩ :=
    projectedFileEof_planned hmeasure
  rw [begun, same.spec, same.preserveEmptyFolders, hplans'] at hplans
  obtain rfl := Except.ok.inj hplans
  have stream : (started.session false).stream = finishing.writer.messageStream := by
    unfold Transaction.session
    rw [begun]
  obtain ⟨contents, associated, placed⟩ := same.left (started.session false) stream
  obtain ⟨contents', associated', placed'⟩ := same.right session' stream'
  obtain ⟨_, bridged, hbridge, rfl, -⟩ :=
    predicted_buildFinalizationPlan around _ _ _ _ _ bridge placed _ _ hbuild
  obtain ⟨_, bridged', hbridge', rfl, -⟩ :=
    predicted_buildFinalizationPlan around _ _ _ _ _ bridge placed' _ _ hbuild'
  rw [begun, same.spec, same.namedIdentities, hbridge'] at hbridge
  rw [length, (EStateM.Result.ok.inj hbridge).1]

theorem SamePlaces.refl (writer : TransactionalMailStoreWriter) :
    SamePlaces writer writer (⟨writer.messageStream, none, [], 0⟩ : Session τ) := by
  refine ⟨rfl, rfl, rfl, fun session same => ?_, fun session same => ?_⟩
  · exact ⟨_, _, .refl same.symm⟩
  · exact ⟨_, _, .refl same.symm⟩

/-- What an append within a limit went through when it kept its message. -/
theorem appendMessage_steps {accepts : MessageSpec → Except WriterError Unit} {key : FolderKey}
    {isAssociated : Bool} {message : MessageSpec} {maximum projected : Nat}
    {transaction appended : Transaction τ}
    (hrun : appendMessage around accepts key isAssociated message maximum transaction =
      .ok (.appended projected) appended) :
    ∃ streamed : Transaction τ, projectedFileEof around streamed = .ok projected appended ∧
      streamed.writer = appended.writer ∧
      (maximum < projected → appended.writer.messageStream.messageCount ≤ 1) := by
  simp only [appendMessage, beginBatch, bind_run_ok, attempt_run_ok, get_run_ok, pure_run_ok] at hrun
  obtain ⟨_, _, ⟨-, rfl⟩, _, _, ⟨_, _, ⟨rfl, rfl⟩, rfl, rfl⟩, eof, measured, hmeasure, _, _,
    ⟨rfl, rfl⟩, hrun⟩ := hrun
  split at hrun
  case isTrue =>
    simp only [bind_run_ok, pure_run_ok] at hrun
    obtain ⟨_, _, -, ⟨⟩, -⟩ := hrun
  case isFalse within =>
    obtain ⟨same, rfl⟩ := pure_run_ok.mp hrun
    cases same
    rcases onError_run_ok.mp hmeasure with hmeasure | ⟨error, middle, -, hmeasure⟩
    · obtain ⟨_, streamed, -, hmeasure⟩ := bind_run_ok.mp hmeasure
      have same := (projectedFileEof_ensures around streamed).run_ok hmeasure
      refine ⟨streamed, hmeasure, same.symm, fun beyond => ?_⟩
      by_contra several
      exact within ⟨beyond, Nat.lt_of_not_le several⟩
    · simp only [bind_run_ok, throw_run_ok] at hmeasure
      obtain ⟨_, _, -, ⟨⟩⟩ := hmeasure

/-- A store that is finished behind an append within a limit has the length that the append
reported: it keeps to the limit, unless it holds a single message. -/
theorem finishedStore_within {accepts : MessageSpec → Except WriterError Unit} {key : FolderKey}
    {isAssociated : Bool} {message : MessageSpec} {maximum projected : Nat}
    {transaction appended final : Transaction τ} {store : FinishedStore}
    (happend : appendMessage around accepts key isAssociated message maximum transaction =
      .ok (.appended projected) appended)
    (hfinish : finalizeWithPolicy around appended = .ok store final) :
    store.fileEof = projected ∧
      (store.fileEof ≤ maximum ∨ appended.writer.messageStream.messageCount ≤ 1) := by
  obtain ⟨streamed, hmeasure, same, single⟩ := appendMessage_steps happend
  have bridge := SamePlaces.refl (τ := τ) appended.writer
  nth_rewrite 2 [← same] at bridge
  have length := bridge.finished hmeasure hfinish
  refine ⟨length, ?_⟩
  by_cases beyond : maximum < projected
  · exact .inr (single beyond)
  · rw [length]
    exact .inl (Nat.le_of_not_lt beyond)

/-- A note that takes more than one byte stays in its part and is finished at its length. -/
theorem finishedStore_within_note : ∃ (appended final : Transaction Unit) (projected : Nat)
    (store : FinishedStore),
    appendMessage noSource (fun _ => .ok ()) inboxKey false (.note [] []) 1
      ⟨sampleWriter true, none, 0⟩ = .ok (.appended projected) appended ∧
    finalizeWithPolicy noSource appended = .ok store final ∧ store.fileEof = projected := by
  have success : succeeds (finishNote 1) ⟨sampleWriter true, none, 0⟩ = true := by
    decide +kernel
  obtain ⟨store, final, hrun⟩ := exists_run_ok success
  obtain ⟨result, appended, happend, hrun⟩ := bind_run_ok.mp hrun
  obtain ⟨_, kept, hfinish⟩ := attempt_bind_run_ok.mp hrun
  cases result with
  | appended projected =>
      obtain ⟨length, -⟩ := finishedStore_within happend hfinish
      exact ⟨appended, final, projected, store, happend, hfinish, length⟩
  | partFull rejected => exact absurd rfl (refuse_eq_ok.mp kept)

/-- A store that is finished behind a direct append has the length that the projection of its
last message gave. -/
theorem finishedStore_projected {accepts : MessageSpec → Except WriterError Unit} {key : FolderKey}
    {isAssociated : Bool} {message : MessageSpec} {projection : DirectMessageProjection}
    {transaction projected appended final : Transaction τ} {store : FinishedStore}
    {completions : List DirectBlobCompletion}
    (hproject : projectMessageDirectExtents around accepts key isAssociated message transaction =
      .ok projection projected)
    (happend : appendMessageDirectPreflightedExtents around accepts key isAssociated message
      projection projected = .ok completions appended)
    (hfinish : finalizeWithPolicy around appended = .ok store final) :
    store.fileEof = projection.finalizedFileEof := by
  simp only [appendMessageDirectPreflightedExtents, appendMessageDirectPreflightedPrivate,
    beginBatch, bind_run_ok, get_run_ok, pure_run_ok] at happend
  obtain ⟨_, _, ⟨_, _, ⟨rfl, rfl⟩, rfl, rfl⟩, reported, streamed, happend, _, compared, hcompare,
    same⟩ := happend
  obtain ⟨-, ended⟩ := same
  obtain ⟨counted, measured, bridge, same, hmeasure, -⟩ := append_samePlaces hproject happend
  have kept : compared.writer = streamed.writer := by
    rcases onError_run_ok.mp hcompare with hcompare | ⟨error, middle, -, hcompare⟩
    · simp only [privateFileEof, bind_run_ok, get_run_ok, pure_run_ok, attempt_run_ok] at hcompare
      obtain ⟨_, _, ⟨_, _, ⟨rfl, rfl⟩, rfl, rfl⟩, -, rfl⟩ := hcompare
      rfl
    · simp only [bind_run_ok, throw_run_ok] at hcompare
      obtain ⟨_, _, -, ⟨⟩⟩ := hcompare
  rw [← kept, ← ended] at same
  exact same.finished hmeasure hfinish

theorem finishedStore_projected_note : ∃ (projection : DirectMessageProjection)
    (projected appended final : Transaction Unit) (completions : List DirectBlobCompletion)
    (store : FinishedStore),
    appendMessageDirectPreflightedExtents noSource (fun _ => .ok ()) inboxKey false (.note [] [])
      projection projected = .ok completions appended ∧
    finalizeWithPolicy noSource appended = .ok store final ∧
    store.fileEof = projection.finalizedFileEof := by
  have success : succeeds finishDirectNote ⟨sampleWriter true, none, 0⟩ = true := by
    decide +kernel
  obtain ⟨store, final, hrun⟩ := exists_run_ok success
  obtain ⟨projection, projected, hproject, hrun⟩ := bind_run_ok.mp hrun
  obtain ⟨_, appended, happend, hfinish⟩ := bind_run_ok.mp hrun
  obtain ⟨completions, happend⟩ := discard_run_ok.mp happend
  exact ⟨projection, projected, appended, final, completions, store, happend, hfinish,
    finishedStore_projected hproject happend hfinish⟩

end Plan

end PstForge.Writer
