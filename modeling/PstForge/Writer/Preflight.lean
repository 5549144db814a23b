import PstForge.Writer.Projection

/-! # Appends and their projections

The caller of the writer projects a message, decides where it goes, and appends it
with the extents that the projection gave. Here an append and a projection from one
writer are shown to agree, so that the comparison of the extents never refuses what
the append accepts.
-/

namespace PstForge.Writer

open PstForge.Foundation PstForge.Ndb PstForge.Ltp

variable {τ : Type}

section Appended

variable (around : Surroundings τ) (accepts : MessageSpec → Except WriterError Unit)

/-- A writer after a message was filed in a folder and streamed. -/
structure Appended (output : Output) (key : FolderKey) (isAssociated : Bool)
    (message : MessageSpec) (before after : TransactionalMailStoreWriter) (place : Nat)
    (parent : NodeId) (session final : Session τ) : Prop where
  found : before.spec.folders.findIdx? (·.key = key) = some place
  node : transactionFolderNode
    (before.spec.folders.modify place (MailFolderSpec.add isAssociated message)) key = .ok parent
  begun : session.stream = before.messageStream
  streamed : ∃ contents associatedTable completions, contentsColumns = .ok contents ∧
    associatedColumns = .ok associatedTable ∧
    streamMessage around output message parent isAssociated before.spec.recordKey
      after.namedIdentities contents associatedTable session = .ok completions final
  result : after = { before with
    spec := { before.spec with
      folders := before.spec.folders.modify place (MailFolderSpec.add isAssociated message) }
    namedIdentities := after.namedIdentities
    messageStream := final.stream }

theorem streamFiled_appended {output : Output} {live : Bool} {key : FolderKey}
    {isAssociated : Bool} {message : MessageSpec} {transaction final : Transaction τ}
    {completions : List DirectBlobCompletion}
    (hrun : streamFiled around output live key isAssociated message transaction =
      .ok completions final) :
    ∃ (parent : NodeId) (session ended : Session τ),
      transactionFolderNode transaction.writer.spec.folders key = .ok parent ∧
      session.stream = transaction.writer.messageStream ∧
      (∃ contents associatedTable completions, contentsColumns = .ok contents ∧
        associatedColumns = .ok associatedTable ∧
        streamMessage around output message parent isAssociated transaction.writer.spec.recordKey
          transaction.writer.namedIdentities contents associatedTable session =
            .ok completions ended) ∧
      final.writer = { transaction.writer with messageStream := ended.stream } := by
  simp only [streamFiled, bind_run_ok, attempt_run_ok, get_run_ok] at hrun
  obtain ⟨_, _, ⟨rfl, rfl⟩, parent, _, ⟨hparent, rfl⟩, contents, _, ⟨hcontents, rfl⟩,
    associatedTable, _, ⟨hassociated, rfl⟩, hrun⟩ := hrun
  obtain ⟨ended, hstream, rfl⟩ := zoom_run_ok.mp hrun
  exact ⟨parent, _, ended, hparent, rfl, ⟨contents, associatedTable, _, hcontents, hassociated,
    hstream⟩, rfl⟩

theorem findFolder_ok {key : FolderKey} {transaction final : Transaction τ} {place : Nat}
    (hrun : findFolder key transaction = .ok place final) :
    transaction.writer.spec.folders.findIdx? (·.key = key) = some place ∧ final = transaction := by
  simp only [findFolder, bind_run_ok, attempt_run_ok, get_run_ok, okOr_eq_ok] at hrun
  obtain ⟨_, _, ⟨rfl, rfl⟩, found, rfl⟩ := hrun
  exact ⟨found, rfl⟩

/-- A successful append is one of a physical stream. -/
theorem appendMessageDeferredFrom_appended {live : Bool} {key : FolderKey} {isAssociated : Bool}
    {message : MessageSpec} {transaction final : Transaction τ}
    {completions : List DirectBlobCompletion}
    (hrun : appendMessageDeferredFrom around accepts live key isAssociated message transaction =
      .ok completions final) :
    ∃ place parent session ended, Appended around .physical key isAssociated message
      transaction.writer final.writer place parent session ended := by
  simp only [appendMessageDeferredFrom, bind_run_ok, attempt_run_ok, get_run_ok, modify_run_ok,
    modifyFolders] at hrun
  obtain ⟨_, checked, hcheck, _, _, ⟨-, rfl⟩, _, prepared, hprepare, place, found, hfind, _, _,
    rfl, _, _, ⟨rfl, rfl⟩, hrun⟩ := hrun
  obtain ⟨hplace, rfl⟩ := findFolder_ok hfind
  obtain ⟨identities, rfl, -, -⟩ :=
    (prepareNamedIdentities_ensures message _).run_ok hprepare
  have same := (inspect_ensures _ transaction).run_ok hcheck
  rcases onError_run_ok.mp hrun with hrun | ⟨error, middle, -, hrun⟩
  · obtain ⟨parent, session, ended, hparent, begun, streamed, hfinal⟩ :=
      streamFiled_appended around hrun
    dsimp only at hplace hparent begun streamed hfinal
    rw [same] at hplace hparent begun streamed hfinal
    refine ⟨place, parent, session, ended, hplace, hparent, begun, ?_, ?_⟩
    · rw [hfinal]
      exact streamed
    · rw [hfinal]
  · simp only [bind_run_ok, throw_run_ok] at hrun
    obtain ⟨_, _, -, _, _, -, ⟨⟩⟩ := hrun

/-- A successful projection is one of a projected stream. -/
theorem projectionDeferred_appended {key : FolderKey} {isAssociated : Bool}
    {message : MessageSpec} {transaction final : Transaction τ} {value : Unit}
    (hrun : appendMessageDirectProjectionDeferred around accepts key isAssociated message
      transaction = .ok value final) :
    ∃ place parent session ended, Appended around .projected key isAssociated message
      transaction.writer final.writer place parent session ended := by
  simp only [appendMessageDirectProjectionDeferred, bind_run_ok, attempt_run_ok, get_run_ok,
    modify_run_ok, modifyFolders] at hrun
  obtain ⟨_, checked, hcheck, _, _, ⟨-, rfl⟩, _, prepared, hprepare, place, found, hfind, _, _,
    ⟨rfl, rfl⟩, _, _, rfl, hrun⟩ := hrun
  obtain ⟨hplace, rfl⟩ := findFolder_ok hfind
  obtain ⟨identities, rfl, -, -⟩ :=
    (prepareNamedIdentities_ensures message _).run_ok hprepare
  have same := (inspect_ensures _ transaction).run_ok hcheck
  rcases onError_run_ok.mp hrun with hrun | ⟨error, middle, -, hrun⟩
  · obtain ⟨completions, hrun⟩ := discard_run_ok.mp hrun
    obtain ⟨parent, session, ended, hparent, begun, streamed, hfinal⟩ :=
      streamFiled_appended around hrun
    dsimp only at hplace hparent begun streamed hfinal
    rw [same] at hplace hparent begun streamed hfinal
    refine ⟨place, parent, session, ended, hplace, hparent, begun, ?_, ?_⟩
    · rw [hfinal]
      exact streamed
    · rw [hfinal]
  · simp only [bind_run_ok, throw_run_ok] at hrun
    obtain ⟨_, _, -, _, _, -, ⟨⟩⟩ := hrun

end Appended

section Names

theorem pushIdentity_listed {identity : NamedIdentity} {transaction final : Transaction τ}
    {value : Unit} (hrun : pushIdentity identity transaction = .ok value final) :
    identity ∈ final.writer.namedIdentities := by
  simp only [pushIdentity, bind_run_ok, get_run_ok] at hrun
  obtain ⟨_, _, ⟨rfl, rfl⟩, hrun⟩ := hrun
  split at hrun
  case isTrue known =>
    obtain ⟨-, rfl⟩ := pure_run_ok.mp hrun
    exact namedIdentityIndex_isSome.mp known
  case isFalse =>
    simp only [bind_run_ok, attempt_run_ok, modify_run_ok] at hrun
    obtain ⟨_, _, ⟨-, rfl⟩, rfl⟩ := hrun
    exact List.mem_append_right _ (List.mem_singleton_self _)

theorem pushIdentities_listed {identities : List NamedIdentity} :
    ∀ {transaction final : Transaction τ} {value : Unit},
      pushIdentities identities transaction = .ok value final →
        ∀ identity ∈ identities, identity ∈ final.writer.namedIdentities := by
  induction identities with
  | nil => exact fun _ identity member => absurd member List.not_mem_nil
  | cons head rest ih =>
      intro transaction final value hrun identity member
      obtain ⟨_, middle, hhead, hrest⟩ := bind_run_ok.mp hrun
      rcases List.mem_cons.mp member with rfl | member
      · obtain ⟨listed, rfl, grew, -⟩ := (pushIdentities_ensures rest middle).run_ok hrest
        exact grew.subset (pushIdentity_listed hhead)
      · exact ih hrest identity member

/-- The names of a message are known once it was prepared. -/
theorem prepareNamedIdentities_known {message : MessageSpec} {transaction final : Transaction τ}
    {value : Unit} (hrun : prepareNamedIdentities message transaction = .ok value final) :
    NamesKnown final.writer message := by
  obtain ⟨identities, rfl, -, -⟩ := (prepareNamedIdentities_ensures message _).run_ok hrun
  simp only [prepareNamedIdentities, bind_run_ok, get_run_ok] at hrun
  obtain ⟨_, _, ⟨rfl, rfl⟩, hrun⟩ := hrun
  split at hrun
  case isTrue => exact .inr (pushIdentities_listed hrun)
  case isFalse static => exact .inl (Bool.eq_false_iff.mpr static)

theorem projectionDeferred_known {around : Surroundings τ}
    {accepts : MessageSpec → Except WriterError Unit} {key : FolderKey} {isAssociated : Bool}
    {message : MessageSpec} {transaction final : Transaction τ} {value : Unit}
    (hrun : appendMessageDirectProjectionDeferred around accepts key isAssociated message
      transaction = .ok value final) : NamesKnown final.writer message := by
  simp only [appendMessageDirectProjectionDeferred, bind_run_ok, attempt_run_ok, get_run_ok,
    modify_run_ok, modifyFolders] at hrun
  obtain ⟨_, _, -, _, _, -, _, prepared, hprepare, place, found, hfind, _, _, ⟨rfl, rfl⟩, _, _,
    rfl, hrun⟩ := hrun
  obtain ⟨-, rfl⟩ := findFolder_ok hfind
  have known := prepareNamedIdentities_known hprepare
  rcases onError_run_ok.mp hrun with hrun | ⟨error, middle, -, hrun⟩
  · obtain ⟨completions, hrun⟩ := discard_run_ok.mp hrun
    obtain ⟨parent, session, ended, -, -, -, hfinal⟩ := streamFiled_appended around hrun
    rw [hfinal]
    exact known
  · simp only [bind_run_ok, throw_run_ok] at hrun
    obtain ⟨_, _, -, _, _, -, ⟨⟩⟩ := hrun

end Names

section Plans

variable {contents associated : List (NodeId × TableRowSpec)} (around : Surroundings τ)

theorem predicted_buildFolders (schema : Schemas) (fixed : FixedNodes) (plans : List FolderPlan) :
    ∀ (rest : List FolderPlan) (index : Nat) (rows : OpenRows),
      Predicted contents associated Eq (buildFolders around schema fixed plans index rows rest)
        (buildFolders around.calm schema fixed plans index rows rest) := by
  intro rest
  induction rest with
  | nil => exact fun _ _ => .of_pure rfl
  | cons plan rest ih =>
      intro index rows
      refine .bind_same (predicted_checkInterrupted around) fun _ => ?_
      refine .bind_same (predicted_takeIds _) fun built => ?_
      exact .bind_same (ih _ _) fun _ => .of_pure rfl

/-- The finalization plan reads only what two streams have alike. -/
theorem predicted_buildFinalizationPlan (storeName : Text) (recordKey : Bytes)
    (identities : List NamedIdentity) (plans : List FolderPlan) :
    Predicted contents associated Eq
      (buildFinalizationPlan around storeName recordKey identities plans)
      (buildFinalizationPlan around.calm storeName recordKey identities plans) := by
  refine .bind_same (.attempt_same _) fun schema => .bind_same (.attempt_same _) fun fixed => ?_
  refine .get_bind fun s t placed => ?_
  obtain ⟨-, -, written, alike, sameStream⟩ := placed
  rw [sameStream]
  dsimp only
  refine .bind_same (predicted_buildFolders around schema fixed plans _ _ _) fun built => ?_
  refine .bind_same (.attempt_same _) fun _ => .bind_same (.attempt_same _) fun deleted => ?_
  refine .bind_same (.attempt_same _) fun ipmRows => .bind_same (.attempt_same _) fun rootRows => ?_
  refine .bind_same (.attempt_same _) fun rootBlock => ?_
  refine .bind_same (.attempt_same _) fun ipmBlock => ?_
  refine .bind_same (predicted_takeIds _) fun root => .bind_same (predicted_takeIds _) fun ipm => ?_
  refine .bind_same (predicted_takeIds _) fun named => .bind_same (.attempt_same _) fun blocks => ?_
  refine .bind_same (.attempt_same _) fun nodes => ?_
  rw [alike.length_eq]
  refine .bind_same (.attempt_same _) fun eof => .get_bind fun left right placed => ?_
  obtain ⟨-, -, _, -, behind⟩ := placed
  rw [behind]
  exact .of_pure rfl

end Plans

section Agreement

variable {around : Surroundings τ} {accepts : MessageSpec → Except WriterError Unit}
variable {key : FolderKey} {isAssociated : Bool} {message : MessageSpec}

/-- Two writers that are alike up to the bytes of their blocks: a projection stands for both. -/
structure SamePlaces (left right : TransactionalMailStoreWriter) (bridge : Session τ) : Prop where
  spec : left.spec = right.spec
  namedIdentities : left.namedIdentities = right.namedIdentities
  preserveEmptyFolders : left.preserveEmptyFolders = right.preserveEmptyFolders
  left : ∀ session : Session τ, session.stream = left.messageStream →
    ∃ contents associated, Placed contents associated session bridge
  right : ∀ session : Session τ, session.stream = right.messageStream →
    ∃ contents associated, Placed contents associated session bridge

/-- An append and a projection from one writer place the same blocks. -/
theorem Appended.samePlaces {before before' after after' : TransactionalMailStoreWriter}
    {place place' : Nat} {parent parent' : NodeId} {session session' final final' : Session τ}
    (left : Appended around .physical key isAssociated message before after place parent session
      final)
    (right : Appended around .projected key isAssociated message before' after' place' parent'
      session' final')
    (same : before = { before' with namedIdentities := before.namedIdentities })
    (names : after.namedIdentities = after'.namedIdentities) :
    ∃ bridge : Session τ, SamePlaces after after' bridge := by
  have spec : before.spec = before'.spec := by rw [same]
  have stream : before.messageStream = before'.messageStream := by rw [same]
  have preserve : before.preserveEmptyFolders = before'.preserveEmptyFolders := by rw [same]
  have samePlace : place = place' := by
    have found := left.found
    rw [spec, right.found] at found
    exact (Option.some.inj found).symm
  have sameParent : parent = parent' := by
    have node := left.node
    rw [spec, samePlace, right.node] at node
    exact (Except.ok.inj node).symm
  obtain ⟨contents, associated, _, hcontents, hassociated, hleft⟩ := left.streamed
  obtain ⟨contents', associated', _, hcontents', hassociated', hright⟩ := right.streamed
  rw [hcontents] at hcontents'
  rw [hassociated] at hassociated'
  obtain rfl := Except.ok.inj hcontents'
  obtain rfl := Except.ok.inj hassociated'
  have start : session'.stream = session.stream := by rw [right.begun, left.begun, stream]
  obtain ⟨_, bridge, hbridge, -, row, placed⟩ :=
    follows_streamMessage around .physical _ message _ _ _ _ _ session session' (.refl start) _ _
      hleft
  obtain ⟨_, bridge', hbridge', -, row', placed'⟩ :=
    follows_streamMessage around .projected _ message _ _ _ _ _ session' session' (.refl rfl) _ _
      hright
  rw [sameParent, spec, names, hbridge'] at hbridge
  obtain ⟨-, rfl⟩ := EStateM.Result.ok.inj hbridge
  refine ⟨bridge', ?_, names, ?_, fun other begun => ?_, fun other begun => ?_⟩
  · rw [left.result, right.result]
    dsimp only
    rw [spec, samePlace]
  · rw [left.result, right.result]
    exact preserve
  · rw [left.result] at begun
    exact ⟨_, _, placed.outside begun rfl⟩
  · rw [right.result] at begun
    exact ⟨_, _, placed'.outside begun rfl⟩

/-- The length of the finished file is read off a plan of the stream. -/
theorem projectedFileEof_planned {transaction final : Transaction τ} {eof : Nat}
    (hrun : projectedFileEof around transaction = .ok eof final) :
    ∃ (plans : List FolderPlan) (session ended : Session τ) (plan : FinalizationPlan),
      session.stream = transaction.writer.messageStream ∧
      planTransactionFolders transaction.writer.spec.folders
        transaction.writer.preserveEmptyFolders = .ok plans ∧
      buildFinalizationPlan around transaction.writer.spec.storeName
        transaction.writer.spec.recordKey transaction.writer.namedIdentities plans session =
          .ok plan ended ∧
      plan.projectedFileEof = eof := by
  simp only [projectedFileEof, bind_run_ok, attempt_run_ok, get_run_ok, pure_run_ok] at hrun
  obtain ⟨_, _, hcheck, _, _, ⟨rfl, rfl⟩, _, _, ⟨-, rfl⟩, plans, _, ⟨hplans, rfl⟩, plan, _, hplan,
    rfl, rfl⟩ := hrun
  have same := (inspect_ensures _ transaction).run_ok hcheck
  obtain ⟨ended, hbuild, -⟩ := zoom_run_ok.mp hplan
  rw [same] at hplans hbuild
  refine ⟨plans, _, ended, plan, ?_, hplans, hbuild, rfl⟩
  dsimp only [Transaction.session]
  rw [same]

/-- Writers with the same places give finished files of the same length. -/
theorem SamePlaces.projectedFileEof {left right : Transaction τ} {bridge : Session τ}
    (same : SamePlaces left.writer right.writer bridge) {final final' : Transaction τ}
    {eof eof' : Nat} (hleft : Writer.projectedFileEof around left = .ok eof final)
    (hright : Writer.projectedFileEof around right = .ok eof' final') : eof = eof' := by
  obtain ⟨plans, session, ended, plan, begun, hplans, hbuild, rfl⟩ :=
    projectedFileEof_planned hleft
  obtain ⟨plans', session', ended', plan', begun', hplans', hbuild', rfl⟩ :=
    projectedFileEof_planned hright
  rw [same.spec, same.preserveEmptyFolders, hplans'] at hplans
  obtain rfl := Except.ok.inj hplans
  obtain ⟨contents, associated, placed⟩ := same.left session begun
  obtain ⟨contents', associated', placed'⟩ := same.right session' begun'
  obtain ⟨_, bridged, hbridge, rfl, -⟩ :=
    predicted_buildFinalizationPlan around _ _ _ _ session bridge placed _ _ hbuild
  obtain ⟨_, bridged', hbridge', rfl, -⟩ :=
    predicted_buildFinalizationPlan around _ _ _ _ session' bridge placed' _ _ hbuild'
  rw [same.spec, same.namedIdentities, hbridge'] at hbridge
  rw [(EStateM.Result.ok.inj hbridge).1]

/-- What the extents of a projection were read off. -/
theorem projectExtents_steps {transaction projected : Transaction τ}
    {projection : DirectMessageProjection}
    (hproject : projectMessageDirectExtents around accepts key isAssociated message transaction =
      .ok projection projected) :
    ∃ (streamed measured : Transaction τ),
      appendMessageDirectProjectionDeferred around accepts key isAssociated message transaction =
        .ok () streamed ∧
      Writer.projectedFileEof around streamed = .ok projection.finalizedFileEof measured ∧
      projection.privateFileEof = streamed.writer.messageStream.fileLen ∧
      projected.writer =
        { transaction.writer with namedIdentities := streamed.writer.namedIdentities } := by
  simp only [projectMessageDirectExtents, beginBatch, privateFileEof, undoingProjection,
    bind_run_ok, get_run_ok, pure_run_ok] at hproject
  obtain ⟨_, _, ⟨_, _, ⟨rfl, rfl⟩, rfl, rfl⟩, _, streamed, hstream, _, _, ⟨_, _, ⟨rfl, rfl⟩, rfl, rfl⟩,
    finalized, rolled, ⟨_, measured, hmeasure, _, _, hrollback, rfl, rfl⟩, rfl, rfl⟩ := hproject
  have offered := (appendMessageDirectProjectionDeferred_ensures around accepts key isAssociated
    message _).run_ok hstream
  rcases onError_run_ok.mp hmeasure with hmeasure | ⟨error, middle, -, hmeasure⟩
  · have kept := (projectedFileEof_ensures around _).run_ok hmeasure
    have grew := offered.grew
    rw [← kept] at grew
    obtain ⟨-, restored⟩ := (rollbackProjectedBatch_ensures grew).run_ok hrollback
    refine ⟨_, measured, hstream, hmeasure, rfl, ?_⟩
    rw [restored, kept]
  · simp only [bind_run_ok, throw_run_ok] at hmeasure
    obtain ⟨_, _, -, ⟨⟩⟩ := hmeasure

/-- An append behind a projection places what was projected. -/
theorem append_samePlaces {transaction projected appended : Transaction τ}
    {projection : DirectMessageProjection} {completions : List DirectBlobCompletion}
    (hproject : projectMessageDirectExtents around accepts key isAssociated message transaction =
      .ok projection projected)
    (happend : appendMessageDirect around accepts key isAssociated message projected =
      .ok completions appended) :
    ∃ (streamed measured : Transaction τ) (bridge : Session τ),
      SamePlaces appended.writer streamed.writer bridge ∧
      Writer.projectedFileEof around streamed = .ok projection.finalizedFileEof measured ∧
      projection.privateFileEof = streamed.writer.messageStream.fileLen := by
  obtain ⟨streamed, measured, hstream, hmeasure, privateEof, restored⟩ :=
    projectExtents_steps hproject
  obtain ⟨place, parent, session, ended, physical⟩ :=
    appendMessageDeferredFrom_appended around accepts happend
  obtain ⟨place', parent', session', ended', counted⟩ :=
    projectionDeferred_appended around accepts hstream
  have grew := ((appendMessageDirectProjectionDeferred_ensures around accepts key isAssociated
    message _).run_ok hstream).grew
  have known : NamesKnown projected.writer message := by
    have listed := projectionDeferred_known hstream
    rw [restored]
    unfold NamesKnown at listed ⊢
    rwa [grew.dynamicNamedProperties] at listed
  have offered := (appendMessageDeferredFrom_ensures around accepts true key isAssociated message
    projected).run_ok happend
  have names : appended.writer.namedIdentities = streamed.writer.namedIdentities := by
    rw [offered.names fun _ => known, restored]
  have same : projected.writer =
      { transaction.writer with namedIdentities := projected.writer.namedIdentities } := by
    rw [restored]
  obtain ⟨bridge, samePlaces⟩ := physical.samePlaces counted same names
  exact ⟨streamed, measured, bridge, samePlaces, hmeasure, privateEof⟩

theorem SamePlaces.fileLen {left right : TransactionalMailStoreWriter} {bridge : Session τ}
    (same : SamePlaces left right bridge) :
    left.messageStream.fileLen = right.messageStream.fileLen := by
  obtain ⟨_, _, -, -, written, -, bridgeLeft⟩ := same.left ⟨left.messageStream, none, [], 0⟩ rfl
  obtain ⟨_, _, -, -, written', -, bridgeRight⟩ := same.right ⟨right.messageStream, none, [], 0⟩ rfl
  rw [bridgeRight] at bridgeLeft
  exact (congrArg MessageStreamState.fileLen bridgeLeft).symm

/-- The comparison of a length that is the expected one. -/
theorem checkEof_passes {b : TransactionBatchCheckpoint} {transaction : Transaction τ}
    {expected : Nat} (same : transaction.writer.messageStream.fileLen = expected) :
    undoingFailure around b (do
      let actual ← privateFileEof
      attempt (refuse (actual ≠ expected)
        (.invalidStructure (divergedText "private EOF " expected actual)))) transaction =
      .ok () transaction := by
  have measured : (privateFileEof : Writing τ Nat) transaction =
      .ok transaction.writer.messageStream.fileLen transaction := rfl
  unfold undoingFailure onError
  rw [run_bind, measured]
  dsimp only
  have passes : refuse (transaction.writer.messageStream.fileLen ≠ expected)
      (WriterError.invalidStructure (divergedText "private EOF " expected
        transaction.writer.messageStream.fileLen)) = .ok () := by
    rw [refuse_eq_ok, not_not]
    exact same
  rw [passes]
  rfl

/-- Behind a successful projection, comparing the extents refuses nothing that the append
accepts, and the finished file has the projected length. -/
theorem preflightedExtents_exact {transaction projected : Transaction τ}
    {projection : DirectMessageProjection}
    (hproject : projectMessageDirectExtents around accepts key isAssociated message transaction =
      .ok projection projected) :
    appendMessageDirectPreflightedExtents around accepts key isAssociated message projection
        projected = appendMessageDirect around accepts key isAssociated message projected ∧
      ∀ completions appended eof final,
        appendMessageDirect around accepts key isAssociated message projected =
          .ok completions appended →
        Writer.projectedFileEof around appended = .ok eof final →
          eof = projection.finalizedFileEof := by
  constructor
  · have opened : beginBatch projected = .ok projected.writer.batchCheckpoint projected := rfl
    rw [appendMessageDirectPreflightedExtents, appendMessageDirectPreflightedPrivate, run_bind,
      opened]
    dsimp only
    rw [run_bind]
    cases happend : appendMessageDirect around accepts key isAssociated message projected with
    | error error failed => rfl
    | ok completions appended =>
        obtain ⟨streamed, -, bridge, same, -, privateEof⟩ := append_samePlaces hproject happend
        have sameEof : appended.writer.messageStream.fileLen = projection.privateFileEof := by
          rw [same.fileLen, privateEof]
        dsimp only
        rw [run_bind, checkEof_passes sameEof]
        rfl
  · intro completions appended eof final happend hmeasure
    obtain ⟨streamed, measured, bridge, same, hmeasured, -⟩ := append_samePlaces hproject happend
    exact same.projectedFileEof hmeasure hmeasured

theorem preflightedExtents_exact_note :
    ∃ projection projected,
      projectMessageDirectExtents noSource (fun _ => .ok ()) inboxKey false (.note [] [])
        ⟨sampleWriter true, none, 0⟩ = .ok projection projected ∧
      appendMessageDirectPreflightedExtents noSource (fun _ => .ok ()) inboxKey false (.note [] [])
        projection projected =
          appendMessageDirect noSource (fun _ => .ok ()) inboxKey false (.note [] []) projected := by
  have success : succeeds (projectMessageDirectExtents noSource (fun _ => .ok ()) inboxKey false
      (.note [] [])) ⟨sampleWriter true, none, 0⟩ = true := by
    decide +kernel
  obtain ⟨projection, projected, hproject⟩ := exists_run_ok success
  exact ⟨projection, projected, hproject, (preflightedExtents_exact hproject).1⟩

end Agreement

end PstForge.Writer
