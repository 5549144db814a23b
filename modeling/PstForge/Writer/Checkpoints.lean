import PstForge.Writer.Undo

/-! # Runs of the writer

A caller offers messages, observes folders, takes measurements, and opens batches
which it keeps or rolls back. Batches may be nested. Over every such run, what is
undone leaves the writer as if it had never been offered, unless a named property
was numbered on the way.
-/

namespace PstForge.Writer

open PstForge.Foundation PstForge.Ndb PstForge.Ltp

variable {τ : Type}

/-- A call of the writer. -/
inductive Call where
  | observe (folder : MailFolderSpec)
  | append (key : FolderKey) (associated : Bool) (message : MessageSpec)
  | appendDirect (key : FolderKey) (associated : Bool) (message : MessageSpec)
  | appendWithin (key : FolderKey) (associated : Bool) (message : MessageSpec) (maximum : Nat)
  | preflighted (key : FolderKey) (associated : Bool) (message : MessageSpec) (expected : Nat)
  | preflightedPrivate (key : FolderKey) (associated : Bool) (message : MessageSpec)
      (expected : Nat)
  | appendProjection (key : FolderKey) (associated : Bool) (message : MessageSpec)
  | projectPrivateEof (key : FolderKey) (associated : Bool) (message : MessageSpec)
  | projectExtents (key : FolderKey) (associated : Bool) (message : MessageSpec)
  | measure

section Calls

variable (around : Surroundings τ) (accepts : MessageSpec → Except WriterError Unit)

/-- Carry out a call. The result says whether what was offered stays in the writer. -/
def Call.perform : Call → Writing τ Bool
  | observe folder => do
      observeFolder folder
      return true
  | append key associated message => do
      appendMessageDeferred around accepts key associated message
      return true
  | appendDirect key associated message => do
      discard (appendMessageDirect around accepts key associated message)
      return true
  | appendWithin key associated message maximum => do
      match ← appendMessage around accepts key associated message maximum with
      | .appended _ => return true
      | .partFull _ => return false
  | preflighted key associated message expected => do
      discard (appendMessageDirectPreflighted around accepts key associated message expected)
      return true
  | preflightedPrivate key associated message expected => do
      discard (appendMessageDirectPreflightedPrivate around accepts key associated message
        expected)
      return true
  | appendProjection key associated message => do
      appendMessageDirectProjectionDeferred around accepts key associated message
      return true
  | projectPrivateEof key associated message => do
      discard (projectMessageDirectPrivateEof around accepts key associated message)
      return false
  | projectExtents key associated message => do
      discard (projectMessageDirectExtents around accepts key associated message)
      return false
  | measure => do
      discard (projectedFileEof around)
      return false

/-- The message of a call brings no new named property, if the call gets to number
the names at all. -/
def Call.Known (writer : TransactionalMailStoreWriter) : Call → Prop
  | observe _ | measure => True
  | append _ _ message | appendDirect _ _ message | appendWithin _ _ message _
  | preflighted _ _ message _ | preflightedPrivate _ _ message _ =>
      Writer.Known accepts writer message
  | appendProjection _ _ message | projectPrivateEof _ _ message | projectExtents _ _ message =>
      Writer.Known (projects accepts) writer message

/-- What a call does to the writer, and what is left when it is undone. -/
structure CallEffect (known : Prop) (before after : TransactionalMailStoreWriter) : Prop where
  grew : WriterGrew before after
  names : known → after.namedIdentities = before.namedIdentities

theorem Offered.effect {known : Prop} {before after : TransactionalMailStoreWriter}
    (offered : Offered known before after) : CallEffect known before after :=
  ⟨offered.grew, offered.names⟩

/-- The two ends of a call. -/
def Call.Settles (call : Call) (transaction : Transaction τ) : Prop :=
  Ensures (call.perform around accepts) transaction
    (fun kept next =>
      CallEffect (call.Known accepts transaction.writer) transaction.writer next.writer ∧
        (kept = false → call.Known accepts transaction.writer → Truncates around →
          next.writer = transaction.writer))
    (fun _ next =>
      CallEffect (call.Known accepts transaction.writer) transaction.writer next.writer ∧
        (call.Known accepts transaction.writer → Truncates around →
          next.writer = transaction.writer))

theorem settles_of_kept {α : Type} {known : Prop} {transaction : Transaction τ}
    {program : Writing τ α}
    (ensures : Ensures program transaction
      (fun _ next => Offered known transaction.writer next.writer)
      (fun _ next => Undone around known transaction.writer next.writer)) :
    Ensures (do discard program; return true) transaction
      (fun kept next => CallEffect known transaction.writer next.writer ∧
        (kept = false → known → Truncates around → next.writer = transaction.writer))
      (fun _ next => CallEffect known transaction.writer next.writer ∧
        (known → Truncates around → next.writer = transaction.writer)) := by
  refine .bind (.of_discard (Q := fun _ next => Offered known transaction.writer next.writer)
    (ensures.mono (fun _ _ offered => offered)
      fun _ _ undone => ⟨undone.toOffered.effect, undone.restored⟩)) fun _ next offered => ?_
  exact .of_pure ⟨offered.effect, fun kept => by cases kept⟩

theorem settles_of_undone {α : Type} {known : Prop} {transaction : Transaction τ}
    {program : Writing τ α}
    (ensures : Ensures program transaction
      (fun _ next => Undone around known transaction.writer next.writer)
      (fun _ next => Undone around known transaction.writer next.writer)) :
    Ensures (do discard program; return false) transaction
      (fun kept next => CallEffect known transaction.writer next.writer ∧
        (kept = false → known → Truncates around → next.writer = transaction.writer))
      (fun _ next => CallEffect known transaction.writer next.writer ∧
        (known → Truncates around → next.writer = transaction.writer)) := by
  refine .bind (.of_discard (Q := fun _ next =>
      Undone around known transaction.writer next.writer)
    (ensures.mono (fun _ _ undone => undone)
      fun _ _ undone => ⟨undone.toOffered.effect, undone.restored⟩)) fun _ next undone => ?_
  exact .of_pure ⟨undone.toOffered.effect, fun _ => undone.restored⟩

theorem Call.settles (call : Call) (transaction : Transaction τ) :
    call.Settles around accepts transaction := by
  cases call with
  | observe folder =>
      refine .bind ((observeFolder_ensures transaction folder).mono (fun _ _ holds => holds) ?_) ?_
      · exact fun _ _ same => same ▸ ⟨⟨.refl _, fun _ => rfl⟩, fun _ _ => rfl⟩
      · rintro _ next ⟨grew, names⟩
        exact .of_pure ⟨⟨grew, fun _ => names⟩, fun kept => by cases kept⟩
  | append key associated message =>
      refine .bind (.of_discard (Q := fun _ next => Offered _ transaction.writer next.writer)
        ((appendMessageDeferredFrom_ensures around accepts false key associated message
          transaction).mono (fun _ _ offered => offered)
          fun _ _ undone => ⟨undone.toOffered.effect, undone.restored⟩)) fun _ next offered => ?_
      exact .of_pure ⟨offered.effect, fun kept => by cases kept⟩
  | appendDirect key associated message =>
      exact settles_of_kept around
        (appendMessageDeferredFrom_ensures around accepts true key associated message transaction)
  | appendWithin key associated message maximum =>
      refine .bind ((appendMessage_ensures around accepts key associated message transaction
        maximum).mono (fun _ _ holds => holds)
          fun _ _ undone => ⟨undone.toOffered.effect, undone.restored⟩) ?_
      rintro result next ⟨offered, full⟩
      cases result with
      | appended projected => exact .of_pure ⟨offered.effect, fun kept => by cases kept⟩
      | partFull rejected =>
          exact .of_pure ⟨offered.effect, fun _ => (full rejected rfl).restored⟩
  | preflighted key associated message expected =>
      exact settles_of_kept around (appendMessageDirectPreflighted_ensures around accepts key
        associated message transaction expected)
  | preflightedPrivate key associated message expected =>
      exact settles_of_kept around (appendMessageDirectPreflightedPrivate_ensures around accepts
        key associated message transaction expected)
  | appendProjection key associated message =>
      refine .bind ((appendMessageDirectProjectionDeferred_ensures around accepts key associated
        message transaction).mono (fun _ _ offered => offered)
          fun _ _ undone => ⟨undone.toOffered.effect, undone.restored⟩) fun _ next offered => ?_
      exact .of_pure ⟨offered.effect, fun kept => by cases kept⟩
  | projectPrivateEof key associated message =>
      exact settles_of_undone around (projectMessageDirectPrivateEof_ensures around accepts key
        associated message transaction)
  | projectExtents key associated message =>
      exact settles_of_undone around (projectMessageDirectExtents_ensures around accepts key
        associated message transaction)
  | measure =>
      refine settles_of_undone around ((projectedFileEof_ensures around transaction).mono ?_ ?_)
      · exact fun _ _ same => same ▸ .refl around _ _
      · exact fun _ _ same => same ▸ .refl around _ _

end Calls

section Runs

/-- A batch that the caller holds open: its checkpoint, the writer it was taken
from, and the calls made since. -/
structure Batch where
  checkpoint : TransactionBatchCheckpoint
  opened : TransactionalMailStoreWriter
  calls : List Call

/-- The writer with the batches that are open, the innermost first. -/
structure Run (τ : Type) where
  transaction : Transaction τ
  batches : List Batch

/-- What a caller does next. -/
inductive Step where
  | call (call : Call)
  | beginBatch
  | keepBatch
  | rollbackBatch
  | rollbackProjectedBatch

variable (around : Surroundings τ) (accepts : MessageSpec → Except WriterError Unit)

/-- One step of a caller. -/
def Run.next (run : Run τ) : Step → Run τ
  | .call call =>
      ⟨after (call.perform around accepts) run.transaction,
        run.batches.map fun batch => { batch with calls := call :: batch.calls }⟩
  | .beginBatch =>
      ⟨run.transaction,
        ⟨run.transaction.writer.batchCheckpoint, run.transaction.writer, []⟩ :: run.batches⟩
  | .keepBatch => { run with batches := run.batches.tail }
  | .rollbackBatch =>
      match run.batches with
      | [] => run
      | batch :: rest => ⟨after (rollbackBatch around batch.checkpoint) run.transaction, rest⟩
  | .rollbackProjectedBatch =>
      match run.batches with
      | [] => run
      | batch :: rest => ⟨after (rollbackProjectedBatch batch.checkpoint) run.transaction, rest⟩

/-- The run of a caller from a writer. -/
def runFrom (start : Transaction τ) (steps : List Step) : Run τ :=
  steps.foldl (Run.next around accepts) ⟨start, []⟩

/-- An undone batch is the writer that the batch was opened on. The rollback can be
refused only because a folder was observed since. -/
def Batch.RestoredBy (batch : Batch) (transaction : Transaction τ) (program : Writing τ Unit) :
    Prop :=
  Ensures program transaction (fun _ next => next.writer = batch.opened)
    (fun _ _ => transaction.writer.spec.folders.length ≠ batch.opened.spec.folders.length)

/-- What a step undoes leaves no trace in the writer: neither does a call that fails
or keeps nothing, nor a batch that is rolled back. -/
def Run.Restores (run : Run τ) : Step → Prop
  | .call call =>
      Ensures (call.perform around accepts) run.transaction
        (fun kept next => kept = false → next.writer = run.transaction.writer)
        (fun _ next => next.writer = run.transaction.writer)
  | .rollbackBatch => ∀ batch ∈ run.batches.head?,
      batch.RestoredBy run.transaction (rollbackBatch around batch.checkpoint)
  | .rollbackProjectedBatch => ∀ batch ∈ run.batches.head?,
      batch.RestoredBy run.transaction (rollbackProjectedBatch batch.checkpoint)
  | .beginBatch | .keepBatch => True

/-- What a step undoes brought no new named property. -/
def Run.NamesKnown (run : Run τ) : Step → Prop
  | .call call => call.Known accepts run.transaction.writer
  | .rollbackBatch | .rollbackProjectedBatch => ∀ batch ∈ run.batches.head?,
      ∀ call ∈ batch.calls, call.Known accepts batch.opened
  | .beginBatch | .keepBatch => True

/-- The writer of an open batch, seen from a later writer. -/
structure Batch.Open (batch : Batch) (writer : TransactionalMailStoreWriter) : Prop where
  checkpoint : batch.checkpoint = batch.opened.batchCheckpoint
  grew : WriterGrew batch.opened writer
  names : (∀ call ∈ batch.calls, call.Known accepts batch.opened) →
    writer.namedIdentities = batch.opened.namedIdentities

/-- Every open batch can be rolled back to, and each was opened on a writer that had
grown from those of the batches around it. -/
structure Run.Nested (run : Run τ) : Prop where
  open_ : ∀ batch ∈ run.batches, batch.Open accepts run.transaction.writer
  around : run.batches.Pairwise fun inner outer => WriterGrew outer.opened inner.opened

theorem Call.Known.congr {before after : TransactionalMailStoreWriter} {call : Call}
    (known : call.Known accepts before)
    (dynamic : after.dynamicNamedProperties = before.dynamicNamedProperties)
    (names : after.namedIdentities = before.namedIdentities) : call.Known accepts after := by
  cases call with
  | observe | measure => trivial
  | append | appendDirect | appendWithin | preflighted | preflightedPrivate | appendProjection
  | projectPrivateEof | projectExtents =>
      simpa only [Call.Known, Writer.Known, Writer.NamesKnown, dynamic, names] using known

variable {accepts}

theorem Batch.Open.call {batch : Batch} {before after : TransactionalMailStoreWriter} {call : Call}
    (opened : batch.Open accepts before)
    (effect : CallEffect (call.Known accepts before) before after) :
    ({ batch with calls := call :: batch.calls } : Batch).Open accepts after := by
  refine ⟨opened.checkpoint, opened.grew.trans effect.grew, fun known => ?_⟩
  have earlier := opened.names fun earlier member => known earlier (List.mem_cons_of_mem _ member)
  have callKnown : call.Known accepts before :=
    (known call List.mem_cons_self).congr accepts opened.grew.dynamicNamedProperties earlier
  exact (effect.names callKnown).trans earlier

/-- A writer that was cut back to an inner batch has grown from the outer ones. -/
theorem Batch.Open.cutBack {inner outer : Batch} {before after : TransactionalMailStoreWriter}
    (opened : outer.Open accepts before) (nested : WriterGrew outer.opened inner.opened)
    (restored : after = { inner.opened with namedIdentities := before.namedIdentities }) :
    outer.Open accepts after := by
  rw [restored]
  exact ⟨opened.checkpoint,
    { nested with namedIdentities := opened.grew.namedIdentities }, opened.names⟩

theorem after_of_ensures {α : Type} {transaction : Transaction τ} {program : Writing τ α}
    {holds : Transaction τ → Prop}
    (ensures : Ensures program transaction (fun _ => holds) (fun _ => holds)) :
    holds (after program transaction) := by
  unfold Ensures at ensures
  unfold after
  cases hrun : program transaction <;> simpa only [hrun] using ensures

theorem Run.Nested.rollback {transaction : Transaction τ} {batch : Batch} {rest : List Batch}
    {program : Writing τ Unit} (nested : (⟨transaction, batch :: rest⟩ : Run τ).Nested accepts)
    (ensures : Ensures program transaction
      (fun _ next => next.writer =
        { batch.opened with namedIdentities := transaction.writer.namedIdentities })
      (fun _ next => next.writer = transaction.writer)) :
    (⟨after program transaction, rest⟩ : Run τ).Nested accepts := by
  have inner := List.pairwise_cons.mp nested.around
  refine ⟨fun outer member => ?_, inner.2⟩
  have opened := nested.open_ outer (List.mem_cons_of_mem _ member)
  have kept : Ensures program transaction (fun _ next => outer.Open accepts next.writer)
      (fun _ next => outer.Open accepts next.writer) :=
    ensures.mono (fun _ _ restored => opened.cutBack (inner.1 outer member) restored)
      fun _ _ same => same ▸ opened
  exact after_of_ensures kept

/-- One step keeps every open batch within reach. -/
theorem Run.Nested.next {run : Run τ} (nested : run.Nested accepts) (step : Step) :
    (run.next around accepts step).Nested accepts := by
  obtain ⟨transaction, batches⟩ := run
  cases step with
  | call call =>
      have settled := call.settles around accepts transaction
      have effect := after_of_ensures (settled.mono (fun _ _ holds => holds.1)
        fun _ _ holds => holds.1)
      refine ⟨fun batch member => ?_, ?_⟩
      · obtain ⟨earlier, found, rfl⟩ := List.mem_map.mp member
        exact (nested.open_ earlier found).call effect
      · exact List.pairwise_map.mpr nested.around
  | beginBatch =>
      refine ⟨fun batch member => ?_, List.pairwise_cons.mpr ⟨fun batch member => ?_,
        nested.around⟩⟩
      · rcases List.mem_cons.mp member with rfl | member
        · exact ⟨rfl, .refl _, fun _ => rfl⟩
        · exact nested.open_ batch member
      · exact (nested.open_ batch member).grew
  | keepBatch =>
      exact ⟨fun batch member => nested.open_ batch (List.mem_of_mem_tail member),
        nested.around.tail⟩
  | rollbackBatch =>
      cases batches with
      | nil => exact nested
      | cons batch rest =>
          have opened := nested.open_ batch List.mem_cons_self
          refine nested.rollback ?_
          rw [opened.checkpoint]
          exact (rollbackBatch_ensures around opened.grew).mono (fun _ _ holds => holds.2)
            fun _ _ holds => holds.1
  | rollbackProjectedBatch =>
      cases batches with
      | nil => exact nested
      | cons batch rest =>
          have opened := nested.open_ batch List.mem_cons_self
          refine nested.rollback ?_
          rw [opened.checkpoint]
          exact (rollbackProjectedBatch_ensures opened.grew).mono (fun _ _ holds => holds.2)
            fun _ _ holds => holds.1

/-- Every open batch of a run is within reach. -/
theorem runFrom_nested (accepts : MessageSpec → Except WriterError Unit) (start : Transaction τ)
    (steps : List Step) :
    (runFrom around accepts start steps).Nested accepts := by
  have general : ∀ (steps : List Step) (run : Run τ), run.Nested accepts →
      (steps.foldl (Run.next around accepts) run).Nested accepts := by
    intro steps
    induction steps with
    | nil => exact fun _ nested => nested
    | cons step rest ih => exact fun run nested => ih _ (nested.next around step)
  refine general steps ⟨start, []⟩ ⟨fun batch member => ?_, List.Pairwise.nil⟩
  cases member

/-- In every run, what is undone without having brought a new named property leaves
the writer as it was, as long as the private file can be cut back. -/
theorem undo_restores (accepts : MessageSpec → Except WriterError Unit)
    (truncates : Truncates around) (start : Transaction τ) (steps : List Step) (step : Step)
    (known : (runFrom around accepts start steps).NamesKnown accepts step) :
    (runFrom around accepts start steps).Restores around accepts step := by
  have nested := runFrom_nested around accepts start steps
  revert known nested
  generalize runFrom around accepts start steps = run
  intro known nested
  cases step with
  | call call =>
      exact (call.settles around accepts run.transaction).mono
        (fun _ _ settled kept => settled.2 kept known truncates)
        fun _ _ settled => settled.2 known truncates
  | beginBatch | keepBatch => trivial
  | rollbackBatch =>
      intro batch innermost
      have opened := nested.open_ batch (List.mem_of_mem_head? innermost)
      have names := opened.names (known batch innermost)
      unfold Batch.RestoredBy
      rw [opened.checkpoint]
      refine (rollbackBatch_ensures around opened.grew).mono (fun _ next restored => ?_)
        fun _ next refused layout => refused.2 layout truncates
      rw [restored.2, names]
  | rollbackProjectedBatch =>
      intro batch innermost
      have opened := nested.open_ batch (List.mem_of_mem_head? innermost)
      have names := opened.names (known batch innermost)
      unfold Batch.RestoredBy
      rw [opened.checkpoint]
      refine (rollbackProjectedBatch_ensures opened.grew).mono (fun _ next restored => ?_)
        fun _ next refused => refused.2
      rw [restored.2, names]

/-- A projection that leaves no trace ends with the writer it started from. -/
theorem projection_writer (accepts : MessageSpec → Except WriterError Unit) (key : FolderKey)
    (associated : Bool) (message : MessageSpec) {run : Run τ}
    (restores : run.Restores around accepts
      (.call (.projectPrivateEof key associated message))) :
    (after (projectMessageDirectPrivateEof around accepts key associated message)
      run.transaction).writer = run.transaction.writer := by
  simp only [Run.Restores, Call.perform, Ensures, run_bind, Functor.discard, Functor.mapConst,
    EStateM.map, Function.comp] at restores
  unfold after
  cases hrun : projectMessageDirectPrivateEof around accepts key associated message
      run.transaction with
  | error error next => simpa only [hrun] using restores
  | ok value next =>
      simp only [hrun] at restores
      exact restores rfl

end Runs

section Samples

/-- A writer of a store with one folder. -/
def sampleWriter (dynamicNamedProperties : Bool) : TransactionalMailStoreWriter :=
  ⟨⟨"Recovered".toList, List.replicate 16 0, [.mail "Inbox".toList]⟩, [], dynamicNamedProperties,
    .new, true⟩

/-- A source of direct payloads that has none. -/
def noSource : Surroundings Unit :=
  .quiet id fun _ source => (.error (.invalidStructure "requested stream was absent"), source)

/-- A note with a named property. -/
def namedNote : MessageSpec :=
  { MessageSpec.note "subject".toList "body".toList with
    namedProperties := [⟨.publicStrings, .string "Keywords".toList, ⟨.integer32 1, rfl⟩⟩] }

def inboxKey : FolderKey := (.ipmSubtree, ["Inbox".toList])

theorem undo_restores_rolledBackNote :
    (runFrom noSource (fun _ => .ok ()) ⟨sampleWriter false, none, 0⟩
      [.beginBatch, .call (.append inboxKey false (.note [] []))]).Restores noSource
        (fun _ => .ok ()) .rollbackBatch := by
  refine undo_restores noSource (fun _ => .ok ()) (fun _ => rfl) ⟨sampleWriter false, none, 0⟩
    [.beginBatch, .call (.append inboxKey false (.note [] []))] .rollbackBatch ?_
  intro batch innermost call member
  cases innermost
  cases List.mem_singleton.mp member
  exact fun _ => .inl rfl

/-- A streaming writer that only projects a note numbers its named property. -/
theorem projection_numbers_names :
    beginWithNamedPolicy (sampleWriter true).spec [] true true = .ok (sampleWriter true) ∧
      ¬ ∀ steps step, (runFrom noSource (fun _ => .ok ()) ⟨sampleWriter true, none, 0⟩
        steps).Restores noSource (fun _ => .ok ()) step := by
  constructor
  · have valid : validateMailStoreLayoutExpected (sampleWriter true).spec = .ok () := by
      decide +kernel
    simp only [beginWithNamedPolicy, valid]
    rfl
  · intro restores
    have same := projection_writer noSource (fun _ => .ok ()) inboxKey false namedNote
      (restores [] _)
    simp only [runFrom, List.foldl_nil] at same
    have numbered : (after (projectMessageDirectPrivateEof noSource (fun _ => .ok ()) inboxKey
        false namedNote) ⟨sampleWriter true, none, 0⟩).writer.namedIdentities ≠ [] := by
      decide +kernel
    rw [same] at numbered
    exact numbered rfl

end Samples

end PstForge.Writer
