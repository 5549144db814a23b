import PstForge.Writer.Finalize
import PstForge.Writer.Message

/-! # The transactional writer

The writer that a store is produced with. It holds the folders with the messages
accepted so far, the named properties in use and the state of the block stream.
An append that fails is undone from a checkpoint, and so is a whole batch when the
caller finds that it does not fit; a projection runs the append without output and
is undone afterwards.
-/

namespace PstForge.Writer

open PstForge.Foundation PstForge.Ndb PstForge.Ltp

variable {τ : Type}

section Checkpoint

/-- What is recorded of the block stream before an append. -/
structure MessageAppendCheckpoint where
  fileLen : Nat
  allocationCursor : Nat
  nextBlockIndex : Nat
  nextValueNode : Nat
  writtenLen : Nat
  streamedSubnodesLen : Nat
  contentsRowsLen : Nat
  associatedRowsLen : Nat
  topNodesLen : Nat
  deriving DecidableEq, Repr

namespace MessageStreamState

def checkpoint (state : MessageStreamState) : MessageAppendCheckpoint where
  fileLen := state.fileLen
  allocationCursor := state.allocationCursor
  nextBlockIndex := state.counters.nextBlockIndex
  nextValueNode := state.counters.nextValueNode
  writtenLen := state.written.length
  streamedSubnodesLen := state.streamedSubnodes.length
  contentsRowsLen := state.contentsRows.length
  associatedRowsLen := state.associatedRows.length
  topNodesLen := state.topNodes.length

/-- Bring the stream back to a checkpoint. -/
def restore (checkpoint : MessageAppendCheckpoint) (state : MessageStreamState) :
    MessageStreamState where
  fileLen := checkpoint.fileLen
  allocationCursor := checkpoint.allocationCursor
  counters := ⟨checkpoint.nextBlockIndex, checkpoint.nextValueNode⟩
  written := state.written.take checkpoint.writtenLen
  streamedSubnodes := state.streamedSubnodes.take checkpoint.streamedSubnodesLen
  contentsRows := state.contentsRows.take checkpoint.contentsRowsLen
  associatedRows := state.associatedRows.take checkpoint.associatedRowsLen
  topNodes := state.topNodes.take checkpoint.topNodesLen

end MessageStreamState

end Checkpoint

section Append

def messageIndex : Nat := 0x10001

/-- Set aside the blocks of a top-level message. The first message of a store takes
fixed identifiers, because the table templates refer to its tables. -/
def messageFrame (index : Nat) : Ids (MessageFrame × BlockId) := do
  if index = 0 then
    let property ← attempt (leafBid 12)
    let recipient ← attempt (leafBid 17)
    let attachment ← attempt (leafBid 18)
    let subnode ← attempt (internalBid 27)
    return (⟨property, recipient, attachment⟩, subnode)
  else
    let property ← takeBlockId false
    let recipient ← takeBlockId false
    let attachment ← takeBlockId false
    let subnode ← takeBlockId true
    return (⟨property, recipient, attachment⟩, subnode)

/-- The blocks of a top-level message that were not streamed, in the order of their
identifiers. -/
def builtMessageBlockSpecs (frame : MessageFrame) (subnodeBlock : BlockId)
    (sharedTableBlocks : Bool) (message : MessageBlocks) : Ids (List BlockSpec) := do
  let recipient : List BlockSpec := message.recipientTable.toList.map fun table =>
    ⟨frame.recipientBlock, .data table,
      if sharedTableBlocks && message.recipientTableReferencedByMessage then 3 else 2⟩
  let attachment : BlockSpec :=
    ⟨frame.attachmentBlock, .data message.attachmentTable, if sharedTableBlocks then 3 else 2⟩
  let tree ← appendSubnodeTreeAt message.subnodes subnodeBlock
  return sortByKey (·.id.value) (recipient ++ [attachment] ++ tree ++ message.dynamicBlocks)

/-- The nodes of the subnode entries of some blocks. -/
def subnodeIds (blocks : List BlockSpec) : List NodeId :=
  blocks.flatMap fun block =>
    match block.payload with
    | .subnode entries => entries.map (·.node)
    | _ => []

/-- The node of the next top-level message. -/
def messageNode (associated : Bool) (index : Nat) : Except WriterError NodeId := do
  let index ← okOr (.valueTooLarge "message count") (tryFrom 32 index)
  let nodeIndex ← okOr (.valueTooLarge "message node") (checkedAdd 32 messageIndex index)
  node (if associated then .associatedMessage else .normalMessage) nodeIndex

/-- What the writer reports of a direct payload that it read. -/
structure DirectBlobCompletion where
  id : Nat
  sha256 : Bytes
  deriving DecidableEq, Repr

/-- The row of a message in the table of its folder. -/
def listMessage (message : MessageSpec) (messageNode parent : NodeId) (associated : Bool)
    (storeKey : Bytes) (built : MessageBlocks)
    (contentsColumns associatedColumns : List TableColumnDescriptor) : Live τ Unit :=
  if associated then
    modify fun session => { session with stream := { session.stream with
      associatedRows := session.stream.associatedRows
        ++ [(parent, associatedMessageTableRow messageNode message associatedColumns)] } }
  else do
    let row ← attempt (messageTableRow messageNode message storeKey built.recordKey
      built.messageSize contentsColumns)
    modify fun session => { session with stream := { session.stream with
      contentsRows := session.stream.contentsRows ++ [(parent, row)] } }

/-- Append a top-level message to the block stream. -/
def streamMessage (around : Surroundings τ) (output : Output) (message : MessageSpec)
    (parent : NodeId) (associated : Bool) (storeKey : Bytes) (identities : List NamedIdentity)
    (contentsColumns associatedColumns : List TableColumnDescriptor) :
    Live τ (List DirectBlobCompletion) := do
  checkInterrupted around
  let index := (← get).stream.messageCount
  let messageNode ← attempt (messageNode associated index)
  let (frame, subnodeBlock) ← takeIds (messageFrame index)
  let built ← buildMessageBlocks around output identities message associated
    (messageRecordKey storeKey messageNode) frame
  listMessage message messageNode parent associated storeKey built contentsColumns
    associatedColumns
  modify fun session => { session with stream := { session.stream with
    topNodes := session.stream.topNodes
      ++ [⟨messageNode, built.propertyDataBlock, subnodeBlock, parent⟩] } }
  let blocks ← takeIds (builtMessageBlockSpecs frame subnodeBlock (index = 0) built)
  modify fun session => { session with stream := { session.stream with
    streamedSubnodes := session.stream.streamedSubnodes ++ subnodeIds blocks } }
  emitAll around output blocks
  modify fun session => { session with stream := { session.stream with
    fileLen := max session.stream.fileLen session.stream.allocationCursor } }
  return (← get).completions.map fun (blob, digest) => ⟨blob.id, digest⟩

end Append

/-- The writer of one store. -/
structure TransactionalMailStoreWriter where
  spec : MailStoreSpec
  namedIdentities : List NamedIdentity
  dynamicNamedProperties : Bool
  messageStream : MessageStreamState
  preserveEmptyFolders : Bool

/-- The writer together with the live source it reads from and the clock of its
surroundings. -/
structure Transaction (τ : Type) where
  writer : TransactionalMailStoreWriter
  source : Option τ
  clock : Nat

/-- Operations of the writer. -/
abbrev Writing (τ : Type) := EStateM WriterError (Transaction τ)

section Access

/-- The session in which a message is appended; only an append of direct payloads
has access to the live source. -/
def Transaction.session (live : Bool) (transaction : Transaction τ) : Session τ where
  stream := transaction.writer.messageStream
  source := if live then transaction.source else none
  completions := []
  clock := transaction.clock

/-- The writer after a session, however it ended. -/
def Transaction.close (live : Bool) (transaction : Transaction τ) (session : Session τ) :
    Transaction τ where
  writer := { transaction.writer with messageStream := session.stream }
  source := if live then session.source else transaction.source
  clock := session.clock

/-- Work on the block stream of the writer. -/
def inSession {α : Type} (live : Bool) (program : Live τ α) : Writing τ α :=
  zoom (Transaction.session live) (Transaction.close live) program

/-- Compute something from the block stream of the writer, leaving it as it is. -/
def inspect {α : Type} (program : Live τ α) : Writing τ α :=
  zoom (Transaction.session false)
    (fun transaction session => { transaction with clock := session.clock }) program

/-- Change the folders of the writer. -/
def modifyFolders (change : List MailFolderSpec → List MailFolderSpec) : Writing τ Unit :=
  modify fun transaction =>
    { transaction with writer := { transaction.writer with
      spec := { transaction.writer.spec with folders := change transaction.writer.spec.folders } } }

/-- Change the block stream of the writer. -/
def modifyStream (change : MessageStreamState → MessageStreamState) : Writing τ Unit :=
  modify fun transaction =>
    { transaction with writer := { transaction.writer with
      messageStream := change transaction.writer.messageStream } }

end Access

section Named

/-- Make sure that an identity is in the writer's list. -/
def pushIdentity (identity : NamedIdentity) : Writing τ Unit := do
  let known := (← get).writer.namedIdentities
  if (namedIdentityIndex known identity).isSome then
    return ()
  else
    attempt (refuse (0x8000 ≤ known.length) (.valueTooLarge "named-property count"))
    modify fun transaction =>
      { transaction with writer := { transaction.writer with
        namedIdentities := known ++ [identity] } }

def pushIdentities : List NamedIdentity → Writing τ Unit
  | [] => return ()
  | identity :: rest => do
      pushIdentity identity
      pushIdentities rest

/-- Make sure that the identities of a message are known: a streaming writer adds
the new ones, any other writer must have been given them beforehand. -/
def prepareNamedIdentities (message : MessageSpec) : Writing τ Unit := do
  let writer := (← get).writer
  let identities := collectNamedIdentities message
  if writer.dynamicNamedProperties then
    pushIdentities identities
  else
    attempt (refuse
      (identities.any (fun identity =>
        (namedIdentityIndex writer.namedIdentities identity).isNone) = true)
      (.invalidStructure "transactional named-property catalog is incomplete"))

end Named

section Folders

def MailFolderSpec.add (associated : Bool) (message : MessageSpec) (folder : MailFolderSpec) :
    MailFolderSpec :=
  if associated then { folder with associatedMessages := folder.associatedMessages ++ [message] }
  else { folder with messages := folder.messages ++ [message] }

def MailFolderSpec.pop (associated : Bool) (folder : MailFolderSpec) : MailFolderSpec :=
  if associated then { folder with associatedMessages := folder.associatedMessages.dropLast }
  else { folder with messages := folder.messages.dropLast }

/-- The position of a folder in the layout. -/
def findFolder (key : FolderKey) : Writing τ Nat := do
  let folders := (← get).writer.spec.folders
  attempt (okOr (.invalidStructure "transactional message folder is absent from the layout")
    (folders.findIdx? (·.key = key)))

/-- Add a folder that was discovered while messages are streamed. -/
def observeFolder (folder : MailFolderSpec) : Writing τ Unit := do
  attempt (refuse (!folder.messages.isEmpty || !folder.associatedMessages.isEmpty)
    (.invalidStructure "observed streaming folder must not contain messages"))
  let spec := (← get).writer.spec
  match spec.folders.find? (·.key = folder.key) with
  | some existing =>
      attempt (refuse (existing.role ≠ folder.role
          ∨ existing.containerClass ≠ folder.containerClass)
        (.invalidStructure "streaming folder metadata changed after observation"))
  | none =>
      modifyFolders (· ++ [folder])
      onError (attempt (validateMailStoreLayoutExpected
          { spec with folders := spec.folders ++ [folder] }))
        fun error => do
          modifyFolders List.dropLast
          throw error

end Folders

section Batch

/-- What is recorded of the writer before a batch. -/
structure TransactionBatchCheckpoint where
  messageStream : MessageAppendCheckpoint
  folderLengths : List (Nat × Nat)
  deriving DecidableEq, Repr

def TransactionalMailStoreWriter.batchCheckpoint (writer : TransactionalMailStoreWriter) :
    TransactionBatchCheckpoint where
  messageStream := writer.messageStream.checkpoint
  folderLengths := writer.spec.folders.map fun folder =>
    (folder.messages.length, folder.associatedMessages.length)

def beginBatch : Writing τ TransactionBatchCheckpoint := do
  return (← get).writer.batchCheckpoint

/-- Cut the messages of the folders back to recorded lengths. -/
def truncateFolders (lengths : List (Nat × Nat)) (folders : List MailFolderSpec) :
    List MailFolderSpec :=
  (folders.zip lengths).map fun (folder, messages, associated) =>
    { folder with
      messages := folder.messages.take messages
      associatedMessages := folder.associatedMessages.take associated }

/-- Cut the file back to a checkpoint and restore the block stream. -/
def rollbackMessage (around : Surroundings τ) (checkpoint : MessageAppendCheckpoint) :
    Writing τ Unit := do
  inspect (truncateOutput around)
  modifyStream (MessageStreamState.restore checkpoint)

def rollbackBatch (around : Surroundings τ) (checkpoint : TransactionBatchCheckpoint) :
    Writing τ Unit := do
  let folders := (← get).writer.spec.folders
  attempt (refuse (checkpoint.folderLengths.length ≠ folders.length) (.invalidStructure
    "transactional batch checkpoint does not match the writer layout"))
  rollbackMessage around checkpoint.messageStream
  modifyFolders (truncateFolders checkpoint.folderLengths)

def rollbackProjectedBatch (checkpoint : TransactionBatchCheckpoint) : Writing τ Unit := do
  let folders := (← get).writer.spec.folders
  attempt (refuse (checkpoint.folderLengths.length ≠ folders.length) (.invalidStructure
    "transactional projection checkpoint does not match the writer layout"))
  modifyStream (MessageStreamState.restore checkpoint.messageStream)
  modifyFolders (truncateFolders checkpoint.folderLengths)

end Batch

section Operations

variable (around : Surroundings τ) (accepts : MessageSpec → Except WriterError Unit)

/-- Append a message that was filed in its folder to the block stream. -/
def streamFiled (output : Output) (live : Bool) (key : FolderKey) (associated : Bool)
    (message : MessageSpec) : Writing τ (List DirectBlobCompletion) := do
  let writer := (← get).writer
  let parent ← attempt (transactionFolderNode writer.spec.folders key)
  let contents ← attempt contentsColumns
  let associatedTable ← attempt associatedColumns
  inSession live (streamMessage around output message parent associated writer.spec.recordKey
    writer.namedIdentities contents associatedTable)

/-- Append a message without measuring the finished file. A failed append is undone
from a checkpoint of the block stream. -/
def appendMessageDeferredFrom (live : Bool) (key : FolderKey) (associated : Bool)
    (message : MessageSpec) : Writing τ (List DirectBlobCompletion) := do
  inspect (checkInterrupted around)
  attempt (accepts message)
  prepareNamedIdentities message
  let index ← findFolder key
  modifyFolders (·.modify index (MailFolderSpec.add associated message))
  let checkpoint := (← get).writer.messageStream.checkpoint
  onError (streamFiled around .physical live key associated message) fun error => do
    modifyFolders (·.modify index (MailFolderSpec.pop associated))
    rollbackMessage around checkpoint
    throw error

def appendMessageDeferred (key : FolderKey) (associated : Bool) (message : MessageSpec) :
    Writing τ Unit := do
  discard (appendMessageDeferredFrom around accepts false key associated message)

def appendMessageDirect (key : FolderKey) (associated : Bool) (message : MessageSpec) :
    Writing τ (List DirectBlobCompletion) :=
  appendMessageDeferredFrom around accepts true key associated message

/-- Whether a message can be projected: it must not name payloads of the spool. -/
def projects (message : MessageSpec) : Except WriterError Unit := do
  accepts message
  refuse (messageContainsSpooledValues message = true)
    (.invalidStructure "direct projection cannot consume spooled values")

/-- Append a message to the block stream without output. -/
def appendMessageDirectProjectionDeferred (key : FolderKey) (associated : Bool)
    (message : MessageSpec) : Writing τ Unit := do
  inspect (checkInterrupted around)
  attempt (projects accepts message)
  prepareNamedIdentities message
  let index ← findFolder key
  let checkpoint := (← get).writer.messageStream.checkpoint
  modifyFolders (·.modify index (MailFolderSpec.add associated message))
  onError (discard (streamFiled around .projected false key associated message)) fun error => do
    modifyFolders (·.modify index (MailFolderSpec.pop associated))
    modifyStream (MessageStreamState.restore checkpoint)
    throw error

/-- The length that the finished file would have. -/
def projectedFileEof : Writing τ Nat := do
  inspect (checkInterrupted around)
  let writer := (← get).writer
  attempt (refuse (writer.spec.folders.all (fun folder =>
      folder.messages.isEmpty && folder.associatedMessages.isEmpty) = true)
    (.invalidStructure "transactional store has no appended message"))
  let plans ← attempt (planTransactionFolders writer.spec.folders writer.preserveEmptyFolders)
  let plan ← inspect (buildFinalizationPlan around writer.spec.storeName writer.spec.recordKey
    writer.namedIdentities plans)
  return plan.projectedFileEof

/-- The bytes allocated so far, before the final tables and indexes. -/
def privateFileEof : Writing τ Nat := do
  return (← get).writer.messageStream.fileLen

/-- The extents that an append would lead to. -/
structure DirectMessageProjection where
  privateFileEof : Nat
  finalizedFileEof : Nat
  deriving DecidableEq, Repr

/-- Run a computation, and undo the projected batch however it ends. -/
def undoingProjection {α : Type} (checkpoint : TransactionBatchCheckpoint)
    (program : Writing τ α) : Writing τ α := do
  let value ← onError program fun error => do
    rollbackProjectedBatch checkpoint
    throw error
  rollbackProjectedBatch checkpoint
  return value

def projectMessageDirectPrivateEof (key : FolderKey) (associated : Bool) (message : MessageSpec) :
    Writing τ Nat := do
  let checkpoint ← beginBatch
  undoingProjection checkpoint do
    appendMessageDirectProjectionDeferred around accepts key associated message
    privateFileEof

def projectMessageDirectExtents (key : FolderKey) (associated : Bool) (message : MessageSpec) :
    Writing τ DirectMessageProjection := do
  let checkpoint ← beginBatch
  appendMessageDirectProjectionDeferred around accepts key associated message
  let privateEof ← privateFileEof
  let finalized ← undoingProjection checkpoint (projectedFileEof around)
  return ⟨privateEof, finalized⟩

def projectMessageDirectEof (key : FolderKey) (associated : Bool) (message : MessageSpec) :
    Writing τ Nat := do
  let projection ← projectMessageDirectExtents around accepts key associated message
  return projection.finalizedFileEof

/-- Run a computation, and undo the batch when it fails. -/
def undoingFailure {α : Type} (checkpoint : TransactionBatchCheckpoint) (program : Writing τ α) :
    Writing τ α :=
  onError program fun error => do
    rollbackBatch around checkpoint
    throw error

/-- The text of an error about extents that differ from the projected ones. -/
def divergedText (what : String) (expected actual : Nat) : String :=
  "direct append allocation diverged from preflight: expected " ++ what ++ toString expected
    ++ ", got " ++ toString actual

/-- Append a direct message and compare the finished length with the projected one. -/
def appendMessageDirectPreflighted (key : FolderKey) (associated : Bool) (message : MessageSpec)
    (expected : Nat) : Writing τ (List DirectBlobCompletion) := do
  let checkpoint ← beginBatch
  let completions ← appendMessageDirect around accepts key associated message
  undoingFailure around checkpoint do
    let actual ← projectedFileEof around
    attempt (refuse (actual ≠ expected) (.invalidStructure (divergedText "" expected actual)))
  return completions

/-- Append a direct message and compare the allocated length with the projected one. -/
def appendMessageDirectPreflightedPrivate (key : FolderKey) (associated : Bool)
    (message : MessageSpec) (expected : Nat) : Writing τ (List DirectBlobCompletion) := do
  let checkpoint ← beginBatch
  let completions ← appendMessageDirect around accepts key associated message
  undoingFailure around checkpoint do
    let actual ← privateFileEof
    attempt (refuse (actual ≠ expected)
      (.invalidStructure (divergedText "private EOF " expected actual)))
  return completions

def appendMessageDirectPreflightedExtents (key : FolderKey) (associated : Bool)
    (message : MessageSpec) (projection : DirectMessageProjection) :
    Writing τ (List DirectBlobCompletion) :=
  appendMessageDirectPreflightedPrivate around accepts key associated message
    projection.privateFileEof

/-- How an append within a size limit ends. -/
inductive TransactionAppend where
  | appended (projectedFileEof : Nat)
  | partFull (rejectedFileEof : Nat)
  deriving DecidableEq, Repr

/-- Append a message within a size limit. A message that crosses the limit is taken
back, unless it is the only one. -/
def appendMessage (key : FolderKey) (associated : Bool) (message : MessageSpec)
    (maximum : Nat) : Writing τ TransactionAppend := do
  attempt (refuse (maximum = 0)
    (.invalidStructure "transactional maximum PST size must be nonzero"))
  let checkpoint ← beginBatch
  let projected ← undoingFailure around checkpoint do
    appendMessageDeferred around accepts key associated message
    projectedFileEof around
  if maximum < projected ∧ 1 < (← get).writer.messageStream.messageCount then
    rollbackBatch around checkpoint
    return .partFull projected
  else
    return .appended projected

end Operations

section Begin

/-- Begin a store from its folders. -/
def beginWithNamedPolicy (layout : MailStoreSpec) (identities : List NamedIdentity)
    (dynamicNamedProperties preserveEmptyFolders : Bool) :
    Except WriterError TransactionalMailStoreWriter := do
  refuse (layout.folders.any (fun folder =>
      !folder.messages.isEmpty || !folder.associatedMessages.isEmpty) = true)
    (.invalidStructure "transactional writer layout must not contain messages")
  validateMailStoreLayoutExpected layout
  return ⟨layout, identities, dynamicNamedProperties, .new, preserveEmptyFolders⟩

end Begin

end PstForge.Writer
