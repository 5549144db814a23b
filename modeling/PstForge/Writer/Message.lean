import PstForge.Writer.Stream

/-! # Building a message

A message becomes a property context, a recipient table, an attachment table and a
tree of subnodes; every attachment has a property context of its own, and an
embedded message is built inside its attachment in the same way. Payloads are
streamed while the message is built; all other blocks are collected and passed to
the stream at the end, in the order of their identifiers.
-/

namespace PstForge.Writer

open PstForge.Foundation PstForge.Ndb PstForge.Ltp

variable {τ : Type}

def nidRecipientTableTemplate : NodeId := ⟨0x692⟩
def nidAttachmentTableTemplate : NodeId := ⟨0x671⟩

/-- A message that was built, up to its own subnode tree. -/
structure MessageBlocks where
  propertyDataBlock : BlockId
  recipientTable : Option Bytes
  recipientTableReferencedByMessage : Bool
  attachmentTable : Bytes
  subnodes : List LeafSubnodeEntry
  dynamicBlocks : List BlockSpec
  recordKey : Bytes
  messageSize : Int
  streamedLogicalSize : Nat

/-- The recipient table of a message that is being built. -/
structure RecipientBuild where
  table : Option Bytes
  referenced : Bool
  inlineSize : Nat
  dataBlock : BlockId
  subnodeBlock : Option BlockId
  blocks : List BlockSpec

/-- Build the recipient table. When it takes the external form, the block that was
set aside for it stays unused, except that the first message of a store always
writes the block that the table template refers to. -/
def buildRecipientTable (recipients : List RecipientSpec) (recipientBlock : BlockId) :
    Ids RecipientBuild := do
  let columns ← attempt recipientColumns
  let rows ← attempt (recipients.zipIdx.mapM fun (recipient, index) =>
    recipientTableRow index recipient)
  match tableContext columns rows with
  | .ok table => return ⟨some table, true, table.length, recipientBlock, none, []⟩
  | .error (.valueTooLarge "heap page") =>
      let external ← tableContextExternal columns rows
      let template ← attempt (leafBid 17)
      let table ← attempt (if recipientBlock = template then some <$> tableContext columns []
        else .ok none)
      return ⟨table, false, 0, external.dataBlock, external.subnodeBlock, external.blocks⟩
  | .error error => throw error

/-- The content of an attachment that is being built: its method, its data
property, the length of a streamed payload, the subnodes it needs and the blocks
it made. -/
structure ContentBuild where
  method : Int
  data : Option PropertyValue
  streamedSize : Option Nat
  subnodes : List LeafSubnodeEntry
  blocks : List BlockSpec
  logicalSize : Nat

section Content

variable (around : Surroundings τ) (output : Output)

def OleDataKind.nodeType : OleDataKind → NodeIdType
  | .object => .oleObjectData
  | .binary => .listsTablesProperties

/-- The data property of a streamed OLE payload. -/
def OleDataKind.dataProperty (what : String) (valueNode : NodeId) (byteLen : Nat) :
    OleDataKind → Except WriterError PropertyValue
  | .object => do
      let size ← okOr (.valueTooLarge what) (tryFrom 32 byteLen)
      return .object valueNode size
  | .binary => return .external .binary valueNode

/-- Stream the payload of an attachment into a value node of its own. -/
def streamContent (kind : NodeIdType) (what : String) (append : Live τ (BlockId × Nat)) :
    Live τ (NodeId × BlockId × Nat) := do
  let valueNode ← takeIds (takeValueNode kind what)
  let (root, size) ← append
  return (valueNode, root, size)

/-- Build the content of an attachment that is not an embedded message. -/
def buildContent : AttachmentContent → Live τ ContentBuild
  | .binary data => return ⟨1, some (.binary data), none, [], [], 0⟩
  | .spooled blob => do
      let (valueNode, root, size) ← streamContent .listsTablesProperties "attachment value node"
        (appendSpooledDataTree around output blob)
      return ⟨1, some (.external .binary valueNode), some blob.byteLen, [⟨valueNode, root, none⟩],
        [], size⟩
  | .direct blob => do
      let (valueNode, root, size) ← streamContent .listsTablesProperties "attachment value node"
        (appendBlobDataTree around output "direct attachment source is unavailable" blob)
      return ⟨1, some (.external .binary valueNode), some blob.byteLen, [⟨valueNode, root, none⟩],
        [], size⟩
  | .reference reference => return ⟨reference.method.code, none, none, [], [], 0⟩
  | .ole ole => do
      if ole.dataKind = .binary ∧ ole.data.byteLen = 0 then
        attempt (verifyEmptyFileBlob around ole.data)
        return ⟨6, some (.binary []), some 0, [], [], 0⟩
      else
        let (valueNode, root, size) ← streamContent ole.dataKind.nodeType
          "OLE attachment value node" (appendSpooledDataTree around output ole.data)
        let data ← attempt (ole.dataKind.dataProperty "OLE attachment object" valueNode
          ole.data.byteLen)
        return ⟨6, some data, some ole.data.byteLen, [⟨valueNode, root, none⟩], [], size⟩
  | .directOle ole => do
      if ole.dataKind = .binary ∧ ole.data.byteLen = 0 then
        return ⟨6, some (.binary []), some 0, [], [], 0⟩
      else
        let (valueNode, root, size) ← streamContent ole.dataKind.nodeType
          "OLE attachment value node" (appendBlobDataTree around output
            "direct OLE attachment source is unavailable" ole.data)
        let data ← attempt (ole.dataKind.dataProperty "direct OLE attachment object" valueNode
          ole.data.byteLen)
        return ⟨6, some data, some ole.data.byteLen, [⟨valueNode, root, none⟩], [], size⟩
  | .embedded _ => throw (.invalidStructure "embedded message is built by its own routine")

/-- The blocks that were set aside for an embedded message. -/
structure EmbeddedBlocks where
  node : NodeId
  propertyBlock : BlockId
  recipientBlock : BlockId
  attachmentBlock : BlockId

/-- Set aside the node and the blocks of an embedded message. -/
def reserveEmbedded (attachmentIndex : Nat) : Ids EmbeddedBlocks := do
  let index ← attempt (okOr (.valueTooLarge "embedded message node")
    (checkedAdd 32 0x30000 attachmentIndex))
  let embeddedNode ← attempt (node .normalMessage index)
  let propertyBlock ← takeBlockId false
  let recipientBlock ← takeBlockId false
  let attachmentBlock ← takeBlockId false
  return ⟨embeddedNode, propertyBlock, recipientBlock, attachmentBlock⟩

/-- Close an embedded message under its attachment. -/
def closeEmbedded (reserved : EmbeddedBlocks) (embedded : MessageBlocks) : Ids ContentBuild := do
  let subnodeBlock ← takeBlockId true
  let tables : List BlockSpec :=
    (embedded.recipientTable.toList.map fun table => ⟨reserved.recipientBlock, .data table, 2⟩)
      ++ [⟨reserved.attachmentBlock, .data embedded.attachmentTable, 2⟩]
  let tree ← appendSubnodeTreeAt embedded.subnodes subnodeBlock
  return ⟨5, some (.object reserved.node embedded.messageSize.toNat), none,
    [⟨reserved.node, embedded.propertyDataBlock, some subnodeBlock⟩],
    tables ++ tree ++ embedded.dynamicBlocks, embedded.streamedLogicalSize⟩

end Content

section Attachments

/-- One or all attachments of a message: their rows in the attachment table, their
subnodes of the message and the blocks they made. -/
structure AttachmentsBuild where
  rows : List TableRowSpec
  subnodes : List LeafSubnodeEntry
  blocks : List BlockSpec

/-- Set aside the node and the property block of an attachment. -/
def reserveAttachment (index : Nat) : Ids (NodeId × BlockId) := do
  let attachmentIndex ← attempt (okOr (.valueTooLarge "attachment count") (tryFrom 32 index))
  let nodeIndex ← attempt (okOr (.valueTooLarge "attachment node")
    (checkedAdd 32 0x20000 attachmentIndex))
  let attachmentNode ← attempt (node .attachment nodeIndex)
  let block ← takeBlockId false
  return (attachmentNode, block)

/-- The subnode block of an attachment, when it has subnodes. -/
def attachmentSubnodeBlock (subnodes : List LeafSubnodeEntry) :
    Ids (Option BlockId × List BlockSpec) := do
  if subnodes.isEmpty then
    return (none, [])
  else
    let block ← takeBlockId true
    return (some block, [⟨block, .subnode (sortByKey (·.node.value) subnodes), 2⟩])

/-- Build the properties of an attachment around its content. -/
def buildAttachment (around : Surroundings τ) (output : Output) (identities : List NamedIdentity)
    (index : Nat) (reserved : NodeId × BlockId) (attachment : AttachmentSpec)
    (content : ContentBuild) (streamed : Nat) : Live τ (AttachmentsBuild × Nat) := do
  let streamed ← attempt (addMessageSize streamed content.logicalSize)
  let number ← attempt (asInt32 "attachment number" index)
  let properties ← attempt
    (attachmentPropertiesMapped attachment number content.method 0 content.data identities)
  let size ← attempt (attachmentPropertySizeWithStream properties content.streamedSize)
  let spooled ← appendSpooledProperties around output attachment.spooledProperties
  let streamed ← attempt (addMessageSize streamed spooled.logicalSize)
  let size ← attempt
    (attachmentSizeWithProperties size (attachment.spooledProperties.map (·.blob.byteLen)))
  let direct ← appendDirectProperties around output
    "direct attachment property source is unavailable" attachment.directProperties
  let streamed ← attempt (addMessageSize streamed direct.logicalSize)
  let size ← attempt
    (attachmentSizeWithProperties size (attachment.directProperties.map (·.blob.byteLen)))
  let properties ← attempt
    (setAttachmentSize (properties ++ spooled.properties ++ direct.properties) size)
  let moved ← takeIds (externalizeLargeProperties properties)
  let context ← takeIds (buildPropertyContext moved.properties reserved.2)
  let (subnodeBlock, subnodeBlocks) ← takeIds (attachmentSubnodeBlock
    (content.subnodes ++ spooled.subnodes ++ direct.subnodes ++ moved.subnodes))
  return (⟨[attachmentTableRow reserved.1 attachment number content.method size],
    [⟨reserved.1, context.dataBlock, subnodeBlock⟩],
    content.blocks ++ moved.blocks ++ context.blocks ++ subnodeBlocks⟩, streamed)

end Attachments

/-- Build the properties of a message around its recipient table and attachments. -/
def closeMessage (around : Surroundings τ) (output : Output) (message : MessageSpec)
    (associated : Bool) (recordKey : Bytes) (identities : List NamedIdentity)
    (propertyBlock attachmentTableBlock : BlockId) (recipients : RecipientBuild)
    (attachments : AttachmentsBuild) (streamed : Nat) : Live τ MessageBlocks := do
  let columns ← attempt attachmentColumns
  let attachmentTable ← attempt (tableContext columns attachments.rows)
  let properties ← attempt (messageProperties message associated identities recordKey 0)
  let spooled ← appendSpooledProperties around output message.spooledProperties
  let streamed ← attempt (addMessageSize streamed spooled.logicalSize)
  let direct ← appendDirectProperties around output "direct property source is unavailable"
    message.directProperties
  let streamed ← attempt (addMessageSize streamed direct.logicalSize)
  let moved ← takeIds
    (externalizeLargeProperties (properties ++ spooled.properties ++ direct.properties))
  let blocks := recipients.blocks ++ attachments.blocks ++ moved.blocks
  let propertySize ← attempt (propertyContextLogicalSize moved.properties)
  let messageSize ← attempt (asInt32 "message size" (propertySize + recipients.inlineSize
    + attachmentTable.length + (blocks.map (·.payload.messageSizeContribution)).sum + streamed))
  let properties ← attempt (setMessageSize moved.properties messageSize)
  let context ← takeIds (buildPropertyContext properties propertyBlock)
  let tables : List LeafSubnodeEntry :=
    [⟨nidRecipientTableTemplate, recipients.dataBlock, recipients.subnodeBlock⟩,
      ⟨nidAttachmentTableTemplate, attachmentTableBlock, none⟩]
  let subnodes := sortByKey (·.node.value) (tables ++ attachments.subnodes)
  return {
    propertyDataBlock := context.dataBlock
    recipientTable := recipients.table
    recipientTableReferencedByMessage := recipients.referenced
    attachmentTable
    subnodes := sortByKey (·.node.value)
      (subnodes ++ spooled.subnodes ++ direct.subnodes ++ moved.subnodes)
    dynamicBlocks := blocks ++ context.blocks
    recordKey
    messageSize
    streamedLogicalSize := streamed }

/-- The blocks that are set aside for a message before it is built. -/
structure MessageFrame where
  propertyBlock : BlockId
  recipientBlock : BlockId
  attachmentBlock : BlockId
  deriving DecidableEq, Repr

section Build

variable (around : Surroundings τ) (output : Output) (identities : List NamedIdentity)

mutual

/-- Build a message: its recipient table first, then its attachments in order, and
its own properties last. -/
def buildMessageBlocks (message : MessageSpec) (associated : Bool) (recordKey : Bytes)
    (frame : MessageFrame) : Live τ MessageBlocks :=
  match message with
  | message@{ attachments, .. } => do
      let recipients ← takeIds (buildRecipientTable message.recipients frame.recipientBlock)
      let (built, streamed) ← buildAttachments attachments 0 recordKey 0
      closeMessage around output message associated recordKey identities frame.propertyBlock
        frame.attachmentBlock recipients built streamed

/-- Build the attachments of a message from a position on. -/
def buildAttachments (attachments : List AttachmentSpec) (index : Nat) (recordKey : Bytes)
    (streamed : Nat) : Live τ (AttachmentsBuild × Nat) :=
  match attachments with
  | [] => return (⟨[], [], []⟩, streamed)
  | attachment@{ content, .. } :: rest => do
      let reserved ← takeIds (reserveAttachment index)
      let content ← buildAttachmentContent content index recordKey
      let (head, streamed) ← buildAttachment around output identities index reserved attachment
        content streamed
      let (tail, streamed) ← buildAttachments rest (index + 1) recordKey streamed
      return (⟨head.rows ++ tail.rows, head.subnodes ++ tail.subnodes,
        head.blocks ++ tail.blocks⟩, streamed)

/-- Build the content of an attachment; an embedded message is built in place. -/
def buildAttachmentContent (content : AttachmentContent) (index : Nat) (recordKey : Bytes) :
    Live τ ContentBuild :=
  match content with
  | .embedded message => do
      let reserved ← takeIds (reserveEmbedded index)
      let embedded ← buildMessageBlocks message false
        (embeddedMessageRecordKey around.sha256 recordKey index)
        ⟨reserved.propertyBlock, reserved.recipientBlock, reserved.attachmentBlock⟩
      takeIds (closeEmbedded reserved embedded)
  | content => buildContent around output content

end

end Build

end PstForge.Writer
