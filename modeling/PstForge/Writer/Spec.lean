import PstForge.Ltp.Property

/-! # What the store writer is asked to write

The inputs of the writer: messages with their recipients, properties and
attachments, nested to any depth through embedded messages, and the folders they
are filed in. Large values are named by where they come from: a range of a file in
the private spool, or a stream of the live recovery channel.
-/

namespace PstForge.Writer

open PstForge.Foundation PstForge.Ndb PstForge.Ltp

/-- The recipient roles. -/
inductive RecipientKind where
  | to
  | cc
  | bcc
  deriving DecidableEq, Repr

def RecipientKind.code : RecipientKind → Int
  | .to => 1
  | .cc => 2
  | .bcc => 3

structure RecipientSpec where
  kind : RecipientKind
  displayName : Text
  emailAddress : Text
  deriving DecidableEq, Repr

/-- The representation that best-body retrieval selects. -/
inductive NativeBody where
  | plainText
  | rtf
  | html
  deriving DecidableEq, Repr

def NativeBody.code : NativeBody → Int
  | plainText => 1
  | rtf => 2
  | html => 3

/-- A range of a file in the private spool. -/
structure FileBlobSpec where
  path : String
  offset : Nat
  byteLen : Nat
  sha256 : Bytes
  deriving DecidableEq, Repr

/-- A payload of the live recovery channel. -/
structure DirectBlobSpec where
  id : Nat
  byteLen : Nat
  sha256 : Option Bytes
  deriving DecidableEq, Repr

/-- A property whose encoded value stands in the private spool. -/
structure SpooledPropertySpec where
  id : Nat
  propertyType : Nat
  blob : FileBlobSpec
  deriving DecidableEq, Repr

/-- A property whose encoded value comes from the live recovery channel. -/
structure DirectPropertySpec where
  id : Nat
  propertyType : Nat
  blob : DirectBlobSpec
  deriving DecidableEq, Repr

/-- Whether a value can be given from outside: references into the store cannot. -/
def isRawValue : PropertyValue → Bool
  | .object _ _ | .external _ _ => false
  | _ => true

/-- A property value given from outside the writer. -/
structure RawPropertyValue where
  value : PropertyValue
  isRaw : isRawValue value = true
  deriving DecidableEq

structure RawProperty where
  id : Nat
  value : RawPropertyValue
  deriving DecidableEq

/-- The property sets of named properties. -/
inductive NamedPropertySet where
  | mapi
  | publicStrings
  | guid (value : Bytes)
  deriving DecidableEq, Repr

/-- The name of a named property within its set. -/
inductive NamedPropertyName where
  | numeric (value : Nat)
  | string (value : Text)
  deriving DecidableEq, Repr

/-- What identifies a named property across messages. -/
abbrev NamedIdentity := NamedPropertySet × NamedPropertyName

structure NamedProperty where
  set : NamedPropertySet
  name : NamedPropertyName
  value : RawPropertyValue
  deriving DecidableEq

inductive AttachmentReferenceMethod where
  | byReference
  | byReferenceResolve
  | byReferenceOnly
  | byWebReference
  deriving DecidableEq, Repr

def AttachmentReferenceMethod.code : AttachmentReferenceMethod → Int
  | byReference => 2
  | byReferenceResolve => 3
  | byReferenceOnly => 4
  | byWebReference => 7

/-- An attachment that names its content without carrying it. -/
structure AttachmentReferenceSpec where
  method : AttachmentReferenceMethod
  longPathname : Text
  pathname : Option Text
  providerType : Option Text
  originalPermission : Option Int
  permission : Option Int
  deriving DecidableEq, Repr

/-- The two property representations of an OLE payload. -/
inductive OleDataKind where
  | object
  | binary
  deriving DecidableEq, Repr

structure OleAttachmentSpec where
  data : FileBlobSpec
  dataKind : OleDataKind
  deriving DecidableEq, Repr

structure DirectOleAttachmentSpec where
  data : DirectBlobSpec
  dataKind : OleDataKind
  deriving DecidableEq, Repr

mutual

/-- The content of an attachment. -/
inductive AttachmentContent where
  | binary (data : Bytes)
  | spooled (blob : FileBlobSpec)
  | direct (blob : DirectBlobSpec)
  | embedded (message : MessageSpec)
  | reference (reference : AttachmentReferenceSpec)
  | ole (ole : OleAttachmentSpec)
  | directOle (ole : DirectOleAttachmentSpec)

structure AttachmentSpec where
  filename : Text
  mimeType : Option Text
  contentId : Option Text
  contentLocation : Option Text
  renderingPosition : Option Int
  flags : Int
  rawProperties : List RawProperty
  spooledProperties : List SpooledPropertySpec
  directProperties : List DirectPropertySpec
  content : AttachmentContent

structure MessageSpec where
  messageClass : Text
  messageFlags : Int
  internetCodepage : Int
  subject : Text
  senderName : Text
  senderEmail : Text
  recipients : List RecipientSpec
  sentFiletime : Int
  receivedFiletime : Int
  creationFiletime : Int
  modificationFiletime : Int
  bodyText : Option Text
  bodyHtml : Option Bytes
  bodyRtf : Option Bytes
  nativeBody : Option NativeBody
  rtfInSync : Bool
  internetHeaders : Option Text
  namedProperties : List NamedProperty
  rawProperties : List RawProperty
  spooledProperties : List SpooledPropertySpec
  directProperties : List DirectPropertySpec
  attachments : List AttachmentSpec

end

/-- A note with a subject and a plain-text body, and nothing else. -/
def MessageSpec.note (subject body : Text) : MessageSpec where
  messageClass := "IPM.Note".toList
  messageFlags := 1
  internetCodepage := 65001
  subject
  senderName := []
  senderEmail := []
  recipients := []
  sentFiletime := 0
  receivedFiletime := 0
  creationFiletime := 0
  modificationFiletime := 0
  bodyText := some body
  bodyHtml := none
  bodyRtf := none
  nativeBody := none
  rtfInSync := false
  internetHeaders := none
  namedProperties := []
  rawProperties := []
  spooledProperties := []
  directProperties := []
  attachments := []

/-- Where in the store a folder stands. -/
inductive MailFolderLocation where
  | storeRoot
  | ipmSubtree
  deriving DecidableEq, Repr

/-- The structural role of a folder. -/
inductive MailFolderRole where
  | ordinary
  | deletedItems
  deriving DecidableEq, Repr

/-- A folder with the messages filed in it. -/
structure MailFolderSpec where
  path : List Text
  location : MailFolderLocation
  role : MailFolderRole
  containerClass : Text
  messages : List MessageSpec
  associatedMessages : List MessageSpec

/-- A folder for mail at the top of the mailbox, without messages. -/
def MailFolderSpec.mail (name : Text) : MailFolderSpec :=
  ⟨[name], .ipmSubtree, .ordinary, "IPF.Note".toList, [], []⟩

structure MailStoreSpec where
  storeName : Text
  recordKey : Bytes
  folders : List MailFolderSpec

mutual

/-- Whether a message, or one embedded in it, names a payload of the private spool. -/
def messageContainsSpooledValues : MessageSpec → Bool
  | { spooledProperties, attachments, .. } =>
      !spooledProperties.isEmpty || attachmentsContainSpooledValues attachments

/-- Whether one of some attachments names a payload of the private spool. -/
def attachmentsContainSpooledValues : List AttachmentSpec → Bool
  | [] => false
  | { spooledProperties, content, .. } :: rest =>
      !spooledProperties.isEmpty || contentContainsSpooledValues content
        || attachmentsContainSpooledValues rest

/-- Whether the content of an attachment names a payload of the private spool. -/
def contentContainsSpooledValues : AttachmentContent → Bool
  | .spooled _ | .ole _ => true
  | .embedded message => messageContainsSpooledValues message
  | .binary _ | .direct _ | .reference _ | .directOle _ => false

end

/-- Whether a message streams the value of a property. -/
def messageHasStreamedProperty (message : MessageSpec) (id : Nat) : Bool :=
  message.spooledProperties.any (·.id = id) || message.directProperties.any (·.id = id)

end PstForge.Writer
