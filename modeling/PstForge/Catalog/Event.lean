import PstForge.Foundation.Bytes

/-! # The events of a catalogue

The recovery worker reports what it finds in a damaged store as a stream of events.
Everything it traverses belongs to a recovery unit, which is what can be left out
when the worker is started again: a folder, a message of a folder, or an item that
was recovered from outside the folders.
-/

namespace PstForge.Catalog

open PstForge.Foundation

/-- Where a message was found. -/
inductive CatalogProvenance where
  | normal
  | recovered
  | orphan
  | fragment
  deriving DecidableEq, Repr

/-- The way to a folder from the root: the index of a child at every level. -/
abbrev FolderAddress := List Nat

/-- The deepest level of folders. -/
def maxFolderDepth : Nat := 64

namespace FolderAddress

def root : FolderAddress := []

def child (address : FolderAddress) (index : Nat) : Option FolderAddress :=
  if maxFolderDepth ≤ address.length then none else some (address ++ [index])

end FolderAddress

/-- What the worker can be told to leave out. -/
inductive RecoveryUnit where
  | folder (address : FolderAddress)
  | childFolder (address : FolderAddress)
  | normal (folder : FolderAddress) (folderId messageIndex : Nat)
  | associated (folder : FolderAddress) (folderId messageIndex : Nat)
  | recovered (index : Nat)
  | orphan (index : Nat)
  | fragment (index : Nat)
  deriving DecidableEq, Repr

/-- What a property belongs to. -/
inductive PropertyOwner where
  | folder (id : Nat)
  | message (id : Nat)
  | recipient (messageId index : Nat)
  | attachment (messageId index : Nat)
  deriving DecidableEq, Repr

def PropertyOwner.isFolder : PropertyOwner → Bool
  | .folder _ => true
  | _ => false

structure PropertyDescriptor where
  owner : PropertyOwner
  recordSetIndex : Nat
  entryIndex : Nat
  entryType : Option Nat
  valueType : Option Nat
  dataSize : Nat
  deriving DecidableEq, Repr

inductive NamedPropertyName where
  | numeric (value : Nat)
  | string (value : Text)
  deriving DecidableEq, Repr

structure NamedPropertyIdentity where
  guid : Bytes
  name : NamedPropertyName
  deriving DecidableEq, Repr

/-- What the catalogue says of a message, beyond what identifies it. -/
structure MessageMetadata where
  folderId : Option Nat
  parentMessageId : Option Nat
  parentAttachmentIndex : Option Nat
  embeddedPath : List Nat
  associated : Bool
  itemType : Option Nat
  messageClass : Option Text
  subject : Option Text
  senderName : Option Text
  senderEmail : Option Text
  submitFiletime : Option Nat
  deliveryFiletime : Option Nat
  supported : Bool
  deriving DecidableEq, Repr

/-- The start of a message; the identifier zero stands for none. -/
structure MessageStart where
  id : Nat
  provenance : CatalogProvenance
  recoveryIndex : Option Nat
  metadata : MessageMetadata
  deriving DecidableEq, Repr

structure Recipient where
  index : Nat
  recipientType : Option Nat
  displayName : Option Text
  emailAddress : Option Text
  addressType : Option Text
  deriving DecidableEq, Repr

structure Attachment where
  index : Nat
  attachmentType : Option Int
  dataSize : Option Nat
  filename : Option Text
  detectedMime : Option Text
  deriving DecidableEq, Repr

/-- The attachment type of an embedded item. -/
def embeddedType : Int := 0x69

/-- The attachment type of a reference to content elsewhere. -/
def referenceType : Int := 0x72

inductive CatalogEvent where
  | unitStart (unit : RecoveryUnit)
  | unitEnd (unit : RecoveryUnit)
  | folder (id : Nat) (parentId : Option Nat) (name containerClass : Option Text)
  | messageStart (start : MessageStart)
  | recipient (messageId : Nat) (recipient : Recipient)
  | attachmentStart (messageId : Nat) (attachment : Attachment)
  | attachmentMimeProbe (messageId index : Nat) (mimeType : Text)
  | attachmentData (messageId index : Nat) (bytes : Bytes)
  | attachmentEnd (messageId index : Nat)
  | attachmentAbort (messageId index : Nat)
  | propertyStart (descriptor : PropertyDescriptor)
  | namedProperty (descriptor : PropertyDescriptor) (identity : NamedPropertyIdentity)
  | propertyData (descriptor : PropertyDescriptor) (bytes : Bytes)
  | deferredPropertyData (embeddedPath : List Nat) (descriptor : PropertyDescriptor)
      (bytes : Bytes)
  | deferredAttachmentData (embeddedPath : List Nat) (index : Nat) (bytes : Bytes)
  | propertyEnd (descriptor : PropertyDescriptor)
  | propertyAbort (descriptor : PropertyDescriptor) (reason : Text)
  | messageEnd (id : Nat) (complete : Bool)
  | topLevelMetadataEnd
  | topLevelPayloadEnd
  deriving DecidableEq, Repr

end PstForge.Catalog
