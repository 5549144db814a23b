import PstForge.Catalog.Event

/-! # What is read from a store

The worker reads a damaged store through a parser whose every call may fail. What such a
call answers is part of the source here: an item, a record set or an attachment is what
all the calls about it answer. The items that are embedded in attachments make a tree.
-/

namespace PstForge.Catalog

open PstForge.Foundation

section Errors

/-- How reading a store fails. -/
inductive PffError where
  | native (operation : String) (detail : Text)
  | invalidValue (field : String) (value : Int)
  | missingRootFolder
  | nullPointer (operation : String)
  | sink (operation : String) (detail : Text)
  | limitExceeded (field : String) (value limit : Nat)
  | streamSizeMismatch (field : String) (expected actual : Nat)
  deriving DecidableEq, Repr

def decimal (value : Nat) : Text := (toString value).toList

/-- The text of an error. -/
def PffError.text : PffError → Text
  | .native operation detail =>
      "libpff ".toList ++ operation.toList ++ " failed: ".toList ++ detail
  | .invalidValue field value =>
      "libpff returned an invalid ".toList ++ field.toList ++ " value: ".toList ++
        (toString value).toList
  | .missingRootFolder => "libpff returned no root folder".toList
  | .nullPointer operation =>
      "libpff returned a null pointer after ".toList ++ operation.toList ++ " succeeded".toList
  | .sink operation detail =>
      "catalog sink rejected ".toList ++ operation.toList ++ ": ".toList ++ detail
  | .limitExceeded field value limit =>
      field.toList ++ " exceeds the supported limit: ".toList ++ decimal value ++ " > ".toList ++
        decimal limit
  | .streamSizeMismatch field expected actual =>
      "libpff streamed ".toList ++ decimal actual ++ " bytes for ".toList ++ field.toList ++
        ", expected ".toList ++ decimal expected

/-- The sink has refused an event; nothing goes on after that. -/
def PffError.isSink : PffError → Bool
  | .sink _ _ => true
  | _ => false

def PffError.isLimit : PffError → Bool
  | .limitExceeded _ _ _ => true
  | _ => false

end Errors

section Sources

/-- A stream: what a read at a position answers, by the number of bytes that it asks for. -/
abbrev NativeStream := (position requested : Nat) → Except PffError Bytes

/-- An entry of a record set: a property. -/
structure NativeEntry where
  entryType : Except PffError (Option Nat)
  valueType : Except PffError (Option Nat)
  dataSize : Except PffError Nat
  identity : Except PffError (Option NamedPropertyIdentity)
  stream : NativeStream

/-- A record set: its entries in their order, where they can be counted, and its values by
the types of their properties. -/
structure NativeRecordSet where
  entries : Except PffError (List (Except PffError NativeEntry))
  optionalU32 : Nat → Except PffError (Option Nat)
  optionalString : Nat → Except PffError (Option Text)

/-- Record sets, where they can be counted. -/
abbrev NativeRecordSets := Except PffError (List (Except PffError NativeRecordSet))

/-- A message item. Its attachments stand in a table of their own. -/
structure NativeMessage where
  identifier : Except PffError Nat
  messageString : Nat → Except PffError (Option Text)
  optionalU32 : Nat → Except PffError (Option Nat)
  itemType : Except PffError (Option Nat)
  clientSubmitTime : Except PffError (Option Nat)
  deliveryTime : Except PffError (Option Nat)
  recipients : Except PffError (Option NativeRecordSets)
  attachmentCount : Except PffError Unit
  recordSets : NativeRecordSets

/-- An attachment. -/
structure NativeAttachment where
  recordSets : NativeRecordSets
  attachmentType : Except PffError (Option Int)
  attachmentSize : Except PffError (Option Nat)
  seekStart : Except PffError Unit
  data : NativeStream

/-- The attachments of a message in their order: one that cannot be read, one in which no
item is found, and one with a message in it. -/
inductive AttachmentTable where
  | nil
  | unreadable (error : PffError) (rest : AttachmentTable)
  | plain (attachment : NativeAttachment) (item : Except PffError Unit) (rest : AttachmentTable)
  | embedded (attachment : NativeAttachment) (message : NativeMessage) (inner : AttachmentTable)
      (rest : AttachmentTable)

def AttachmentTable.length : AttachmentTable → Nat
  | .nil => 0
  | .unreadable _ rest | .plain _ _ rest | .embedded _ _ _ rest => rest.length + 1

end Sources

section Limits

def streamChunkBytes : Nat := 64 * 1024

def maxRecordSets : Nat := 1000000

def maxRecordEntries : Nat := 1000000

def maxMessages : Nat := 100000000

def maxEmbeddedDepth : Nat := 256

def maxCatalogIssues : Nat := 10000

/-- The number of things that were counted, if there are not too many. -/
def nativeCount (limit count : Nat) : Except PffError Nat := do
  refuse (limit < count) (.limitExceeded "native count" count limit)
  return count

/-- Count one more, up to a limit. -/
def checkedIncrement (value : Nat) (field : String) (limit : Nat) : Except PffError Nat := do
  refuse (limit < value + 1) (.limitExceeded field (value + 1) limit)
  return value + 1

end Limits

section Classes

/-- The class of a message that stands for an exception of a calendar item. -/
def calendarExceptionClass : Text :=
  "IPM.OLE.CLASS.\x7b00061055-0000-0000-C000-000000000046\x7d".toList

def calendarExceptionMessageClass (value : Text) : Bool :=
  value.map Char.toLower = calendarExceptionClass.map Char.toLower

def supportedMessageClass (value : Text) (embedded : Bool) : Bool :=
  !value.isEmpty && (!calendarExceptionMessageClass value || embedded)

end Classes

end PstForge.Catalog
