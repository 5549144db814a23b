import PstForge.Writer.Validate

/-! # Folder plans

The folders of a store are planned from the paths that the input names: every
prefix of a path is a folder of its own, and the plans stand in the order of their
paths. While messages are streamed the node of a folder is given by the order in
which the paths were first seen, so that folders observed later do not renumber
the earlier ones.
-/

namespace PstForge.Writer

open PstForge.Foundation PstForge.Ndb PstForge.Ltp

def ipmFolderIndex : Nat := 0x401
def searchRootIndex : Nat := 0x402
def deletedFolderIndex : Nat := 0x403
def mailFolderIndex : Nat := 0x404

/-- What identifies a folder: where it stands, and its path there. -/
abbrev FolderKey := MailFolderLocation × List Text

def MailFolderSpec.key (folder : MailFolderSpec) : FolderKey := (folder.location, folder.path)

/-- A folder of the finished store. -/
structure FolderPlan where
  path : List Text
  messages : List MessageSpec
  associatedMessages : List MessageSpec
  location : MailFolderLocation
  node : NodeId
  parent : Option Nat
  children : List Nat
  containerClass : Text

def MailFolderLocation.rank : MailFolderLocation → Nat
  | storeRoot => 0
  | ipmSubtree => 1

/-- The order of names. -/
def nameLt (first second : Text) : Bool := List.lex (first.map Char.toNat) (second.map Char.toNat)

/-- The order of paths, component by component. -/
def pathLt : List Text → List Text → Bool
  | _, [] => false
  | [], _ :: _ => true
  | first :: firsts, second :: seconds =>
      nameLt first second || (first = second && pathLt firsts seconds)

/-- The order in which folders are planned. -/
def folderKeyLt (first second : FolderKey) : Bool :=
  first.1.rank < second.1.rank || (first.1 = second.1 && pathLt first.2 second.2)

/-- The folders named so far, with the messages filed in each. -/
abbrev PlannedPaths := List (FolderKey × (List MessageSpec × List MessageSpec))

/-- File messages under a path, which becomes a folder if it is none yet. -/
def fileUnder (key : FolderKey) (messages associated : List MessageSpec) :
    PlannedPaths → PlannedPaths
  | [] => [(key, (messages, associated))]
  | (head, filed) :: tail =>
      if key = head then (head, (filed.1 ++ messages, filed.2 ++ associated)) :: tail
      else if folderKeyLt key head then (key, (messages, associated)) :: (head, filed) :: tail
      else (head, filed) :: fileUnder key messages associated tail

/-- The prefixes of a path, the shortest first and the path itself last. -/
def pathPrefixes (path : List Text) : List (List Text) :=
  (List.range path.length).map fun depth => path.take (depth + 1)

/-- The checks of one folder against those before it. -/
def checkFolder (seen : List FolderKey) (folder : MailFolderSpec) : Except WriterError Unit := do
  refuse (folder.path.isEmpty || folder.path.any (·.isEmpty))
    (.invalidStructure "mail folder paths and components must be non-empty")
  refuse (folder.key ∈ seen) (.invalidStructure "duplicate mail folder path")
  refuse (folder.role = .deletedItems
      ∧ (folder.location ≠ .ipmSubtree ∨ folder.path.length ≠ 1))
    (.invalidStructure "the Deleted Items role must identify a top-level IPM folder")
  validateUnicode "folder container class" folder.containerClass
  refuse (folder.containerClass.isEmpty)
    (.invalidStructure "folder container class must be non-empty")

/-- Plan the paths of a folder; an empty folder is left out unless asked for. -/
def planFolder (preserveEmptyFolders : Bool) (folder : MailFolderSpec) (paths : PlannedPaths) :
    PlannedPaths :=
  if !preserveEmptyFolders && folder.messages.isEmpty && folder.associatedMessages.isEmpty then
    paths
  else
    let paths := (pathPrefixes folder.path).foldl
      (fun paths path => fileUnder (folder.location, path) [] [] paths) paths
    fileUnder folder.key folder.messages folder.associatedMessages paths

/-- Check the folders in order and plan their paths. -/
def planPaths (preserveEmptyFolders : Bool) (seen : List FolderKey) (paths : PlannedPaths) :
    List MailFolderSpec → Except WriterError PlannedPaths
  | [] => return paths
  | folder :: rest => do
      checkFolder seen folder
      planPaths preserveEmptyFolders (folder.key :: seen)
        (planFolder preserveEmptyFolders folder paths) rest

/-- The role of a folder; one that is only a prefix of others is ordinary. -/
def folderRole (folders : List MailFolderSpec) (key : FolderKey) : MailFolderRole :=
  ((folders.find? (·.key = key)).map (·.role)).getD .ordinary

def folderContainerClass (folders : List MailFolderSpec) (key : FolderKey) : Text :=
  ((folders.find? (·.key = key)).map (·.containerClass)).getD "IPF.Note".toList

/-- The node of a folder that stands at a position. -/
def folderNode (role : MailFolderRole) (index : Nat) : Except WriterError NodeId :=
  match role with
  | .deletedItems => node .normalFolder deletedFolderIndex
  | .ordinary => do
      let index ← okOr (.valueTooLarge "folder count") (tryFrom 32 index)
      let index ← okOr (.valueTooLarge "folder node") (checkedAdd 32 mailFolderIndex index)
      node .normalFolder index

/-- The position of the folder that holds another. -/
def parentIndex (paths : PlannedPaths) (key : FolderKey) : Option Nat :=
  if 1 < key.2.length then paths.findIdx? (·.1 = (key.1, key.2.dropLast)) else none

/-- Plan the folders of a store. -/
def planFoldersExpected (folders : List MailFolderSpec) (preserveEmptyFolders
    allowEmptyStore : Bool) : Except WriterError (List FolderPlan) := do
  let paths ← planPaths preserveEmptyFolders [] [] folders
  refuse (1 < (folders.filter (·.role = .deletedItems)).length)
    (.invalidStructure "multiple folders claim the Deleted Items role")
  refuse (!allowEmptyStore
      && paths.all fun (_, messages, associated) => messages.isEmpty && associated.isEmpty)
    (.invalidStructure "mail store must contain at least one message")
  let plans ← paths.zipIdx.mapM fun ((key, messages, associated), index) => do
    let folderNode ← folderNode (folderRole folders key) index
    return ({
      path := key.2
      messages
      associatedMessages := associated
      location := key.1
      node := folderNode
      parent := parentIndex paths key
      children := []
      containerClass := folderContainerClass folders key } : FolderPlan)
  return plans.zipIdx.map fun (plan, index) =>
    { plan with children := (List.range plans.length).filter fun child =>
        (plans[child]?.bind (·.parent)) = some index }

/-- The paths of the folders, and all their prefixes, in the order first seen. -/
def observedPaths (folders : List MailFolderSpec) : List FolderKey :=
  (folders.flatMap fun folder => (pathPrefixes folder.path).map fun path => (folder.location, path))
    |>.foldl (fun paths key => if key ∈ paths then paths else paths ++ [key]) []

/-- The node that a folder has while messages are streamed. -/
def transactionFolderNode (folders : List MailFolderSpec) (key : FolderKey) :
    Except WriterError NodeId := do
  let index ← okOr (.invalidStructure "transactional message folder was not planned")
    ((observedPaths folders).findIdx? (· = key))
  folderNode (folderRole folders key) index

/-- Plan the folders of a streamed store. -/
def planTransactionFolders (folders : List MailFolderSpec) (preserveEmptyFolders : Bool) :
    Except WriterError (List FolderPlan) := do
  let plans ← planFoldersExpected folders preserveEmptyFolders false
  plans.mapM fun plan => do
    let folderNode ← transactionFolderNode folders (plan.location, plan.path)
    return { plan with node := folderNode }

/-- The row of a planned folder in the hierarchy table of its parent. -/
def folderPlanRow (plan : FolderPlan) : Except WriterError TableRowSpec := do
  let name ← okOr (.invalidStructure "folder path is empty") plan.path.getLast?
  let count ← asInt32 "folder message count" plan.messages.length
  let unread ← folderUnreadCount plan.messages
  return folderTableRowWithUnread plan.node name count unread (!plan.children.isEmpty)
    plan.containerClass

/-- The rows of the folders that stand inside a folder. -/
def childRows (plans : List FolderPlan) (plan : FolderPlan) :
    Except WriterError (List TableRowSpec) :=
  (plan.children.filterMap (plans[·]?)).mapM folderPlanRow

/-- The row of the folder for deleted items, whether planned or not. -/
def deletedRow (plans : List FolderPlan) (deleted : NodeId) : Except WriterError TableRowSpec :=
  match plans.find? (·.node = deleted) with
  | some plan => folderPlanRow plan
  | none => .ok (folderTableRow deleted "Deleted Items".toList 0 false)

/-- Whether the hierarchy tables of the planned folders can be built. -/
def validateFolderHierarchyShapes (plans : List FolderPlan) : Except WriterError Unit := do
  let columns ← hierarchyColumns
  let deleted ← node .normalFolder deletedFolderIndex
  let shapes : Ids Unit := do
    plans.forM fun plan => do
      let rows ← attempt (childRows plans plan)
      discard (buildTableContext columns rows none)
    let first ← attempt (deletedRow plans deleted)
    let rest ← attempt ((plans.filter fun plan => plan.parent.isNone && plan.node ≠ deleted).mapM
      folderPlanRow)
    discard (buildTableContext columns (first :: rest) none)
  match shapes ⟨0x100000, 0⟩ with
  | .ok _ _ => .ok ()
  | .error error _ => .error error

/-- Whether the layout of a store, without regard to its messages, can be written. -/
def validateMailStoreLayoutExpected (spec : MailStoreSpec) : Except WriterError Unit := do
  refuse (spec.storeName.isEmpty) (.invalidStructure "store name must be non-empty")
  validateUnicode "store name" spec.storeName
  (spec.folders.flatMap (·.path)).forM (validateUnicode "folder name")
  let plans ← planFoldersExpected spec.folders true true
  validateFolderHierarchyShapes plans

end PstForge.Writer
