import PstForge.Writer.Closure
import PstForge.Writer.FolderTree
import PstForge.Writer.Preflight

/-! # Folders and their rows while messages are streamed

A message is streamed under the node that its folder has at the time, and its row waits
for the table of that node until the store is finished. The node depends on the order in
which folders were first seen, so folders that are observed later must not move it. Over
every run of the writer the rows are those of the messages in the folders, and the checks
that the finalization makes on them find nothing.
-/

namespace PstForge.Writer

open PstForge.Foundation PstForge.Ndb PstForge.Ltp

variable {τ : Type}

section Stability

/-- What of a folder decides about nodes. -/
def MailFolderSpec.identity (folder : MailFolderSpec) : FolderKey × MailFolderRole :=
  (folder.key, folder.role)

/-- The paths named by some folders, in the order of the folders. -/
def namedPaths (identities : List (FolderKey × MailFolderRole)) : List FolderKey :=
  identities.flatMap fun identity =>
    (pathPrefixes identity.1.2).map fun path => (identity.1.1, path)

theorem namedPaths_append (first second : List (FolderKey × MailFolderRole)) :
    namedPaths (first ++ second) = namedPaths first ++ namedPaths second :=
  List.flatMap_append

local instance lawfulKey : LawfulBEq FolderKey := inferInstance

/-- Take in a path that was not seen yet. -/
def observePath (paths : List FolderKey) (key : FolderKey) : List FolderKey :=
  if key ∈ paths then paths else paths ++ [key]

theorem observedPaths_eq (folders : List MailFolderSpec) :
    observedPaths folders =
      (namedPaths (folders.map (·.identity))).foldl observePath [] := by
  unfold observedPaths namedPaths
  rw [List.flatMap_map]
  rfl

theorem folderRole_eq (folders : List MailFolderSpec) (key : FolderKey) :
    folderRole folders key =
      (((folders.map (·.identity)).find? (·.1 = key)).map (·.2)).getD .ordinary := by
  unfold folderRole
  rw [List.find?_map, Option.map_map]
  rfl

/-- Paths that are observed later stand behind those before them. -/
theorem observePath_prefix (later : List FolderKey) :
    ∀ paths, paths <+: later.foldl observePath paths := by
  induction later with
  | nil => exact fun _ => List.prefix_rfl
  | cons key rest ih =>
      intro paths
      have step : paths <+: observePath paths key := by
        unfold observePath
        split
        · exact List.prefix_rfl
        · exact List.prefix_append _ _
      exact step.trans (ih _)

theorem mem_observePath {later : List FolderKey} :
    ∀ {paths : List FolderKey} {key : FolderKey},
      key ∈ later.foldl observePath paths ↔ key ∈ paths ∨ key ∈ later := by
  induction later with
  | nil => simp
  | cons head rest ih =>
      intro paths key
      rw [List.foldl_cons, ih, List.mem_cons]
      unfold observePath
      by_cases seen : head ∈ paths
      · rw [if_pos seen]
        constructor
        · tauto
        · rintro (there | rfl | later)
          · exact .inl there
          · exact .inl seen
          · exact .inr later
      · rw [if_neg seen, List.mem_append, List.mem_singleton]
        tauto

/-- No folder has an empty path. -/
theorem findIdx?_unnamed {folders : List MailFolderSpec} {key : FolderKey} (unnamed : key.2 = []) :
    (observedPaths folders).findIdx? (· = key) = none := by
  rw [List.findIdx?_eq_none_iff]
  intro path member
  rw [observedPaths_eq, mem_observePath] at member
  rcases member with none | member
  · cases none
  · obtain ⟨identity, -, member⟩ := List.mem_flatMap.mp member
    obtain ⟨taken, isPrefix, rfl⟩ := List.mem_map.mp member
    apply decide_eq_false
    rintro rfl
    exact (mem_pathPrefixes.mp isPrefix).1 unnamed

/-- Folders that were only added behind others leave the nodes of the others. -/
theorem transactionFolderNode_stable {before after : List MailFolderSpec} {key : FolderKey}
    (added : before.map (·.identity) <+: after.map (·.identity))
    (there : key ∈ before.map (·.key)) :
    transactionFolderNode after key = transactionFolderNode before key := by
  by_cases named : key.2 = []
  · unfold transactionFolderNode
    rw [findIdx?_unnamed named, findIdx?_unnamed named]
    rfl
  obtain ⟨later, same⟩ := added
  have sameRole : folderRole after key = folderRole before key := by
    obtain ⟨folder, member, isKey⟩ := List.mem_map.mp there
    rw [folderRole_eq, folderRole_eq, ← same, List.find?_append]
    have present : ((before.map (·.identity)).find? (·.1 = key)).isSome := by
      rw [List.find?_isSome]
      exact ⟨folder.identity, List.mem_map_of_mem member, decide_eq_true isKey⟩
    obtain ⟨found, hfound⟩ := Option.isSome_iff_exists.mp present
    rw [hfound]
    rfl
  have seen : key ∈ observedPaths before := by
    rw [observedPaths_eq, mem_observePath]
    obtain ⟨folder, member, rfl⟩ := List.mem_map.mp there
    refine .inr (List.mem_flatMap.mpr ⟨folder.identity, List.mem_map_of_mem member, ?_⟩)
    exact List.mem_map.mpr ⟨folder.path, mem_pathPrefixes.mpr ⟨named, List.prefix_rfl⟩, rfl⟩
  have isPrefix : observedPaths before <+: observedPaths after := by
    rw [observedPaths_eq, observedPaths_eq, ← same, namedPaths_append, List.foldl_append]
    exact observePath_prefix _ _
  have sameIndex : (observedPaths after).findIdx? (· = key) =
      (observedPaths before).findIdx? (· = key) := by
    obtain ⟨more, extended⟩ := isPrefix
    rw [← extended, List.findIdx?_append]
    have present : ((observedPaths before).findIdx? (· = key)).isSome := by
      rw [List.findIdx?_isSome, List.any_eq_true]
      exact ⟨key, seen, decide_eq_true rfl⟩
    obtain ⟨index, hindex⟩ := Option.isSome_iff_exists.mp present
    rw [hindex]
    rfl
  unfold transactionFolderNode
  rw [sameRole, sameIndex]

/-- The messages of the folders do not decide about nodes. -/
theorem transactionFolderNode_congr {before after : List MailFolderSpec}
    (same : after.map (·.identity) = before.map (·.identity)) (key : FolderKey) :
    transactionFolderNode after key = transactionFolderNode before key := by
  unfold transactionFolderNode
  rw [folderRole_eq, folderRole_eq, observedPaths_eq, observedPaths_eq, same]

/-- Folders that have only taken in messages and folders behind them keep their identities. -/
theorem FoldersGrew.identities {before after : List MailFolderSpec}
    (grew : FoldersGrew before after) :
    before.map (·.identity) <+: after.map (·.identity) := by
  rw [List.prefix_iff_eq_take]
  apply List.ext_getElem?
  intro index
  rw [List.getElem?_map, List.getElem?_take, List.length_map]
  cases here : before[index]? with
  | none =>
      have beyond := List.getElem?_eq_none_iff.mp here
      rw [if_neg (Nat.not_lt.mpr beyond)]
      rfl
  | some folder =>
      have inside := (List.getElem?_eq_some_iff.mp here).1
      obtain ⟨grown, found, same⟩ := grew.folder index folder here
      rw [if_pos inside, List.getElem?_map, found, Option.map_some, Option.map_some,
        MailFolderSpec.identity, MailFolderSpec.identity, MailFolderSpec.key, MailFolderSpec.key,
        same.path, same.location, same.role]

end Stability

section Runs

variable {around : Surroundings τ} {accepts : MessageSpec → Except WriterError Unit}

/-- The identities of the folders of a run, in their order. -/
def Run.identities (run : Run τ) : List (FolderKey × MailFolderRole) :=
  run.transaction.writer.spec.folders.map (·.identity)

theorem rollback_identities {transaction : Transaction τ} {opened : TransactionalMailStoreWriter}
    {program : Writing τ Unit} (grew : WriterGrew opened transaction.writer)
    (ensures : Ensures program transaction
      (fun _ next => transaction.writer.spec.folders.length = opened.spec.folders.length ∧
        next.writer = { opened with namedIdentities := transaction.writer.namedIdentities })
      (fun _ next => next.writer = transaction.writer)) :
    (after program transaction).writer.spec.folders.map (·.identity) =
      transaction.writer.spec.folders.map (·.identity) := by
  have both : Ensures program transaction
      (fun _ next => next.writer.spec.folders.map (·.identity) =
        transaction.writer.spec.folders.map (·.identity))
      (fun _ next => next.writer.spec.folders.map (·.identity) =
        transaction.writer.spec.folders.map (·.identity)) := by
    refine ensures.mono (fun _ next restored => ?_) fun _ next same => by rw [same]
    obtain ⟨length, same⟩ := restored
    rw [same]
    apply grew.folders.identities.eq_of_length
    rw [List.length_map, List.length_map, length]
  exact after_of_ensures both

/-- A step adds folders behind those of the run, and takes none away. -/
theorem Run.Nested.identities_next {run : Run τ} (nested : run.Nested accepts) (step : Step) :
    run.identities <+: (run.next around accepts step).identities := by
  obtain ⟨transaction, batches⟩ := run
  cases step with
  | call call =>
      have settled := call.settles around accepts transaction
      have grew := after_of_ensures (settled.mono (fun _ _ holds => holds.1.grew)
        fun _ _ holds => holds.1.grew)
      exact grew.folders.identities
  | beginBatch => exact List.prefix_rfl
  | keepBatch => exact List.prefix_rfl
  | rollbackBatch =>
      cases batches with
      | nil => exact List.prefix_rfl
      | cons batch rest =>
          have opened := nested.open_ batch List.mem_cons_self
          have ensures := rollbackBatch_ensures around opened.grew
          rw [← opened.checkpoint] at ensures
          have same := rollback_identities opened.grew
            (ensures.mono (fun _ _ holds => holds) fun _ _ holds => holds.1)
          exact ⟨[], (List.append_nil _).trans same.symm⟩
  | rollbackProjectedBatch =>
      cases batches with
      | nil => exact List.prefix_rfl
      | cons batch rest =>
          have opened := nested.open_ batch List.mem_cons_self
          have ensures := rollbackProjectedBatch_ensures opened.grew
          rw [← opened.checkpoint] at ensures
          have same := rollback_identities opened.grew
            (ensures.mono (fun _ _ holds => holds) fun _ _ holds => holds.1)
          exact ⟨[], (List.append_nil _).trans same.symm⟩

theorem Run.Nested.identities_run (steps : List Step) :
    ∀ {run : Run τ}, run.Nested accepts →
      run.identities <+: (steps.foldl (Run.next around accepts) run).identities := by
  induction steps with
  | nil => exact fun _ => List.prefix_rfl
  | cons step rest ih =>
      intro run nested
      exact (nested.identities_next step).trans (ih (nested.next around step))

/-- In every run, a folder that is in the layout keeps its node whatever the caller does
next: folders observed later, appends that fail and batches rolled back do not move it. -/
theorem folderNode_stable (around : Surroundings τ) (accepts : MessageSpec → Except WriterError Unit)
    (start : Transaction τ) (steps later : List Step) (key : FolderKey)
    (there : key ∈
      (runFrom around accepts start steps).transaction.writer.spec.folders.map (·.key)) :
    transactionFolderNode
        (runFrom around accepts start (steps ++ later)).transaction.writer.spec.folders key =
      transactionFolderNode
        (runFrom around accepts start steps).transaction.writer.spec.folders key := by
  have nested := runFrom_nested around accepts start steps
  have added := @Run.Nested.identities_run τ around accepts later _ nested
  unfold runFrom at there nested added ⊢
  rw [List.foldl_append]
  exact transactionFolderNode_stable added there

theorem folderNode_stable_inbox :
    transactionFolderNode (runFrom noSource (fun _ => .ok ()) ⟨sampleWriter true, none, 0⟩ ([] ++
        [.beginBatch, .call (.observe (MailFolderSpec.mail "Sent".toList)),
          .call (.append inboxKey false (.note [] [])),
          .rollbackBatch])).transaction.writer.spec.folders inboxKey =
      transactionFolderNode (sampleWriter true).spec.folders inboxKey :=
  folderNode_stable noSource (fun _ => .ok ()) ⟨sampleWriter true, none, 0⟩ [] _ inboxKey (by decide)

end Runs

section Rows

/-- The nodes under which the messages of some folders are streamed, one for each message. -/
def messageNodes (messages : MailFolderSpec → List MessageSpec) (folders : List MailFolderSpec) :
    List (Except WriterError NodeId) :=
  folders.flatMap fun folder =>
    (messages folder).map fun _ => transactionFolderNode folders folder.key

/-- The rows of the message tables are those of the messages in the folders. -/
structure Filed (writer : TransactionalMailStoreWriter) : Prop where
  contents : (writer.messageStream.contentsRows.map fun row => Except.ok row.1).Perm
    (messageNodes (·.messages) writer.spec.folders)
  associated : (writer.messageStream.associatedRows.map fun row => Except.ok row.1).Perm
    (messageNodes (·.associatedMessages) writer.spec.folders)

theorem Filed.congr {before after : TransactionalMailStoreWriter} (filed : Filed before)
    (same : after = { before with namedIdentities := after.namedIdentities }) : Filed after := by
  rw [same]
  exact ⟨filed.contents, filed.associated⟩

/-- One element of a list brings something more. -/
theorem flatMap_modify_perm {α β : Type} {f : α → List β} {change : α → α} {more : List β}
    {source : List α} : ∀ {place : Nat} {element : α}, source[place]? = some element →
      f (change element) = f element ++ more →
        ((source.modify place change).flatMap f).Perm (source.flatMap f ++ more) := by
  induction source with
  | nil =>
      intro place element here
      cases here
  | cons head tail ih =>
      intro place element here added
      cases place with
      | zero =>
          obtain rfl := Option.some.inj here
          rw [List.modify_zero_cons, List.flatMap_cons, List.flatMap_cons, added, List.append_assoc,
            List.append_assoc]
          exact List.perm_append_comm.append_left _
      | succ place =>
          rw [List.getElem?_cons_succ] at here
          rw [List.modify_succ_cons, List.flatMap_cons, List.flatMap_cons, List.append_assoc]
          exact (ih here added).append_left _

theorem modify_add_identities (folders : List MailFolderSpec) (place : Nat) (isAssociated : Bool)
    (message : MessageSpec) :
    (folders.modify place (MailFolderSpec.add isAssociated message)).map (·.identity) =
      folders.map (·.identity) := by
  have grew := (FoldersGrew.add folders place isAssociated message).identities
  exact (grew.eq_of_length (by simp)).symm

theorem messageNodes_eq {messages : MailFolderSpec → List MessageSpec}
    {before after : List MailFolderSpec}
    (added : before.map (·.identity) <+: after.map (·.identity)) :
    before.flatMap (fun folder =>
      (messages folder).map fun _ => transactionFolderNode after folder.key) =
        messageNodes messages before := by
  unfold messageNodes
  rw [List.flatMap_def, List.flatMap_def]
  congr 1
  apply List.map_congr_left
  intro folder member
  apply List.map_congr_left
  intro _ _
  exact transactionFolderNode_stable added (List.mem_map_of_mem member)

/-- A message that is added to a folder is one more under the folder's node. -/
theorem messageNodes_add {messages : MailFolderSpec → List MessageSpec}
    {folders : List MailFolderSpec} {place : Nat} {isAssociated : Bool} {message : MessageSpec}
    {folder : MailFolderSpec} {more : List MessageSpec} (here : folders[place]? = some folder)
    (added : messages (folder.add isAssociated message) = messages folder ++ more) :
    (messageNodes messages (folders.modify place (MailFolderSpec.add isAssociated message))).Perm
      (messageNodes messages folders ++
        more.map fun _ => transactionFolderNode folders folder.key) := by
  have same := transactionFolderNode_congr
    (modify_add_identities folders place isAssociated message)
  have perm := @flatMap_modify_perm _ _
    (fun folder => (messages folder).map fun _ => transactionFolderNode folders folder.key)
    (MailFolderSpec.add isAssociated message)
    (more.map fun _ => transactionFolderNode folders folder.key) folders place folder here ?_
  · unfold messageNodes
    simp only [same]
    exact perm
  · have sameKey : (folder.add isAssociated message).key = folder.key := by
      cases isAssociated <;> rfl
    rw [added, List.map_append, sameKey]

theorem Appended.filed {around : Surroundings τ} {output : Output} {key : FolderKey}
    {isAssociated : Bool} {message : MessageSpec} {before after : TransactionalMailStoreWriter}
    {place : Nat} {parent : NodeId} {session final : Session τ}
    (appended : Appended around output key isAssociated message before after place parent session
      final) (filed : Filed before) : Filed after := by
  obtain ⟨_, _, _, -, -, hstream⟩ := appended.streamed
  obtain ⟨_, _, -, -, row, placed⟩ := follows_streamMessage around output _ message _ _ _ _ _
    session session (.refl rfl) _ _ hstream
  obtain ⟨rows, others, -⟩ := placed
  obtain ⟨bound, isKey, -⟩ := List.findIdx?_eq_some_iff_getElem.mp appended.found
  have here := List.getElem?_eq_getElem bound
  have sameKey : before.spec.folders[place].key = key := of_decide_eq_true isKey
  have node : transactionFolderNode before.spec.folders key = .ok parent := by
    rw [← appended.node]
    exact (transactionFolderNode_congr (modify_add_identities _ _ _ _) key).symm
  rw [appended.result]
  cases isAssociated with
  | true =>
      constructor
      · have unchanged := @messageNodes_add (·.messages) before.spec.folders place true message _ []
          here (List.append_nil _).symm
        rw [List.map_nil, List.append_nil] at unchanged
        rw [rows, if_pos rfl, List.append_nil, appended.begun]
        exact filed.contents.trans unchanged.symm
      · have more := @messageNodes_add (·.associatedMessages) before.spec.folders place true
          message _ [message] here rfl
        rw [sameKey, node] at more
        rw [others, if_pos rfl, appended.begun, List.map_append]
        exact (filed.associated.append_right _).trans more.symm
  | false =>
      constructor
      · have more := @messageNodes_add (·.messages) before.spec.folders place false message _
          [message] here rfl
        rw [sameKey, node] at more
        rw [rows, if_neg Bool.false_ne_true, appended.begun, List.map_append]
        exact (filed.contents.append_right _).trans more.symm
      · have unchanged := @messageNodes_add (·.associatedMessages) before.spec.folders place false
          message _ [] here (List.append_nil _).symm
        rw [List.map_nil, List.append_nil] at unchanged
        rw [others, if_neg Bool.false_ne_true, List.append_nil, appended.begun]
        exact filed.associated.trans unchanged.symm

end Rows

section Calls

variable (around : Surroundings τ) (accepts : MessageSpec → Except WriterError Unit)

/-- A writer that differs from another at most in its named properties. -/
def Recalled (before after : TransactionalMailStoreWriter) : Prop :=
  after = { before with namedIdentities := after.namedIdentities }

theorem Numbered.recalled {known : Prop} {before after : Transaction τ}
    (numbered : Numbered known before after) : Recalled before.writer after.writer := by
  obtain ⟨identities, rfl, -, -⟩ := numbered
  rfl

/-- An append that fails is taken back, but for the names that it numbered. -/
theorem appendMessageDeferredFrom_recalled (truncates : Truncates around) (live : Bool)
    (key : FolderKey) (isAssociated : Bool) (message : MessageSpec) (transaction : Transaction τ) :
    Ensures (appendMessageDeferredFrom around accepts live key isAssociated message) transaction
      (fun _ _ => True) (fun _ next => Recalled transaction.writer next.writer) := by
  refine .bind ((inspect_ensures _ transaction).mono (fun _ _ same => same) ?_) ?_
  · rintro _ next same
    rw [same]
    rfl
  rintro _ checked same
  rw [← same]
  refine .attempt_bind (fun _ _ => ?_) fun _ _ => rfl
  refine .bind ((prepareNamedIdentities_ensures message checked).mono (fun _ _ holds => holds)
    fun _ _ numbered => numbered.recalled) fun _ prepared numbered => ?_
  refine .bind ((findFolder_ensures key prepared).mono (fun _ _ holds => holds)
    fun _ _ found => found ▸ numbered.recalled) ?_
  rintro place _ rfl
  obtain ⟨identities, rfl, -, -⟩ := numbered
  refine .modify_bind (.get_bind (.of_onError ((streamFiled_ensures around _ _ _ _ _ _).mono
    (fun _ _ _ => trivial) fun _ _ streamed => streamed) ?_))
  rintro error failed ⟨stream, streamed, extended⟩
  refine .modify_bind (.bind ((rollbackMessage_ensures around _ _).mono
    (fun _ _ restored => restored) ?_) ?_)
  · exact fun _ _ holds => absurd truncates holds.2
  · intro _ next restored
    refine .of_throw ?_
    rw [restored]
    simp only [streamed, FoldersGrew.pop_add, extended.restore]
    rfl

theorem projectionDeferred_recalled (key : FolderKey) (isAssociated : Bool)
    (message : MessageSpec) (transaction : Transaction τ) :
    Ensures (appendMessageDirectProjectionDeferred around accepts key isAssociated message)
      transaction (fun _ _ => True) (fun _ next => Recalled transaction.writer next.writer) := by
  refine .bind ((inspect_ensures _ transaction).mono (fun _ _ same => same) ?_) ?_
  · rintro _ next same
    rw [same]
    rfl
  rintro _ checked same
  rw [← same]
  refine .attempt_bind (fun _ _ => ?_) fun _ _ => rfl
  refine .bind ((prepareNamedIdentities_ensures message checked).mono (fun _ _ holds => holds)
    fun _ _ numbered => numbered.recalled) fun _ prepared numbered => ?_
  refine .bind ((findFolder_ensures key prepared).mono (fun _ _ holds => holds)
    fun _ _ found => found ▸ numbered.recalled) ?_
  rintro place _ rfl
  obtain ⟨identities, rfl, -, -⟩ := numbered
  refine .get_bind (.modify_bind (.of_onError (.of_discard
    ((streamFiled_ensures around _ _ _ _ _ _).mono (fun _ _ _ => trivial)
      fun _ _ streamed => streamed)) ?_))
  rintro error failed ⟨stream, streamed, extended⟩
  refine .modify_bind (.modify_bind (.of_throw ?_))
  simp only [streamed, FoldersGrew.pop_add, extended.restore]
  rfl

/-- A computation after which the rows are still those of the messages. -/
def KeepsFiled {α : Type} (program : Writing τ α) : Prop :=
  ∀ transaction, Filed transaction.writer →
    Ensures program transaction (fun _ next => Filed next.writer) (fun _ next => Filed next.writer)

/-- What holds of a run that succeeds is read off the run. -/
theorem ensures_of_run {α : Type} {program : Writing τ α} {transaction : Transaction τ}
    {Q : α → Transaction τ → Prop} {E : WriterError → Transaction τ → Prop}
    (ensures : Ensures program transaction (fun _ _ => True) E)
    (success : ∀ value next, program transaction = .ok value next → Q value next) :
    Ensures program transaction Q E := by
  unfold Ensures at ensures ⊢
  cases hrun : program transaction with
  | ok value next => exact success value next hrun
  | error error next => simpa only [hrun] using ensures

theorem appendMessageDeferredFrom_filed (truncates : Truncates around) (live : Bool)
    (key : FolderKey) (isAssociated : Bool) (message : MessageSpec) :
    KeepsFiled (appendMessageDeferredFrom around accepts live key isAssociated message) := by
  intro transaction filed
  refine ensures_of_run ((appendMessageDeferredFrom_recalled around accepts truncates live key
    isAssociated message transaction).mono (fun _ _ _ => trivial) ?_) fun completions next hrun => ?_
  · exact fun _ _ recalled => filed.congr recalled
  · obtain ⟨_, _, _, _, appended⟩ := appendMessageDeferredFrom_appended around accepts hrun
    exact appended.filed filed

theorem projectionDeferred_filed (key : FolderKey) (isAssociated : Bool) (message : MessageSpec) :
    KeepsFiled (appendMessageDirectProjectionDeferred around accepts key isAssociated message) := by
  intro transaction filed
  refine ensures_of_run ((projectionDeferred_recalled around accepts key isAssociated message
    transaction).mono (fun _ _ _ => trivial) ?_) fun value next hrun => ?_
  · exact fun _ _ recalled => filed.congr recalled
  · obtain ⟨_, _, _, _, appended⟩ := projectionDeferred_appended around accepts hrun
    exact appended.filed filed

theorem messageNodes_observe {messages : MailFolderSpec → List MessageSpec}
    (folders : List MailFolderSpec) {folder : MailFolderSpec} (empty : messages folder = []) :
    messageNodes messages (folders ++ [folder]) = messageNodes messages folders := by
  have added : folders.map (·.identity) <+: (folders ++ [folder]).map (·.identity) := by
    rw [List.map_append]
    exact List.prefix_append _ _
  rw [← messageNodes_eq added, messageNodes, List.flatMap_append, List.flatMap_singleton, empty,
    List.map_nil, List.append_nil]

/-- An observed folder holds no message, so it brings no row. -/
theorem observeFolder_filed (folder : MailFolderSpec) :
    KeepsFiled (observeFolder folder : Writing τ Unit) := by
  intro transaction filed
  refine .attempt_bind (fun _ empty => .get_bind ?_) fun _ _ => filed
  rw [refuse_eq_ok, Bool.or_eq_true, not_or, Bool.not_eq_true', Bool.not_eq_true',
    Bool.not_eq_false, Bool.not_eq_false, List.isEmpty_iff, List.isEmpty_iff] at empty
  dsimp only
  split
  · exact .of_attempt (fun _ _ => filed) fun _ _ => filed
  · refine .modify_bind (.of_onError (.of_attempt (fun _ _ => ?_) fun _ _ => rfl) ?_)
    · constructor
      · rw [messageNodes_observe _ empty.1]
        exact filed.contents
      · rw [messageNodes_observe _ empty.2]
        exact filed.associated
    · rintro error failed rfl
      refine .modify_bind (.of_throw ?_)
      simp only [List.dropLast_concat]
      exact filed

variable {accepts}

theorem projectedFileEof_filed : KeepsFiled (projectedFileEof around) := by
  intro transaction filed
  refine (projectedFileEof_ensures around transaction).mono ?_ ?_
  · exact fun _ _ same => same ▸ filed
  · exact fun _ _ same => same ▸ filed

/-- A batch that is undone on failure leaves the rows of the writer before it. -/
theorem undoingFailure_filed {α : Type} (known : Prop) (truncates : Truncates around)
    {before : TransactionalMailStoreWriter} (filed : Filed before) {transaction : Transaction τ}
    {program : Writing τ α} {Q : α → Transaction τ → Prop}
    (ensures : Ensures program transaction Q (fun _ next => Offered known before next.writer)) :
    Ensures (undoingFailure around before.batchCheckpoint program) transaction Q
      (fun _ next => Filed next.writer) := by
  refine .of_onError ensures fun error failed offered => ?_
  refine .bind ((rollbackBatch_ensures around offered.grew).mono (fun _ _ holds => holds) ?_) ?_
  · exact fun _ _ holds => absurd truncates (holds.2 offered.layout)
  · rintro _ next ⟨-, restored⟩
    refine .of_throw (filed.congr ?_)
    rw [restored]

theorem undoingProjection_filed {α : Type} (known : Prop) {before : TransactionalMailStoreWriter}
    (filed : Filed before) {transaction : Transaction τ} {program : Writing τ α}
    (ensures : Ensures program transaction (fun _ next => Offered known before next.writer)
      (fun _ next => Offered known before next.writer)) :
    Ensures (undoingProjection before.batchCheckpoint program) transaction
      (fun _ next => Filed next.writer) (fun _ next => Filed next.writer) := by
  refine .bind (M := fun _ next => Offered known before next.writer)
    (.of_onError ensures fun error failed offered => ?_) fun value between offered => ?_
  · refine .bind ((rollbackProjectedBatch_ensures offered.grew).mono (fun _ _ holds => holds)
      fun _ _ holds => absurd offered.layout holds.2) ?_
    rintro _ next ⟨-, restored⟩
    refine .of_throw (filed.congr ?_)
    rw [restored]
  · refine .bind ((rollbackProjectedBatch_ensures offered.grew).mono (fun _ _ holds => holds)
      fun _ _ holds => absurd offered.layout holds.2) ?_
    rintro _ next ⟨-, restored⟩
    refine .of_pure (filed.congr ?_)
    rw [restored]

variable (accepts)

theorem projectPrivateEof_filed (key : FolderKey) (isAssociated : Bool) (message : MessageSpec) :
    KeepsFiled (projectMessageDirectPrivateEof around accepts key isAssociated message) := by
  intro transaction filed
  refine .get_bind
    (undoingProjection_filed (Known (projects accepts) transaction.writer message) filed ?_)
  refine .bind ((appendMessageDirectProjectionDeferred_ensures around accepts key isAssociated
    message transaction).mono (fun _ _ holds => holds) fun _ _ undone => undone.toOffered) ?_
  exact fun _ _ offered => .get_bind (.of_pure offered)

theorem projectExtents_filed (key : FolderKey) (isAssociated : Bool) (message : MessageSpec) :
    KeepsFiled (projectMessageDirectExtents around accepts key isAssociated message) := by
  intro transaction filed
  have append := (appendMessageDirectProjectionDeferred_ensures around accepts key isAssociated
    message transaction).and (projectionDeferred_filed around accepts key isAssociated message
      transaction filed)
  refine .get_bind (.bind (append.mono (fun _ _ holds => holds) fun _ _ holds => holds.2) ?_)
  rintro _ appended ⟨offered, -⟩
  have undone := undoingProjection_filed (Known (projects accepts) transaction.writer message) filed
    ((projectedFileEof_ensures around appended).mono ?_ ?_)
  · exact .get_bind (.bind undone fun _ _ filed => .of_pure filed)
  · exact fun _ _ same => same ▸ offered
  · exact fun _ _ same => same ▸ offered

theorem appendMessageDeferredFrom_both (truncates : Truncates around) (live : Bool)
    (key : FolderKey) (isAssociated : Bool) (message : MessageSpec) {transaction : Transaction τ}
    (filed : Filed transaction.writer) :
    Ensures (appendMessageDeferredFrom around accepts live key isAssociated message) transaction
      (fun _ next => Offered (Known accepts transaction.writer message) transaction.writer
        next.writer ∧ Filed next.writer)
      (fun _ next => Offered (Known accepts transaction.writer message) transaction.writer
        next.writer ∧ Filed next.writer) := by
  refine ((appendMessageDeferredFrom_ensures around accepts live key isAssociated message
    transaction).and (appendMessageDeferredFrom_filed around accepts truncates live key
      isAssociated message transaction filed)).mono (fun _ _ holds => holds) ?_
  exact fun _ _ holds => ⟨holds.1.toOffered, holds.2⟩

theorem preflighted_filed (truncates : Truncates around) (key : FolderKey) (isAssociated : Bool)
    (message : MessageSpec) (expected : Nat) :
    KeepsFiled (appendMessageDirectPreflighted around accepts key isAssociated message
      expected) := by
  intro transaction filed
  refine .get_bind (.bind ((appendMessageDeferredFrom_both around accepts truncates true key
    isAssociated message filed).mono (fun _ _ holds => holds) fun _ _ holds => holds.2) ?_)
  rintro completions appended ⟨offered, kept⟩
  refine .bind (undoingFailure_filed around (Known accepts transaction.writer message) truncates
    filed (Q := fun _ next => Filed next.writer) ?_) fun _ _ kept => .of_pure kept
  refine .bind ((projectedFileEof_ensures around appended).mono (fun _ _ same => same)
    fun _ _ same => same ▸ offered) fun actual measured same => ?_
  exact .of_attempt (fun _ _ => same ▸ kept) fun _ _ => same ▸ offered

theorem preflightedPrivate_filed (truncates : Truncates around) (key : FolderKey)
    (isAssociated : Bool) (message : MessageSpec) (expected : Nat) :
    KeepsFiled (appendMessageDirectPreflightedPrivate around accepts key isAssociated message
      expected) := by
  intro transaction filed
  refine .get_bind (.bind ((appendMessageDeferredFrom_both around accepts truncates true key
    isAssociated message filed).mono (fun _ _ holds => holds) fun _ _ holds => holds.2) ?_)
  rintro completions appended ⟨offered, kept⟩
  refine .bind (undoingFailure_filed around (Known accepts transaction.writer message) truncates
    filed (Q := fun _ next => Filed next.writer) ?_) fun _ _ kept => .of_pure kept
  exact .get_bind (.of_attempt (fun _ _ => kept) fun _ _ => offered)

theorem appendMessage_filed (truncates : Truncates around) (key : FolderKey) (isAssociated : Bool)
    (message : MessageSpec) (maximum : Nat) :
    KeepsFiled (appendMessage around accepts key isAssociated message maximum) := by
  intro transaction filed
  refine .attempt_bind (fun _ _ => .get_bind ?_) fun _ _ => filed
  refine .bind (undoingFailure_filed around (Known accepts transaction.writer message) truncates
    filed (Q := fun _ next =>
      Offered (Known accepts transaction.writer message) transaction.writer next.writer ∧
        Filed next.writer) ?_) ?_
  · refine .bind (.of_discard (Q := fun _ next =>
      Offered (Known accepts transaction.writer message) transaction.writer next.writer ∧
        Filed next.writer) ((appendMessageDeferredFrom_both around accepts truncates false key
          isAssociated message filed).mono (fun _ _ holds => holds) fun _ _ holds => holds.1)) ?_
    intro _ appended holds
    exact (projectedFileEof_ensures around appended).mono (fun _ _ same => same ▸ holds)
      fun _ _ same => same ▸ holds.1
  · rintro projected appended ⟨offered, kept⟩
    refine .get_bind ?_
    split
    · refine .bind ((rollbackBatch_ensures around offered.grew).mono (fun _ _ holds => holds) ?_) ?_
      · exact fun _ _ holds => absurd truncates (holds.2 offered.layout)
      · rintro _ next ⟨-, restored⟩
        refine .of_pure (filed.congr ?_)
        rw [restored]
    · exact .of_pure kept

theorem KeepsFiled.discard {α : Type} {program : Writing τ α} (keeps : KeepsFiled program)
    (answer : Bool) : KeepsFiled (do Functor.discard program; return answer) :=
  fun transaction filed => .bind (.of_discard (Q := fun _ next => Filed next.writer)
    (keeps transaction filed)) fun _ _ kept => .of_pure kept

/-- Every call keeps the rows in line with the messages. -/
theorem Call.filed (truncates : Truncates around) (call : Call) :
    KeepsFiled (call.perform around accepts) := by
  cases call with
  | observe folder =>
      exact fun transaction filed => .bind (observeFolder_filed folder transaction filed)
        fun _ _ kept => .of_pure kept
  | append key isAssociated message =>
      exact fun transaction filed => .bind (.of_discard (Q := fun _ next => Filed next.writer)
        (appendMessageDeferredFrom_filed around accepts truncates false key isAssociated message
          transaction filed)) fun _ _ kept => .of_pure kept
  | appendDirect key isAssociated message =>
      exact (appendMessageDeferredFrom_filed around accepts truncates true key isAssociated
        message).discard true
  | appendWithin key isAssociated message maximum =>
      intro transaction filed
      refine .bind (appendMessage_filed around accepts truncates key isAssociated message maximum
        transaction filed) fun result _ kept => ?_
      cases result with
      | appended => exact .of_pure kept
      | partFull => exact .of_pure kept
  | preflighted key isAssociated message expected =>
      exact (preflighted_filed around accepts truncates key isAssociated message
        expected).discard true
  | preflightedPrivate key isAssociated message expected =>
      exact (preflightedPrivate_filed around accepts truncates key isAssociated message
        expected).discard true
  | appendProjection key isAssociated message =>
      exact fun transaction filed => .bind (projectionDeferred_filed around accepts key
        isAssociated message transaction filed) fun _ _ kept => .of_pure kept
  | projectPrivateEof key isAssociated message =>
      exact (projectPrivateEof_filed around accepts key isAssociated message).discard false
  | projectExtents key isAssociated message =>
      exact (projectExtents_filed around accepts key isAssociated message).discard false
  | measure => exact (projectedFileEof_filed around).discard false

end Calls

section FiledRuns

variable {around : Surroundings τ} {accepts : MessageSpec → Except WriterError Unit}

/-- The rows are those of the messages, now and in every writer that a batch can go back to. -/
structure Run.Filed (run : Run τ) : Prop where
  current : Writer.Filed run.transaction.writer
  opened : ∀ batch ∈ run.batches, Writer.Filed batch.opened

theorem rollback_filed {transaction : Transaction τ} {opened : TransactionalMailStoreWriter}
    {program : Writing τ Unit} (current : Filed transaction.writer) (before : Filed opened)
    (ensures : Ensures program transaction
      (fun _ next => next.writer =
        { opened with namedIdentities := transaction.writer.namedIdentities })
      (fun _ next => next.writer = transaction.writer)) :
    Filed (after program transaction).writer := by
  have both : Ensures program transaction (fun _ next => Filed next.writer)
      (fun _ next => Filed next.writer) := by
    refine ensures.mono (fun _ next restored => before.congr ?_) fun _ next same => ?_
    · rw [restored]
    · rw [same]
      exact current
  exact after_of_ensures both

theorem Run.Filed.next {run : Run τ} (filed : run.Filed) (truncates : Truncates around)
    (nested : run.Nested accepts) (step : Step) : (run.next around accepts step).Filed := by
  obtain ⟨transaction, batches⟩ := run
  cases step with
  | call call =>
      refine ⟨?_, fun batch member => ?_⟩
      · exact after_of_ensures (call.filed around accepts truncates transaction filed.current)
      · obtain ⟨earlier, found, rfl⟩ := List.mem_map.mp member
        exact filed.opened earlier found
  | beginBatch =>
      refine ⟨filed.current, fun batch member => ?_⟩
      rcases List.mem_cons.mp member with rfl | member
      · exact filed.current
      · exact filed.opened batch member
  | keepBatch =>
      exact ⟨filed.current, fun batch member => filed.opened batch (List.mem_of_mem_tail member)⟩
  | rollbackBatch =>
      cases batches with
      | nil => exact filed
      | cons batch rest =>
          refine ⟨?_, fun other member => filed.opened other (List.mem_cons_of_mem _ member)⟩
          have opened := nested.open_ batch List.mem_cons_self
          have ensures := rollbackBatch_ensures around opened.grew
          rw [← opened.checkpoint] at ensures
          exact rollback_filed filed.current (filed.opened batch List.mem_cons_self)
            (ensures.mono (fun _ _ restored => restored.2) fun _ _ same => same.1)
  | rollbackProjectedBatch =>
      cases batches with
      | nil => exact filed
      | cons batch rest =>
          refine ⟨?_, fun other member => filed.opened other (List.mem_cons_of_mem _ member)⟩
          have opened := nested.open_ batch List.mem_cons_self
          have ensures := rollbackProjectedBatch_ensures opened.grew
          rw [← opened.checkpoint] at ensures
          exact rollback_filed filed.current (filed.opened batch List.mem_cons_self)
            (ensures.mono (fun _ _ restored => restored.2) fun _ _ same => same.1)

theorem runFrom_filed (accepts : MessageSpec → Except WriterError Unit)
    (truncates : Truncates around) {start : Transaction τ} (filed : Filed start.writer)
    (steps : List Step) : (runFrom around accepts start steps).Filed := by
  have general : ∀ (steps : List Step) (run : Run τ), run.Nested accepts → run.Filed →
      (steps.foldl (Run.next around accepts) run).Filed := by
    intro steps
    induction steps with
    | nil => exact fun _ _ filed => filed
    | cons step rest ih =>
        intro run nested filed
        exact ih _ (nested.next around step) (filed.next truncates nested step)
  refine general steps ⟨start, []⟩ ⟨fun batch member => ?_, List.Pairwise.nil⟩
    ⟨filed, fun batch member => ?_⟩
  · cases member
  · cases member

/-- A store begins without messages and without rows. -/
theorem beginWithNamedPolicy_filed {layout : MailStoreSpec} {named : List NamedIdentity}
    {dynamicNamedProperties preserveEmptyFolders : Bool} {writer : TransactionalMailStoreWriter}
    (hbegin : beginWithNamedPolicy layout named dynamicNamedProperties preserveEmptyFolders =
      .ok writer) : Filed writer := by
  simp only [beginWithNamedPolicy, bind_eq_ok, refuse_eq_ok] at hbegin
  obtain ⟨_, empty, _, -, hpure⟩ := hbegin
  cases hpure
  have none : ∀ folder ∈ layout.folders, folder.messages = [] ∧ folder.associatedMessages = [] := by
    intro folder member
    by_contra some
    apply empty
    rw [List.any_eq_true]
    refine ⟨folder, member, ?_⟩
    rw [Bool.or_eq_true, Bool.not_eq_true', Bool.not_eq_true', List.isEmpty_eq_false_iff,
      List.isEmpty_eq_false_iff]
    tauto
  have nothing {messages : MailFolderSpec → List MessageSpec}
      (noMessages : ∀ folder ∈ layout.folders, messages folder = []) :
      messageNodes messages layout.folders = [] := by
    unfold messageNodes
    rw [List.flatMap_eq_nil_iff]
    intro folder member
    rw [noMessages folder member, List.map_nil]
  constructor
  · rw [nothing fun folder member => (none folder member).1]
    exact List.Perm.nil
  · rw [nothing fun folder member => (none folder member).2]
    exact List.Perm.nil

end FiledRuns

section Plans

variable {folders : List MailFolderSpec} {preserve : Bool} {plans : List FolderPlan}

/-- A folder that holds messages is planned, under the node of its key. -/
theorem planned_of_messages (hplans : planTransactionFolders folders preserve = .ok plans)
    {folder : MailFolderSpec} (member : folder ∈ folders) (isPlanned : folder.IsPlanned preserve) :
    ∃ plan ∈ plans, plan.key = folder.key ∧
      transactionFolderNode folders folder.key = .ok plan.node := by
  have forest := planTransactionFolders_tree hplans
  obtain ⟨started, hstarted, -, streamed⟩ := planTransactionFolders_renoded hplans
  obtain ⟨paths, _, checked, -⟩ := planFoldersExpected_started hstarted
  obtain ⟨-, named, -⟩ := planPaths_plans List.Pairwise.nil checked.checked
  have there : folder.key ∈ plans.map (·.key) := by
    rw [forest.planned]
    exact ⟨folder, member, isPlanned, rfl, named folder member, List.prefix_rfl⟩
  obtain ⟨plan, found, same⟩ := List.mem_map.mp there
  refine ⟨plan, found, same, ?_⟩
  rw [← same]
  exact streamed plan found

/-- As many messages are streamed under the node of a planned folder as are filed under its
key. -/
theorem countP_messageNodes (hplans : planTransactionFolders folders preserve = .ok plans)
    {messages : MailFolderSpec → List MessageSpec}
    (isPlanned : ∀ folder, messages folder ≠ [] → folder.IsPlanned preserve)
    {plan : FolderPlan} (member : plan ∈ plans) :
    (messageNodes messages folders).countP (·.toOption = some plan.node) =
      ((folders.filter (·.key = plan.key)).flatMap messages).length := by
  obtain ⟨distinct, -⟩ := planTransactionFolders_nodes hplans
  obtain ⟨-, -, -, streamed⟩ := planTransactionFolders_renoded hplans
  have own := streamed plan member
  -- The nodes are those of the whole layout while the induction is on a part of it.
  have general : ∀ part : List MailFolderSpec, (∀ folder ∈ part, folder ∈ folders) →
      (part.flatMap fun folder =>
        (messages folder).map fun _ => transactionFolderNode folders folder.key).countP
          (·.toOption = some plan.node) =
        ((part.filter (·.key = plan.key)).flatMap messages).length := by
    intro part
    induction part with
    | nil => exact fun _ => rfl
    | cons folder rest ih =>
        intro inside
        obtain ⟨here, inside⟩ := List.forall_mem_cons.mp inside
        rw [List.flatMap_cons, List.countP_append, ih inside, List.filter_cons, List.countP_map]
        by_cases same : folder.key = plan.key
        · have all : ∀ message ∈ messages folder,
              ((fun result : Except WriterError NodeId => decide (result.toOption = some plan.node)) ∘
                fun _ : MessageSpec => transactionFolderNode folders folder.key) message = true := by
            intro _ _
            rw [Function.comp_apply, same, own]
            exact decide_eq_true rfl
          rw [if_pos (decide_eq_true same), List.flatMap_cons, List.length_append,
            List.countP_eq_length.mpr all]
        · rw [if_neg (by rwa [decide_eq_true_eq]), Nat.add_eq_right, List.countP_eq_zero]
          intro message inFolder streamedHere
          have some : messages folder ≠ [] := List.ne_nil_of_mem inFolder
          obtain ⟨other, found, key, node⟩ :=
            planned_of_messages hplans here (isPlanned folder some)
          rw [Function.comp_apply, node, decide_eq_true_eq] at streamedHere
          have sameNode : other.node = plan.node := Option.some.inj streamedHere
          have samePlan := List.inj_on_of_nodup_map distinct found member sameNode
          exact same (key.symm.trans (congrArg FolderPlan.key samePlan))
  exact general folders fun _ member => member

/-- The rows that are left when the folders of some plans have claimed theirs. -/
def leftRows (rows : OpenRows) : List FolderPlan → OpenRows
  | [] => rows
  | plan :: rest =>
      leftRows ⟨(claimRows plan.node rows.contents).2, (claimRows plan.node rows.associated).2⟩ rest

theorem leftRows_eq (claimed : List FolderPlan) : ∀ rows : OpenRows,
    leftRows rows claimed =
      ⟨rows.contents.filter (·.1 ∉ claimed.map (·.node)),
        rows.associated.filter (·.1 ∉ claimed.map (·.node))⟩ := by
  induction claimed with
  | nil =>
      intro rows
      simp [leftRows]
  | cons plan rest ih =>
      intro rows
      rw [leftRows, ih]
      simp only [claimRows, List.filter_filter, List.map_cons, List.mem_cons, not_or,
        Bool.decide_and, Bool.and_comm]

/-- The rows of a planned folder are those of its messages, whatever folders before it have
claimed. -/
theorem claimRows_left (hplans : planTransactionFolders folders preserve = .ok plans)
    {messages : MailFolderSpec → List MessageSpec}
    (isPlanned : ∀ folder, messages folder ≠ [] → folder.IsPlanned preserve)
    {rows : List (NodeId × TableRowSpec)}
    (filed : (rows.map fun row => Except.ok row.1).Perm (messageNodes messages folders))
    {earlier later : List FolderPlan} {plan : FolderPlan} (split : plans = earlier ++ plan :: later) :
    (claimRows plan.node (rows.filter (·.1 ∉ earlier.map (·.node)))).1.length =
      ((folders.filter (·.key = plan.key)).flatMap messages).length := by
  have member : plan ∈ plans := by
    rw [split]
    exact List.mem_append_right _ List.mem_cons_self
  obtain ⟨distinct, -⟩ := planTransactionFolders_nodes hplans
  have fresh : plan.node ∉ earlier.map (·.node) := by
    rw [split, List.map_append, List.map_cons] at distinct
    intro before
    exact List.disjoint_of_nodup_append distinct before List.mem_cons_self
  have unclaimed : ∀ row : NodeId × TableRowSpec,
      (decide (row.1 = plan.node) && decide (row.1 ∉ earlier.map (·.node))) =
        decide (row.1 = plan.node) := by
    intro row
    by_cases same : row.1 = plan.node
    · rw [same, decide_eq_true fresh, Bool.and_true]
    · rw [decide_eq_false same, Bool.false_and]
  rw [claimRows, List.length_map, List.filter_filter, ← List.countP_eq_length_filter,
    ← countP_messageNodes hplans isPlanned member, ← filed.countP_eq, List.countP_map]
  apply List.countP_congr
  intro row _
  rw [unclaimed, Function.comp_apply, Except.toOption, decide_eq_true_eq, decide_eq_true_eq,
    Option.some.injEq]

/-- Every row has a planned folder. -/
theorem rows_planned (hplans : planTransactionFolders folders preserve = .ok plans)
    {messages : MailFolderSpec → List MessageSpec}
    (isPlanned : ∀ folder, messages folder ≠ [] → folder.IsPlanned preserve)
    {rows : List (NodeId × TableRowSpec)}
    (filed : (rows.map fun row => Except.ok row.1).Perm (messageNodes messages folders)) :
    rows.filter (·.1 ∉ plans.map (·.node)) = [] := by
  rw [List.filter_eq_nil_iff]
  intro row member
  rw [decide_eq_true_eq, not_not]
  have streamed : Except.ok row.1 ∈ messageNodes messages folders :=
    filed.mem_iff.mp (List.mem_map.mpr ⟨row, member, rfl⟩)
  obtain ⟨folder, here, streamed⟩ := List.mem_flatMap.mp streamed
  obtain ⟨message, inFolder, node⟩ := List.mem_map.mp streamed
  have some : messages folder ≠ [] := List.ne_nil_of_mem inFolder
  obtain ⟨plan, found, -, planNode⟩ := planned_of_messages hplans here (isPlanned folder some)
  rw [planNode] at node
  exact List.mem_map.mpr ⟨plan, found, Except.ok.inj node⟩

theorem buildFolder_left {schema : Schemas} {fixed : FixedNodes} {index : Nat} {plan : FolderPlan}
    {rows left : OpenRows} {counters final : Counters} {folder : TopFolderNode}
    {blocks : List BlockSpec}
    (hrun : buildFolder schema fixed plans index plan rows counters =
      .ok (folder, blocks, left) final) :
    left = ⟨(claimRows plan.node rows.contents).2, (claimRows plan.node rows.associated).2⟩ := by
  simp only [buildFolder, bind_run_ok, attempt_run_ok, pure_run_ok, Prod.mk.injEq] at hrun
  obtain ⟨_, _, -, _, _, -, _, _, -, _, _, -, _, _, -, _, _, -, _, _, -, _, _, -, _, _, -,
    ⟨-, -, same⟩, -⟩ := hrun
  exact same

/-- What the folders of a plan leave of the rows is what the last of them leaves. -/
theorem buildFolders_left {around : Surroundings τ} {schema : Schemas} {fixed : FixedNodes}
    {rest : List FolderPlan} :
    ∀ {index : Nat} {rows left : OpenRows} {session final : Session τ}
      {built : List TopFolderNode} {blocks : List BlockSpec},
      buildFolders around schema fixed plans index rows rest session =
        .ok (built, blocks, left) final → left = leftRows rows rest := by
  induction rest with
  | nil =>
      intro index rows left session final built blocks hrun
      simp only [buildFolders, pure_run_ok, Prod.mk.injEq] at hrun
      obtain ⟨⟨-, -, rfl⟩, -⟩ := hrun
      rfl
  | cons plan rest ih =>
      intro index rows left session final built blocks hrun
      simp only [buildFolders, bind_run_ok, pure_run_ok, Prod.mk.injEq] at hrun
      obtain ⟨_, _, -, ⟨folder, own, middleRows⟩, middle, hfolder, ⟨others, otherBlocks, lastRows⟩,
        _, hrest, ⟨-, -, rfl⟩, -⟩ := hrun
      obtain ⟨counters, hbuild, -⟩ := takeIds_ok hfolder
      rw [leftRows, ← buildFolder_left hbuild]
      exact ih hrest

/-- An inbox with one note, appended behind one that was rolled back. -/
def inboxSteps : List Step :=
  [.beginBatch, .call (.append inboxKey false (.note [] [])), .rollbackBatch,
    .call (.append inboxKey false (.note [] []))]

end Plans

end PstForge.Writer
