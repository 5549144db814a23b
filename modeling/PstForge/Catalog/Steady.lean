import PstForge.Catalog.Issues

/-! # A traversal does not depend on what was seen before

What the worker reports of an item follows from the item. This module compares two runs of the
same step that start from different states: where the sink takes every event and no counter
reaches its limit, both report the same events and end in the same way. The numbers
of issues of the messages around may differ, those of the messages within may not.
-/

namespace PstForge.Catalog

open PstForge.Foundation

section Reads

/-- A read that does not answer with an error of the sink; only the sink has those. -/
def NotSink {α : Type} (source : Except PffError α) : Prop :=
  ∀ error, source = .error error → error.isSink = false

/-- Every answer in a list of answers that is itself an answer. -/
def EveryRead {α : Type} (reads : α → Prop) (source : Except PffError (List (Except PffError α))) :
    Prop :=
  NotSink source ∧ ∀ answers, source = .ok answers → ∀ answer ∈ answers,
    NotSink answer ∧ ∀ value, answer = .ok value → reads value

structure NativeEntry.Reads (entry : NativeEntry) : Prop where
  entryType : NotSink entry.entryType
  valueType : NotSink entry.valueType
  dataSize : NotSink entry.dataSize
  identity : NotSink entry.identity
  stream : ∀ position requested, NotSink (entry.stream position requested)

structure NativeRecordSet.Reads (set : NativeRecordSet) : Prop where
  entries : EveryRead NativeEntry.Reads set.entries
  optionalU32 : ∀ entryType, NotSink (set.optionalU32 entryType)
  optionalString : ∀ entryType, NotSink (set.optionalString entryType)

structure NativeMessage.Reads (message : NativeMessage) : Prop where
  identifier : NotSink message.identifier
  messageString : ∀ entryType, NotSink (message.messageString entryType)
  optionalU32 : ∀ entryType, NotSink (message.optionalU32 entryType)
  itemType : NotSink message.itemType
  clientSubmitTime : NotSink message.clientSubmitTime
  deliveryTime : NotSink message.deliveryTime
  recipients : NotSink message.recipients ∧ ∀ recipients,
    message.recipients = .ok (some recipients) →
    EveryRead NativeRecordSet.Reads recipients
  attachmentCount : NotSink message.attachmentCount
  recordSets : EveryRead NativeRecordSet.Reads message.recordSets

structure NativeAttachment.Reads (attachment : NativeAttachment) : Prop where
  recordSets : EveryRead NativeRecordSet.Reads attachment.recordSets
  attachmentType : NotSink attachment.attachmentType
  attachmentSize : NotSink attachment.attachmentSize
  seekStart : NotSink attachment.seekStart
  data : ∀ position requested, NotSink (attachment.data position requested)

/-- No read of the attachments of a message, and of all that is in them, answers with an error
of the sink. -/
def AttachmentTable.Reads : AttachmentTable → Prop
  | .nil => True
  | .unreadable error rest => error.isSink = false ∧ rest.Reads
  | .plain attachment item rest => attachment.Reads ∧ NotSink item ∧ rest.Reads
  | .embedded attachment message inner rest =>
      attachment.Reads ∧ message.Reads ∧ inner.Reads ∧ rest.Reads

/-- A sink that takes every event. -/
structure CatalogSink.Takes (sink : CatalogSink) : Prop where
  event : ∀ seen event, sink.event seen event = .ok ()
  probe : ∀ messageId index size filename data,
    ∃ mimeType, sink.probeAttachment messageId index size filename data = .ok mimeType

theorem notSink_ok {α : Type} (value : α) : NotSink (.ok value : Except PffError α) :=
  fun _ same => nomatch same

theorem notSink_bind {α β : Type} {first : Except PffError α} {next : α → Except PffError β}
    (reads : NotSink first) (readsNext : ∀ value, first = .ok value → NotSink (next value)) :
    NotSink (first >>= next) := by
  cases first with
  | error error => exact fun other same => reads other (by cases same; rfl)
  | ok value => exact readsNext value rfl

theorem notSink_refuse {condition : Prop} [Decidable condition] {error : PffError}
    (kind : error.isSink = false) : NotSink (refuse condition error) := by
  intro other same
  unfold refuse at same
  split at same
  · cases same
    exact kind
  · cases same

theorem notSink_nativeCount (limit count : Nat) : NotSink (nativeCount limit count) :=
  notSink_bind (notSink_refuse rfl) fun _ _ => notSink_ok _

end Reads

section Pairs

/-- Room for more messages below the limits. -/
structure Room (further : Nat) (catalog : RawCatalog) : Prop where
  messages : catalog.messages + further ≤ maxMessages
  recovered : catalog.recoveredMessages + further ≤ maxMessages
  orphan : catalog.orphanMessages + further ≤ maxMessages
  fragment : catalog.fragmentMessages + further ≤ maxMessages

theorem Room.mono {more messages : Nat} {catalog : RawCatalog}
    (room : Room (more + messages) catalog) : Room messages catalog := by
  obtain ⟨total, recovered, orphan, fragment⟩ := room
  exact ⟨by omega, by omega, by omega, by omega⟩

/-- Two states of two runs that have shown the same events behind those before, and that count
the issues of the same messages within those around. -/
structure Paired (before before' : List CatalogEvent) (around around' room : Nat)
    (s t : Traversal) : Prop where
  events : ∃ shown, eventsSeen s.seen = before ++ shown ∧ eventsSeen t.seen = before' ++ shown
  active : ∃ within outer outer', s.catalog.activeMessageIssues = within ++ outer ∧
    t.catalog.activeMessageIssues = within ++ outer' ∧
    outer.length = around ∧ outer'.length = around'
  left : Room room s.catalog
  right : Room room t.catalog

variable {before before' : List CatalogEvent} {around around' room more : Nat} {s t : Traversal}

theorem Paired.mono (paired : Paired before before' around around' (more + room) s t) :
    Paired before before' around around' room s t :=
  ⟨paired.events, paired.active, paired.left.mono, paired.right.mono⟩

/-- A change of what is neither counted nor seen. -/
theorem Paired.of_same (paired : Paired before before' around around' room s t) {s' t' : Traversal}
    (catalog : s'.catalog = s.catalog) (catalog' : t'.catalog = t.catalog)
    (seen : eventsSeen s'.seen = eventsSeen s.seen)
      (seen' : eventsSeen t'.seen = eventsSeen t.seen) :
    Paired before before' around around' room s' t' := by
  refine ⟨?_, ?_, ?_, ?_⟩
  · rw [seen, seen']
    exact paired.events
  · rw [catalog, catalog']
    exact paired.active
  · rw [catalog]
    exact paired.left
  · rw [catalog']
    exact paired.right

/-- Whatever happened before, a program shows the same events and ends in the same way, and it
begins no more messages than a number. -/
def Steady {α : Type} (messages : Nat) (program : Traversing α) : Prop :=
  ∀ before before' around around' room,
    Mirrors (Paired before before' around around' (messages + room))
      (Paired before before' around around' room) (fun error => error.isSink = false)
      program program

variable {α β : Type}

theorem Steady.bind {messages following : Nat} {first : Traversing α} {next : α → Traversing β}
    (steadyFirst : Steady messages first) (steadyNext : ∀ value, Steady following (next value)) :
    Steady (messages + following) (first >>= next) := by
  intro before before' around around' room
  rw [Nat.add_assoc]
  exact Mirrors.bind (steadyFirst _ _ _ _ _) (fun _ _ => Paired.mono) fun value =>
    steadyNext value _ _ _ _ _

/-- A program that begins no message is followed by one that does. -/
theorem Steady.then {messages : Nat} {first : Traversing α} {next : α → Traversing β}
    (steadyFirst : Steady 0 first) (steadyNext : ∀ value, Steady messages (next value)) :
    Steady messages (first >>= next) := by
  have both := steadyFirst.bind steadyNext
  rwa [Nat.zero_add] at both

theorem Steady.onError {messages : Nat} {program : Traversing α} {handler : PffError → Traversing α}
    (steady : Steady messages program)
    (handled : ∀ error, error.isSink = false → Steady 0 (handler error)) :
    Steady messages (onError program handler) := by
  intro before before' around around' room
  refine Mirrors.onError (steady _ _ _ _ _) (fun _ _ paired => paired) fun error kind => ?_
  have same := handled error kind before before' around around' room
  rwa [Nat.zero_add] at same

/-- A program that begins no message begins no more than any number. -/
theorem Steady.weaken {program : Traversing α} (steady : Steady 0 program) (messages : Nat) :
    Steady messages program := by
  intro before before' around around' room
  have same := steady before before' around around' (messages + room)
  rw [Nat.zero_add] at same
  exact same.mono fun _ _ => Paired.mono

theorem Steady.zero {program : Traversing α}
    (mirrors : ∀ before before' around around' room,
      Mirrors (Paired before before' around around' room)
        (Paired before before' around around' room) (fun error => error.isSink = false)
        program program) : Steady 0 program := by
  intro before before' around around' room
  rw [Nat.zero_add]
  exact mirrors _ _ _ _ _

/-- What follows a program that begins no message is only run on what the program gives. -/
theorem Steady.then_of {messages : Nat} {first : Traversing α} {next : α → Traversing β}
    {gives : α → Prop} (steadyFirst : Steady 0 first)
    (given : ∀ traversal value behind, first traversal = .ok value behind → gives value)
    (steadyNext : ∀ value, gives value → Steady messages (next value)) :
    Steady messages (first >>= next) := by
  intro before before' around around' room
  have start := steadyFirst before before' around around' (messages + room)
  rw [Nat.zero_add] at start
  exact start.bind_of (fun _ _ => Paired.mono) given fun value gives =>
    steadyNext value gives _ _ _ _ _

theorem steady_pure (value : α) : Steady 0 (pure value : Traversing α) :=
  .zero fun _ _ _ _ _ => Mirrors.of_pure value

theorem steady_throw {error : PffError} (kind : error.isSink = false) :
    Steady 0 (throw error : Traversing α) :=
  .zero fun _ _ _ _ _ => Mirrors.of_throw kind

theorem steady_attempt {source : Except PffError α} (reads : NotSink source) :
    Steady 0 (attempt source : Traversing α) :=
  .zero fun _ _ _ _ _ => Mirrors.of_attempt reads

theorem steady_discard {messages : Nat} {program : Traversing α}
    (steady : Steady messages program) :
    Steady messages (discard program) :=
  fun _ _ _ _ _ => Mirrors.of_discard (steady _ _ _ _ _)

/-- What follows a read is only run on what the read answers. -/
theorem Steady.attempt_bind {messages : Nat} {source : Except PffError α} {next : α → Traversing β}
    (reads : NotSink source) (steady : ∀ value, source = .ok value → Steady messages (next value)) :
    Steady messages (attempt source >>= next) := by
  cases source with
  | ok value => exact steady value rfl
  | error error =>
      intro before before' around around' room s t paired
      exact ⟨rfl, reads error rfl, paired.mono⟩

theorem steady_provided {condition : Prop} [Decidable condition]
    {program : Traversing Unit} (steady : Steady 0 program) :
    Steady 0 (provided condition program) := by
  unfold provided
  split
  · exact steady
  · exact steady_pure ()

theorem eventsSeen_snoc (seen : List Activity) (activity : Activity) :
    eventsSeen (seen ++ [activity]) = eventsSeen seen ++ eventsSeen [activity] :=
  List.filterMap_append

/-- A change of the counters that leaves room and the numbers of issues. -/
theorem steady_count {change : RawCatalog → RawCatalog}
    (active : ∀ catalog, (change catalog).activeMessageIssues = catalog.activeMessageIssues)
    (kept : ∀ {room} catalog, Room room catalog → Room room (change catalog)) :
    Steady 0 (count change) := by
  refine .zero fun _ _ _ _ _ => Mirrors.of_modify fun s t paired => ⟨paired.events, ?_, ?_, ?_⟩
  · simp only [active]
    exact paired.active
  · exact kept _ paired.left
  · exact kept _ paired.right

theorem steady_modify {change : Traversal → Traversal}
    (catalog : ∀ traversal, (change traversal).catalog = traversal.catalog)
    (seen : ∀ traversal, eventsSeen (change traversal).seen = eventsSeen traversal.seen) :
    Steady 0 (modify change : Traversing Unit) :=
  .zero fun _ _ _ _ _ => Mirrors.of_modify fun s t paired =>
    paired.of_same (catalog s) (catalog t) (seen s) (seen t)

theorem recordIssue_room {messages : Nat} {catalog : RawCatalog} (room : Room messages catalog)
    (issue : CatalogIssue) : Room messages (catalog.recordIssue issue) := by
  unfold RawCatalog.recordIssue
  dsimp only
  split <;> exact ⟨room.messages, room.recovered, room.orphan, room.fragment⟩

theorem steady_recordIssue (issue : CatalogIssue) : Steady 0 (recordIssue issue) := by
  refine .zero fun _ _ _ _ _ => Mirrors.of_modify fun s t paired => ⟨?_, ?_, ?_, ?_⟩
  · obtain ⟨shown, left, right⟩ := paired.events
    refine ⟨shown, ?_, ?_⟩
    · rw [eventsSeen_snoc, left]
      exact List.append_nil _
    · rw [eventsSeen_snoc, right]
      exact List.append_nil _
  · obtain ⟨within, outer, outer', left, right, length, length'⟩ := paired.active
    refine ⟨countIssue issue.nodeId within, countIssue issue.nodeId outer,
      countIssue issue.nodeId outer', ?_, ?_, ?_, ?_⟩
    · rw [recordIssue_active, left]
      exact List.map_append
    · rw [recordIssue_active, right]
      exact List.map_append
    · rw [← length]
      exact List.length_map _
    · rw [← length']
      exact List.length_map _
  · exact recordIssue_room paired.left issue
  · exact recordIssue_room paired.right issue

theorem steady_emit {sink : CatalogSink} (takes : sink.Takes) (operation : String)
    (event : CatalogEvent) : Steady 0 (emit sink operation event) := by
  refine .zero fun _ _ _ _ _ s t paired => ?_
  rw [emit_run, emit_run, takes.event, takes.event]
  refine ⟨rfl, ?_, paired.active, paired.left, paired.right⟩
  obtain ⟨shown, left, right⟩ := paired.events
  refine ⟨shown ++ [event], ?_, ?_⟩
  · rw [eventsSeen_snoc, left, List.append_assoc]
    rfl
  · rw [eventsSeen_snoc, right, List.append_assoc]
    rfl

end Pairs

section Leaves

variable {sink : CatalogSink} {α : Type}

theorem steady_recordItemIssue {error : PffError} (kind : error.isSink = false)
    (nodeId : Option Nat) (operation : String) :
    Steady 0 (recordItemIssue nodeId operation error) := by
  unfold recordItemIssue
  split
  · exact steady_throw kind
  · exact steady_recordIssue _

theorem steady_recordAttachmentIssue {error : PffError} (kind : error.isSink = false)
    (nodeId : Option Nat) (operation : String) :
    Steady 0 (recordAttachmentIssue nodeId operation error) := by
  unfold recordAttachmentIssue
  split
  · exact steady_throw kind
  · exact steady_recordIssue _

theorem steady_recoverItemValue [Inhabited α] {source : Except PffError α} (reads : NotSink source)
    (nodeId : Option Nat) (operation : String) :
    Steady 0 (recoverItemValue nodeId operation source) := by
  cases source with
  | ok value => exact steady_pure value
  | error error =>
      exact .then (steady_recordItemIssue (reads error rfl) _ _) fun _ => steady_pure default

theorem steady_recoverAttachmentValue [Inhabited α] {source : Except PffError α}
    (reads : NotSink source) (messageId : Nat) (operation : String) :
    Steady 0 (recoverAttachmentValue messageId operation source) := by
  cases source with
  | ok value => exact steady_pure value
  | error error =>
      exact .then (steady_recordAttachmentIssue (reads error rfl) _ _) fun _ => steady_pure default

theorem steady_containFiletime (messageId : Nat) (operation : String) (value : Option Nat) :
    Steady 0 (containFiletime messageId operation value) := by
  cases value with
  | none => exact steady_pure none
  | some time => exact .then (steady_provided (steady_recordIssue _)) fun _ => steady_pure _

theorem steady_defer (payload : DeferredPayload) : Steady 0 (defer payload) :=
  steady_modify (fun _ => rfl) fun _ => rfl

variable (takes : sink.Takes)
include takes

theorem streamEntryFrom_steady (descriptor : PropertyDescriptor) {stream : NativeStream}
    (reads : ∀ position requested, NotSink (stream position requested)) (limit : Nat) (ends : Bool)
    (turns total : Nat) :
    Steady 0 (streamEntryFrom sink descriptor stream limit ends turns total) := by
  induction turns generalizing total with
  | zero => exact steady_pure total
  | succ turns ih =>
      unfold streamEntryFrom
      split
      · exact steady_pure total
      · refine .then (steady_attempt (reads _ _)) fun bytes => ?_
        split
        · exact steady_pure total
        · refine .then (steady_attempt (notSink_refuse rfl)) fun _ => ?_
          refine .then (steady_attempt (notSink_refuse rfl)) fun _ => ?_
          exact .then (steady_emit takes _ _) fun _ => ih _

theorem abortProperty_steady (descriptor : PropertyDescriptor) {error : PffError}
    (kind : error.isSink = false) : Steady 0 (abortProperty sink descriptor error) :=
  .then (steady_emit takes _ _) fun _ => steady_throw kind

theorem streamProperty_steady (owner : PropertyOwner) (recordSetIndex entryIndex : Nat)
    (embeddedPath : List Nat) {entry : NativeEntry} (reads : entry.Reads) :
    Steady 0 (streamProperty sink owner recordSetIndex entryIndex embeddedPath entry) := by
  refine .then (steady_attempt reads.entryType) fun entryType => ?_
  refine .then (steady_attempt reads.valueType) fun valueType => ?_
  refine .then (steady_attempt reads.dataSize) fun dataSize => ?_
  refine .then (steady_attempt reads.identity) fun identity => .then ?_ fun _ => ?_
  · cases identity with
    | none => exact steady_pure ()
    | some identity => exact steady_emit takes _ _
  · refine .then (steady_emit takes _ _) fun _ => .then ?_ fun actual => ?_
    · refine .onError (streamEntryFrom_steady takes _ reads.stream _ _ _ _) fun error kind => ?_
      refine .then (steady_attempt (notSink_refuse kind)) fun _ => ?_
      exact .then (abortProperty_steady takes _ kind) fun _ => steady_pure 0
    · refine .then (steady_provided (abortProperty_steady takes _ rfl)) fun _ => ?_
      refine .then (steady_emit takes _ _) fun _ => ?_
      refine .then (steady_provided (steady_defer _)) fun _ => ?_
      exact steady_count (fun _ => rfl) fun _ room =>
        ⟨room.messages, room.recovered, room.orphan, room.fragment⟩

theorem streamEntries_steady (owner : PropertyOwner) (recordSetIndex : Nat)
    (embeddedPath : List Nat) {entries : List (Except PffError NativeEntry)}
    (reads : ∀ answer ∈ entries, NotSink answer ∧ ∀ entry, answer = .ok entry → entry.Reads)
    (entryIndex : Nat) :
    Steady 0 (streamEntries sink owner recordSetIndex embeddedPath entryIndex entries) := by
  induction entries generalizing entryIndex with
  | nil => exact steady_pure ()
  | cons answer entries ih =>
      obtain ⟨readsFirst, readsRest⟩ := List.forall_mem_cons.mp reads
      refine .attempt_bind readsFirst.1 fun entry read => ?_
      exact .then (streamProperty_steady takes _ _ _ _ (readsFirst.2 entry read)) fun _ =>
        ih readsRest _

theorem streamRecordSet_steady (owner : PropertyOwner) (recordSetIndex : Nat)
    (embeddedPath : List Nat) {set : NativeRecordSet} (reads : set.Reads) :
    Steady 0 (streamRecordSet sink owner recordSetIndex embeddedPath set) := by
  refine .attempt_bind reads.entries.1 fun entries read => ?_
  refine .then (steady_discard (steady_attempt (notSink_nativeCount _ _))) fun _ => ?_
  exact streamEntries_steady takes _ _ _ (reads.entries.2 entries read) 0

theorem streamRecordSets_steady (owner : PropertyOwner) (embeddedPath : List Nat)
    {sets : List (Except PffError NativeRecordSet)}
    (reads : ∀ answer ∈ sets, NotSink answer ∧ ∀ set, answer = .ok set → set.Reads) (index : Nat) :
    Steady 0 (streamRecordSets sink owner embeddedPath index sets) := by
  induction sets generalizing index with
  | nil => exact steady_pure ()
  | cons answer sets ih =>
      obtain ⟨readsFirst, readsRest⟩ := List.forall_mem_cons.mp reads
      refine .attempt_bind readsFirst.1 fun set read => ?_
      exact .then (streamRecordSet_steady takes _ _ _ (readsFirst.2 set read)) fun _ =>
        ih readsRest _

theorem streamItemProperties_steady {recordSets : NativeRecordSets}
    (reads : EveryRead NativeRecordSet.Reads recordSets) (owner : PropertyOwner)
    (embeddedPath : List Nat) :
    Steady 0 (streamItemProperties sink recordSets owner embeddedPath) := by
  refine .attempt_bind reads.1 fun sets read => ?_
  refine .then (steady_discard (steady_attempt (notSink_nativeCount _ _))) fun _ => ?_
  exact streamRecordSets_steady takes _ _ (reads.2 sets read) 0

theorem streamRecipientsFrom_steady (messageId : Nat) (embeddedPath : List Nat)
    {sets : List (Except PffError NativeRecordSet)}
    (reads : ∀ answer ∈ sets, NotSink answer ∧ ∀ set, answer = .ok set → set.Reads) (index : Nat) :
    Steady 0 (streamRecipientsFrom sink messageId embeddedPath index sets) := by
  induction sets generalizing index with
  | nil => exact steady_pure ()
  | cons answer sets ih =>
      obtain ⟨readsFirst, readsRest⟩ := List.forall_mem_cons.mp reads
      refine .attempt_bind readsFirst.1 fun set read => ?_
      have reads := readsFirst.2 set read
      refine .then (steady_attempt (reads.optionalU32 _)) fun recipientType => ?_
      refine .then (steady_attempt (reads.optionalString _)) fun displayName => ?_
      refine .then (steady_attempt (reads.optionalString _)) fun emailAddress => ?_
      refine .then (steady_attempt (reads.optionalString _)) fun addressType => ?_
      refine .then (steady_emit takes _ _) fun _ => ?_
      refine .then (steady_count (fun _ => rfl) fun _ room =>
        ⟨room.messages, room.recovered, room.orphan, room.fragment⟩) fun _ => ?_
      exact .then (streamRecordSet_steady takes _ _ _ reads) fun _ => ih readsRest _

theorem streamRecipients_steady {message : NativeMessage} (reads : message.Reads)
    (messageId : Nat) (countHint : Option Nat) (embeddedPath : List Nat) :
    Steady 0 (streamRecipients sink message messageId countHint embeddedPath) := by
  unfold streamRecipients
  split
  · exact steady_pure ()
  · refine .attempt_bind reads.recipients.1 fun recipients read => ?_
    cases recipients with
    | none => exact steady_pure ()
    | some recipients =>
        have readsSets := reads.recipients.2 recipients read
        refine .attempt_bind readsSets.1 fun sets readSets => ?_
        refine .then (steady_discard (steady_attempt (notSink_nativeCount _ _))) fun _ => ?_
        exact streamRecipientsFrom_steady takes _ _ (readsSets.2 sets readSets) 0

theorem streamAttachmentFrom_steady (messageId index : Nat) {stream : NativeStream}
    (reads : ∀ position requested, NotSink (stream position requested)) (limit : Nat) (ends : Bool)
    (turns total : Nat) :
    Steady 0 (streamAttachmentFrom sink messageId index stream limit ends turns total) := by
  induction turns generalizing total with
  | zero => exact steady_pure total
  | succ turns ih =>
      unfold streamAttachmentFrom
      split
      · exact steady_pure total
      · refine .then (steady_attempt (reads _ _)) fun bytes => ?_
        split
        · exact steady_pure total
        · refine .then (steady_attempt (notSink_refuse rfl)) fun _ => ?_
          refine .then (steady_provided (steady_emit takes _ _)) fun _ => ?_
          exact .then (steady_attempt (notSink_refuse rfl)) fun _ => ih _

theorem streamAttachment_steady (messageId index expected : Nat) (request : PayloadRequest)
    {attachment : NativeAttachment} (reads : attachment.Reads) :
    Steady 0 (streamAttachment sink messageId index expected request attachment) := by
  refine .then (steady_attempt reads.seekStart) fun _ => ?_
  refine .then (streamAttachmentFrom_steady takes _ _ reads.data _ _ _ _) fun total => ?_
  exact .then (steady_attempt (notSink_refuse rfl)) fun _ => steady_pure total

theorem streamAttachmentProperties_steady {attachment : NativeAttachment}
    (reads : attachment.Reads) (messageId index : Nat) (embeddedPath : List Nat) :
    Steady 0 (streamAttachmentProperties sink attachment messageId index embeddedPath) :=
  .onError (streamItemProperties_steady takes reads.recordSets _ _) fun _ kind =>
    steady_recordAttachmentIssue kind _ _

end Leaves

section Openings

variable {sink : CatalogSink} {α : Type}

theorem notSink_discard {source : Except PffError α} (reads : NotSink source) :
    NotSink (discard source) := by
  cases source with
  | error error => exact fun other same => reads other (by cases same; rfl)
  | ok value => exact fun _ same => nomatch same

theorem firstRecordSet_reads {recordSets : NativeRecordSets}
    (reads : EveryRead NativeRecordSet.Reads recordSets) :
    NotSink (firstRecordSet recordSets) ∧
      ∀ set, firstRecordSet recordSets = .ok (some set) → set.Reads := by
  constructor
  · refine notSink_bind reads.1 fun sets read => ?_
    refine notSink_bind (notSink_discard (notSink_nativeCount _ _)) fun _ _ => ?_
    cases sets with
    | nil => exact notSink_ok _
    | cons answer sets =>
        have readsAnswer := (reads.2 _ read answer List.mem_cons_self).1
        exact notSink_bind readsAnswer fun _ _ => notSink_ok _
  · intro set same
    obtain ⟨sets, read, same⟩ := bind_eq_ok.mp same
    obtain ⟨_, -, same⟩ := bind_eq_ok.mp same
    cases sets with
    | nil => cases same
    | cons answer sets =>
        obtain ⟨value, readValue, same⟩ := bind_eq_ok.mp same
        cases same
        exact (reads.2 _ read answer List.mem_cons_self).2 set readValue

theorem attachmentMethod_reads {attachment : NativeAttachment} (reads : attachment.Reads) :
    NotSink (attachmentMethod attachment) := by
  obtain ⟨readsFirst, readsSet⟩ := firstRecordSet_reads reads.recordSets
  refine notSink_bind readsFirst fun set read => ?_
  cases set with
  | none => exact notSink_ok _
  | some set => exact (readsSet set read).optionalU32 _

theorem attachmentFilename_reads {attachment : NativeAttachment} (reads : attachment.Reads) :
    NotSink (attachmentFilename attachment) := by
  obtain ⟨readsFirst, readsSet⟩ := firstRecordSet_reads reads.recordSets
  refine notSink_bind readsFirst fun set read => ?_
  cases set with
  | none => exact notSink_ok _
  | some set =>
      refine notSink_bind ((readsSet set read).optionalString _) fun filename _ => ?_
      cases filename with
      | none => exact (readsSet set read).optionalString _
      | some filename => exact notSink_ok _

theorem steady_unlessReference {isReference : Bool} {known : α} {program : Traversing α}
    (steady : Steady 0 program) : Steady 0 (unlessReference isReference known program) := by
  unfold unlessReference
  split
  · exact steady_pure known
  · exact steady

variable (takes : sink.Takes)
include takes

theorem properties_steady {opened : OpenAttachment} (reads : opened.attachment.Reads) :
    Steady 0 (opened.properties sink) :=
  streamAttachmentProperties_steady takes reads _ _ _

theorem openAttachment_steady (messageId index : Nat) (embeddedPath : List Nat)
    {attachment : NativeAttachment} (reads : attachment.Reads) :
    Steady 0 (openAttachment sink messageId index embeddedPath attachment) := by
  refine .then (steady_recoverAttachmentValue (attachmentMethod_reads reads) _ _) fun method => ?_
  refine .then (steady_unlessReference
    (steady_recoverAttachmentValue reads.attachmentType _ _)) fun attachmentType => ?_
  refine .then (steady_unlessReference
    (steady_recoverAttachmentValue reads.attachmentSize _ _)) fun dataSize => ?_
  refine .then (steady_recoverAttachmentValue (attachmentFilename_reads reads) _ _)
    fun filename => ?_
  refine .then (steady_emit takes _ _) fun _ => .then (steady_count (fun _ => rfl) fun _ room =>
    ⟨room.messages, room.recovered, room.orphan, room.fragment⟩) fun _ => ?_
  refine .then (steady_provided (streamAttachmentProperties_steady takes reads _ _ _)) fun _ => ?_
  exact steady_pure _

omit takes in
theorem openAttachment_run {messageId index : Nat} {embeddedPath : List Nat}
    {attachment : NativeAttachment} {traversal behind : Traversal} {opened : OpenAttachment}
    (run : openAttachment sink messageId index embeddedPath attachment traversal =
      .ok opened behind) : opened.attachment = attachment := by
  obtain ⟨method, _, -, run⟩ := bind_run_ok.mp run
  obtain ⟨attachmentType, _, -, run⟩ := bind_run_ok.mp run
  obtain ⟨dataSize, _, -, run⟩ := bind_run_ok.mp run
  obtain ⟨filename, _, -, run⟩ := bind_run_ok.mp run
  obtain ⟨_, _, -, run⟩ := bind_run_ok.mp run
  obtain ⟨_, _, -, run⟩ := bind_run_ok.mp run
  obtain ⟨_, _, -, run⟩ := bind_run_ok.mp run
  rw [pure_run_ok] at run
  rw [run.1]

variable {opened : OpenAttachment} (reads : opened.attachment.Reads)
include reads

theorem finish_steady : Steady 0 (opened.finish sink) :=
  .then (steady_provided (properties_steady takes reads)) fun _ => steady_emit takes _ _

theorem giveUp_steady {error : PffError} (kind : error.isSink = false) (operation : String) :
    Steady 0 (opened.giveUp sink operation error) := by
  refine .then (steady_provided (properties_steady takes reads)) fun _ => ?_
  exact .then (steady_emit takes _ _) fun _ => steady_recordAttachmentIssue kind _ _

theorem close_steady (expected : Nat) (deferring : Bool) (streamed : Option Nat) :
    Steady 0 (opened.close sink expected deferring streamed) := by
  cases streamed with
  | none => exact steady_pure ()
  | some actual =>
      refine .then (steady_count (fun _ => rfl) fun _ room =>
        ⟨room.messages, room.recovered, room.orphan, room.fragment⟩) fun _ => ?_
      split
      · exact .then (steady_defer _) fun _ => steady_emit takes _ _
      · exact finish_steady takes reads

theorem content_steady : Steady 0 (opened.content sink) := by
  refine .then (steady_attempt ?_) fun expected => .then (steady_attempt ?_) fun mimeType => ?_
  · cases opened.dataSize with
    | none => exact fun error same => by cases same; rfl
    | some size => exact notSink_ok _
  · obtain ⟨mimeType, probed⟩ := takes.probe opened.messageId opened.index expected opened.filename
      opened.attachment.data
    rw [probed]
    exact notSink_ok _
  · refine .then ?_ fun _ => .then (.onError ?_ fun error kind => ?_) fun streamed => ?_
    · cases mimeType with
      | none => exact steady_pure ()
      | some mimeType => exact steady_emit takes _ _
    · exact fun _ _ _ _ _ => Mirrors.map _ (streamAttachment_steady takes _ _ _ _ reads _ _ _ _ _)
    · refine .then (steady_attempt (notSink_refuse kind)) fun _ => ?_
      exact .then (giveUp_steady takes reads kind _) fun _ => steady_pure none
    · exact close_steady takes reads _ _ _

theorem withoutItem_steady {item : Except PffError Unit} (readsItem : NotSink item) :
    Steady 0 (opened.withoutItem sink item) := by
  unfold OpenAttachment.withoutItem
  split
  · cases item with
    | ok found => exact giveUp_steady takes reads rfl _
    | error error =>
        have kind : error.isSink = false := readsItem error rfl
        dsimp only
        rw [if_neg (ne_true_of_eq_false kind)]
        exact giveUp_steady takes reads kind _
  · split
    · exact finish_steady takes reads
    · exact content_steady takes reads

end Openings

section Messages

variable {sink : CatalogSink} {work : MessageWork} (takes : sink.Takes) (reads : work.message.Reads)

theorem attempt_ok_bind {α β : Type} (value : α) (next : α → Traversing β) :
    (attempt (.ok value) >>= next) = next value := rfl

theorem recordIssue_issueCount (issue : CatalogIssue) (catalog : RawCatalog) :
    (catalog.recordIssue issue).issueCount ≠ catalog.issueCount := by
  unfold RawCatalog.recordIssue RawCatalog.issueCount
  dsimp only
  split
  · exact fun same => by simpa using congrArg Prod.fst same
  · exact fun same => by simpa using congrArg Prod.snd same

theorem readIdentifier_run (message : NativeMessage) (traversal : Traversal) :
    readIdentifier message traversal =
      match message.identifier with
      | .ok identifier => .ok (identifier, true) traversal
      | .error error =>
          match recordItemIssue none "get message identifier" error traversal with
          | .ok _ behind => .ok (0, false) behind
          | .error error behind => .error error behind := by
  unfold readIdentifier
  cases message.identifier with
  | ok identifier =>
      have same : decide (traversal.catalog.issueCount = traversal.catalog.issueCount) = true :=
        decide_eq_true rfl
      change EStateM.Result.ok (identifier,
        decide (traversal.catalog.issueCount = traversal.catalog.issueCount)) traversal = _
      rw [same]
  | error error =>
      unfold recordItemIssue
      by_cases ends : (error.isSink || error.isLimit) = true
      · simp only [recoverItemValue, recordItemIssue, if_pos ends]
        rfl
      · simp only [recoverItemValue, recordItemIssue, if_neg ends]
        have other := decide_eq_false (recordIssue_issueCount
          ⟨none, "get message identifier", error.text⟩ traversal.catalog)
        change EStateM.Result.ok ((0 : Nat), decide ((traversal.catalog.recordIssue
          ⟨none, "get message identifier", error.text⟩).issueCount =
            traversal.catalog.issueCount)) _ = _
        rw [other]
        rfl

theorem readIdentifier_steady {message : NativeMessage} (reads : message.Reads) :
    Steady 0 (readIdentifier message) := by
  refine .zero fun _ _ _ _ room s t paired => ?_
  rw [readIdentifier_run, readIdentifier_run]
  cases answer : message.identifier with
  | ok identifier => exact ⟨rfl, paired⟩
  | error error =>
      have recorded := steady_recordItemIssue (reads.identifier error answer) none
        "get message identifier" _ _ _ _ room s t (by rwa [Nat.zero_add])
      revert recorded
      dsimp only
      cases recordItemIssue none "get message identifier" error s <;>
        cases recordItemIssue none "get message identifier" error t <;> intro recorded
      · exact ⟨rfl, recorded.2⟩
      · exact False.elim recorded
      · exact False.elim recorded
      · exact recorded

/-- There is room for a message to be counted. -/
theorem countMessage_ok {room : Nat} {catalog : RawCatalog} (left : Room (1 + room) catalog)
    (work : MessageWork) : ∃ counts, countMessage work catalog = .ok counts ∧
      Room room { catalog with
        messages := counts.messages
        recoveredMessages := counts.recoveredMessages
        orphanMessages := counts.orphanMessages
        fragmentMessages := counts.fragmentMessages } := by
  have one : ∀ {value : Nat} {field : String}, value + (1 + room) ≤ maxMessages →
      checkedIncrement value field maxMessages = .ok (value + 1) := by
    intro value field below
    unfold checkedIncrement refuse
    rw [if_neg (by omega)]
    rfl
  unfold countMessage
  rw [one left.messages]
  cases work.provenance <;>
    simp only [reduceCtorEq, if_true, if_false, one left.recovered, one left.orphan,
      one left.fragment, bind, Except.bind, pure, Except.pure] <;>
    refine ⟨_, rfl, ?_⟩ <;>
    obtain ⟨messages, recovered, orphan, fragment⟩ := left <;>
    constructor <;> dsimp only <;> omega

include reads

theorem readMetadata_steady (messageId : Nat) : Steady 0 (readMetadata work messageId) := by
  refine .then (steady_recoverItemValue (reads.messageString _) _ _) fun messageClass => ?_
  refine .then (steady_recoverItemValue (reads.optionalU32 _) _ _) fun recipientCountHint => ?_
  refine .then (steady_recoverItemValue reads.itemType _ _) fun itemType => ?_
  refine .then (steady_recoverItemValue (reads.messageString _) _ _) fun subject => ?_
  refine .then (steady_recoverItemValue (reads.messageString _) _ _) fun senderName => ?_
  refine .then (steady_recoverItemValue (reads.messageString _) _ _) fun senderEmail => ?_
  refine .then (steady_recoverItemValue reads.clientSubmitTime _ _) fun submitted => ?_
  refine .then (steady_containFiletime _ _ _) fun submitFiletime => ?_
  refine .then (steady_recoverItemValue reads.deliveryTime _ _) fun delivered => ?_
  exact .then (steady_containFiletime _ _ _) fun deliveryFiletime => steady_pure _

include takes in
theorem startMessage_steady (messageId : Nat) : Steady 1 (startMessage sink work messageId) := by
  intro before before' around around' room
  refine Mirrors.get_bind fun s t paired => ?_
  obtain ⟨counts, counted, left⟩ := countMessage_ok paired.left work
  obtain ⟨counts', counted', right⟩ := countMessage_ok paired.right work
  have metadata := readMetadata_steady reads messageId before before' around around' (1 + room)
  rw [Nat.zero_add] at metadata
  rw [counted, counted', attempt_ok_bind, attempt_ok_bind]
  refine Mirrors.bind metadata (fun _ _ => Paired.mono) fun value => ?_
  have emitted := steady_emit takes "message metadata" (.messageStart
    ⟨messageId, work.provenance, work.recoveryIndex, value.1⟩) before before' around around'
      (1 + room)
  rw [Nat.zero_add] at emitted
  refine Mirrors.bind emitted (fun _ _ => Paired.mono) fun _ => ?_
  refine Mirrors.bind ?_ (fun _ _ (paired : Paired before before' around around' room _ _) =>
    paired) fun _ => Mirrors.of_pure _
  refine Mirrors.of_modify fun s' t' paired => ⟨paired.events, paired.active, ?_, ?_⟩
  · exact ⟨left.messages, left.recovered, left.orphan, left.fragment⟩
  · exact ⟨right.messages, right.recovered, right.orphan, right.fragment⟩

include takes in
theorem messageBody_steady (messageId attachmentCount : Nat) {messages : Nat}
    {attachments : Traversing Unit} (steady : Steady messages attachments) :
    Steady (1 + messages) (messageBody sink work messageId attachmentCount attachments) := by
  have properties : Steady 0 (onError
      (streamItemProperties sink work.message.recordSets (.message messageId) work.embeddedPath)
      (recordItemIssue (some messageId) "stream message properties")) :=
    .onError (streamItemProperties_steady takes reads.recordSets _ _) fun _ kind =>
      steady_recordItemIssue kind _ _
  refine .bind (startMessage_steady takes reads messageId) fun recipientCountHint => ?_
  refine .then (.onError (streamRecipients_steady takes reads _ _ _) fun _ kind =>
    steady_recordItemIssue kind _ _) fun _ => ?_
  cases counted : (do work.message.attachmentCount; nativeCount maxRecordEntries attachmentCount :
      Except PffError Nat) with
  | ok count =>
      refine Steady.bind (.onError steady fun _ kind => ?_) fun _ => properties
      exact steady_recordAttachmentIssue kind _ _
  | error error =>
      have kind : error.isSink = false :=
        notSink_bind reads.attachmentCount (fun _ _ => notSink_nativeCount _ _) error counted
      refine Steady.weaken (.then (steady_recordAttachmentIssue kind _ _) fun _ => properties) _

end Messages

section Nesting

variable {sink : CatalogSink} (takes : sink.Takes)

/-- The flag of a message that ends. -/
def endFlag (messageId : Nat) (identifierComplete : Bool) (traversal : Traversal) : Bool :=
  identifierComplete &&
    decide (traversal.catalog.activeMessageIssues.head? = some (messageId, 0))

/-- The state behind the end of a message. -/
def ended (messageId : Nat) (identifierComplete : Bool) (traversal : Traversal) : Traversal :=
  { closing identifierComplete traversal with
    seen := (closing identifierComplete traversal).seen ++
      [.event (.messageEnd messageId (endFlag messageId identifierComplete traversal))] }

/-- The state where a message is left without an end. -/
def abandoned (traversal : Traversal) : Traversal :=
  { traversal with seen := traversal.seen ++ [.abandoned] }

theorem paired_ended {before before' : List CatalogEvent} {around around' room high high' : Nat}
    {s t : Traversal} (paired : Paired before before' around around' room s t)
    (above : Paired before before' high high' room s t) (higher : around < high) (messageId : Nat)
    (identifierComplete : Bool) :
    Paired before before' around around' room (ended messageId identifierComplete s)
      (ended messageId identifierComplete t) := by
  obtain ⟨shown, left, right⟩ := paired.events
  obtain ⟨within, outer, outer', activeLeft, activeRight, length, length'⟩ := paired.active
  obtain ⟨_, beyond, _, activeAbove, _, lengthAbove, _⟩ := above.active
  have some : within ≠ [] := by
    rintro rfl
    rw [activeLeft, List.nil_append] at activeAbove
    have lengths := congrArg List.length activeAbove
    rw [List.length_append] at lengths
    omega
  obtain ⟨entry, rest, rfl⟩ := List.exists_cons_of_ne_nil some
  have flag : endFlag messageId identifierComplete s = endFlag messageId identifierComplete t := by
    unfold endFlag
    rw [activeLeft, activeRight]
    rfl
  refine ⟨⟨shown ++ [.messageEnd messageId (endFlag messageId identifierComplete s)], ?_, ?_⟩,
    ?_, ?_, ?_⟩
  · unfold ended closing
    rw [eventsSeen_snoc, eventsSeen_snoc, left]
    simp [eventsSeen]
  · unfold ended closing
    rw [eventsSeen_snoc, eventsSeen_snoc, right, flag]
    simp [eventsSeen]
  · cases identifierComplete with
    | true =>
        refine ⟨rest, outer, outer', ?_, ?_, length, length'⟩
        · simp [ended, closing, activeLeft]
        · simp [ended, closing, activeRight]
    | false => exact ⟨entry :: rest, outer, outer', activeLeft, activeRight, length, length'⟩
  · exact ⟨paired.left.messages, paired.left.recovered, paired.left.orphan, paired.left.fragment⟩
  · exact ⟨paired.right.messages, paired.right.recovered, paired.right.orphan,
      paired.right.fragment⟩

include takes

theorem reportMessage_run (messageId : Nat) (identifierComplete : Bool) (body : Traversing Unit)
    (traversal : Traversal) :
    reportMessage sink messageId identifierComplete body traversal =
      match body (captured messageId identifierComplete traversal) with
      | .ok _ behind => .ok () (ended messageId identifierComplete behind)
      | .error error behind => .error error (abandoned behind) := by
  change onError (body >>= fun _ => endMessage sink messageId identifierComplete)
    (fun error => do observe .abandoned; throw error)
    (captured messageId identifierComplete traversal) = _
  unfold onError
  rw [run_bind]
  cases body (captured messageId identifierComplete traversal) with
  | error error behind => rfl
  | ok value behind =>
      simp only [endMessage_run, emit_run, takes.event]
      rfl

theorem reportMessage_steady {messages : Nat} {body : Traversing Unit}
    (steady : Steady messages body)
    (messageId : Nat) (identifierComplete : Bool) :
    Steady messages (reportMessage sink messageId identifierComplete body) := by
  intro before before' around around' room s t paired
  obtain ⟨shown, left, right⟩ := paired.events
  obtain ⟨within, outer, outer', activeLeft, activeRight, length, length'⟩ := paired.active
  have events : ∃ shown,
      eventsSeen (captured messageId identifierComplete s).seen = before ++ shown ∧
      eventsSeen (captured messageId identifierComplete t).seen = before' ++ shown := by
    refine ⟨shown, ?_, ?_⟩
    · unfold captured
      rw [eventsSeen_snoc, left]
      exact List.append_nil _
    · unfold captured
      rw [eventsSeen_snoc, right]
      exact List.append_nil _
  have roomLeft : Room (messages + room) (captured messageId identifierComplete s).catalog :=
    ⟨paired.left.messages, paired.left.recovered, paired.left.orphan, paired.left.fragment⟩
  have roomRight : Room (messages + room) (captured messageId identifierComplete t).catalog :=
    ⟨paired.right.messages, paired.right.recovered, paired.right.orphan, paired.right.fragment⟩
  -- the entry of the message is compared, and it is also known to stay
  have here := steady before before' around around' room
    (captured messageId identifierComplete s) (captured messageId identifierComplete t)
    ⟨events, ⟨(messageId, 0) :: within, outer, outer', by rw [captured, activeLeft]; rfl,
      by rw [captured, activeRight]; rfl, length, length'⟩, roomLeft, roomRight⟩
  have above := steady before before'
    (captured messageId identifierComplete s).catalog.activeMessageIssues.length
    (captured messageId identifierComplete t).catalog.activeMessageIssues.length room
    (captured messageId identifierComplete s) (captured messageId identifierComplete t)
    ⟨events, ⟨[], _, _, rfl, rfl, rfl, rfl⟩, roomLeft, roomRight⟩
  have higher :
      around < (captured messageId identifierComplete s).catalog.activeMessageIssues.length := by
    unfold captured
    rw [activeLeft, List.length_cons, List.length_append]
    omega
  rw [reportMessage_run takes, reportMessage_run takes]
  revert here above
  cases body (captured messageId identifierComplete s) <;>
    cases body (captured messageId identifierComplete t) <;> intro here above
  · exact ⟨rfl, paired_ended here.2 above.2 higher messageId identifierComplete⟩
  · exact False.elim here
  · exact False.elim here
  · refine ⟨here.1, here.2.1, here.2.2.of_same rfl rfl ?_ ?_⟩
    · unfold abandoned
      rw [eventsSeen_snoc]
      exact List.append_nil _
    · unfold abandoned
      rw [eventsSeen_snoc]
      exact List.append_nil _

/-- An embedded message; only at the top level it matters which messages were reported before. -/
theorem processMessageWith_steady {work : MessageWork} (reads : work.message.Reads)
    (embedded : work.embeddedPath ≠ []) (attachmentCount : Nat) {messages : Nat}
    {attachments : (messageId : Nat) → Traversing Unit}
    (steady : ∀ messageId, Steady messages (attachments messageId)) :
    Steady (1 + messages) (processMessageWith sink work attachmentCount attachments) := by
  refine .then (readIdentifier_steady reads) fun identified => ?_
  intro before before' around around' room
  refine Mirrors.get_bind fun s t paired => ?_
  have unseen : ∀ visited, stableTopLevelIdentifierSeen visited identified.1 work.embeddedPath =
      false := by
    intro visited
    unfold stableTopLevelIdentifierSeen
    exact decide_eq_false fun seen => embedded seen.1
  rw [unseen, unseen]
  have body := messageBody_steady takes reads identified.1 attachmentCount (steady identified.1)
  have reported := reportMessage_steady takes body identified.1 identified.2
  refine Mirrors.bind (reported _ _ _ _ _) (fun _ _ paired => paired) fun _ => ?_
  have retaining : Steady 0 (modify fun traversal => { traversal with
      retained := traversal.retained ++ [work.embeddedPath] } : Traversing Unit) :=
    steady_modify (fun _ => rfl) fun _ => rfl
  have same := retaining before before' around around' room
  rwa [Nat.zero_add] at same

end Nesting

section Tables

variable {sink : CatalogSink} (takes : sink.Takes)

theorem embeddedWork_path {work embedded : MessageWork} {opened : OpenAttachment}
    {message : NativeMessage} (found : embeddedWork work opened message = .ok embedded) :
    embedded.embeddedPath ≠ [] ∧ embedded.message = message := by
  obtain ⟨_, -, same⟩ := bind_eq_ok.mp found
  cases same
  exact ⟨List.concat_ne_nil _ _, rfl⟩

theorem embeddedWork_error {work : MessageWork} {opened : OpenAttachment} {message : NativeMessage}
    {error : PffError} (failed : embeddedWork work opened message = .error error) :
    error.isSink = false := by
  have reads : NotSink (embeddedWork work opened message) :=
    notSink_bind (notSink_refuse rfl) fun _ _ => notSink_ok _
  exact reads error failed

include takes

theorem withItem_steady {opened : OpenAttachment} (reads : opened.attachment.Reads)
    (work : MessageWork) (message : NativeMessage) (inner : AttachmentTable) {messages : Nat}
    {process : MessageWork → Traversing Unit}
    (steady : ∀ embedded, embeddedWork work opened message = .ok embedded →
      Steady messages (process embedded)) :
    Steady messages (opened.withItem sink work message inner process) := by
  unfold OpenAttachment.withItem
  split
  · cases found : embeddedWork work opened message with
    | error error =>
        exact Steady.weaken (giveUp_steady takes reads (embeddedWork_error found) _) messages
    | ok embedded =>
        dsimp only
        split
        · exact (steady embedded found).bind fun _ => finish_steady takes reads
        · refine Steady.weaken (.then (finish_steady takes reads) fun _ => ?_) messages
          exact steady_modify (fun _ => rfl) fun _ => rfl
  · split
    · exact Steady.weaken (finish_steady takes reads) messages
    · exact Steady.weaken (content_steady takes reads) messages

theorem streamAttachments_steady (work : MessageWork) (messageId index : Nat)
    (table : AttachmentTable) (reads : table.Reads) :
    Steady table.messages (streamAttachments sink work messageId index table) := by
  induction table generalizing work messageId index with
  | nil => exact steady_pure ()
  | unreadable error rest ih =>
      obtain ⟨kind, readsRest⟩ := reads
      unfold streamAttachments
      refine .then (steady_emit takes _ _) fun _ => ?_
      refine .then (steady_count (fun _ => rfl) fun _ room =>
        ⟨room.messages, room.recovered, room.orphan, room.fragment⟩) fun _ => ?_
      refine .then (steady_emit takes _ _) fun _ => ?_
      exact .then (steady_recordAttachmentIssue kind _ _) fun _ => ih _ _ _ readsRest
  | plain attachment item rest ih =>
      obtain ⟨readsAttachment, readsItem, readsRest⟩ := reads
      unfold streamAttachments
      refine .then_of (openAttachment_steady takes _ _ _ readsAttachment)
        (fun _ _ _ => openAttachment_run) fun opened same => ?_
      refine .then (withoutItem_steady takes ?_ readsItem) fun _ => ih _ _ _ readsRest
      rw [same]
      exact readsAttachment
  | embedded attachment message inner rest ihInner ih =>
      obtain ⟨readsAttachment, readsMessage, readsInner, readsRest⟩ := reads
      unfold streamAttachments
      refine .then_of (openAttachment_steady takes _ _ _ readsAttachment)
        (fun _ _ _ => openAttachment_run) fun opened same => ?_
      have readsOpened : opened.attachment.Reads := by
        rw [same]
        exact readsAttachment
      have inside : Steady (1 + inner.messages) (opened.withItem sink work message inner
          fun embedded => processMessageWith sink embedded inner.length fun id =>
            streamAttachments sink embedded id 0 inner) := by
        refine withItem_steady takes readsOpened work message inner fun embedded found => ?_
        obtain ⟨path, rfl⟩ := embeddedWork_path found
        exact processMessageWith_steady takes readsMessage path _ fun id =>
          ihInner embedded id 0 readsInner
      have both := inside.bind fun _ => ih work messageId (index + 1) readsRest
      rwa [Nat.add_comm 1] at both

end Tables

end PstForge.Catalog
