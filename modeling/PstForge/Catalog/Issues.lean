import PstForge.Catalog.Traversal
import Mathlib.Data.List.Forall2

/-! # Issues and the ends of messages

The end of a message tells whether the message is complete. To know it, the worker counts
the issues of every message that it is within, by the identifiers of the messages. This
module follows what an observer sees of a traversal, and compares the flags at the ends
of the messages with the issues that were seen.
-/

namespace PstForge.Catalog

open PstForge.Foundation

section Reports

/-- Whether an event stands within an item: it neither starts nor ends one. -/
def CatalogEvent.isContent : CatalogEvent → Bool
  | .recipient _ _ | .attachmentMimeProbe _ _ _ | .attachmentData _ _ _ | .propertyStart _
  | .namedProperty _ _ | .propertyData _ _ | .deferredPropertyData _ _ _
  | .deferredAttachmentData _ _ _ | .propertyEnd _ | .propertyAbort _ _ => true
  | .unitStart _ | .unitEnd _ | .folder _ _ _ _ | .messageStart _ | .attachmentStart _ _
  | .attachmentEnd _ _ | .attachmentAbort _ _ | .messageEnd _ _ | .topLevelMetadataEnd
  | .topLevelPayloadEnd => false

def CatalogEvent.isMessageEnd : CatalogEvent → Bool
  | .messageEnd _ _ => true
  | _ => false

theorem CatalogEvent.not_messageEnd_of_isContent {event : CatalogEvent}
    (content : event.isContent = true) : event.isMessageEnd = false := by
  cases event <;> first | rfl | cases content

/-- Events of a kind, or issues. -/
def Shown (allowed : CatalogEvent → Prop) : Activity → Prop
  | .event event => allowed event
  | .issue _ => True
  | .begun _ _ | .closing _ | .abandoned => False

/-- How the numbers of issues change while no message begins or ends. -/
def track (active : List (Nat × Nat)) : Activity → List (Nat × Nat)
  | .issue issue => countIssue issue.nodeId active
  | .event _ | .begun _ _ | .closing _ | .abandoned => active

/-- Between two states only events of a kind and issues are seen. -/
def Reports (allowed : CatalogEvent → Prop) (before behind : Traversal) : Prop :=
  ∃ shown, behind.seen = before.seen ++ shown ∧ (∀ activity ∈ shown, Shown allowed activity) ∧
    behind.catalog.activeMessageIssues = shown.foldl track before.catalog.activeMessageIssues

variable {allowed : CatalogEvent → Prop} {α β : Type}

theorem Reports.refl (traversal : Traversal) : Reports allowed traversal traversal :=
  ⟨[], (List.append_nil _).symm, List.forall_mem_nil _, rfl⟩

theorem Reports.trans {a b c : Traversal} (first : Reports allowed a b)
    (second : Reports allowed b c) : Reports allowed a c := by
  obtain ⟨shown, seen, kind, counted⟩ := first
  obtain ⟨shown', seen', kind', counted'⟩ := second
  refine ⟨shown ++ shown', by rw [seen', seen, List.append_assoc], ?_, ?_⟩
  · intro activity member
    rcases List.mem_append.mp member with left | right
    · exact kind activity left
    · exact kind' activity right
  · rw [counted', counted, List.foldl_append]

theorem Reports.mono {wider : CatalogEvent → Prop} {a b : Traversal}
    (reports : Reports allowed a b) (le : ∀ event, allowed event → wider event) :
    Reports wider a b := by
  obtain ⟨shown, seen, kind, counted⟩ := reports
  refine ⟨shown, seen, ?_, counted⟩
  intro activity member
  have known := kind activity member
  cases activity with
  | event event => exact le event known
  | issue issue => trivial
  | begun id complete => exact known
  | closing active => exact known
  | abandoned => exact known

theorem Reports.of_same {before behind : Traversal} (seen : behind.seen = before.seen)
    (counted : behind.catalog.activeMessageIssues = before.catalog.activeMessageIssues) :
    Reports allowed before behind :=
  ⟨[], by rw [seen, List.append_nil], List.forall_mem_nil _, counted⟩

/-- A program that shows only events of a kind, and issues. -/
abbrev Showing (allowed : CatalogEvent → Prop) (program : Traversing α) : Prop :=
  Keeps (Reports allowed) program

theorem Showing.bind {first : Traversing α} {next : α → Traversing β}
    (showsFirst : Showing allowed first) (showsNext : ∀ value, Showing allowed (next value)) :
    Showing allowed (first >>= next) :=
  Keeps.bind (fun before behind => before.trans behind) showsFirst showsNext

theorem Showing.onError {program : Traversing α} {handler : PffError → Traversing α}
    (shows : Showing allowed program) (handled : ∀ error, Showing allowed (handler error)) :
    Showing allowed (onError program handler) :=
  Keeps.onError (fun before behind => before.trans behind) shows handled

theorem showing_pure (value : α) : Showing allowed (pure value : Traversing α) :=
  Keeps.of_pure Reports.refl value

theorem showing_throw (error : PffError) : Showing allowed (throw error : Traversing α) :=
  Keeps.of_throw Reports.refl error

theorem showing_attempt (source : Except PffError α) :
    Showing allowed (attempt source : Traversing α) :=
  Keeps.of_attempt Reports.refl source

theorem showing_get : Showing allowed (get : Traversing Traversal) := Keeps.of_get Reports.refl

theorem showing_provided {condition : Prop} [Decidable condition] {program : Traversing Unit}
    (shows : Showing allowed program) : Showing allowed (provided condition program) := by
  unfold provided
  split
  · exact shows
  · exact showing_pure ()

theorem showing_count {change : RawCatalog → RawCatalog}
    (kept : ∀ catalog, (change catalog).activeMessageIssues = catalog.activeMessageIssues) :
    Showing allowed (count change) :=
  Keeps.of_modify fun traversal => Reports.of_same rfl (kept traversal.catalog)

theorem showing_modify {change : Traversal → Traversal}
    (seen : ∀ traversal, (change traversal).seen = traversal.seen)
    (counted : ∀ traversal, (change traversal).catalog.activeMessageIssues =
      traversal.catalog.activeMessageIssues) :
    Showing allowed (modify change : Traversing Unit) :=
  Keeps.of_modify fun traversal => Reports.of_same (seen traversal) (counted traversal)

theorem recordIssue_active (issue : CatalogIssue) (catalog : RawCatalog) :
    (catalog.recordIssue issue).activeMessageIssues =
      countIssue issue.nodeId catalog.activeMessageIssues := by
  simp only [RawCatalog.recordIssue]
  split <;> rfl

theorem showing_recordIssue (issue : CatalogIssue) : Showing allowed (recordIssue issue) := by
  refine Keeps.of_modify fun traversal => ⟨[.issue issue], rfl, ?_, ?_⟩
  · intro activity member
    rw [List.mem_singleton.mp member]
    trivial
  · exact recordIssue_active issue traversal.catalog

/-- The sink takes an event, which is then seen, or refuses it. -/
theorem emit_run (sink : CatalogSink) (operation : String) (event : CatalogEvent)
    (traversal : Traversal) :
    emit sink operation event traversal =
      match sink.event (eventsSeen traversal.seen) event with
      | .ok () => .ok () { traversal with seen := traversal.seen ++ [.event event] }
      | .error detail => .error (.sink operation detail) traversal := by
  unfold emit
  rw [run_bind]
  simp only [run_get]
  cases sink.event (eventsSeen traversal.seen) event <;> rfl

theorem showing_emit {sink : CatalogSink} {operation : String} {event : CatalogEvent}
    (kind : allowed event) : Showing allowed (emit sink operation event) := by
  intro traversal
  unfold after
  rw [emit_run]
  cases sink.event (eventsSeen traversal.seen) event with
  | error detail => exact Reports.refl traversal
  | ok taken =>
      refine ⟨[.event event], rfl, ?_, rfl⟩
      intro activity member
      rw [List.mem_singleton.mp member]
      exact kind

theorem showing_recordItemIssue (nodeId : Option Nat) (operation : String) (error : PffError) :
    Showing allowed (recordItemIssue nodeId operation error) := by
  unfold recordItemIssue
  split
  · exact showing_throw error
  · exact showing_recordIssue _

theorem showing_recordAttachmentIssue (nodeId : Option Nat) (operation : String)
    (error : PffError) : Showing allowed (recordAttachmentIssue nodeId operation error) := by
  unfold recordAttachmentIssue
  split
  · exact showing_throw error
  · exact showing_recordIssue _

theorem showing_recoverItemValue [Inhabited α] (nodeId : Option Nat) (operation : String)
    (source : Except PffError α) : Showing allowed (recoverItemValue nodeId operation source) := by
  cases source with
  | ok value => exact showing_pure value
  | error error =>
      exact .bind (showing_recordItemIssue nodeId operation error) fun _ => showing_pure default

theorem showing_recoverAttachmentValue [Inhabited α] (messageId : Nat) (operation : String)
    (source : Except PffError α) :
    Showing allowed (recoverAttachmentValue messageId operation source) := by
  cases source with
  | ok value => exact showing_pure value
  | error error =>
      exact .bind (showing_recordAttachmentIssue _ operation error) fun _ => showing_pure default

theorem showing_containFiletime (messageId : Nat) (operation : String) (value : Option Nat) :
    Showing allowed (containFiletime messageId operation value) := by
  cases value with
  | none => exact showing_pure none
  | some time =>
      exact .bind (showing_provided (showing_recordIssue _)) fun _ => showing_pure _

end Reports

section Contents

variable {sink : CatalogSink}

/-- A program that shows only what stands within an item. -/
abbrev ShowsContent {α : Type} (program : Traversing α) : Prop :=
  Showing (fun event => event.isContent = true) program

theorem streamEntryFrom_content (descriptor : PropertyDescriptor) (stream : NativeStream)
    (limit : Nat) (ends : Bool) (reads total : Nat) :
    ShowsContent (streamEntryFrom sink descriptor stream limit ends reads total) := by
  induction reads generalizing total with
  | zero => exact showing_pure total
  | succ reads ih =>
      unfold streamEntryFrom
      split
      · exact showing_pure total
      · refine .bind (showing_attempt _) fun bytes => ?_
        split
        · exact showing_pure total
        · refine .bind (showing_attempt _) fun _ => .bind (showing_attempt _) fun _ => ?_
          exact .bind (showing_emit rfl) fun _ => ih _

theorem abortProperty_content (descriptor : PropertyDescriptor) (error : PffError) :
    ShowsContent (abortProperty sink descriptor error) :=
  .bind (showing_emit rfl) fun _ => showing_throw error

theorem streamProperty_content (owner : PropertyOwner) (recordSetIndex entryIndex : Nat)
    (embeddedPath : List Nat) (entry : NativeEntry) :
    ShowsContent (streamProperty sink owner recordSetIndex entryIndex embeddedPath entry) := by
  refine .bind (showing_attempt _) fun entryType => .bind (showing_attempt _) fun valueType => ?_
  refine .bind (showing_attempt _) fun dataSize => .bind (showing_attempt _) fun identity => ?_
  refine .bind ?_ fun _ => .bind (showing_emit rfl) fun _ => .bind ?_ fun actual => ?_
  · cases identity with
    | none => exact showing_pure ()
    | some identity => exact showing_emit rfl
  · refine .onError (streamEntryFrom_content _ _ _ _ _ _) fun error => ?_
    exact .bind (showing_attempt _) fun _ => .bind (abortProperty_content _ _) fun _ =>
      showing_pure 0
  · refine .bind (showing_provided (abortProperty_content _ _)) fun _ => ?_
    refine .bind (showing_emit rfl) fun _ => .bind (showing_provided ?_) fun _ => ?_
    · exact showing_modify (fun _ => rfl) fun _ => rfl
    · exact showing_count fun _ => rfl

theorem streamEntries_content (owner : PropertyOwner) (recordSetIndex : Nat)
    (embeddedPath : List Nat) (entries : List (Except PffError NativeEntry)) (entryIndex : Nat) :
    ShowsContent (streamEntries sink owner recordSetIndex embeddedPath entryIndex entries) := by
  induction entries generalizing entryIndex with
  | nil => exact showing_pure ()
  | cons entry entries ih =>
      refine .bind (showing_attempt entry) fun entry => ?_
      exact .bind (streamProperty_content _ _ _ _ entry) fun _ => ih _

theorem streamRecordSet_content (owner : PropertyOwner) (recordSetIndex : Nat)
    (embeddedPath : List Nat) (set : NativeRecordSet) :
    ShowsContent (streamRecordSet sink owner recordSetIndex embeddedPath set) := by
  refine .bind (showing_attempt _) fun entries => ?_
  refine .bind (Keeps.of_discard (showing_attempt _)) fun _ => ?_
  exact streamEntries_content _ _ _ entries 0

theorem streamRecordSets_content (owner : PropertyOwner) (embeddedPath : List Nat)
    (sets : List (Except PffError NativeRecordSet)) (index : Nat) :
    ShowsContent (streamRecordSets sink owner embeddedPath index sets) := by
  induction sets generalizing index with
  | nil => exact showing_pure ()
  | cons set sets ih =>
      refine .bind (showing_attempt set) fun set => ?_
      exact .bind (streamRecordSet_content _ _ _ set) fun _ => ih _

theorem streamItemProperties_content (recordSets : NativeRecordSets) (owner : PropertyOwner)
    (embeddedPath : List Nat) :
    ShowsContent (streamItemProperties sink recordSets owner embeddedPath) := by
  refine .bind (showing_attempt _) fun sets => ?_
  refine .bind (Keeps.of_discard (showing_attempt _)) fun _ => ?_
  exact streamRecordSets_content _ _ sets 0

theorem streamRecipientsFrom_content (messageId : Nat) (embeddedPath : List Nat)
    (sets : List (Except PffError NativeRecordSet)) (index : Nat) :
    ShowsContent (streamRecipientsFrom sink messageId embeddedPath index sets) := by
  induction sets generalizing index with
  | nil => exact showing_pure ()
  | cons set sets ih =>
      refine .bind (showing_attempt set) fun set => .bind (showing_attempt _) fun _ => ?_
      refine .bind (showing_attempt _) fun _ => .bind (showing_attempt _) fun _ => ?_
      refine .bind (showing_attempt _) fun _ => .bind (showing_emit rfl) fun _ => ?_
      refine .bind (showing_count fun _ => rfl) fun _ => ?_
      exact .bind (streamRecordSet_content _ _ _ set) fun _ => ih _

theorem streamRecipients_content (message : NativeMessage) (messageId : Nat)
    (countHint : Option Nat) (embeddedPath : List Nat) :
    ShowsContent (streamRecipients sink message messageId countHint embeddedPath) := by
  unfold streamRecipients
  split
  · exact showing_pure ()
  · refine .bind (showing_attempt _) fun recipients => ?_
    cases recipients with
    | none => exact showing_pure ()
    | some recipients =>
        refine .bind (showing_attempt _) fun sets => ?_
        refine .bind (Keeps.of_discard (showing_attempt _)) fun _ => ?_
        exact streamRecipientsFrom_content _ _ sets 0

theorem streamAttachmentFrom_content (messageId index : Nat) (stream : NativeStream)
    (limit : Nat) (ends : Bool) (reads total : Nat) :
    ShowsContent (streamAttachmentFrom sink messageId index stream limit ends reads total) := by
  induction reads generalizing total with
  | zero => exact showing_pure total
  | succ reads ih =>
      unfold streamAttachmentFrom
      split
      · exact showing_pure total
      · refine .bind (showing_attempt _) fun bytes => ?_
        split
        · exact showing_pure total
        · refine .bind (showing_attempt _) fun _ => ?_
          refine .bind (showing_provided (showing_emit rfl)) fun _ => ?_
          exact .bind (showing_attempt _) fun _ => ih _

theorem streamAttachment_content (messageId index expected : Nat) (request : PayloadRequest)
    (attachment : NativeAttachment) :
    ShowsContent (streamAttachment sink messageId index expected request attachment) := by
  refine .bind (showing_attempt _) fun _ => ?_
  refine .bind (streamAttachmentFrom_content _ _ _ _ _ _ _) fun total => ?_
  exact .bind (showing_attempt _) fun _ => showing_pure total

theorem streamAttachmentProperties_content (attachment : NativeAttachment)
    (messageId index : Nat) (embeddedPath : List Nat) :
    ShowsContent (streamAttachmentProperties sink attachment messageId index embeddedPath) :=
  .onError (streamItemProperties_content _ _ _) fun error =>
    showing_recordAttachmentIssue _ _ error

theorem reportMime_content (opened : OpenAttachment) (mimeType : Option Text) :
    ShowsContent (opened.reportMime sink mimeType) := by
  cases mimeType with
  | none => exact showing_pure ()
  | some mimeType => exact showing_emit rfl

theorem readMetadata_content (work : MessageWork) (messageId : Nat) :
    ShowsContent (readMetadata work messageId) := by
  refine .bind (showing_recoverItemValue _ _ _) fun messageClass => ?_
  refine .bind (showing_recoverItemValue _ _ _) fun recipientCountHint => ?_
  refine .bind (showing_recoverItemValue _ _ _) fun itemType => ?_
  refine .bind (showing_recoverItemValue _ _ _) fun subject => ?_
  refine .bind (showing_recoverItemValue _ _ _) fun senderName => ?_
  refine .bind (showing_recoverItemValue _ _ _) fun senderEmail => ?_
  refine .bind (showing_recoverItemValue _ _ _) fun submitted => ?_
  refine .bind (showing_containFiletime _ _ _) fun submitFiletime => ?_
  refine .bind (showing_recoverItemValue _ _ _) fun delivered => ?_
  exact .bind (showing_containFiletime _ _ _) fun deliveryFiletime => showing_pure _

theorem readIdentifier_content (message : NativeMessage) :
    ShowsContent (readIdentifier message) := by
  refine .bind showing_get fun before => .bind (showing_recoverItemValue _ _ _) fun messageId => ?_
  exact .bind showing_get fun behind => showing_pure _

theorem streamDeferredFrom_content (operation field : String) (event : Bytes → CatalogEvent)
    (content : ∀ bytes, (event bytes).isContent = true) (stream : NativeStream)
    (start expected reads total : Nat) :
    ShowsContent
      (streamDeferredFrom sink operation field event stream start expected reads total) := by
  induction reads generalizing total with
  | zero => exact showing_pure total
  | succ reads ih =>
      unfold streamDeferredFrom
      split
      · exact showing_pure total
      · refine .bind (showing_attempt _) fun bytes => ?_
        split
        · exact showing_pure total
        · refine .bind (showing_attempt _) fun _ => .bind (showing_emit (content bytes)) fun _ => ?_
          exact ih _

theorem streamDeferredPayloads_content (payloads : List DeferredPayload) :
    ShowsContent (streamDeferredPayloads sink payloads) := by
  induction payloads with
  | nil => exact showing_pure ()
  | cons payload payloads ih =>
      cases payload with
      | property embeddedPath descriptor entry prefixBytes =>
          refine .bind ?_ fun remaining => .bind (showing_count fun _ => rfl) fun _ => ih
          refine .bind (streamDeferredFrom_content _ _ _ (fun _ => rfl) _ _ _ _ _) fun total => ?_
          exact .bind (showing_attempt _) fun _ => showing_pure total
      | attachment embeddedPath index expected prefixBytes attachment =>
          refine .bind showing_get fun traversal => .bind (showing_attempt _) fun _ => ?_
          refine .bind ?_ fun remaining => .bind (showing_count fun _ => rfl) fun _ => ih
          refine .bind (showing_attempt _) fun _ => ?_
          refine .bind (streamDeferredFrom_content _ _ _ (fun _ => rfl) _ _ _ _ _) fun total => ?_
          exact .bind (showing_attempt _) fun _ => showing_pure total

end Contents

section Observer

/-- A message that was begun and has not ended, and whether an issue of it was seen: its
identifier could not be read, or an issue named it while it was the innermost one. -/
structure OpenMessage where
  id : Nat
  whole : Bool
  deriving DecidableEq, Repr

def OpenMessage.note (issue : CatalogIssue) (message : OpenMessage) : OpenMessage :=
  if issue.nodeId = some message.id then { message with whole := false } else message

/-- The open messages from the innermost out, behind one more activity. -/
def follow (opened : List OpenMessage) : Activity → List OpenMessage
  | .event event => if event.isMessageEnd = true then opened.tail else opened
  | .issue issue => opened.modifyHead (OpenMessage.note issue)
  | .begun id identifierComplete => ⟨id, identifierComplete⟩ :: opened
  | .closing _ => opened
  | .abandoned => opened.tail

def openMessages (seen : List Activity) : List OpenMessage := seen.foldl follow []

/-- An activity that keeps the numbers of issues apart: no message is begun without its
identifier or left without an end, and an issue does not name a message around the innermost
one, except where that is known to have issues. -/
def Distinct (opened : List OpenMessage) : Activity → Prop
  | .begun _ identifierComplete => identifierComplete = true
  | .issue issue => ∀ message ∈ opened.tail, issue.nodeId = some message.id → message.whole = false
  | .abandoned => False
  | .event _ | .closing _ => True

/-- Every activity keeps the numbers of issues apart. -/
def AllDistinct (seen : List Activity) : Prop :=
  ∀ before activity, before ++ [activity] <+: seen → Distinct (openMessages before) activity

/-- Where everything before the end of a message kept the numbers of issues apart, the message
that ends is the innermost one, its flag tells whether an issue of it was seen, and issues are
still counted of the messages around it and of no others. -/
def Truthful (seen : List Activity) : Prop :=
  ∀ before id complete, before ++ [.event (.messageEnd id complete)] <+: seen →
    AllDistinct before → ∃ earlier outer, before = earlier ++
      [.closing (outer.map OpenMessage.id)] ∧
      openMessages before = ⟨id, complete⟩ :: outer

theorem openMessages_snoc (seen : List Activity) (activity : Activity) :
    openMessages (seen ++ [activity]) = follow (openMessages seen) activity :=
  List.foldl_concat ..

theorem snoc_prefix_snoc {α : Type} {before seen : List α} {first last : α} :
    before ++ [first] <+: seen ++ [last] ↔
      (before = seen ∧ first = last) ∨ before ++ [first] <+: seen := by
  rw [List.prefix_concat_iff]
  constructor
  · rintro (same | shorter)
    · obtain ⟨same, last⟩ := List.append_inj' same rfl
      exact .inl ⟨same, List.head_eq_of_cons_eq last⟩
    · exact .inr shorter
  · rintro (⟨rfl, rfl⟩ | shorter)
    · exact .inl rfl
    · exact .inr shorter

theorem allDistinct_snoc {seen : List Activity} {activity : Activity} :
    AllDistinct (seen ++ [activity]) ↔ AllDistinct seen ∧
      Distinct (openMessages seen) activity := by
  constructor
  · intro distinct
    refine ⟨fun before last shorter => ?_, distinct seen activity (List.prefix_refl _)⟩
    exact distinct before last (snoc_prefix_snoc.mpr (.inr shorter))
  · rintro ⟨distinct, last⟩ before activity' shorter
    rcases snoc_prefix_snoc.mp shorter with ⟨rfl, rfl⟩ | shorter
    · exact last
    · exact distinct before activity' shorter

theorem AllDistinct.of_append {seen shown : List Activity}
    (distinct : AllDistinct (seen ++ shown)) :
    AllDistinct seen :=
  fun before activity shorter =>
    distinct before activity (shorter.trans (List.prefix_append seen shown))

/-- What is no end of a message leaves the flags truthful. -/
theorem Truthful.snoc {seen : List Activity} {activity : Activity} (truthful : Truthful seen)
    (goesOn : ∀ id complete, activity ≠ .event (.messageEnd id complete)) :
    Truthful (seen ++ [activity]) := by
  intro before id complete shorter
  rcases snoc_prefix_snoc.mp shorter with ⟨-, same⟩ | shorter
  · exact absurd same.symm (goesOn id complete)
  · exact truthful before id complete shorter

end Observer

section Numbers

/-- A number of issues is that of an open message. -/
def Counts (entry : Nat × Nat) (message : OpenMessage) : Prop :=
  entry.1 = message.id ∧ (entry.2 = 0 ↔ message.whole = true)

/-- The flags are truthful, and issues are counted of the open messages. -/
structure Counted (traversal : Traversal) : Prop where
  truthful : Truthful traversal.seen
  numbers : AllDistinct traversal.seen →
    List.Forall₂ Counts traversal.catalog.activeMessageIssues (openMessages traversal.seen)

/-- One more issue changes nothing for a message that is known to have issues. -/
theorem Counts.of_named {entry : Nat × Nat} {message : OpenMessage} (counts : Counts entry message)
    {nodeId : Option Nat} (known : nodeId = some message.id → message.whole = false) :
    Counts (if nodeId = some entry.1 then (entry.1, entry.2 + 1) else entry)
      message := by
  obtain ⟨same, zero⟩ := counts
  by_cases named : nodeId = some entry.1
  · have broken : message.whole = false := known (by rw [named, same])
    rw [if_pos named]
    refine ⟨same, ?_⟩
    rw [broken]
    exact iff_of_false (Nat.succ_ne_zero _) Bool.false_ne_true
  · rw [if_neg named]
    exact ⟨same, zero⟩

theorem Counts.note {entry : Nat × Nat} {message : OpenMessage} (counts : Counts entry message)
    (issue : CatalogIssue) :
    Counts (if issue.nodeId = some entry.1 then (entry.1, entry.2 + 1) else entry)
      (message.note issue) := by
  by_cases named : issue.nodeId = some message.id
  · have noted : message.note issue = { message with whole := false } := if_pos named
    rw [noted]
    have here : issue.nodeId = some entry.1 := by rw [named, counts.1]
    rw [if_pos here]
    exact ⟨counts.1, iff_of_false (Nat.succ_ne_zero _) Bool.false_ne_true⟩
  · have noted : message.note issue = message := if_neg named
    rw [noted]
    exact counts.of_named fun same => absurd same named

theorem counts_outer {active : List (Nat × Nat)} {outer : List OpenMessage}
    (numbers : List.Forall₂ Counts active outer) {nodeId : Option Nat}
    (known : ∀ message ∈ outer, nodeId = some message.id → message.whole = false) :
    List.Forall₂ Counts (countIssue nodeId active) outer := by
  induction numbers with
  | nil => exact .nil
  | cons first _ ih =>
      refine .cons (first.of_named (known _ List.mem_cons_self)) (ih fun message member => ?_)
      exact known message (List.mem_cons_of_mem _ member)

/-- An issue that keeps the numbers apart is counted with the innermost message at most. -/
theorem counts_issue {active : List (Nat × Nat)} {opened : List OpenMessage}
    (numbers : List.Forall₂ Counts active opened) {issue : CatalogIssue}
    (distinct : Distinct opened (.issue issue)) :
    List.Forall₂ Counts (countIssue issue.nodeId active) (follow opened (.issue issue)) := by
  cases numbers with
  | nil => exact .nil
  | cons first rest => exact .cons (first.note issue) (counts_outer rest distinct)

/-- How a program changes what is seen: it only adds to it, it keeps the flags truthful and the
numbers right, and it leaves the messages open that were open. -/
structure Attends (before behind : Traversal) : Prop where
  grows : before.seen <+: behind.seen
  counted : Counted before → Counted behind
  level : AllDistinct behind.seen →
    (openMessages behind.seen).map OpenMessage.id = (openMessages before.seen).map OpenMessage.id

theorem Attends.refl (traversal : Traversal) : Attends traversal traversal :=
  ⟨List.prefix_refl _, id, fun _ => rfl⟩

theorem Attends.trans {a b c : Traversal} (first : Attends a b) (second : Attends b c) :
    Attends a c := by
  refine ⟨first.grows.trans second.grows, second.counted ∘ first.counted, fun distinct => ?_⟩
  obtain ⟨shown, seen⟩ := second.grows
  have earlier : AllDistinct b.seen := AllDistinct.of_append (seen ▸ distinct)
  rw [second.level distinct, first.level earlier]

/-- What changes neither what is seen nor the numbers attends. -/
theorem Attends.of_same {before behind : Traversal} (seen : behind.seen = before.seen)
    (same : behind.catalog.activeMessageIssues = before.catalog.activeMessageIssues) :
    Attends before behind := by
  refine ⟨seen ▸ List.prefix_refl _, fun counted => ⟨seen ▸ counted.truthful, ?_⟩, ?_⟩
  · rw [seen, same]
    exact counted.numbers
  · rw [seen]
    exact fun _ => rfl

/-- One activity that neither begins nor ends a message attends. -/
theorem Attends.of_shown {before behind : Traversal} {activity : Activity}
    (shown : Shown (fun event => event.isMessageEnd = false) activity)
    (seen : behind.seen = before.seen ++ [activity])
    (tracked : behind.catalog.activeMessageIssues =
      track before.catalog.activeMessageIssues activity) : Attends before behind := by
  have goesOn : ∀ id complete, activity ≠ .event (.messageEnd id complete) := by
    rintro id complete rfl
    cases shown
  refine ⟨seen ▸ List.prefix_append _ _, fun counted => ⟨?_, ?_⟩, ?_⟩
  · rw [seen]
    exact counted.truthful.snoc goesOn
  · rw [seen, tracked, allDistinct_snoc, openMessages_snoc]
    rintro ⟨distinct, last⟩
    cases activity with
    | event event =>
        have same : follow (openMessages before.seen) (.event event) = openMessages before.seen :=
          if_neg (ne_true_of_eq_false shown)
        rw [same]
        exact counted.numbers distinct
    | issue issue => exact counts_issue (counted.numbers distinct) last
    | begun id complete => cases shown
    | closing active => cases shown
    | abandoned => cases shown
  · intro _
    rw [seen, openMessages_snoc]
    cases activity with
    | event event => rw [follow, if_neg (ne_true_of_eq_false shown)]
    | issue issue =>
        cases openMessages before.seen with
        | nil => rfl
        | cons message outer =>
            simp only [follow, List.modifyHead_cons, List.map_cons, List.cons.injEq, and_true]
            unfold OpenMessage.note
            split <;> rfl
    | begun id complete => cases shown
    | closing active => cases shown
    | abandoned => cases shown

/-- So does everything that neither begins nor ends a message. -/
theorem Reports.attends {before behind : Traversal}
    (reports : Reports (fun event => event.isMessageEnd = false) before behind) :
    Attends before behind := by
  obtain ⟨shown, seen, kind, counted⟩ := reports
  induction shown generalizing before with
  | nil => exact .of_same (by rw [seen, List.append_nil]) counted
  | cons activity shown ih =>
      let between : Traversal := { before with
        seen := before.seen ++ [activity]
        catalog := { before.catalog with
          activeMessageIssues := track before.catalog.activeMessageIssues activity } }
      have step : Attends before between := .of_shown (kind activity List.mem_cons_self) rfl rfl
      have rest : Attends between behind := by
        refine @ih between ?_ (fun later member => ?_) counted
        · rw [seen, List.append_assoc]
          rfl
        · exact kind later (List.mem_cons_of_mem _ member)
      exact step.trans rest

end Numbers

section Messages

variable {sink : CatalogSink}

/-- The state behind the beginning of a message. -/
def captured (messageId : Nat) (identifierComplete : Bool) (traversal : Traversal) : Traversal :=
  { traversal with
    catalog := { traversal.catalog with
      activeMessageIssues := (messageId, 0) :: traversal.catalog.activeMessageIssues }
    seen := traversal.seen ++ [Activity.begun messageId identifierComplete] }

theorem captured_grows (messageId : Nat) (identifierComplete : Bool) (traversal : Traversal) :
    traversal.seen <+: (captured messageId identifierComplete traversal).seen :=
  List.prefix_append _ _

theorem captured_counted {messageId : Nat} {identifierComplete : Bool} {traversal : Traversal}
    (counted : Counted traversal) : Counted (captured messageId identifierComplete traversal) := by
  refine ⟨counted.truthful.snoc fun _ _ same => (by cases same), fun distinct => ?_⟩
  obtain ⟨earlier, complete⟩ := allDistinct_snoc.mp distinct
  unfold captured
  rw [openMessages_snoc]
  exact .cons ⟨rfl, iff_of_true rfl complete⟩ (counted.numbers earlier)

theorem captured_level (messageId : Nat) (identifierComplete : Bool) (traversal : Traversal) :
    (openMessages (captured messageId identifierComplete traversal).seen).map OpenMessage.id =
      messageId :: (openMessages traversal.seen).map OpenMessage.id := by
  unfold captured
  rw [openMessages_snoc]
  rfl

/-- The state in which the end of a message is reported. -/
def closing (identifierComplete : Bool) (traversal : Traversal) : Traversal :=
  let active := if identifierComplete = true then traversal.catalog.activeMessageIssues.tail
    else traversal.catalog.activeMessageIssues
  { traversal with
    catalog := { traversal.catalog with activeMessageIssues := active }
    seen := traversal.seen ++ [Activity.closing (active.map Prod.fst)] }

theorem endMessage_run (messageId : Nat) (identifierComplete : Bool) (traversal : Traversal) :
    endMessage sink messageId identifierComplete traversal =
      emit sink "message end" (.messageEnd messageId (identifierComplete &&
        decide (traversal.catalog.activeMessageIssues.head? = some (messageId, 0))))
        (closing identifierComplete traversal) := by
  cases identifierComplete <;> rfl

/-- What is known of the messages where the traversal has come from the beginning of a message
to its end. -/
theorem innermost {messageId : Nat} {identifierComplete : Bool} {start behind : Traversal}
    (attends : Attends (captured messageId identifierComplete start) behind)
    (distinct : AllDistinct behind.seen) :
    identifierComplete = true ∧ ∃ whole outer, openMessages behind.seen =
      ⟨messageId, whole⟩ :: outer ∧
      outer.map OpenMessage.id = (openMessages start.seen).map OpenMessage.id := by
  obtain ⟨shown, seen⟩ := attends.grows
  have begun : AllDistinct (captured messageId identifierComplete start).seen :=
    AllDistinct.of_append (seen ▸ distinct)
  refine ⟨(allDistinct_snoc.mp begun).2, ?_⟩
  have level := attends.level distinct
  rw [captured_level] at level
  cases opened : openMessages behind.seen with
  | nil => rw [opened] at level; cases level
  | cons message outer =>
      rw [opened, List.map_cons, List.cons.injEq] at level
      obtain ⟨same, rest⟩ := level
      exact ⟨message.whole, outer, by rw [← same], rest⟩

/-- The flag and the numbers of the messages around are right where a message ends. -/
theorem closing_truthful {messageId : Nat} {identifierComplete : Bool} {start behind : Traversal}
    (attends : Attends (captured messageId identifierComplete start) behind)
    (counted : Counted behind) (distinct : AllDistinct behind.seen) :
    ∃ outer, openMessages behind.seen = ⟨messageId, identifierComplete &&
        decide (behind.catalog.activeMessageIssues.head? = some (messageId, 0))⟩ :: outer ∧
      List.Forall₂ Counts (closing identifierComplete behind).catalog.activeMessageIssues
        outer := by
  obtain ⟨complete, whole, outer, opened, -⟩ := innermost attends distinct
  have numbers := counted.numbers distinct
  rw [opened] at numbers
  refine ⟨outer, ?_, ?_⟩
  · rw [opened, complete, Bool.true_and]
    congr 2
    generalize behind.catalog.activeMessageIssues = active at numbers
    cases numbers with
    | @cons entry _ active _ first rest =>
        obtain ⟨same, zero⟩ := first
        rw [List.head?_cons, Bool.eq_iff_iff, decide_eq_true_iff, ← zero, Option.some.injEq,
          Prod.ext_iff]
        simp only [same, true_and]
  · unfold closing
    simp only [complete, if_true]
    generalize behind.catalog.activeMessageIssues = active at numbers ⊢
    cases numbers with
    | cons first rest => exact rest

theorem counts_ids {active : List (Nat × Nat)} {opened : List OpenMessage}
    (numbers : List.Forall₂ Counts active opened) :
    active.map Prod.fst = opened.map OpenMessage.id := by
  induction numbers with
  | nil => rfl
  | cons first _ ih => rw [List.map_cons, List.map_cons, first.1, ih]

/-- What holds where a message is left without an end. -/
def Left (start behind : Traversal) : Prop :=
  start.seen <+: behind.seen ∧ (Counted start → Truthful behind.seen)

theorem Left.abandoned {start behind : Traversal} (left : Left start behind) :
    Attends start { behind with seen := behind.seen ++ [.abandoned] } := by
  refine ⟨left.1.trans (List.prefix_append _ _), fun counted => ⟨?_, ?_⟩, ?_⟩
  · exact (left.2 counted).snoc fun _ _ same => (by cases same)
  · exact fun distinct => (allDistinct_snoc.mp distinct).2.elim
  · exact fun distinct => (allDistinct_snoc.mp distinct).2.elim

theorem Attends.left {messageId : Nat} {identifierComplete : Bool} {start behind : Traversal}
    (attends : Attends (captured messageId identifierComplete start) behind) : Left start behind :=
  ⟨(captured_grows _ _ start).trans attends.grows,
    fun counted => (attends.counted (captured_counted counted)).truthful⟩

theorem closing_left {identifierComplete : Bool} {start behind : Traversal}
    (left : Left start behind) : Left start (closing identifierComplete behind) :=
  ⟨left.1.trans (List.prefix_append _ _),
    fun counted => (left.2 counted).snoc fun _ _ same => (by cases same)⟩

/-- Behind the end of a message all is as it was before its beginning. -/
theorem ended_attends {messageId : Nat} {identifierComplete : Bool} {start behind : Traversal}
    (attends : Attends (captured messageId identifierComplete start) behind) :
    Attends start { closing identifierComplete behind with
      seen := (closing identifierComplete behind).seen ++
        [.event (.messageEnd messageId (identifierComplete &&
          decide (behind.catalog.activeMessageIssues.head? = some (messageId, 0))))] } := by
  have closed : openMessages (closing identifierComplete behind).seen = openMessages behind.seen :=
    openMessages_snoc ..
  refine ⟨attends.left.1.trans ((List.prefix_append _ _).trans (List.prefix_append _ _)), ?_, ?_⟩
  · intro start
    have counted := attends.counted (captured_counted start)
    refine ⟨?_, fun distinct => ?_⟩
    · intro before id complete shorter distinct
      rcases snoc_prefix_snoc.mp shorter with ⟨rfl, same⟩ | shorter
      · cases same
        have earlier : AllDistinct behind.seen := (allDistinct_snoc.mp distinct).1
        obtain ⟨outer, opened, numbers⟩ := closing_truthful attends counted earlier
        refine ⟨behind.seen, outer, ?_, by rw [closed, opened]⟩
        rw [← counts_ids numbers]
        rfl
      · exact (closing_left attends.left).2 start before id complete shorter distinct
    · have earlier : AllDistinct behind.seen :=
        (allDistinct_snoc.mp (allDistinct_snoc.mp distinct).1).1
      obtain ⟨outer, opened, numbers⟩ := closing_truthful attends counted earlier
      rw [openMessages_snoc, closed, opened]
      exact numbers
  · intro distinct
    have earlier : AllDistinct behind.seen :=
      (allDistinct_snoc.mp (allDistinct_snoc.mp distinct).1).1
    obtain ⟨-, whole, outer, opened, level⟩ := innermost attends earlier
    rw [openMessages_snoc, closed, opened, ← level]
    rfl

theorem endMessage_ensures {messageId : Nat} {identifierComplete : Bool} {start behind : Traversal}
    (attends : Attends (captured messageId identifierComplete start) behind) :
    Ensures (endMessage sink messageId identifierComplete) behind
      (fun _ final => Attends start final) (fun _ final => Left start final) := by
  unfold Ensures
  rw [endMessage_run, emit_run]
  cases sink.event _ _ with
  | error detail => exact closing_left attends.left
  | ok taken => exact ended_attends attends

/-- A program that keeps the flags truthful and the numbers right. -/
abbrev Attending {α : Type} (program : Traversing α) : Prop := Keeps Attends program

variable {α β : Type}

theorem Attending.bind {first : Traversing α} {next : α → Traversing β}
    (attendsFirst : Attending first) (attendsNext : ∀ value, Attending (next value)) :
    Attending (first >>= next) :=
  Keeps.bind (fun before behind => before.trans behind) attendsFirst attendsNext

theorem Attending.onError {program : Traversing α} {handler : PffError → Traversing α}
    (attends : Attending program) (handled : ∀ error, Attending (handler error)) :
    Attending (onError program handler) :=
  Keeps.onError (fun before behind => before.trans behind) attends handled

theorem Showing.attending {program : Traversing α}
    (shows : Showing (fun event => event.isMessageEnd = false) program) : Attending program :=
  Keeps.mono shows Reports.attends

theorem Attending.of_content {program : Traversing α} (shows : ShowsContent program) :
    Attending program :=
  Keeps.mono shows fun reports =>
    (reports.mono fun _ content => CatalogEvent.not_messageEnd_of_isContent content).attends

theorem attending_modify {change : Traversal → Traversal}
    (seen : ∀ traversal, (change traversal).seen = traversal.seen)
    (counted : ∀ traversal, (change traversal).catalog.activeMessageIssues =
      traversal.catalog.activeMessageIssues) :
    Attending (modify change : Traversing Unit) :=
  (showing_modify seen counted).attending

theorem attending_count {change : RawCatalog → RawCatalog}
    (kept : ∀ catalog, (change catalog).activeMessageIssues = catalog.activeMessageIssues) :
    Attending (count change) :=
  Showing.attending (showing_count kept)

theorem attending_emit {operation : String} {event : CatalogEvent}
    (goesOn : event.isMessageEnd = false) : Attending (emit sink operation event) :=
  Showing.attending (showing_emit goesOn)

theorem startMessage_attending (work : MessageWork) (messageId : Nat) :
    Attending (startMessage sink work messageId) := by
  refine .bind showing_get.attending fun traversal => ?_
  refine .bind (showing_attempt _).attending fun counts => ?_
  refine .bind (.of_content (readMetadata_content work messageId)) fun metadata => ?_
  refine .bind (attending_emit rfl) fun _ => ?_
  exact .bind (attending_modify (fun _ => rfl) fun _ => rfl) fun _ => (showing_pure _).attending

theorem messageBody_attending (work : MessageWork) (messageId attachmentCount : Nat)
    {attachments : Traversing Unit} (attends : Attending attachments) :
    Attending (messageBody sink work messageId attachmentCount attachments) := by
  have properties : Attending (onError
      (streamItemProperties sink work.message.recordSets (.message messageId) work.embeddedPath)
      (recordItemIssue (some messageId) "stream message properties")) :=
    .onError (.of_content (streamItemProperties_content _ _ _)) fun error =>
      (showing_recordItemIssue _ _ error).attending
  refine .bind (startMessage_attending work messageId) fun recipientCountHint => ?_
  refine .bind (.onError (.of_content (streamRecipients_content _ _ _ _)) fun error =>
    (showing_recordItemIssue _ _ error).attending) fun _ => ?_
  split
  · refine .bind (.onError attends fun error => ?_) fun _ => properties
    exact (showing_recordAttachmentIssue _ _ error).attending
  · exact .bind (showing_recordAttachmentIssue _ _ _).attending fun _ => properties

/-- A message is attended to whether it ends or is left without an end. -/
theorem reportMessage_attending (messageId : Nat) (identifierComplete : Bool)
    {body : Traversing Unit} (attends : Attending body) :
    Attending (reportMessage sink messageId identifierComplete body) := by
  intro start
  have inner := Ensures.of_keeps attends (captured messageId identifierComplete start)
  have whole : Ensures (do body; endMessage sink messageId identifierComplete)
      (captured messageId identifierComplete start)
      (fun _ final => Attends start final) (fun _ final => Left start final) := by
    refine .bind (inner.mono (fun _ _ attends => attends) fun _ _ attends => attends.left) ?_
    exact fun _ behind attends => endMessage_ensures attends
  have handled : Ensures (reportMessage sink messageId identifierComplete body) start
      (fun _ final => Attends start final) (fun _ final => Attends start final) := by
    refine .modify_bind (.of_onError whole fun error between left => ?_)
    exact .modify_bind (.of_throw left.abandoned)
  unfold after
  unfold Ensures at handled
  cases run : reportMessage sink messageId identifierComplete body start <;>
    simpa only [run] using handled

theorem processMessageWith_attending (work : MessageWork) (attachmentCount : Nat)
    {attachments : Nat → Traversing Unit} (attends : ∀ messageId,
      Attending (attachments messageId)) :
    Attending (processMessageWith sink work attachmentCount attachments) := by
  refine .bind (.of_content (readIdentifier_content _)) fun identifier => ?_
  refine .bind showing_get.attending fun traversal => ?_
  split
  · exact (showing_recordIssue _).attending
  · refine .bind (reportMessage_attending _ _ (messageBody_attending _ _ _ (attends _))) fun _ => ?_
    exact attending_modify (fun _ => rfl) fun _ => rfl

theorem attending_provided {condition : Prop} [Decidable condition] {program : Traversing Unit}
    (attends : Attending program) : Attending (provided condition program) := by
  unfold provided
  split
  · exact attends
  · exact (showing_pure ()).attending

theorem properties_attending (opened : OpenAttachment) : Attending (opened.properties sink) :=
  .of_content (streamAttachmentProperties_content _ _ _ _)

theorem unlessReference_attending {isReference : Bool} {known : α} {program : Traversing α}
    (attends : Attending program) : Attending (unlessReference isReference known program) := by
  unfold unlessReference
  split
  · exact (showing_pure known).attending
  · exact attends

theorem openAttachment_attending (messageId index : Nat) (embeddedPath : List Nat)
    (attachment : NativeAttachment) :
    Attending (openAttachment sink messageId index embeddedPath attachment) := by
  have recovers : ∀ {α : Type} [Inhabited α] (operation : String) (source : Except PffError α),
      Attending (recoverAttachmentValue messageId operation source) := fun operation source =>
    (showing_recoverAttachmentValue messageId operation source).attending
  refine .bind (recovers _ _) fun method => ?_
  refine .bind (unlessReference_attending (recovers _ _)) fun attachmentType => ?_
  refine .bind (unlessReference_attending (recovers _ _)) fun dataSize => ?_
  refine .bind (recovers _ _) fun filename => ?_
  refine .bind (attending_emit rfl) fun _ => .bind (attending_count fun _ => rfl) fun _ => ?_
  refine .bind (attending_provided (properties_attending _)) fun _ => ?_
  exact (showing_pure _).attending

theorem finish_attending (opened : OpenAttachment) : Attending (opened.finish sink) :=
  .bind (attending_provided (properties_attending opened)) fun _ => attending_emit rfl

theorem giveUp_attending (opened : OpenAttachment) (operation : String) (error : PffError) :
    Attending (opened.giveUp sink operation error) := by
  refine .bind (attending_provided (properties_attending opened)) fun _ => ?_
  exact .bind (attending_emit rfl) fun _ => (showing_recordAttachmentIssue _ _ error).attending

theorem content_attending (opened : OpenAttachment) : Attending (opened.content sink) := by
  refine .bind (showing_attempt _).attending fun expected => ?_
  refine .bind (showing_attempt _).attending fun mimeType => ?_
  refine .bind (.of_content (reportMime_content opened mimeType)) fun _ => .bind ?_
    fun streamed => ?_
  · refine .onError ?_ fun error => ?_
    · exact Keeps.map _ (Attending.of_content (streamAttachment_content _ _ _ _ _))
    · refine .bind (showing_attempt _).attending fun _ => ?_
      exact .bind (giveUp_attending opened _ error) fun _ => (showing_pure _).attending
  · cases streamed with
    | none => exact (showing_pure ()).attending
    | some actual =>
        refine .bind (attending_count fun _ => rfl) fun _ => ?_
        split
        · exact .bind (attending_modify (fun _ => rfl) fun _ => rfl) fun _ => attending_emit rfl
        · exact finish_attending opened

theorem withoutItem_attending (opened : OpenAttachment) (item : Except PffError Unit) :
    Attending (opened.withoutItem sink item) := by
  unfold OpenAttachment.withoutItem
  split
  · cases item with
    | ok found => exact giveUp_attending opened _ _
    | error error =>
        dsimp only
        split
        · exact (showing_throw error).attending
        · exact giveUp_attending opened _ error
  · split
    · exact finish_attending opened
    · exact content_attending opened

theorem withItem_attending (opened : OpenAttachment) (work : MessageWork) (message : NativeMessage)
    (inner : AttachmentTable) {process : MessageWork → Traversing Unit}
    (attends : ∀ embedded, Attending (process embedded)) :
    Attending (opened.withItem sink work message inner process) := by
  unfold OpenAttachment.withItem
  split
  · cases embeddedWork work opened message with
    | error error => exact giveUp_attending opened _ error
    | ok embedded =>
        dsimp only
        split
        · exact .bind (attends embedded) fun _ => finish_attending opened
        · refine .bind (finish_attending opened) fun _ => ?_
          exact attending_modify (fun _ => rfl) fun _ => rfl
  · split
    · exact finish_attending opened
    · exact content_attending opened

/-- The attachments of a message are attended to, with all that is in them. -/
theorem streamAttachments_attending (work : MessageWork) (messageId index : Nat)
    (attachments : AttachmentTable) :
    Attending (streamAttachments sink work messageId index attachments) := by
  induction attachments generalizing work messageId index with
  | nil => exact (showing_pure ()).attending
  | unreadable error rest ih =>
      refine .bind (attending_emit rfl) fun _ => ?_
      refine .bind (attending_count fun _ => rfl) fun _ => ?_
      refine .bind (attending_emit rfl) fun _ => ?_
      exact .bind (showing_recordAttachmentIssue _ _ error).attending fun _ => ih _ _ _
  | plain attachment item rest ih =>
      refine .bind (openAttachment_attending _ _ _ attachment) fun opened => ?_
      exact .bind (withoutItem_attending opened item) fun _ => ih _ _ _
  | embedded attachment message inner rest ihInner ihRest =>
      refine .bind (openAttachment_attending _ _ _ attachment) fun opened => ?_
      refine .bind (withItem_attending opened work message inner fun embedded => ?_) fun _ => ?_
      · exact processMessageWith_attending embedded _ fun id => ihInner embedded id 0
      · exact ihRest _ _ _

theorem processMessage_attending (work : MessageWork) (attachments : AttachmentTable) :
    Attending (processMessage sink work attachments) := by
  refine .bind (attending_modify (fun _ => rfl) fun _ => rfl) fun _ => ?_
  refine .bind (processMessageWith_attending work _ fun messageId =>
    streamAttachments_attending work messageId 0 attachments) fun _ => ?_
  split
  · refine .bind (attending_emit rfl) fun _ => .bind showing_get.attending fun traversal => ?_
    refine .bind (.of_content (streamDeferredPayloads_content _)) fun _ => attending_emit rfl
  · exact (showing_pure ()).attending

theorem takePending_attending : Attending takePending := fun traversal =>
  @Attends.of_same traversal _ rfl rfl

theorem processPending_attending (operation : String) (messages : Nat) :
    Attending (processPending sink operation messages) := by
  induction messages with
  | zero => exact (showing_pure ()).attending
  | succ messages ih =>
      refine .bind takePending_attending fun waiting => ?_
      cases waiting with
      | none => exact (showing_pure ()).attending
      | some waiting =>
          refine .bind (.onError (processMessage_attending _ _) fun error => ?_) fun _ => ih
          exact (showing_recordItemIssue _ _ error).attending

theorem processTopLevel_attending (operation : String) (work : MessageWork)
    (attachments : AttachmentTable) :
    Attending (processTopLevel sink operation work attachments) :=
  .bind (attending_modify (fun _ => rfl) fun _ => rfl) fun _ => processPending_attending _ _

end Messages

section Runs

/-- The traversals that are reached. What stands between the messages, the units and the
folders, is any events but the ends of messages, and any issues; where the folders cannot be
read the counters start again. -/
inductive Reachable (sink : CatalogSink) : Traversal → Prop
  | start : Reachable sink Traversal.start
  | event {traversal : Traversal} (operation : String) (event : CatalogEvent)
      (between : event.isMessageEnd = false) (reachable : Reachable sink traversal) :
      Reachable sink (after (emit sink operation event) traversal)
  | issue {traversal : Traversal} (issue : CatalogIssue) (reachable : Reachable sink traversal) :
      Reachable sink (after (recordIssue issue) traversal)
  | message {traversal : Traversal} (operation : String) (work : MessageWork)
      (attachments : AttachmentTable) (reachable : Reachable sink traversal) :
      Reachable sink (after (processTopLevel sink operation work attachments) traversal)
  | again {traversal : Traversal} (reachable : Reachable sink traversal) :
      Reachable sink { traversal with catalog := {}, visited := ∅ }

variable {sink : CatalogSink}

theorem counted_start : Counted Traversal.start := by
  refine ⟨fun before id complete shorter => ?_, fun _ => .nil⟩
  exact absurd (List.prefix_nil.mp shorter) (List.append_ne_nil_of_right_ne_nil _ (by simp))

/-- Between the messages the flags are truthful, and no message is open. -/
theorem Reachable.counted {traversal : Traversal} (reachable : Reachable sink traversal) :
    Counted traversal ∧ (AllDistinct traversal.seen → openMessages traversal.seen = []) := by
  have attended : ∀ {before : Traversal} {program : Traversing Unit}, Attending program →
      (Counted before ∧ (AllDistinct before.seen → openMessages before.seen = [])) →
      Counted (after program before) ∧
        (AllDistinct (after program before).seen → openMessages
          (after program before).seen = []) := by
    intro before program attending known
    have attends := attending before
    refine ⟨attends.counted known.1, fun distinct => ?_⟩
    obtain ⟨shown, seen⟩ := attends.grows
    have level := attends.level distinct
    rw [known.2 (AllDistinct.of_append (seen ▸ distinct))] at level
    exact List.map_eq_nil_iff.mp level
  induction reachable with
  | start => exact ⟨counted_start, fun _ => rfl⟩
  | event operation event between _ ih => exact attended (attending_emit between) ih
  | issue issue _ ih => exact attended (showing_recordIssue issue).attending ih
  | message operation work attachments _ ih =>
      exact attended (processTopLevel_attending operation work attachments) ih
  | @again traversal _ ih =>
      refine ⟨⟨ih.1.truthful, fun distinct => ?_⟩, ih.2⟩
      have none : openMessages traversal.seen = [] := ih.2 distinct
      exact none ▸ .nil

/-- Where every step before the end of a message kept the numbers of issues apart, its flag
tells whether an issue of the message was seen, and the messages whose issues are still
counted are those around it. -/
theorem messageEnd_tells {traversal : Traversal} (reachable : Reachable sink traversal)
    {before : List Activity} {id : Nat} {complete : Bool}
    (seen : before ++ [.event (.messageEnd id complete)] <+: traversal.seen)
    (distinct : AllDistinct before) :
    ∃ earlier outer, before = earlier ++ [.closing (outer.map OpenMessage.id)] ∧
      openMessages before = ⟨id, complete⟩ :: outer :=
  reachable.counted.1.truthful before id complete seen distinct

instance (opened : List OpenMessage) (activity : Activity) : Decidable (Distinct opened activity) :=
  match activity with
  | .begun _ identifierComplete => inferInstanceAs (Decidable (identifierComplete = true))
  | .issue issue => inferInstanceAs (Decidable (∀ message ∈ opened.tail,
      issue.nodeId = some message.id → message.whole = false))
  | .abandoned => inferInstanceAs (Decidable False)
  | .event _ | .closing _ => inferInstanceAs (Decidable True)

theorem allDistinct_iff {seen : List Activity} : AllDistinct seen ↔
    ∀ n, (inside : n < seen.length) → Distinct (openMessages (seen.take n)) seen[n] := by
  constructor
  · intro distinct n inside
    refine distinct _ _ ?_
    rw [List.take_concat_get']
    exact List.take_prefix _ _
  · rintro distinct before activity ⟨shown, rfl⟩
    have last := distinct before.length (by simp)
    simpa using last

instance (seen : List Activity) : Decidable (AllDistinct seen) :=
  decidable_of_iff _ allDistinct_iff.symm

end Runs

section Leftover

/-- A sink that takes whole values and every event. -/
def takingSink (order : TraversalOrder) : CatalogSink where
  order := order
  propertyPayload _ := .full
  attachmentPayload _ _ _ := .full
  probeAttachment _ _ _ _ _ := .ok none
  event _ _ := .ok ()

/-- A message of which little more than its identifier is stored. -/
def bareMessage (identifier : Except PffError Nat) (subject : Except PffError (Option Text)) :
    NativeMessage where
  identifier := identifier
  messageString entryType := if entryType = subjectType then subject else .ok none
  optionalU32 _ := .ok none
  itemType := .ok none
  clientSubmitTime := .ok none
  deliveryTime := .ok none
  recipients := .ok none
  attachmentCount := .ok ()
  recordSets := .ok []

/-- An attachment without properties for an embedded item. -/
def itemAttachment : NativeAttachment where
  recordSets := .ok []
  attachmentType := .ok (some embeddedType)
  attachmentSize := .ok none
  seekStart := .ok ()
  data _ _ := .ok []

def topLevelWork (message : NativeMessage) : MessageWork :=
  ⟨message, none, none, none, [], 0, .recovered, some 0, false⟩

def unreadable : PffError := .native "read" "damaged".toList

/-- The parent is message four; what is embedded in its attachment is given. -/
def nested (embedded : NativeMessage) : Traversal :=
  after (processTopLevel (takingSink .direct) "process recovery item"
    (topLevelWork (bareMessage (.ok 4) (.ok none)))
    (.embedded itemAttachment embedded .nil .nil)) Traversal.start

/-- What is seen up to the end of message four. -/
def nestedSeen (embedded : NativeMessage) (complete : Bool) : List Activity :=
  (nested embedded).seen.takeWhile fun activity =>
    activity ≠ .event (.messageEnd 4 complete)

/-- The subject of the embedded message cannot be read, and its parent is complete. -/
theorem messageEnd_tells_nested :
    ∃ earlier outer,
      nestedSeen (bareMessage (.ok 5) (.error unreadable)) true =
        earlier ++ [.closing (outer.map OpenMessage.id)] ∧
      openMessages (nestedSeen (bareMessage (.ok 5) (.error unreadable)) true) =
        ⟨4, true⟩ :: outer :=
  messageEnd_tells (.message _ _ _ .start) (by decide +kernel :
      nestedSeen (bareMessage (.ok 5) (.error unreadable)) true ++ [.event (.messageEnd 4 true)] <+:
        (nested (bareMessage (.ok 5) (.error unreadable))).seen)
    (by decide +kernel)

/-- Where the identifier of the embedded message cannot be read, its parent is taken for
incomplete, and the parent is still counted with behind its end. -/
theorem leftover_breaks_parent :
    ¬ ∀ (sink : CatalogSink) (traversal : Traversal), Reachable sink traversal →
      ∀ before id complete, before ++ [.event (.messageEnd id complete)] <+: traversal.seen →
        ∃ earlier outer, before = earlier ++ [.closing (outer.map OpenMessage.id)] ∧
          openMessages before = ⟨id, complete⟩ :: outer := by
  intro always
  have shorter : nestedSeen (bareMessage (.error unreadable) (.ok none)) false ++
      [.event (.messageEnd 4 false)] <+: (nested (bareMessage (.error unreadable)
        (.ok none))).seen := by
    decide +kernel
  obtain ⟨_, outer, _, opened⟩ := always _ _ (.message _ _ _ .start) _ 4 false shorter
  have whole : openMessages (nestedSeen (bareMessage (.error unreadable) (.ok none)) false) =
      [⟨4, true⟩] := by
    decide +kernel
  rw [whole] at opened
  cases opened

end Leftover

end PstForge.Catalog
