import PstForge.Catalog.Steady

/-! # The attachments of a message

What goes wrong with one attachment is recorded, and the next attachment follows. Two things
are not contained that way: the content of an attachment whose size is unknown, and, in the
orders of a writer, a limit that a message in an attachment runs into. This module
shows that nothing else is, and what is seen of the attachments then.
-/

namespace PstForge.Catalog

open PstForge.Foundation

section Boundaries

/-- Where an attachment begins and where it ends, in whatever way. -/
inductive Boundary where
  | opens (messageId index : Nat)
  | closes (messageId index : Nat)
  deriving DecidableEq, Repr

def CatalogEvent.boundary : CatalogEvent → List Boundary
  | .attachmentStart messageId attachment => [.opens messageId attachment.index]
  | .attachmentEnd messageId index | .attachmentAbort messageId index => [.closes messageId index]
  | _ => []

/-- How many messages an observer is within, behind one more activity. -/
def level (depth : Nat) : Activity → Nat
  | .begun _ _ => depth + 1
  | .abandoned => depth - 1
  | .event event => if event.isMessageEnd = true then depth - 1 else depth
  | .issue _ | .closing _ => depth

def Activity.boundary : Activity → List Boundary
  | .event reported => reported.boundary
  | .issue _ | .begun _ _ | .closing _ | .abandoned => []

/-- The boundaries of the attachments that are not within a further message. -/
def boundaries : (depth : Nat) → List Activity → List Boundary
  | _, [] => []
  | depth, activity :: rest =>
      (if depth = 0 then activity.boundary else []) ++ boundaries (level depth activity) rest

/-- Between two states the messages that were begun have ended, and outside of them the
attachments have certain boundaries. -/
def Bounds (bounds : List Boundary) (before behind : Traversal) : Prop :=
  ∃ shown, behind.seen = before.seen ++ shown ∧
    ∀ depth, shown.foldl level depth = depth ∧
      boundaries depth shown = if depth = 0 then bounds else []

/-- Between two states the messages that were begun have ended. -/
def Balanced (before behind : Traversal) : Prop := ∃ bounds, Bounds bounds before behind

theorem boundaries_append (depth : Nat) (first second : List Activity) :
    boundaries depth (first ++ second) =
      boundaries depth first ++ boundaries (first.foldl level depth) second := by
  induction first generalizing depth with
  | nil => rfl
  | cons activity first ih =>
      rw [List.cons_append, boundaries, boundaries, ih, List.append_assoc]
      rfl

variable {bounds bounds' : List Boundary} {a b c : Traversal}

theorem Bounds.of_same (seen : b.seen = a.seen) : Bounds [] a b :=
  ⟨[], by rw [seen, List.append_nil], fun depth => ⟨rfl, by split <;> rfl⟩⟩

theorem Bounds.refl (traversal : Traversal) : Bounds [] traversal traversal := .of_same rfl

theorem Bounds.trans (first : Bounds bounds a b) (second : Bounds bounds' b c) :
    Bounds (bounds ++ bounds') a c := by
  obtain ⟨shown, seen, known⟩ := first
  obtain ⟨shown', seen', known'⟩ := second
  refine ⟨shown ++ shown', by rw [seen', seen, List.append_assoc], fun depth => ⟨?_, ?_⟩⟩
  · rw [List.foldl_append, (known depth).1, (known' depth).1]
  · rw [boundaries_append, (known depth).1, (known depth).2, (known' depth).2]
    split <;> rfl

theorem Bounds.balanced (known : Bounds bounds a b) : Balanced a b := ⟨bounds, known⟩

theorem Balanced.trans (first : Balanced a b) (second : Balanced b c) : Balanced a c :=
  ⟨_, first.choose_spec.trans second.choose_spec⟩

theorem boundary_of_isContent {event : CatalogEvent} (content : event.isContent = true) :
    event.boundary = [] := by
  cases event <;> first | rfl | cases content

/-- An activity that neither begins nor ends anything. -/
structure Quiet (activity : Activity) : Prop where
  stays : ∀ depth, level depth activity = depth
  boundary : activity.boundary = []

theorem quiet_of_shown {activity : Activity}
    (kind : Shown (fun event => event.isContent = true) activity) : Quiet activity := by
  cases activity with
  | event event =>
      have stays := ne_true_of_eq_false (event.not_messageEnd_of_isContent kind)
      exact ⟨fun depth => if_neg stays, boundary_of_isContent kind⟩
  | issue issue => exact ⟨fun _ => rfl, rfl⟩
  | begun id complete => exact False.elim kind
  | closing active => exact False.elim kind
  | abandoned => exact False.elim kind

theorem boundaries_quiet {shown : List Activity} (quiet : ∀ activity ∈ shown, Quiet activity)
    (depth : Nat) : shown.foldl level depth = depth ∧ boundaries depth shown = [] := by
  induction shown with
  | nil => exact ⟨rfl, rfl⟩
  | cons activity shown ih =>
      obtain ⟨quietFirst, quietRest⟩ := List.forall_mem_cons.mp quiet
      rw [List.foldl_cons, boundaries, quietFirst.stays, quietFirst.boundary, ite_self]
      exact ih quietRest

theorem Reports.inside (reports : Reports (fun event => event.isContent = true) a b) :
    Bounds [] a b := by
  obtain ⟨shown, seen, kind, -⟩ := reports
  have quiet := boundaries_quiet fun activity member => quiet_of_shown (kind activity member)
  refine ⟨shown, seen, fun depth => ⟨(quiet depth).1, ?_⟩⟩
  rw [(quiet depth).2, ite_self]

theorem bounds_event (traversal : Traversal) {event : CatalogEvent}
    (stays : event.isMessageEnd = false) :
    Bounds event.boundary traversal
      { traversal with seen := traversal.seen ++ [.event event] } := by
  refine ⟨[.event event], rfl, fun depth => ⟨?_, ?_⟩⟩
  · exact if_neg (ne_true_of_eq_false stays)
  · exact List.append_nil _

/-- What is within a message that ends, or is left, is not seen outside of it. -/
theorem Balanced.message {id : Nat} {complete : Bool} {last : Activity}
    (balanced : Balanced b c) (begun : b.seen = a.seen ++ [.begun id complete])
    (quiet : List Activity) {d : Traversal} (seen : d.seen = c.seen ++ (quiet ++ [last]))
    (quietly : ∀ activity ∈ quiet, Quiet activity)
    (leaves : ∀ depth, level (depth + 1) last = depth) : Bounds [] a d := by
  obtain ⟨bounds, within, inside, known⟩ := balanced
  refine ⟨.begun id complete :: (within ++ (quiet ++ [last])), ?_, fun depth => ⟨?_, ?_⟩⟩
  · rw [seen, inside, begun, List.append_assoc, List.append_assoc]
    rfl
  · change (within ++ (quiet ++ [last])).foldl level (depth + 1) = depth
    rw [List.foldl_append, (known (depth + 1)).1, List.foldl_append,
      (boundaries_quiet quietly (depth + 1)).1]
    exact leaves depth
  · have inner : boundaries (depth + 1) (within ++ (quiet ++ [last])) = [] := by
      rw [boundaries_append, (known (depth + 1)).1, (known (depth + 1)).2, if_neg (by omega),
        boundaries_append, (boundaries_quiet quietly (depth + 1)).1,
        (boundaries_quiet quietly (depth + 1)).2]
      rfl
    have first : (Activity.begun id complete).boundary = [] := rfl
    rw [boundaries, first, ite_self, List.nil_append]
    exact inner

end Boundaries

section Limits

variable {α β : Type}

/-- A read that does not run into a limit. -/
def NotLimit (source : Except PffError α) : Prop :=
  ∀ error, source = .error error → error.isLimit = false

/-- What is used of a read, whether or not it succeeded. -/
def recovered [Inhabited α] : Except PffError α → α
  | .ok value => value
  | .error _ => default

/-- A program that does not run into a limit when it is run alone. -/
def LimitFree (program : Traversing α) : Prop :=
  ∀ error behind, program Traversal.start = .error error behind → error.isLimit = false

theorem Paired.refl {room : Nat} {traversal : Traversal} (left : Room room traversal.catalog) :
    Paired (eventsSeen traversal.seen) (eventsSeen traversal.seen)
      traversal.catalog.activeMessageIssues.length traversal.catalog.activeMessageIssues.length room
      traversal traversal :=
  ⟨⟨[], (List.append_nil _).symm, (List.append_nil _).symm⟩, ⟨[], _, _, rfl, rfl, rfl, rfl⟩,
    left, left⟩

/-- A steady program leaves room, and it does not fail because of the sink. -/
theorem Steady.ensures {messages room : Nat} {program : Traversing α}
    (steady : Steady messages program) {traversal : Traversal}
    (left : Room (messages + room) traversal.catalog) :
    Ensures program traversal (fun _ behind => Room room behind.catalog)
      (fun error behind => error.isSink = false ∧ Room room behind.catalog) := by
  have ends := steady _ _ _ _ room traversal traversal (Paired.refl left)
  unfold Ensures
  revert ends
  cases program traversal <;> intro ends
  · exact ends.2.left
  · exact ⟨ends.2.1, ends.2.2.left⟩

theorem room_start {room : Nat} (below : room ≤ maxMessages) : Room room Traversal.start.catalog :=
  ⟨by rw [Nat.add_comm]; exact below, by rw [Nat.add_comm]; exact below,
    by rw [Nat.add_comm]; exact below, by rw [Nat.add_comm]; exact below⟩

theorem Paired.of_start {room : Nat} {traversal : Traversal} (left : Room room traversal.catalog) :
    Paired [] (eventsSeen traversal.seen) 0 traversal.catalog.activeMessageIssues.length room
      Traversal.start traversal := by
  have below : room ≤ maxMessages := by have := left.messages; omega
  exact ⟨⟨[], rfl, (List.append_nil _).symm⟩, ⟨[], _, _, rfl, rfl, rfl, rfl⟩,
    room_start below, left⟩

/-- Whether a steady program runs into a limit does not depend on where it is run. -/
theorem Steady.limitFree {program : Traversing α} (steady : Steady 0 program)
    {traversal : Traversal} (left : Room 0 traversal.catalog) :
    Ensures program traversal (fun _ _ => LimitFree program)
      (fun error _ => LimitFree program ↔ error.isLimit = false) := by
  have ends := steady _ _ _ _ 0 Traversal.start traversal (Paired.of_start left)
  unfold Ensures LimitFree
  revert ends
  cases program Traversal.start <;> cases program traversal <;> intro ends
  · exact fun _ _ same => nomatch same
  · exact False.elim ends
  · exact False.elim ends
  · obtain ⟨rfl, -, -⟩ := ends
    constructor
    · exact fun free => free _ _ rfl
    · intro kind error behind same
      cases same
      exact kind

end Limits

section Outcomes

variable {α β : Type} {sink : CatalogSink}

/-- What relates the states before and behind a program, where nothing of the attachments is
seen in between. -/
structure Follows (kept : Traversal → Traversal → Prop) : Prop where
  quiet : ∀ {a b}, Bounds [] a b → kept a b
  trans : ∀ {a b c}, kept a b → kept b c → kept a c

theorem follows_bounds : Follows (Bounds []) := ⟨id, fun first second => first.trans second⟩

theorem follows_balanced : Follows Balanced :=
  ⟨fun known => known.balanced, fun first second => first.trans second⟩

/-- A program that fails exactly where what it reads is not sound, but not because of the sink. -/
def Outcome (kept : Traversal → Traversal → Prop) (sound : Prop) (gives : α → Prop)
    (messages : Nat) (program : Traversing α) : Prop :=
  ∀ room traversal, Room (messages + room) traversal.catalog →
    Ensures program traversal
      (fun value behind => (sound ∧ gives value) ∧ kept traversal behind ∧ Room room behind.catalog)
      (fun error behind => (¬sound ∧ error.isSink = false) ∧ kept traversal behind)

variable {kept : Traversal → Traversal → Prop} {sound sound' : Prop} {gives : α → Prop}
  {gives' : β → Prop} {messages : Nat}

theorem Outcome.congr {program : Traversing α} (outcome : Outcome kept sound gives messages program)
    (same : sound ↔ sound') : Outcome kept sound' gives messages program := by
  rwa [← propext same]

theorem Outcome.bind (follows : Follows kept) {further : Nat}
    {first : Traversing α} {next : α → Traversing β}
    (outcome : Outcome kept sound gives messages first)
    (outcomeNext : ∀ value, gives value → Outcome kept sound' gives' further (next value)) :
    Outcome kept (sound ∧ sound') gives' (messages + further) (first >>= next) := by
  intro room traversal left
  rw [Nat.add_assoc] at left
  refine Ensures.bind ((outcome _ traversal left).mono (fun _ _ ends => ends) ?_) ?_
  · intro error behind ends
    exact ⟨⟨fun both => ends.1.1 both.1, ends.1.2⟩, ends.2⟩
  · intro value between ends
    obtain ⟨⟨holds, given⟩, before, leftBetween⟩ := ends
    refine (outcomeNext value given room between leftBetween).mono ?_ ?_
    · intro result behind ends
      exact ⟨⟨⟨holds, ends.1.1⟩, ends.1.2⟩, follows.trans before ends.2.1, ends.2.2⟩
    · intro error behind ends
      exact ⟨⟨fun both => ends.1.1 both.2, ends.1.2⟩, follows.trans before ends.2⟩

theorem Outcome.then (follows : Follows kept) {first : Traversing α} {next : α →
    Traversing β} (outcome : Outcome kept sound gives 0 first)
    (outcomeNext : ∀ value, gives value → Outcome kept sound' gives' messages (next value)) :
    Outcome kept (sound ∧ sound') gives' messages (first >>= next) := by
  have both := outcome.bind follows outcomeNext
  rwa [Nat.zero_add] at both

theorem Outcome.weaken {program : Traversing α} (outcome : Outcome kept sound gives 0 program)
    (messages : Nat) : Outcome kept sound gives messages program := by
  intro room traversal left
  refine (outcome (messages + room) traversal (by rwa [Nat.zero_add])).mono ?_ fun _ _ ends => ends
  exact fun _ _ ends => ⟨ends.1, ends.2.1, ends.2.2.mono⟩

/-- A program that cannot fail is followed by one that can. -/
theorem Outcome.after (follows : Follows kept) {first : Traversing α} {next : α →
    Traversing β} (outcome : Outcome kept True gives 0 first)
    (outcomeNext : ∀ value, gives value → Outcome kept sound gives' messages (next value)) :
    Outcome kept sound gives' messages (first >>= next) :=
  (outcome.then follows outcomeNext).congr (iff_of_eq (true_and _))

/-- A program that can fail is followed by one that cannot. -/
theorem Outcome.before (follows : Follows kept) {first : Traversing α} {next : α → Traversing β}
    (outcome : Outcome kept sound gives messages first)
    (outcomeNext : ∀ value, gives value → Outcome kept True gives' 0 (next value)) :
    Outcome kept sound gives' messages (first >>= next) :=
  (outcome.bind follows outcomeNext).congr (iff_of_eq (and_true _))

/-- A steady program that shows only what stands within an item. -/
theorem Outcome.of_content (follows : Follows kept) {program : Traversing α}
    (steady : Steady 0 program) (content : ShowsContent program)
    (ends : ∀ traversal, Room 0 traversal.catalog → Ensures program traversal
      (fun value _ => sound ∧ gives value) (fun _ _ => ¬sound)) :
    Outcome kept sound gives 0 program := by
  intro room traversal left
  rw [Nat.zero_add] at left
  have quiet := (Ensures.of_keeps content traversal).mono
    (fun _ behind reports => follows.quiet reports.inside)
    (fun _ behind reports => follows.quiet reports.inside)
  have leaves := steady.ensures (Nat.zero_add room ▸ left)
  refine ((ends traversal (Room.mono left)).and (quiet.and leaves)).mono ?_ ?_
  · exact fun _ _ ends => ends
  · exact fun _ _ ends => ⟨⟨ends.1, ends.2.2.1⟩, ends.2.1⟩

theorem recordAttachmentIssue_ok {error : PffError} (kind : error.isSink = false)
    (nodeId : Option Nat) (operation : String) (traversal : Traversal) :
    ∃ behind, recordAttachmentIssue nodeId operation error traversal = .ok () behind := by
  unfold recordAttachmentIssue
  rw [if_neg (ne_true_of_eq_false kind)]
  exact ⟨_, rfl⟩

theorem recordItemIssue_ensures (nodeId : Option Nat) (operation : String) (error : PffError)
    (kind : error.isSink = false) (traversal : Traversal) :
    Ensures (recordItemIssue nodeId operation error) traversal
      (fun _ _ => error.isLimit = false) (fun _ _ => error.isLimit = true) := by
  unfold recordItemIssue
  by_cases limit : error.isLimit = true
  · rw [kind, Bool.false_or, if_pos limit]
    exact limit
  · rw [kind, Bool.false_or, if_neg limit]
    exact eq_false_of_ne_true limit

variable (follows : Follows kept)
include follows

theorem outcome_pure {value : α} (given : gives value) :
    Outcome kept True gives 0 (pure value : Traversing α) :=
  .of_content follows (steady_pure value) (showing_pure value) fun _ _ =>
    Ensures.of_pure ⟨trivial, given⟩

theorem outcome_item [Inhabited α] {source : Except PffError α} (reads : NotSink source)
    (nodeId : Option Nat) (operation : String) :
    Outcome kept (NotLimit source) (· = recovered source) 0
      (recoverItemValue nodeId operation source) := by
  refine .of_content follows (steady_recoverItemValue reads _ _)
    (showing_recoverItemValue _ _ _) fun traversal _ => ?_
  cases source with
  | ok value => exact Ensures.of_pure ⟨(fun _ same => nomatch same), rfl⟩
  | error error =>
      refine Ensures.bind ((recordItemIssue_ensures nodeId operation error (reads error rfl)
        traversal).mono (fun _ _ ends => ends) ?_) ?_
      · exact fun _ _ limit free => ne_true_of_eq_false (free error rfl) limit
      · intro _ _ kind
        refine Ensures.of_pure ⟨fun other same => ?_, rfl⟩
        cases same
        exact kind

theorem outcome_containFiletime (messageId : Nat) (operation : String) (value : Option Nat) :
    Outcome kept True (fun _ => True) 0 (containFiletime messageId operation value) := by
  refine .of_content follows (steady_containFiletime _ _ _) (showing_containFiletime _ _ _)
    fun traversal _ => ?_
  cases value with
  | none => exact Ensures.of_pure ⟨trivial, trivial⟩
  | some time =>
      unfold containFiletime provided
      refine Ensures.bind (M := fun _ _ => True) ?_ fun _ _ _ => Ensures.of_pure ⟨trivial, trivial⟩
      split
      · exact Ensures.of_modify trivial
      · exact Ensures.of_pure trivial

/-- What is read of an item fails with it only where it runs into a limit. -/
theorem outcome_limited {program : Traversing Unit} (steady : Steady 0 program)
    (content : ShowsContent program) (nodeId : Option Nat) (operation : String) :
    Outcome kept (LimitFree program) (fun _ => True) 0
      (onError program (recordItemIssue nodeId operation)) := by
  refine .of_content follows (.onError steady fun _ kind => steady_recordItemIssue kind _ _)
    (.onError content fun error => showing_recordItemIssue _ _ error) fun traversal left => ?_
  have fails := (steady.limitFree left).and (steady.ensures (Nat.zero_add 0 ▸ left))
  refine Ensures.of_onError (fails.mono (fun _ _ ends => ⟨ends.1, trivial⟩) fun _ _ ends => ends) ?_
  intro error between ends
  obtain ⟨free, kind, -⟩ := ends
  refine (recordItemIssue_ensures nodeId operation error kind between).mono ?_ ?_
  · exact fun _ _ limit => ⟨free.mpr limit, trivial⟩
  · exact fun _ _ limit holds => ne_true_of_eq_false (free.mp holds) limit

theorem outcome_recordAttachmentIssue {error : PffError} (kind : error.isSink = false)
    (nodeId : Option Nat) (operation : String) :
    Outcome kept True (fun _ => True) 0 (recordAttachmentIssue nodeId operation error) := by
  refine .of_content follows (steady_recordAttachmentIssue kind _ _)
    (showing_recordAttachmentIssue _ _ error) fun traversal _ => ?_
  obtain ⟨behind, recorded⟩ := recordAttachmentIssue_ok kind nodeId operation traversal
  unfold Ensures
  rw [recorded]
  exact ⟨trivial, trivial⟩

/-- A program that fails is given up with an issue. -/
theorem outcome_given_up {program : Traversing Unit} (steady : Steady messages program)
    (keeps : ∀ traversal, Room messages traversal.catalog → Ensures program traversal
      (fun _ behind => kept traversal behind) (fun _ behind => kept traversal behind))
    (nodeId : Option Nat) (operation : String) :
    Outcome kept True (fun _ => True) messages
      (onError program (recordAttachmentIssue nodeId operation)) := by
  intro room traversal left
  have kept := keeps traversal (Room.mono (Nat.add_comm messages room ▸ left))
  refine Ensures.of_onError ((kept.and (steady.ensures left)).mono ?_ fun _ _ ends => ends) ?_
  · exact fun _ _ ends => ⟨⟨trivial, trivial⟩, ends⟩
  · intro error between ends
    obtain ⟨before, kind, leftBetween⟩ := ends
    have recorded := outcome_recordAttachmentIssue follows kind nodeId operation room between
      (by rwa [Nat.zero_add])
    refine recorded.mono (fun _ behind ends => ?_) fun _ _ ends => ?_
    · exact ⟨ends.1, follows.trans before ends.2.1, ends.2.2⟩
    · exact False.elim (ends.1.1 trivial)

end Outcomes

section Messages

variable {sink : CatalogSink}

/-- A message whose start can be reported. -/
@[mk_iff]
structure NativeMessage.MetadataUnlimited (message : NativeMessage) : Prop where
  messageClass : NotLimit (message.messageString messageClassType)
  recipientCount : NotLimit (message.optionalU32 recipientCountType)
  itemType : NotLimit message.itemType
  subject : NotLimit (message.messageString subjectType)
  senderName : NotLimit (message.messageString senderNameType)
  senderEmail : NotLimit (message.messageString senderEmailType)
  clientSubmitTime : NotLimit message.clientSubmitTime
  deliveryTime : NotLimit message.deliveryTime

/-- A message in which no limit is run into, but for its attachments. -/
@[mk_iff]
structure NativeMessage.Unlimited (sink : CatalogSink) (embeddedPath : List Nat)
    (message : NativeMessage) : Prop where
  identifier : NotLimit message.identifier
  metadata : message.MetadataUnlimited
  recipients : LimitFree (streamRecipients sink message (recovered message.identifier)
    (recovered (message.optionalU32 recipientCountType)) embeddedPath)
  properties : LimitFree (streamItemProperties sink message.recordSets
    (.message (recovered message.identifier)) embeddedPath)

variable {kept : Traversal → Traversal → Prop} (follows : Follows kept) (takes : sink.Takes)
  {work : MessageWork} (reads : work.message.Reads)

include follows in
theorem outcome_emit {operation : String} {event : CatalogEvent}
    (stays : event.isMessageEnd = false) (quiet : event.boundary = []) (takes : sink.Takes) :
    Outcome kept True (fun _ => True) 0 (emit sink operation event) := by
  intro room traversal left
  have seen := bounds_event traversal stays
  rw [quiet] at seen
  unfold Ensures
  rw [emit_run, takes.event]
  exact ⟨⟨trivial, trivial⟩, follows.quiet seen, Room.mono left⟩

include follows reads

theorem outcome_readMetadata (messageId : Nat) :
    Outcome kept work.message.MetadataUnlimited
      (fun read => read.2 = recovered (work.message.optionalU32 recipientCountType)) 0
      (readMetadata work messageId) := by
  refine Outcome.congr ?_ (NativeMessage.metadataUnlimited_iff work.message).symm
  refine .then follows (outcome_item follows (reads.messageString _) _ _) fun messageClass _ => ?_
  refine .then follows (outcome_item follows (reads.optionalU32 _) _ _) fun count counted => ?_
  refine .then follows (outcome_item follows reads.itemType _ _) fun itemType _ => ?_
  refine .then follows (outcome_item follows (reads.messageString _) _ _) fun subject _ => ?_
  refine .then follows (outcome_item follows (reads.messageString _) _ _) fun senderName _ => ?_
  refine .then follows (outcome_item follows (reads.messageString _) _ _) fun senderEmail _ => ?_
  refine .then follows (outcome_item follows reads.clientSubmitTime _ _) fun submitted _ => ?_
  refine .after follows (outcome_containFiletime follows _ _ _) fun submitFiletime _ => ?_
  refine .before follows (outcome_item follows reads.deliveryTime _ _) fun delivered _ => ?_
  refine .after follows (outcome_containFiletime follows _ _ _) fun deliveryFiletime _ => ?_
  exact outcome_pure follows counted

include takes

theorem outcome_startMessage (messageId : Nat) :
    Outcome kept work.message.MetadataUnlimited
      (fun hint => hint = recovered (work.message.optionalU32 recipientCountType)) 1
      (startMessage sink work messageId) := by
  intro room traversal left
  obtain ⟨counts, counted, leftBehind⟩ := countMessage_ok left work
  refine Ensures.get_bind ?_
  rw [counted, attempt_ok_bind]
  have metadata := outcome_readMetadata follows reads messageId (1 + room) traversal
    (by rwa [Nat.zero_add])
  refine Ensures.bind (metadata.mono (fun _ _ ends => ends) fun _ _ ends => ends) ?_
  intro read between ends
  obtain ⟨⟨sound, given⟩, before, leftBetween⟩ := ends
  have started : Outcome kept True (fun _ => True) 0 (emit sink "message metadata"
      (.messageStart ⟨messageId, work.provenance, work.recoveryIndex, read.1⟩)) :=
    outcome_emit follows rfl rfl takes
  refine Ensures.bind ((started (1 + room) between (by rwa [Nat.zero_add])).mono (fun _ _ ends =>
    ends) fun _ _ ends => ?_) ?_
  · exact False.elim (ends.1.1 trivial)
  · intro _ behind ends
    obtain ⟨-, shown, -⟩ := ends
    refine Ensures.modify_bind (Ensures.of_pure ⟨⟨sound, given⟩, ?_, ?_⟩)
    · exact follows.trans before (follows.trans shown (follows.quiet (.of_same rfl)))
    · exact ⟨leftBehind.messages, leftBehind.recovered, leftBehind.orphan, leftBehind.fragment⟩

/-- Whatever becomes of its attachments, a message is reported. -/
theorem outcome_messageBody (attachmentCount : Nat) {messageId messages : Nat}
    {attachments : Traversing Unit} (steady : Steady messages attachments)
    (keeps : ∀ traversal, Room messages traversal.catalog → Ensures attachments traversal
      (fun _ behind => kept traversal behind) (fun _ behind => kept traversal behind))
    (identified : messageId = recovered work.message.identifier) :
    Outcome kept (work.message.MetadataUnlimited ∧
        LimitFree (streamRecipients sink work.message (recovered work.message.identifier)
          (recovered (work.message.optionalU32 recipientCountType)) work.embeddedPath) ∧
        LimitFree (streamItemProperties sink work.message.recordSets
          (.message (recovered work.message.identifier)) work.embeddedPath))
      (fun _ => True) (1 + messages)
      (messageBody sink work messageId attachmentCount attachments) := by
  subst identified
  have properties : Outcome kept (LimitFree (streamItemProperties sink work.message.recordSets
      (.message (recovered work.message.identifier)) work.embeddedPath)) (fun _ => True) 0
      (onError (streamItemProperties sink work.message.recordSets
        (.message (recovered work.message.identifier)) work.embeddedPath)
        (recordItemIssue (some (recovered work.message.identifier)) "stream message properties")) :=
    outcome_limited follows (streamItemProperties_steady takes reads.recordSets _ _)
      (streamItemProperties_content _ _ _) _ _
  refine .bind follows (outcome_startMessage follows takes reads _) fun hint same => ?_
  subst same
  refine .then follows (outcome_limited follows (streamRecipients_steady takes reads _ _ _)
    (streamRecipients_content _ _ _ _) _ _) fun _ _ => ?_
  cases counted : (do work.message.attachmentCount; nativeCount maxRecordEntries attachmentCount :
      Except PffError Nat) with
  | ok count =>
      have both := (outcome_given_up follows steady keeps
        (some (recovered work.message.identifier)) "stream attachments").bind follows
          fun _ _ => properties
      exact both.congr (iff_of_eq (true_and _))
  | error error =>
      have kind : error.isSink = false :=
        notSink_bind reads.attachmentCount (fun _ _ => notSink_nativeCount _ _) error counted
      exact Outcome.weaken (.after follows (outcome_recordAttachmentIssue follows kind _ _)
        fun _ _ => properties) messages

end Messages

section Embedded

variable {sink : CatalogSink} {sound : Prop} {messages : Nat}

theorem outcome_readIdentifier {message : NativeMessage} (reads : message.Reads) :
    Outcome (Bounds []) (NotLimit message.identifier)
      (fun identified => identified.1 = recovered message.identifier) 0
      (readIdentifier message) := by
  refine .of_content follows_bounds (readIdentifier_steady reads) (readIdentifier_content message)
    fun traversal _ => ?_
  unfold Ensures
  rw [readIdentifier_run]
  cases answer : message.identifier with
  | ok identifier => exact ⟨(fun _ same => nomatch same), rfl⟩
  | error error =>
      have ends := recordItemIssue_ensures none "get message identifier" error
        (reads.identifier error answer) traversal
      unfold Ensures at ends
      dsimp only
      revert ends
      cases recordItemIssue none "get message identifier" error traversal <;> intro ends
      · refine ⟨fun other same => ?_, rfl⟩
        cases same
        exact ends
      · exact fun free => ne_true_of_eq_false (free error rfl) ends

variable (takes : sink.Takes)
include takes

/-- Outside of a message nothing is seen of the attachments in it. -/
theorem outcome_reportMessage {body : Traversing Unit}
    (outcome : Outcome Balanced sound (fun _ => True) messages body) (messageId : Nat)
    (identifierComplete : Bool) :
    Outcome (Bounds []) sound (fun _ => True) messages
      (reportMessage sink messageId identifierComplete body) := by
  intro room traversal left
  have ends := outcome room (captured messageId identifierComplete traversal)
    ⟨left.messages, left.recovered, left.orphan, left.fragment⟩
  unfold Ensures at ends ⊢
  rw [reportMessage_run takes]
  revert ends
  cases body (captured messageId identifierComplete traversal) with
  | ok value behind =>
      intro ends
      obtain ⟨holds, balanced, leaves⟩ := ends
      refine ⟨holds, balanced.message rfl [.closing _] (List.append_assoc _ _ _) ?_
        fun _ => rfl, leaves.messages, leaves.recovered, leaves.orphan, leaves.fragment⟩
      intro activity member
      rw [List.mem_singleton.mp member]
      exact ⟨fun _ => rfl, rfl⟩
  | error error behind =>
      intro ends
      exact ⟨ends.1, ends.2.message rfl [] rfl (List.forall_mem_nil _) fun _ => rfl⟩

theorem outcome_processMessageWith {work : MessageWork} (reads : work.message.Reads)
    (embedded : work.embeddedPath ≠ []) (attachmentCount : Nat)
    {attachments : (messageId : Nat) → Traversing Unit}
    (steady : ∀ messageId, Steady messages (attachments messageId))
    (keeps : ∀ messageId traversal, Room messages traversal.catalog →
      Ensures (attachments messageId) traversal
        (fun _ behind => Balanced traversal behind) (fun _ behind => Balanced traversal behind)) :
    Outcome (Bounds []) (work.message.Unlimited sink work.embeddedPath) (fun _ => True)
      (1 + messages) (processMessageWith sink work attachmentCount attachments) := by
  have bodies := fun messageId (identified : messageId = recovered work.message.identifier) =>
    outcome_messageBody follows_balanced takes reads attachmentCount
      (steady messageId) (keeps messageId) identified
  refine Outcome.congr ?_ (NativeMessage.unlimited_iff sink work.embeddedPath work.message).symm
  refine .then follows_bounds (outcome_readIdentifier reads) fun identified same => ?_
  intro room traversal left
  refine Ensures.get_bind ?_
  have unseen : stableTopLevelIdentifierSeen traversal.visited identified.1 work.embeddedPath =
      false := decide_eq_false fun seen => embedded seen.1
  rw [unseen]
  have reported := outcome_reportMessage takes (bodies identified.1 same) identified.1 identified.2
  refine Ensures.bind ((reported room traversal left).mono (fun _ _ ends => ends)
    fun _ _ ends => ends) ?_
  intro _ between ends
  exact Ensures.of_modify ⟨ends.1, ends.2.1.trans (.of_same rfl), ends.2.2⟩

end Embedded

section Opening

variable {sink : CatalogSink} {α : Type}

/-- Whether an attachment refers to content elsewhere. -/
def NativeAttachment.isReference (attachment : NativeAttachment) : Bool :=
  let method := recovered (attachmentMethod attachment)
  method = some 2 ∨ method = some 3 ∨ method = some 4 ∨ method = some 7

/-- An attachment as it is reported, by what is read of it. -/
def opening (messageId index : Nat) (embeddedPath : List Nat) (attachment : NativeAttachment) :
    OpenAttachment where
  messageId
  index
  embeddedPath
  attachment
  attachmentType := if attachment.isReference = true then some referenceType
    else recovered attachment.attachmentType
  isReference := attachment.isReference
  dataSize := if attachment.isReference = true then none else recovered attachment.attachmentSize
  filename := recovered (attachmentFilename attachment)

theorem outcome_recoverAttachmentValue [Inhabited α] {source : Except PffError α}
    (reads : NotSink source) (messageId : Nat) (operation : String) :
    Outcome (Bounds []) True (· = recovered source) 0
      (recoverAttachmentValue messageId operation source) := by
  refine .of_content follows_bounds (steady_recoverAttachmentValue reads _ _)
    (showing_recoverAttachmentValue _ _ _) fun traversal _ => ?_
  cases source with
  | ok value => exact Ensures.of_pure ⟨trivial, rfl⟩
  | error error =>
      obtain ⟨behind, recorded⟩ := recordAttachmentIssue_ok (reads error rfl) (some messageId)
        operation traversal
      refine Ensures.bind (M := fun _ _ => True) ?_ fun _ _ _ => Ensures.of_pure ⟨trivial, rfl⟩
      unfold Ensures
      rw [recorded]
      trivial

theorem outcome_unlessReference {isReference : Bool} {known : α} {program : Traversing α}
    {value : α} (outcome : Outcome (Bounds []) True (· = value) 0 program) :
    Outcome (Bounds []) True (· = if isReference = true then known else value) 0
      (unlessReference isReference known program) := by
  unfold unlessReference
  split
  · exact outcome_pure follows_bounds rfl
  · exact outcome

theorem outcome_count {change : RawCatalog → RawCatalog}
    (active : ∀ catalog, (change catalog).activeMessageIssues = catalog.activeMessageIssues)
    (kept : ∀ {room} catalog, Room room catalog → Room room (change catalog)) :
    Outcome (Bounds []) True (fun _ => True) 0 (count change) :=
  .of_content follows_bounds (steady_count active kept) (showing_count active) fun _ _ =>
    Ensures.of_modify ⟨trivial, trivial⟩

theorem outcome_modify {change : Traversal → Traversal}
    (catalog : ∀ traversal, (change traversal).catalog = traversal.catalog)
    (seen : ∀ traversal, (change traversal).seen = traversal.seen) :
    Outcome (Bounds []) True (fun _ => True) 0 (modify change : Traversing Unit) := by
  intro room traversal left
  refine Ensures.of_modify ⟨⟨trivial, trivial⟩, .of_same (seen traversal), ?_⟩
  rw [catalog]
  exact left.mono

theorem outcome_provided {condition : Prop} [Decidable condition] {program : Traversing Unit}
    (outcome : Outcome (Bounds []) True (fun _ => True) 0 program) :
    Outcome (Bounds []) True (fun _ => True) 0 (provided condition program) := by
  unfold provided
  split
  · exact outcome
  · exact outcome_pure follows_bounds trivial

/-- Programs that cannot fail, with what is seen of the attachments in each. -/
theorem Outcome.sequence {β : Type} {bounds bounds' : List Boundary} {gives : α → Prop}
    {gives' : β → Prop} {first : Traversing α} {next : α → Traversing β}
    (outcome : Outcome (Bounds bounds) True gives 0 first)
    (outcomeNext : ∀ value, gives value → Outcome (Bounds bounds') True gives' 0 (next value)) :
    Outcome (Bounds (bounds ++ bounds')) True gives' 0 (first >>= next) := by
  intro room traversal left
  refine Ensures.bind ((outcome room traversal left).mono (fun _ _ ends => ends) ?_) ?_
  · exact fun _ _ ends => False.elim (ends.1.1 trivial)
  · intro value between ends
    obtain ⟨⟨-, given⟩, before, leftBetween⟩ := ends
    refine (outcomeNext value given room between (by rwa [Nat.zero_add])).mono ?_ ?_
    · exact fun _ _ ends => ⟨ends.1, before.trans ends.2.1, ends.2.2⟩
    · exact fun _ _ ends => False.elim (ends.1.1 trivial)

variable (takes : sink.Takes)
include takes

theorem outcome_boundary (operation : String) (event : CatalogEvent)
    (stays : event.isMessageEnd = false) :
    Outcome (Bounds event.boundary) True (fun _ => True) 0 (emit sink operation event) := by
  intro room traversal left
  unfold Ensures
  rw [emit_run, takes.event]
  exact ⟨⟨trivial, trivial⟩, bounds_event traversal stays, Room.mono left⟩

theorem outcome_properties {opened : OpenAttachment} (reads : opened.attachment.Reads) :
    Outcome (Bounds []) True (fun _ => True) 0 (opened.properties sink) := by
  refine outcome_given_up follows_bounds (streamItemProperties_steady takes reads.recordSets _ _)
    (fun traversal _ => ?_) _ _
  exact (Ensures.of_keeps (streamItemProperties_content _ _ _) traversal).mono
    (fun _ _ reports => reports.inside) fun _ _ reports => reports.inside

theorem outcome_openAttachment (messageId index : Nat) (embeddedPath : List Nat)
    {attachment : NativeAttachment} (reads : attachment.Reads) :
    Outcome (Bounds [.opens messageId index]) True
      (· = opening messageId index embeddedPath attachment) 0
      (openAttachment sink messageId index embeddedPath attachment) := by
  refine .sequence (outcome_recoverAttachmentValue (attachmentMethod_reads reads) _ _)
    fun method sameMethod => ?_
  subst sameMethod
  refine .sequence (outcome_unlessReference
    (outcome_recoverAttachmentValue reads.attachmentType _ _)) fun attachmentType sameType => ?_
  refine .sequence (outcome_unlessReference
    (outcome_recoverAttachmentValue reads.attachmentSize _ _)) fun dataSize sameSize => ?_
  refine .sequence (outcome_recoverAttachmentValue (attachmentFilename_reads reads) _ _)
    fun filename sameName => ?_
  subst sameType sameSize sameName
  refine .sequence (outcome_boundary takes _ _ rfl) fun _ _ => ?_
  have counted : Outcome (Bounds []) True (fun _ => True) 0
      (count fun catalog => { catalog with attachments := catalog.attachments + 1 }) :=
    outcome_count (fun _ => rfl) fun _ room =>
      ⟨room.messages, room.recovered, room.orphan, room.fragment⟩
  refine counted.sequence fun _ _ => ?_
  refine .sequence (outcome_provided (outcome_properties takes reads)) fun _ _ => ?_
  exact outcome_pure follows_bounds rfl

end Opening

section Closing

variable {sink : CatalogSink}

/-- Where an attachment ends. -/
def OpenAttachment.closed (opened : OpenAttachment) : List Boundary :=
  [.closes opened.messageId opened.index]

/-- The size of content that is read is known. -/
def OpenAttachment.Measured (opened : OpenAttachment) : Prop :=
  opened.isEmbedded = false → opened.isReference = false → opened.dataSize ≠ none

/-- The end of an attachment is reported exactly where what is read of it is sound; the sink
is no reason for a failure. -/
def Closes (sound : Prop) (opened : OpenAttachment) (messages : Nat) (program : Traversing Unit) :
    Prop :=
  ∀ room traversal, Room (messages + room) traversal.catalog →
    Ensures program traversal
      (fun _ behind => sound ∧ Bounds opened.closed traversal behind ∧ Room room behind.catalog)
      (fun error behind => (¬sound ∧ error.isSink = false) ∧ Bounds [] traversal behind)

variable {sound sound' : Prop} {opened : OpenAttachment} {messages : Nat}

theorem Closes.congr {program : Traversing Unit} (closes : Closes sound opened messages program)
    (same : sound ↔ sound') : Closes sound' opened messages program := by
  rwa [← propext same]

theorem Outcome.closes {program : Traversing Unit} {gives : Unit → Prop}
    (outcome : Outcome (Bounds opened.closed) True gives 0 program) (holds : sound)
    (messages : Nat) : Closes sound opened messages program := by
  intro room traversal left
  refine (outcome.weaken messages room traversal left).mono ?_ ?_
  · exact fun _ _ ends => ⟨holds, ends.2⟩
  · exact fun _ _ ends => False.elim (ends.1.1 trivial)

/-- What is reported before the end. -/
theorem Closes.of_outcome {α : Type} {gives : α → Prop} {first : Traversing α}
    {next : α → Traversing Unit} (outcome : Outcome (Bounds []) sound gives messages first)
    (outcomeNext : ∀ value, gives value →
      Outcome (Bounds opened.closed) True (fun _ => True) 0 (next value)) :
    Closes sound opened messages (first >>= next) := by
  intro room traversal left
  refine Ensures.bind ((outcome room traversal left).mono (fun _ _ ends => ends)
    fun _ _ ends => ends) ?_
  intro value between ends
  obtain ⟨⟨holds, given⟩, before, leftBetween⟩ := ends
  refine (outcomeNext value given room between (by rwa [Nat.zero_add])).mono ?_ ?_
  · exact fun _ _ ends => ⟨holds, before.trans ends.2.1, ends.2.2⟩
  · exact fun _ _ ends => False.elim (ends.1.1 trivial)

variable (takes : sink.Takes) (reads : opened.attachment.Reads)
include takes reads

theorem finish_closes : Outcome (Bounds opened.closed) True (fun _ => True) 0
    (opened.finish sink) :=
  .sequence (outcome_provided (outcome_properties takes reads)) fun _ _ =>
    outcome_boundary takes "attachment end" (.attachmentEnd opened.messageId opened.index) rfl

theorem giveUp_closes {error : PffError} (kind : error.isSink = false) (operation : String) :
    Outcome (Bounds opened.closed) True (fun _ => True) 0 (opened.giveUp sink operation error) :=
  .sequence (outcome_provided (outcome_properties takes reads)) fun _ _ =>
    .sequence (outcome_boundary takes "attachment abort"
      (.attachmentAbort opened.messageId opened.index) rfl) fun _ _ =>
      outcome_recordAttachmentIssue follows_bounds kind _ _

theorem close_closes (expected : Nat) (deferring : Bool) (actual : Nat) :
    Outcome (Bounds opened.closed) True (fun _ => True) 0
      (opened.close sink expected deferring (some actual)) := by
  have counted : Outcome (Bounds []) True (fun _ => True) 0 (count fun catalog =>
      { catalog with attachmentBytes := catalog.attachmentBytes + actual }) :=
    outcome_count (fun _ => rfl) fun _ room =>
      ⟨room.messages, room.recovered, room.orphan, room.fragment⟩
  refine counted.sequence fun _ _ => ?_
  split
  · have deferred : Outcome (Bounds []) True (fun _ => True) 0
        (defer (.attachment opened.embeddedPath opened.index expected actual opened.attachment)) :=
      outcome_modify (fun _ => rfl) fun _ => rfl
    refine deferred.sequence fun _ _ => ?_
    exact outcome_boundary takes "attachment end" (.attachmentEnd opened.messageId opened.index) rfl
  · exact finish_closes takes reads

/-- Content that cannot be read is given up. -/
theorem streamed_ensures {program : Traversing Nat} (steady : Steady 0 program)
    (content : ShowsContent program) {room : Nat} {traversal : Traversal}
    (left : Room room traversal.catalog) :
    Ensures (onError (some <$> program) fun error => do
        attempt (refuse (error.isSink = true) error)
        opened.giveUp sink "stream attachment data" error
        return none) traversal
      (fun streamed behind => Room room behind.catalog ∧
        Bounds (if streamed.isNone = true then opened.closed else []) traversal behind)
      (fun _ _ => False) := by
  have quiet := (Ensures.of_keeps content traversal).mono
    (fun _ behind reports => reports.inside) fun _ behind reports => reports.inside
  have leaves := steady.ensures (Nat.zero_add room ▸ left)
  have streamed : Ensures (some <$> program) traversal
      (fun streamed behind => Room room behind.catalog ∧
        Bounds (if streamed.isNone = true then opened.closed else []) traversal behind)
      (fun error behind => Bounds [] traversal behind ∧ error.isSink = false ∧
        Room room behind.catalog) := by
    have both := quiet.and leaves
    unfold Ensures at both ⊢
    simp only [Functor.map, EStateM.map]
    revert both
    cases program traversal <;> intro both
    · exact ⟨both.2, both.1⟩
    · exact both
  refine Ensures.of_onError streamed ?_
  intro error between ends
  obtain ⟨before, kind, leftBetween⟩ := ends
  have given := giveUp_closes takes reads kind "stream attachment data" room between
    (by rwa [Nat.zero_add])
  have allowed : refuse (error.isSink = true) error = .ok () :=
    if_neg (ne_true_of_eq_false kind)
  rw [allowed, attempt_ok_bind]
  refine Ensures.bind (given.mono (fun _ _ ends => ends) fun _ _ ends => ?_) ?_
  · exact False.elim (ends.1.1 trivial)
  · exact fun _ behind ends => Ensures.of_pure ⟨ends.2.2, before.trans ends.2.1⟩

omit takes reads in
theorem mapError_ok {ε ε' α : Type} (f : ε → ε') (value : α) :
    (Except.ok value : Except ε α).mapError f = .ok value := rfl

theorem content_closes :
    Closes (opened.dataSize ≠ none) opened 0 (opened.content sink) := by
  intro room traversal left
  rw [Nat.zero_add] at left
  unfold OpenAttachment.content
  cases size : opened.dataSize with
  | none => exact ⟨⟨fun known => known rfl, rfl⟩, Bounds.refl traversal⟩
  | some expected =>
      obtain ⟨mimeType, probed⟩ := takes.probe opened.messageId opened.index expected
        opened.filename opened.attachment.data
      rw [okOr_some, attempt_ok_bind, probed, mapError_ok, attempt_ok_bind]
      have mime : Outcome (Bounds []) True (fun _ => True) 0 (opened.reportMime sink mimeType) := by
        cases mimeType with
        | none => exact outcome_pure follows_bounds trivial
        | some mimeType =>
            exact outcome_boundary takes "attachment MIME probe" (.attachmentMimeProbe
            opened.messageId opened.index mimeType) rfl
      refine Ensures.bind ((mime room traversal (by rwa [Nat.zero_add])).mono
        (fun _ _ ends => ends) fun _ _ ends => ?_) ?_
      · exact False.elim (ends.1.1 trivial)
      · intro _ between ends
        obtain ⟨-, before, leftBetween⟩ := ends
        have streaming := streamed_ensures takes reads
          (streamAttachment_steady takes opened.messageId opened.index expected
            (sink.attachmentPayload opened.messageId opened.index (some expected)) reads)
          (streamAttachment_content _ _ _ _ _) leftBetween
        refine Ensures.bind (streaming.mono (fun _ _ ends => ends) fun _ _ ends =>
          False.elim ends) ?_
        intro streamed behind ends
        obtain ⟨leftBehind, seen⟩ := ends
        cases streamed with
        | none => exact Ensures.of_pure ⟨Option.some_ne_none _, before.trans seen, leftBehind⟩
        | some actual =>
            have closing := close_closes takes reads expected
              (sink.attachmentPayload opened.messageId opened.index (some expected)).isDeferred
              actual room behind (by rwa [Nat.zero_add])
            refine closing.mono (fun _ _ ends => ⟨Option.some_ne_none _, ?_, ends.2.2⟩) ?_
            · exact before.trans (seen.trans ends.2.1)
            · exact fun _ _ ends => False.elim (ends.1.1 trivial)

theorem withoutItem_closes {item : Except PffError Unit} (readsItem : NotSink item) :
    Closes opened.Measured opened 0 (opened.withoutItem sink item) := by
  unfold OpenAttachment.withoutItem
  by_cases embedded : opened.isEmbedded = true
  · have measured : opened.Measured := fun plain => absurd embedded (ne_true_of_eq_false plain)
    rw [if_pos embedded]
    cases item with
    | ok found => exact (giveUp_closes takes reads rfl _).closes measured 0
    | error error =>
        have kind : error.isSink = false := readsItem error rfl
        dsimp only
        rw [if_neg (ne_true_of_eq_false kind)]
        exact (giveUp_closes takes reads kind _).closes measured 0
  · rw [if_neg embedded]
    by_cases reference : opened.isReference = true
    · rw [if_pos reference]
      exact (finish_closes takes reads).closes
        (fun _ known => absurd reference (ne_true_of_eq_false known)) 0
    · rw [if_neg reference]
      refine (content_closes takes reads).congr ⟨fun sized _ _ => sized, fun measured => ?_⟩
      exact measured (eq_false_of_ne_true embedded) (eq_false_of_ne_true reference)

/-- In the orders of a writer no limit is run into within an attachment. -/
def OpenAttachment.Unlimited (sink : CatalogSink) (opened : OpenAttachment) (work : MessageWork)
    (message : NativeMessage) : Prop :=
  opened.isEmbedded = true → sink.order.isWriter = true → ∀ embedded,
    embeddedWork work opened message = .ok embedded →
      embedded.message.Unlimited sink embedded.embeddedPath

theorem withItem_closes (work : MessageWork) (message : NativeMessage) (inner : AttachmentTable)
    {process : MessageWork → Traversing Unit}
    (outcome : ∀ embedded, embeddedWork work opened message = .ok embedded →
      Outcome (Bounds []) (embedded.message.Unlimited sink embedded.embeddedPath) (fun _ => True)
        messages (process embedded)) :
    Closes (opened.Measured ∧ opened.Unlimited sink work message) opened messages
      (opened.withItem sink work message inner process) := by
  unfold OpenAttachment.withItem
  by_cases embedded : opened.isEmbedded = true
  · have measured : opened.Measured := fun plain => absurd embedded (ne_true_of_eq_false plain)
    rw [if_pos embedded]
    cases found : embeddedWork work opened message with
    | error error =>
        refine (giveUp_closes takes reads (embeddedWork_error found) _).closes ⟨measured, ?_⟩ _
        intro _ _ other same
        rw [found] at same
        cases same
    | ok within =>
        dsimp only
        by_cases writer : sink.order.isWriter = true
        · rw [if_pos writer]
          refine (Closes.of_outcome (outcome within found) fun _ _ =>
            finish_closes takes reads).congr ⟨fun unlimited => ⟨measured, ?_⟩, fun both => ?_⟩
          · intro _ _ other same
            rw [found] at same
            cases same
            exact unlimited
          · exact both.2 embedded writer within found
        · rw [if_neg writer]
          have waits : Outcome (Bounds []) True (fun _ => True) 0 (modify fun traversal =>
              { traversal with pending := (within, inner) :: traversal.pending } :
                Traversing Unit) := outcome_modify (fun _ => rfl) fun _ => rfl
          have both := (finish_closes takes reads).sequence fun _ _ => waits
          exact Outcome.closes both ⟨measured, fun _ known => absurd known writer⟩ messages
  · rw [if_neg embedded]
    have unlimited : opened.Unlimited sink work message := fun known => absurd known embedded
    by_cases reference : opened.isReference = true
    · rw [if_pos reference]
      have measured : opened.Measured := fun _ known =>
        absurd reference (ne_true_of_eq_false known)
      exact (finish_closes takes reads).closes ⟨measured, unlimited⟩ messages
    · rw [if_neg reference]
      intro room traversal left
      have closes : Closes (opened.Measured ∧ opened.Unlimited sink work message) opened 0
          (opened.content sink) :=
        (content_closes takes reads).congr ⟨fun sized => ⟨fun _ _ => sized, unlimited⟩,
          fun both => both.1 (eq_false_of_ne_true embedded) (eq_false_of_ne_true reference)⟩
      refine (closes (messages + room) traversal (by rwa [Nat.zero_add])).mono ?_
        fun _ _ ends => ends
      exact fun _ _ ends => ⟨ends.1, ends.2.1, ends.2.2.mono⟩

end Closing

section Tables

variable {sink : CatalogSink}

/-- No failure to read an attachment, from a given one on, ends the traversal of the others. -/
def AttachmentTable.Sound (sink : CatalogSink) (work : MessageWork) (messageId : Nat) :
    (index : Nat) → AttachmentTable → Prop
  | _, .nil => True
  | index, .unreadable _ rest => rest.Sound sink work messageId (index + 1)
  | index, .plain attachment _ rest =>
      (opening messageId index work.embeddedPath attachment).Measured ∧
        rest.Sound sink work messageId (index + 1)
  | index, .embedded attachment message _ rest =>
      let opened := opening messageId index work.embeddedPath attachment
      (opened.Measured ∧ opened.Unlimited sink work message) ∧
        rest.Sound sink work messageId (index + 1)

/-- The boundaries of as many attachments, one behind the other. -/
def pairs (messageId : Nat) : (index length : Nat) → List Boundary
  | _, 0 => []
  | index, length + 1 =>
      [.opens messageId index, .closes messageId index] ++ pairs messageId (index + 1) length

theorem pairs_even (messageId index length : Nat) :
    (pairs messageId index length).length = 2 * length := by
  induction length generalizing index with
  | zero => rfl
  | succ length ih =>
      rw [pairs, List.length_append, ih]
      simp only [List.length_cons, List.length_nil]
      omega

/-- The events of attachments that are traversed alone. -/
def alone (sink : CatalogSink) (work : MessageWork) (messageId index : Nat)
    (table : AttachmentTable) : List CatalogEvent :=
  eventsSeen (after (streamAttachments sink work messageId index table) Traversal.start).seen

/-- The events of attachments that are traversed one by one, each as if it were the only one. -/
def separately (sink : CatalogSink) (work : MessageWork) (messageId : Nat) :
    (index : Nat) → AttachmentTable → List CatalogEvent
  | _, .nil => []
  | index, .unreadable error rest =>
      alone sink work messageId index (.unreadable error .nil) ++
        separately sink work messageId (index + 1) rest
  | index, .plain attachment item rest =>
      alone sink work messageId index (.plain attachment item .nil) ++
        separately sink work messageId (index + 1) rest
  | index, .embedded attachment message inner rest =>
      alone sink work messageId index (.embedded attachment message inner .nil) ++
        separately sink work messageId (index + 1) rest

/-- An attachment is reported from its start, and to its end where it is sound. -/
def Ends (sound : Prop) (messageId index messages : Nat) (program : Traversing Unit) : Prop :=
  ∀ room traversal, Room (messages + room) traversal.catalog →
    Ensures program traversal
      (fun _ behind => sound ∧
        Bounds [.opens messageId index, .closes messageId index] traversal behind ∧
        Room room behind.catalog)
      (fun _ behind => ¬sound ∧ Bounds [.opens messageId index] traversal behind)

/-- Attachments are reported where they are sound; otherwise one of them is left without its end. -/
def Streams (sound : Prop) (bounds : List Boundary) (events : List CatalogEvent) (messages : Nat)
    (program : Traversing Unit) : Prop :=
  ∀ room traversal, Room (messages + room) traversal.catalog →
    Ensures program traversal
      (fun _ behind => (sound ∧ Room room behind.catalog) ∧ Bounds bounds traversal behind ∧
        eventsSeen behind.seen = eventsSeen traversal.seen ++ events)
      (fun _ behind => ¬sound ∧ ∃ fewer, Bounds fewer traversal behind ∧ fewer.length % 2 = 1)

/-- Whatever was seen before, a steady program shows what it shows alone. -/
theorem Steady.shows {messages : Nat} {program : Traversing Unit} (steady : Steady messages program)
    {traversal : Traversal} (left : Room messages traversal.catalog) :
    eventsSeen (after program traversal).seen =
      eventsSeen traversal.seen ++ eventsSeen (after program Traversal.start).seen := by
  have ends := steady _ _ _ _ 0 Traversal.start traversal (Paired.of_start left)
  unfold after
  revert ends
  cases program Traversal.start <;> cases program traversal <;> intro ends
  · obtain ⟨shown, start, here⟩ := ends.2.events
    rw [start, here]
    rfl
  · exact False.elim ends
  · exact False.elim ends
  · obtain ⟨shown, start, here⟩ := ends.2.2.events
    rw [start, here]
    rfl

theorem after_bind_pure (program : Traversing Unit) (traversal : Traversal) :
    after (program >>= fun _ => pure ()) traversal = after program traversal := by
  unfold after
  rw [run_bind]
  cases program traversal <;> rfl

/-- The first attachment and the others. -/
theorem Streams.cons {sound sound' : Prop} {bounds : List Boundary} {events : List CatalogEvent}
    {messages further messageId index : Nat} {first next : Traversing Unit}
    (steady : Steady messages first)
    (ends : Ends sound messageId index messages first)
    (streams : Streams sound' bounds events further next) :
    Streams (sound ∧ sound') ([.opens messageId index, .closes messageId index] ++ bounds)
      (eventsSeen (after (first >>= fun _ => pure ()) Traversal.start).seen ++ events)
      (messages + further) (first >>= fun _ => next) := by
  intro room traversal left
  rw [Nat.add_assoc] at left
  have shows := steady.shows (Room.mono (Nat.add_comm messages _ ▸ left))
  have firstEnds := ends (further + room) traversal left
  rw [after_bind_pure]
  unfold after at shows ⊢
  unfold Ensures at firstEnds ⊢
  rw [run_bind]
  revert firstEnds shows
  cases first traversal with
  | error error behind =>
      intro shows firstEnds
      exact ⟨fun both => firstEnds.1 both.1, _, firstEnds.2, rfl⟩
  | ok value between =>
      intro shows firstEnds
      obtain ⟨holds, before, leftBetween⟩ := firstEnds
      refine (streams room between leftBetween).mono ?_ ?_
      · intro _ behind ends
        obtain ⟨⟨holdsNext, leaves⟩, seen, events⟩ := ends
        refine ⟨⟨⟨holds, holdsNext⟩, leaves⟩, before.trans seen, ?_⟩
        rw [events, shows, List.append_assoc]
      · intro _ behind ends
        obtain ⟨fails, fewer, seen, odd⟩ := ends
        refine ⟨fun both => fails both.2, _, before.trans seen, ?_⟩
        rw [List.length_append]
        simp only [List.length_cons, List.length_nil]
        omega

theorem Streams.balanced {sound : Prop} {bounds : List Boundary} {events : List CatalogEvent}
    {messages : Nat} {program : Traversing Unit}
    (streams : Streams sound bounds events messages program) {traversal : Traversal}
    (left : Room messages traversal.catalog) :
    Ensures program traversal
      (fun _ behind => Balanced traversal behind) (fun _ behind => Balanced traversal behind) := by
  refine (streams 0 traversal left).mono ?_ ?_
  · exact fun _ _ ends => ends.2.1.balanced
  · exact fun _ _ ends => ends.2.choose_spec.1.balanced

/-- The first attachment of a table. -/
def reportUnreadable (sink : CatalogSink) (messageId index : Nat) (error : PffError) :
    Traversing Unit := do
  emit sink "attachment metadata" (.attachmentStart messageId ⟨index, none, none, none, none⟩)
  count fun catalog => { catalog with attachments := catalog.attachments + 1 }
  emit sink "attachment abort" (.attachmentAbort messageId index)
  recordAttachmentIssue (some messageId) "get attachment" error

def reportPlain (sink : CatalogSink) (work : MessageWork) (messageId index : Nat)
    (attachment : NativeAttachment) (item : Except PffError Unit) : Traversing Unit := do
  let opened ← openAttachment sink messageId index work.embeddedPath attachment
  opened.withoutItem sink item

def reportEmbedded (sink : CatalogSink) (work : MessageWork) (messageId index : Nat)
    (attachment : NativeAttachment) (message : NativeMessage) (inner : AttachmentTable) :
    Traversing Unit := do
  let opened ← openAttachment sink messageId index work.embeddedPath attachment
  opened.withItem sink work message inner fun embedded =>
    processMessageWith sink embedded inner.length fun id =>
      streamAttachments sink embedded id 0 inner

theorem streamAttachments_unreadable (work : MessageWork) (messageId index : Nat)
    (error : PffError) (rest : AttachmentTable) :
    streamAttachments sink work messageId index (.unreadable error rest) =
      reportUnreadable sink messageId index error >>= fun _ =>
        streamAttachments sink work messageId (index + 1) rest := by
  unfold reportUnreadable
  simp only [bind_assoc]
  rfl

theorem streamAttachments_plain (work : MessageWork) (messageId index : Nat)
    (attachment : NativeAttachment) (item : Except PffError Unit) (rest : AttachmentTable) :
    streamAttachments sink work messageId index (.plain attachment item rest) =
      reportPlain sink work messageId index attachment item >>= fun _ =>
        streamAttachments sink work messageId (index + 1) rest := by
  unfold reportPlain
  rw [bind_assoc]
  rfl

theorem streamAttachments_embedded (work : MessageWork) (messageId index : Nat)
    (attachment : NativeAttachment) (message : NativeMessage) (inner rest : AttachmentTable) :
    streamAttachments sink work messageId index (.embedded attachment message inner rest) =
      reportEmbedded sink work messageId index attachment message inner >>= fun _ =>
        streamAttachments sink work messageId (index + 1) rest := by
  unfold reportEmbedded
  rw [bind_assoc]
  rfl

variable (takes : sink.Takes)
include takes

theorem reportUnreadable_steady {error : PffError} (kind : error.isSink = false)
    (messageId index : Nat) : Steady 0 (reportUnreadable sink messageId index error) := by
  refine .then (steady_emit takes _ _) fun _ => ?_
  refine .then (steady_count (fun _ => rfl) fun _ room =>
    ⟨room.messages, room.recovered, room.orphan, room.fragment⟩) fun _ => ?_
  exact .then (steady_emit takes _ _) fun _ => steady_recordAttachmentIssue kind _ _

theorem reportUnreadable_ends {error : PffError} (kind : error.isSink = false)
    (messageId index : Nat) :
    Ends True messageId index 0 (reportUnreadable sink messageId index error) := by
  have counted : Outcome (Bounds []) True (fun _ => True) 0
      (count fun catalog => { catalog with attachments := catalog.attachments + 1 }) :=
    outcome_count (fun _ => rfl) fun _ room =>
      ⟨room.messages, room.recovered, room.orphan, room.fragment⟩
  have reported : Outcome (Bounds [.opens messageId index, .closes messageId index]) True
      (fun _ => True) 0 (reportUnreadable sink messageId index error) := by
    refine .sequence (outcome_boundary takes "attachment metadata"
      (.attachmentStart messageId ⟨index, none, none, none, none⟩) rfl) fun _ _ => ?_
    refine counted.sequence fun _ _ => ?_
    refine .sequence (outcome_boundary takes "attachment abort"
      (.attachmentAbort messageId index) rfl) fun _ _ => ?_
    exact outcome_recordAttachmentIssue follows_bounds kind _ _
  intro room traversal left
  refine (reported room traversal left).mono (fun _ _ ends => ⟨trivial, ends.2⟩) ?_
  exact fun _ _ ends => False.elim (ends.1.1 trivial)

/-- An attachment whose start is reported, and the rest of it. -/
theorem opened_ends {work : MessageWork} {messageId index messages : Nat} {sound : Prop}
    {attachment : NativeAttachment} (reads : attachment.Reads)
    {next : OpenAttachment → Traversing Unit}
    (closes : ∀ opened, opening messageId index work.embeddedPath attachment = opened →
      Closes sound opened messages (next opened)) :
    Ends sound messageId index messages
      (openAttachment sink messageId index work.embeddedPath attachment >>= next) := by
  intro room traversal left
  refine Ensures.bind ((outcome_openAttachment takes messageId index work.embeddedPath reads
    (messages + room) traversal (by rwa [Nat.zero_add])).mono (fun _ _ ends => ends) ?_) ?_
  · exact fun _ _ ends => False.elim (ends.1.1 trivial)
  · intro opened between ends
    obtain ⟨⟨-, rfl⟩, before, leftBetween⟩ := ends
    refine (closes _ rfl room between leftBetween).mono ?_ ?_
    · exact fun _ _ ends => ⟨ends.1, before.trans ends.2.1, ends.2.2⟩
    · exact fun _ _ ends => ⟨ends.1.1, before.trans ends.2⟩

theorem reportPlain_steady (work : MessageWork) (messageId index : Nat)
    {attachment : NativeAttachment} (reads : attachment.Reads) {item : Except PffError Unit}
    (readsItem : NotSink item) :
    Steady 0 (reportPlain sink work messageId index attachment item) := by
  refine .then_of (openAttachment_steady takes _ _ _ reads) (fun _ _ _ => openAttachment_run)
    fun opened same => ?_
  subst same
  exact withoutItem_steady takes reads readsItem

theorem reportPlain_ends (work : MessageWork) (messageId index : Nat)
    {attachment : NativeAttachment} (reads : attachment.Reads) {item : Except PffError Unit}
    (readsItem : NotSink item) :
    Ends (opening messageId index work.embeddedPath attachment).Measured messageId index 0
      (reportPlain sink work messageId index attachment item) := by
  refine opened_ends takes reads fun opened same => ?_
  have readsOpened : opened.attachment.Reads := by
    rw [← same]
    exact reads
  rw [same]
  exact withoutItem_closes takes readsOpened readsItem

theorem reportEmbedded_steady (work : MessageWork) (messageId index : Nat)
    {attachment : NativeAttachment} (reads : attachment.Reads) {message : NativeMessage}
    (readsMessage : message.Reads) {inner : AttachmentTable} (readsInner : inner.Reads) :
    Steady (1 + inner.messages)
      (reportEmbedded sink work messageId index attachment message inner) := by
  refine .then_of (openAttachment_steady takes _ _ _ reads) (fun _ _ _ => openAttachment_run)
    fun opened same => ?_
  subst same
  refine withItem_steady takes reads work message inner fun embedded found => ?_
  obtain ⟨path, rfl⟩ := embeddedWork_path found
  exact processMessageWith_steady takes readsMessage path _ fun id =>
    streamAttachments_steady takes embedded id 0 inner readsInner

theorem reportEmbedded_ends (work : MessageWork) (messageId index : Nat)
    {attachment : NativeAttachment} (reads : attachment.Reads) {message : NativeMessage}
    (readsMessage : message.Reads) {inner : AttachmentTable} (readsInner : inner.Reads)
    (balanced : ∀ (embedded : MessageWork) (id : Nat) (traversal : Traversal),
      Room inner.messages traversal.catalog →
      Ensures (streamAttachments sink embedded id 0 inner) traversal
        (fun _ behind => Balanced traversal behind) (fun _ behind => Balanced traversal behind)) :
    Ends ((opening messageId index work.embeddedPath attachment).Measured ∧
        (opening messageId index work.embeddedPath attachment).Unlimited sink work message)
      messageId index (1 + inner.messages)
      (reportEmbedded sink work messageId index attachment message inner) := by
  refine opened_ends takes reads fun opened same => ?_
  have readsOpened : opened.attachment.Reads := by
    rw [← same]
    exact reads
  rw [same]
  refine withItem_closes takes readsOpened work message inner fun embedded found => ?_
  obtain ⟨path, rfl⟩ := embeddedWork_path found
  exact outcome_processMessageWith takes readsMessage path _
    (fun id => streamAttachments_steady takes embedded id 0 inner readsInner)
    fun id traversal left => balanced embedded id traversal left

theorem streamAttachments_streams (work : MessageWork) (messageId index : Nat)
    (table : AttachmentTable) (reads : table.Reads) :
    Streams (table.Sound sink work messageId index) (pairs messageId index table.length)
      (separately sink work messageId index table) table.messages
      (streamAttachments sink work messageId index table) := by
  induction table generalizing work messageId index with
  | nil =>
      intro room traversal left
      refine Ensures.of_pure ⟨⟨trivial, left.mono⟩, Bounds.refl traversal, ?_⟩
      exact (List.append_nil _).symm
  | unreadable error rest ih =>
      obtain ⟨kind, readsRest⟩ := reads
      have both := Streams.cons (reportUnreadable_steady takes kind messageId index)
        (reportUnreadable_ends takes kind messageId index) (ih work messageId (index + 1) readsRest)
      rw [Nat.zero_add, true_and] at both
      rw [streamAttachments_unreadable, separately, alone, streamAttachments_unreadable]
      exact both
  | plain attachment item rest ih =>
      obtain ⟨readsAttachment, readsItem, readsRest⟩ := reads
      have both := Streams.cons
        (reportPlain_steady takes work messageId index readsAttachment readsItem)
        (reportPlain_ends takes work messageId index readsAttachment readsItem)
        (ih work messageId (index + 1) readsRest)
      rw [Nat.zero_add] at both
      rw [streamAttachments_plain, separately, alone, streamAttachments_plain]
      exact both
  | embedded attachment message inner rest ihInner ih =>
      obtain ⟨readsAttachment, readsMessage, readsInner, readsRest⟩ := reads
      have both := Streams.cons
        (reportEmbedded_steady takes work messageId index readsAttachment readsMessage readsInner)
        (reportEmbedded_ends takes work messageId index readsAttachment readsMessage readsInner
          fun embedded id traversal left => (ihInner embedded id 0 readsInner).balanced left)
        (ih work messageId (index + 1) readsRest)
      rw [Nat.add_comm 1] at both
      rw [streamAttachments_embedded, separately, alone, streamAttachments_embedded]
      exact both

end Tables

section Containment

variable {sink : CatalogSink}

/-- The attachments of a message are reported in their order, each from its start to one end,
and of each the same is seen as if it were the only one. -/
def Contained (sink : CatalogSink) (work : MessageWork) (messageId : Nat) (table : AttachmentTable)
    (traversal : Traversal) : Prop :=
  let behind := after (streamAttachments sink work messageId 0 table) traversal
  Bounds (pairs messageId 0 table.length) traversal behind ∧
    eventsSeen behind.seen = eventsSeen traversal.seen ++ separately sink work messageId 0 table

theorem Bounds.unique {bounds bounds' : List Boundary} {a b : Traversal} (first : Bounds bounds a b)
    (second : Bounds bounds' a b) : bounds = bounds' := by
  obtain ⟨shown, seen, known⟩ := first
  obtain ⟨shown', seen', known'⟩ := second
  have same : shown = shown' := List.append_cancel_left (seen.symm.trans seen')
  subst same
  exact (known 0).2.symm.trans (known' 0).2

/-- An attachment by value without properties. -/
def storedAttachment (size : Option Nat) (data : NativeStream) : NativeAttachment where
  recordSets := .ok []
  attachmentType := .ok (some 0x64)
  attachmentSize := .ok size
  seekStart := .ok ()
  data

/-- One byte that can be read. -/
def oneByte : NativeStream
  | 0, _ => .ok [65]
  | _, _ => .ok []

theorem takingSink_takes (order : TraversalOrder) : (takingSink order).Takes :=
  ⟨fun _ _ => rfl, fun _ _ _ _ _ => ⟨none, rfl⟩⟩

theorem storedAttachment_reads (size : Option Nat) {data : NativeStream}
    (reads : ∀ position requested, NotSink (data position requested)) :
    (storedAttachment size data).Reads where
  recordSets := ⟨notSink_ok _, fun _ same _ member => by cases same; cases member⟩
  attachmentType := notSink_ok _
  attachmentSize := notSink_ok _
  seekStart := notSink_ok _
  data := reads

theorem oneByte_reads (position requested : Nat) : NotSink (oneByte position requested) := by
  cases position <;> exact notSink_ok _

end Containment

end PstForge.Catalog
