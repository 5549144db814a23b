import PstForge.Ltp.PropertyHeap
import PstForge.Writer.Message
import PstForge.Writer.StreamAccounts
import PstForge.Writer.Validate

/-! # Property identifiers of accepted messages

A property context is a tree whose records are found by their identifiers, so no identifier may
stand in it twice. The identifiers of a message come from its own fields, its named and its raw
properties, and from the properties whose values are streamed. What the writer accepts keeps them
apart, but for one: the display name that an associated message is given.
-/

namespace PstForge.Writer

open PstForge.Foundation PstForge.Ndb PstForge.Ltp

section Checks

theorem repeats_eq_false {α : Type} [DecidableEq α] {keys : List α} (once : ¬ repeats keys = true) :
    keys.Nodup := by
  rw [repeats, Bool.not_eq_true', decide_eq_false_iff_not, not_not] at once
  exact once

/-- An identifier whose value a message may stream. -/
structure Streamable (message : MessageSpec) (id : Nat) : Prop where
  low : id < 0x8000
  fresh : id ∉ message.rawProperties.map (·.id)
  managed : explicitMessageProperty id = true → ∃ kind, allowedManaged message id kind = true

theorem validateStreamedProperties_ok {σ : Type} {what : String} {id propertyType : σ → Nat}
    {blob : σ → Except WriterError Unit} {message : MessageSpec} {specs : List σ} :
    ∀ {seen seen' : List Nat},
      validateStreamedProperties what id propertyType blob message seen specs = .ok seen' →
      (∀ spec ∈ specs, Streamable message (id spec)) ∧ (specs.map id).Nodup ∧
        (∀ spec ∈ specs, id spec ∉ seen) ∧ ∀ key, key ∈ seen' ↔ key ∈ seen ∨
          key ∈ specs.map id := by
  induction specs with
  | nil =>
      intro seen seen' hvalid
      cases hvalid
      refine ⟨List.forall_mem_nil _, List.nodup_nil, List.forall_mem_nil _, fun key => ?_⟩
      rw [List.map_nil]
      exact ⟨.inl, fun either => either.resolve_right List.not_mem_nil⟩
  | cons spec specs ih =>
      intro seen seen' hvalid
      simp only [validateStreamedProperties, bind_eq_ok, okOr_eq_ok, refuse_eq_ok] at hvalid
      obtain ⟨kind, -, _, -, _, free, _, allowed, _, -, hrest⟩ := hvalid
      obtain ⟨streamable, once, unseen, known⟩ := ih hrest
      rw [not_or, not_or, Nat.not_le] at free
      obtain ⟨low, new, fresh⟩ := free
      have own : Streamable message (id spec) := by
        refine ⟨low, fun raw => fresh ?_, fun managed => ⟨kind, ?_⟩⟩
        · obtain ⟨property, member, same⟩ := List.mem_map.mp raw
          exact List.any_eq_true.mpr ⟨property, member, decide_eq_true same⟩
        · by_contra refused
          exact allowed ⟨managed, Bool.eq_false_iff.mpr refused⟩
      refine ⟨List.forall_mem_cons.mpr ⟨own, streamable⟩, ?_, ?_, fun key => ?_⟩
      · rw [List.map_cons, List.nodup_cons]
        refine ⟨fun again => ?_, once⟩
        obtain ⟨other, member, same⟩ := List.mem_map.mp again
        exact unseen other member (same ▸ List.mem_cons_self)
      · refine List.forall_mem_cons.mpr ⟨new, fun other member old => ?_⟩
        exact unseen other member (List.mem_cons_of_mem _ old)
      · rw [known, List.mem_cons, List.map_cons, List.mem_cons]
        tauto

theorem validateRawProperties_ok {properties : List RawProperty}
    (hvalid : validateRawProperties properties = .ok ()) :
    ∀ property ∈ properties, property.id < 0x8000 ∧ explicitMessageProperty property.id =
      false := by
  induction properties with
  | nil => exact List.forall_mem_nil _
  | cons property rest ih =>
      simp only [validateRawProperties, bind_eq_ok, refuse_eq_ok] at hvalid
      obtain ⟨_, free, _, -, hrest⟩ := hvalid
      rw [not_or, not_or, Nat.not_le] at free
      exact List.forall_mem_cons.mpr ⟨⟨free.2.1, Bool.eq_false_iff.mpr free.2.2⟩, ih hrest⟩

/-- What is known of the identifiers of an accepted message. -/
structure Accepted (sha256 : Bytes → Bytes) (message : MessageSpec) : Prop where
  named : (message.namedProperties.map fun property => (property.set, property.name)).Nodup
  rawOnce : (message.rawProperties.map (·.id)).Nodup
  raw : ∀ property ∈ message.rawProperties,
    property.id < 0x8000 ∧ explicitMessageProperty property.id = false
  streamedOnce : (message.spooledProperties.map (·.id) ++
    message.directProperties.map (·.id)).Nodup
  streamed : ∀ id ∈ message.spooledProperties.map (·.id) ++ message.directProperties.map (·.id),
    Streamable message id
  attachments : ∀ attachment ∈ message.attachments,
    validateAttachment sha256 message attachment = .ok ()

variable {sha256 : Bytes → Bytes} {message : MessageSpec} {depth : Nat}

theorem validateAttachments_ok {attachments : List AttachmentSpec}
    (hvalid : validateAttachments sha256 message attachments depth = .ok ()) :
    ∀ attachment ∈ attachments, validateAttachment sha256 message attachment = .ok () ∧
      validateEmbedded sha256 attachment.content depth = .ok () := by
  induction attachments with
  | nil => exact List.forall_mem_nil _
  | cons attachment rest ih =>
      cases attachment
      simp only [validateAttachments, bind_eq_ok] at hvalid
      obtain ⟨_, hattachment, _, hembedded, hrest⟩ := hvalid
      exact List.forall_mem_cons.mpr ⟨⟨hattachment, hembedded⟩, ih hrest⟩

theorem validateMessage_accepted (hvalid : validateMessage sha256 message depth = .ok ()) :
    Accepted sha256 message ∧ ∀ attachment ∈ message.attachments,
      validateEmbedded sha256 attachment.content depth = .ok () := by
  cases message
  simp only [validateMessage, bind_eq_ok] at hvalid
  obtain ⟨_, -, seen, hspooled, all, hdirect, _, hattachments, hproperties⟩ := hvalid
  obtain ⟨spooled, spooledOnce, -, known⟩ := validateStreamedProperties_ok hspooled
  obtain ⟨direct, directOnce, unseen, -⟩ := validateStreamedProperties_ok hdirect
  have parts := validateAttachments_ok hattachments
  simp only [validateMessageProperties, bind_eq_ok, refuse_eq_ok] at hproperties
  obtain ⟨_, -, _, named, _, -, _, -, _, -, _, -, _, rawOnce, _, hraw, -⟩ := hproperties
  refine ⟨⟨repeats_eq_false named, repeats_eq_false rawOnce, validateRawProperties_ok hraw, ?_, ?_,
    fun attachment member => (parts attachment member).1⟩,
    fun attachment member => (parts attachment member).2⟩
  · refine List.Nodup.append spooledOnce directOnce fun id first second => ?_
    obtain ⟨spec, member, rfl⟩ := List.mem_map.mp second
    exact unseen spec member ((known _).mpr (.inr first))
  · intro id member
    rcases List.mem_append.mp member with first | second
    · obtain ⟨spec, there, rfl⟩ := List.mem_map.mp first
      exact spooled spec there
    · obtain ⟨spec, there, rfl⟩ := List.mem_map.mp second
      exact direct spec there

/-- A message that is embedded in an accepted one is accepted, one level deeper. -/
theorem validateMessage_embedded (hvalid : validateMessage sha256 message depth = .ok ())
    {attachment : AttachmentSpec} (member : attachment ∈ message.attachments) {child : MessageSpec}
    (embedded : attachment.content = .embedded child) :
    validateMessage sha256 child (depth + 1) = .ok () := by
  have inside := (validateMessage_accepted hvalid).2 attachment member
  rw [embedded] at inside
  simp only [validateEmbedded, bind_eq_ok, okOr_eq_ok, checkedAdd_eq_some] at inside
  obtain ⟨_, ⟨rfl, -⟩, _, -, hchild⟩ := inside
  exact hchild

end Checks

section Named

variable {identities : List NamedIdentity} {missing : String}

/-- The identifier of a named property lies above all others and belongs to its identity alone. -/
theorem namedPropertyId_ok {identity : NamedIdentity} {id : Nat}
    (hid : namedPropertyId missing identities identity = .ok id) :
    (0x8000 ≤ id ∧ id < 2 ^ 16) ∧ identities[id - 0x8000]? = some identity := by
  simp only [namedPropertyId, bind_eq_ok, okOr_eq_ok, tryFrom_eq_some, checkedAdd_eq_some] at hid
  obtain ⟨index, hindex, _, ⟨rfl, -⟩, rfl, word⟩ := hid
  obtain ⟨bound, same, -⟩ := List.findIdx?_eq_some_iff_getElem.mp hindex
  refine ⟨⟨Nat.le_add_right _ _, word⟩, ?_⟩
  rw [Nat.add_sub_cancel_left, List.getElem?_eq_getElem bound, of_decide_eq_true same]

/-- Identifiers of named properties, each of one of some identities; they are as distinct as
these. -/
structure Mapped (identities keys : List NamedIdentity) (ids : List Nat) : Prop where
  named : ∀ id ∈ ids, (0x8000 ≤ id ∧ id < 2 ^ 16) ∧ ∃ key ∈ keys, identities[id - 0x8000]? =
    some key
  distinct : keys.Nodup → ids.Nodup

theorem Mapped.nil : Mapped identities [] [] where
  named _ member := absurd member List.not_mem_nil
  distinct _ := List.nodup_nil

theorem Mapped.skip {key : NamedIdentity} {keys : List NamedIdentity} {ids : List Nat}
    (mapped : Mapped identities keys ids) : Mapped identities (key :: keys) ids where
  named id member := by
    obtain ⟨high, found, there, place⟩ := mapped.named id member
    exact ⟨high, found, List.mem_cons_of_mem _ there, place⟩
  distinct once := mapped.distinct (List.nodup_cons.mp once).2

theorem Mapped.cons {key : NamedIdentity} {keys : List NamedIdentity} {id : Nat} {ids : List Nat}
    (hid : namedPropertyId missing identities key = .ok id) (mapped : Mapped identities keys ids) :
    Mapped identities (key :: keys) (id :: ids) where
  named := by
    obtain ⟨high, place⟩ := namedPropertyId_ok hid
    exact List.forall_mem_cons.mpr ⟨⟨high, key, List.mem_cons_self, place⟩, mapped.skip.named⟩
  distinct once := by
    rw [List.nodup_cons] at once
    refine List.nodup_cons.mpr ⟨fun again => once.1 ?_, mapped.distinct once.2⟩
    obtain ⟨-, found, there, place⟩ := mapped.named id again
    rw [(namedPropertyId_ok hid).2, Option.some.injEq] at place
    rw [place]
    exact there

theorem namedProperties_ok {named : List NamedProperty} : ∀ {properties : Properties},
    namedProperties identities named = .ok properties →
      Mapped identities (named.map fun property => (property.set, property.name))
        (properties.map (·.1)) := by
  induction named with
  | nil =>
      intro properties hnamed
      cases hnamed
      exact Mapped.nil
  | cons property rest ih =>
      intro properties hnamed
      simp only [namedProperties, bind_eq_ok] at hnamed
      obtain ⟨id, hid, others, hrest, hpure⟩ := hnamed
      cases hpure
      exact (ih hrest).cons hid

theorem referenceNamedValues_ok {values : List (Text × Option PropertyValue)} :
    ∀ {properties : Properties}, referenceNamedValues identities values = .ok properties →
      Mapped identities (values.map fun value => (.guid psetidAttachment, .string value.1))
        (properties.map (·.1)) := by
  induction values with
  | nil =>
      intro properties hnamed
      cases hnamed
      exact Mapped.nil
  | cons value rest ih =>
      intro properties hnamed
      obtain ⟨name, present⟩ := value
      cases present with
      | none => exact (ih hnamed).skip
      | some value =>
          simp only [referenceNamedValues, bind_eq_ok] at hnamed
          obtain ⟨id, hid, others, hrest, hpure⟩ := hnamed
          cases hpure
          exact (ih hrest).cons hid

end Named

section Managed

/-- The identifiers that the writer makes of the fields of a message. -/
def managedIds (message : MessageSpec) (associated : Bool) : List Nat :=
  [0x001A, 0x0E06, 0x0E07, 0x0E08, 0x0E17, 0x0E1B, 0x3007, 0x3008, 0x300B, 0x3FDE]
    ++ (if message.subject.isEmpty then [] else [0x0037])
    ++ (if associated then [0x3001] else [])
    ++ (if message.senderName.isEmpty || message.senderEmail.isEmpty then []
      else [0x0042, 0x0064, 0x0065, 0x0C1A, 0x0C1E, 0x0C1F])
    ++ (if message.bodyText.isSome then [0x1000] else [])
    ++ (if message.bodyHtml.isSome then [0x1013] else [])
    ++ (if message.bodyRtf.isSome then [0x1009] else [])
    ++ (if message.bodyRtf.isSome || messageHasStreamedProperty message 0x1009 then [0x0E1F]
      else [])
    ++ (if message.nativeBody.isSome then [0x1016] else [])
    ++ (if message.internetHeaders.isSome then [0x007D] else [])
    ++ [0x0039]
    ++ (displayRecipientProperties message.recipients).map (·.1)

/-- All of these identifiers. -/
def allManagedIds : List Nat :=
  [0x001A, 0x0E06, 0x0E07, 0x0E08, 0x0E17, 0x0E1B, 0x3007, 0x3008, 0x300B, 0x3FDE] ++ [0x0037]
    ++ [0x3001] ++ [0x0042, 0x0064, 0x0065, 0x0C1A, 0x0C1E, 0x0C1F] ++ [0x1000] ++ [0x1013]
    ++ [0x1009] ++ [0x0E1F] ++ [0x1016] ++ [0x007D] ++ [0x0039] ++ [0x0E04, 0x0E03, 0x0E02]

variable {message : MessageSpec} {associated : Bool}

theorem displayRecipients_sublist (recipients : List RecipientSpec)
    (source : List (RecipientKind × Nat)) :
    ((source.filterMap fun (kind, id) =>
      let display := ("; ".toList).intercalate
        ((recipients.filter (·.kind = kind)).map (·.displayName))
      if display.isEmpty then none else some (id, PropertyValue.unicode display)).map
        (·.1)).Sublist (source.map (·.2)) := by
  induction source with
  | nil => exact List.Sublist.slnil
  | cons entry rest ih =>
      rw [List.filterMap_cons]
      dsimp only
      split
      · rename_i absent
        exact ih.cons _
      · rename_i value present
        split at present
        · cases present
        · cases present
          exact ih.cons_cons _

theorem displayRecipientProperties_sublist (recipients : List RecipientSpec) :
    ((displayRecipientProperties recipients).map (·.1)).Sublist [0x0E04, 0x0E03, 0x0E02] :=
  displayRecipients_sublist recipients [(.to, 0x0E04), (.cc, 0x0E03), (.bcc, 0x0E02)]

theorem managedIds_sublist : (managedIds message associated).Sublist allManagedIds := by
  have either {condition : Prop} [Decidable condition] (ids : List Nat) :
      (if condition then [] else ids).Sublist ids := by
    split
    · exact List.nil_sublist _
    · exact List.Sublist.refl _
  have or {condition : Prop} [Decidable condition] (ids : List Nat) :
      (if condition then ids else []).Sublist ids := by
    split
    · exact List.Sublist.refl _
    · exact List.nil_sublist _
  unfold managedIds allManagedIds
  exact (((((((((((List.Sublist.refl _).append (either _)).append (or _)).append (either _)).append
    (or _)).append (or _)).append (or _)).append (or _)).append (or _)).append (or _)).append
      (List.Sublist.refl _)).append (displayRecipientProperties_sublist _)

theorem managedIds_nodup : (managedIds message associated).Nodup :=
  List.Nodup.sublist managedIds_sublist (by decide)

theorem managedIds_low {id : Nat} (member : id ∈ managedIds message associated) : id < 0x8000 :=
  (by decide : ∀ id ∈ allManagedIds, id < 0x8000) id (managedIds_sublist.subset member)

/-- The writer's own identifiers are kept from others, but for the display name of an associated
message. -/
theorem managedIds_explicit {id : Nat} (member : id ∈ managedIds message associated) :
    explicitMessageProperty id = true ∨ id = 0x3001 :=
  (by decide : ∀ id ∈ allManagedIds, explicitMessageProperty id = true ∨ id = 0x3001) id
    (managedIds_sublist.subset member)

theorem mem_managedIds {id : Nat} : id ∈ managedIds message associated ↔
    id ∈ [0x001A, 0x0E06, 0x0E07, 0x0E08, 0x0E17, 0x0E1B, 0x3007, 0x3008, 0x300B, 0x3FDE] ∨
    (¬ message.subject.isEmpty = true ∧ id ∈ [0x0037]) ∨
    (associated = true ∧ id ∈ [0x3001]) ∨
    (¬ (message.senderName.isEmpty || message.senderEmail.isEmpty) = true ∧
      id ∈ [0x0042, 0x0064, 0x0065, 0x0C1A, 0x0C1E, 0x0C1F]) ∨
    (message.bodyText.isSome = true ∧ id ∈ [0x1000]) ∨
    (message.bodyHtml.isSome = true ∧ id ∈ [0x1013]) ∨
    (message.bodyRtf.isSome = true ∧ id ∈ [0x1009]) ∨
    ((message.bodyRtf.isSome || messageHasStreamedProperty message 0x1009) = true ∧
      id ∈ [0x0E1F]) ∨
    (message.nativeBody.isSome = true ∧ id ∈ [0x1016]) ∨
    (message.internetHeaders.isSome = true ∧ id ∈ [0x007D]) ∨
    id ∈ [0x0039] ∨ id ∈ (displayRecipientProperties message.recipients).map (·.1) := by
  simp only [managedIds, List.mem_append, List.mem_ite_nil_left, List.mem_ite_nil_right, or_assoc]

theorem displayRecipient_not_mem {id : Nat} (other : id ∉ [0x0E04, 0x0E03, 0x0E02]) :
    id ∉ (displayRecipientProperties message.recipients).map (·.1) := fun member =>
  other ((displayRecipientProperties_sublist _).subset member)

theorem displayName_mem_iff : 0x3001 ∈ managedIds message associated ↔ associated = true := by
  have outside : 0x3001 ∉ (displayRecipientProperties message.recipients).map (·.1) :=
    displayRecipient_not_mem (by decide)
  rw [mem_managedIds]
  simp [outside]

/-- A property whose value is streamed in the place of one of the writer's is not one of these. -/
theorem allowedManaged_not_mem {id : Nat} {kind : PropertyType}
    (allowed : allowedManaged message id kind = true) : id ∉ managedIds message associated := by
  rw [mem_managedIds]
  unfold allowedManaged at allowed
  split at allowed
  · have outside : 0x007D ∉ (displayRecipientProperties message.recipients).map (·.1) :=
      displayRecipient_not_mem (by decide)
    rw [Bool.and_eq_true, Option.isNone_iff_eq_none] at allowed
    simp [outside, allowed.1]
  · have outside : 0x1000 ∉ (displayRecipientProperties message.recipients).map (·.1) :=
      displayRecipient_not_mem (by decide)
    rw [Bool.and_eq_true, Option.isNone_iff_eq_none] at allowed
    simp [outside, allowed.1]
  · have outside : 0x1009 ∉ (displayRecipientProperties message.recipients).map (·.1) :=
      displayRecipient_not_mem (by decide)
    rw [Bool.and_eq_true, Option.isNone_iff_eq_none] at allowed
    simp [outside, allowed.1]
  · have outside : 0x1013 ∉ (displayRecipientProperties message.recipients).map (·.1) :=
      displayRecipient_not_mem (by decide)
    rw [Bool.and_eq_true, Option.isNone_iff_eq_none] at allowed
    simp [outside, allowed.1]
  · cases allowed

end Managed

section Lists

variable {message : MessageSpec} {associated : Bool} {identities : List NamedIdentity}

theorem optional_ids {α : Type} (source : Option α) (id : Nat) (value : α → PropertyValue) :
    (source.toList.map fun element => (id, value element)).map (·.1) =
      if source.isSome then [id] else [] := by
  cases source <;> rfl

/-- The identifiers of the property list of a message: the writer's own, those of its named
properties, and those of its raw properties, where the display name of an associated message is
one of the writer's. -/
theorem messageProperties_ids {recordKey : Bytes} {messageSize : Int} {own : Properties}
    (hown : messageProperties message associated identities recordKey messageSize = .ok own) :
    ∃ named, namedProperties identities message.namedProperties = .ok named ∧
      own.map (·.1) = managedIds message associated ++ named.map (·.1) ++
        (message.rawProperties.filter fun raw => !(associated && raw.id = 0x3001)).map (·.id) := by
  have raw : ((message.rawProperties.filter fun raw => !(associated && raw.id = 0x3001)).map
      fun raw => (raw.id, raw.value.value)).map (·.1) =
        (message.rawProperties.filter fun raw => !(associated && raw.id = 0x3001)).map (·.id) := by
    rw [List.map_map]
    rfl
  unfold messageProperties at hown
  cases hbody : message.bodyRtf with
  | none =>
      simp only [hbody, bind_eq_ok] at hown
      obtain ⟨rtf, hrtf, named, hnamed, hpure⟩ := hown
      cases hrtf
      cases hpure
      refine ⟨named, hnamed, ?_⟩
      simp only [List.map_append, optional_ids, raw, apply_ite (List.map Prod.fst), List.map_cons,
        List.map_nil, managedIds, hbody, Option.isSome_none, Bool.false_or, Bool.false_eq_true,
        if_false, List.append_nil, List.append_assoc]
  | some body =>
      simp only [hbody, bind_eq_ok] at hown
      obtain ⟨container, -, rtf, hrtf, named, hnamed, hpure⟩ := hown
      cases hrtf
      cases hpure
      refine ⟨named, hnamed, ?_⟩
      simp only [List.map_append, optional_ids, raw, apply_ite (List.map Prod.fst), List.map_cons,
        List.map_nil, managedIds, hbody, Option.isSome_some, Bool.true_or, if_true,
        List.append_assoc, List.cons_append, List.nil_append]

theorem setProperty_ids {id : Nat} {missing : String} {value : PropertyValue}
    {properties : Properties} : ∀ {changed : Properties},
      setProperty id missing value properties = .ok changed →
      changed.map (·.1) = properties.map (·.1) := by
  induction properties with
  | nil =>
      intro changed hset
      cases hset
  | cons property rest ih =>
      intro changed hset
      rw [setProperty] at hset
      split at hset
      · cases hset
        rfl
      · simp only [bind_eq_ok] at hset
        obtain ⟨tail, hrest, hpure⟩ := hset
        cases hpure
        rw [List.map_cons, List.map_cons, ih hrest]

theorem externalizeLargeProperties_ids {properties : Properties} : ∀ {ids ids' : Counters}
    {moved : Externalized}, externalizeLargeProperties properties ids = .ok moved ids' →
      moved.properties.map (·.1) = properties.map (·.1) := by
  induction properties with
  | nil =>
      intro ids ids' moved hmoved
      rw [externalizeLargeProperties, pure_run_ok] at hmoved
      rw [hmoved.1]
  | cons property rest ih =>
      intro ids ids' moved hmoved
      have keep {ids : Counters} (hkeep : (do
          let tail ← externalizeLargeProperties rest
          return { tail with properties := (property.1, property.2) :: tail.properties } :
            Ids Externalized) ids = .ok moved ids') :
          moved.properties.map (·.1) = (property :: rest).map (·.1) := by
        simp only [bind_run_ok, pure_run_ok] at hkeep
        obtain ⟨tail, _, htail, rfl, -⟩ := hkeep
        rw [List.map_cons, List.map_cons, ih htail]
      rw [externalizeLargeProperties, attempt_bind_run_ok] at hmoved
      obtain ⟨encoded, -, hmoved⟩ := hmoved
      cases encoded with
      | none => exact keep hmoved
      | some bytes =>
          simp only [attempt_bind_run_ok] at hmoved
          obtain ⟨_, -, hmoved⟩ := hmoved
          split at hmoved
          · exact keep hmoved
          · simp only [bind_run_ok, pure_run_ok] at hmoved
            obtain ⟨node, _, -, ⟨root, blocks⟩, _, -, tail, _, htail, rfl, -⟩ := hmoved
            rw [List.map_cons, List.map_cons, ih htail]

variable {τ : Type} {around : Surroundings τ} {output : Output}

theorem appendStreamedProperties_ids {α : Type} {what valueNode : String}
    {id propertyType : α → Nat}
    {append : α → Live τ (BlockId × Nat)} {specs : List α} : ∀ {total : Nat}
    {session session' : Session τ} {streamed : StreamedProperties},
      appendStreamedProperties what valueNode id propertyType append total specs session =
        .ok streamed session' → streamed.properties.map (·.1) = specs.map id := by
  induction specs with
  | nil =>
      intro total session session' streamed hrun
      rw [appendStreamedProperties, pure_run_ok] at hrun
      rw [hrun.1]
      rfl
  | cons spec rest ih =>
      intro total session session' streamed hrun
      simp only [appendStreamedProperties, bind_run_ok, attempt_run_ok, pure_run_ok] at hrun
      obtain ⟨_, _, -, _, _, -, ⟨_, _⟩, _, -, _, _, -, tail, _, htail, rfl, -⟩ := hrun
      rw [List.map_cons, List.map_cons, ih htail]

theorem appendDirectProperties_ids {absent : String} {specs : List DirectPropertySpec}
    {session session' : Session τ} {streamed : StreamedProperties}
    (hrun : appendDirectProperties around output absent specs session = .ok streamed session') :
    streamed.properties.map (·.1) = specs.map (·.id) := by
  cases specs with
  | nil =>
      rw [appendDirectProperties, pure_run_ok] at hrun
      rw [hrun.1]
      rfl
  | cons spec rest =>
      simp only [appendDirectProperties, bind_run_ok] at hrun
      obtain ⟨_, _, -, hrest⟩ := hrun
      exact appendStreamedProperties_ids hrest

end Lists

section Trees

/-- The key of a property record. -/
def treeKey (record : Bytes) : Nat := leValue (record.take 2)

/-- The keys of the property tree that the pages of a heap hold increase. -/
def IncreasingTree (pages : List Bytes) : Prop :=
  ∃ header records, userRoot pages = some header ∧
    readTree (Ltp.findEntry pages) 2 6 header = some records ∧
    (records.map treeKey).Pairwise (· < ·)

/-- No identifier stands twice in a property list, and in whichever form the list is written the
keys of its tree increase. -/
structure KeysApart (given : Properties) : Prop where
  once : (given.map (·.1)).Nodup
  compact : ∀ page, propertyContext given = .ok page → IncreasingTree [page]
  external : ∀ pages, propertyContextExternal given = .ok pages → IncreasingTree pages

variable {given : Properties}

/-- Sorted identifiers increase where none stands twice. -/
theorem sorted_increasing (once : (given.map (·.1)).Nodup) :
    ((sortByKey (·.1) given).map (·.1)).Pairwise (· < ·) := by
  have sorted : (sortByKey (·.1) given).Pairwise fun first second => first.1 ≤ second.1 :=
    List.pairwise_insertionSort _ given
  have same : ((sortByKey (·.1) given).map (·.1)).Perm (given.map (·.1)) :=
    (sortByKey_perm (fun property : Nat × PropertyValue => property.1) given).map _
  have apart := same.nodup_iff.mpr once
  rw [List.pairwise_map]
  rw [List.Nodup, List.pairwise_map] at apart
  exact sorted.imp₂ (fun _ _ before differ => Nat.lt_of_le_of_ne before differ) apart

theorem treeKeys_ok {find : HeapId → Option Bytes} {properties : Properties} {records : List Bytes}
    (stored : List.Forall₂ (RecordStored find) properties records)
    (words : ∀ property ∈ properties, property.1 < 2 ^ 16) :
    records.map treeKey = properties.map (·.1) := by
  induction stored with
  | nil => rfl
  | @cons property record _ _ head _ ih =>
      rw [List.forall_mem_cons] at words
      have start : record.take 2 = leBytes 2 property.1 := by
        have two : record.take 2 = (record.take 4).take 2 := by rw [List.take_take]; rfl
        rw [two, head.1, List.take_left' (length_leBytes 2 property.1)]
      rw [List.map_cons, List.map_cons, ih words.2, treeKey, start, leValue_leBytes words.1]

theorem increasing_of_stored {pages : List Bytes} (stored : PropertiesStored pages given)
    (once : (given.map (·.1)).Nodup) (words : ∀ id ∈ given.map (·.1), id < 2 ^ 16) :
    IncreasingTree pages := by
  obtain ⟨header, records, hroot, hread, each⟩ := stored
  refine ⟨header, records, hroot, hread, ?_⟩
  rw [treeKeys_ok each fun property member => words _
    (List.mem_map_of_mem (mem_sortByKey.mp member))]
  exact sorted_increasing once

theorem keysApart_of_nodup (once : (given.map (·.1)).Nodup)
    (words : ∀ id ∈ given.map (·.1), id < 2 ^ 16) : KeysApart given where
  once := once
  compact _ hcontext := increasing_of_stored (propertyContext_stored hcontext).1 once words
  external _ hcontext := increasing_of_stored (propertyContextExternal_stored hcontext).2 once
    words

end Trees

section Contexts

variable {τ : Type} (around : Surroundings τ) (output : Output)

/-- A property list that the builder of a property context is given for a message. -/
def MessageContext (message : MessageSpec) (associated : Bool) (identities : List NamedIdentity)
    (given : Properties) : Prop :=
  ∃ key own spooled direct moved size, messageProperties message associated identities key
    0 = .ok own ∧
    (∃ session session', appendSpooledProperties around output message.spooledProperties session =
      .ok spooled session') ∧
    (∃ session session', appendDirectProperties around output
      "direct property source is unavailable"
      message.directProperties session = .ok direct session') ∧
    (∃ ids ids', externalizeLargeProperties (own ++ spooled.properties ++ direct.properties) ids =
      .ok moved ids') ∧
    setMessageSize moved.properties size = .ok given

/-- A property list that the builder of a property context is given for an attachment. -/
def AttachmentContext (attachment : AttachmentSpec) (identities : List NamedIdentity)
    (given : Properties) : Prop :=
  ∃ number method data own spooled direct moved size sized,
    attachmentPropertiesMapped attachment number method 0 data identities = .ok own ∧
    (∃ session session', appendSpooledProperties around output attachment.spooledProperties
      session =
      .ok spooled session') ∧
    (∃ session session', appendDirectProperties around output
      "direct attachment property source is unavailable" attachment.directProperties session =
        .ok direct session') ∧
    setAttachmentSize (own ++ spooled.properties ++ direct.properties) size = .ok sized ∧
    (∃ ids ids', externalizeLargeProperties sized ids = .ok moved ids') ∧ moved.properties = given

variable {around : Surroundings τ} {output : Output} {message : MessageSpec} {associated : Bool}
  {identities : List NamedIdentity} {session session' : Session τ}

/-- A message that is built is built from such a list. -/
theorem closeMessage_context {key : Bytes} {propertyBlock attachmentTableBlock : BlockId}
    {recipients : RecipientBuild} {attachments : AttachmentsBuild} {streamed : Nat}
    {built : MessageBlocks}
    (hrun : closeMessage around output message associated key identities propertyBlock
      attachmentTableBlock recipients attachments streamed session = .ok built session') :
    ∃ given context, MessageContext around output message associated identities given ∧
      (∃ ids ids', buildPropertyContext given propertyBlock ids = .ok context ids') ∧
      built.propertyDataBlock = context.dataBlock ∧ context.blocks ⊆ built.dynamicBlocks := by
  simp only [closeMessage, bind_run_ok, attempt_run_ok, pure_run_ok] at hrun
  obtain ⟨columns, _, ⟨-, rfl⟩, table, _, ⟨-, rfl⟩, own, _, ⟨hown, rfl⟩, spooled, afterSpooled,
    hspooled,
    _, _, ⟨-, rfl⟩, direct, afterDirect, hdirect, _, _, ⟨-, rfl⟩, moved, afterMoved, hmoved, _, _,
    ⟨-, rfl⟩, size, _, ⟨-, rfl⟩, given, _, ⟨hgiven, rfl⟩, context, _, hcontext, rfl, -⟩ := hrun
  obtain ⟨_, hmoved, -⟩ := takeIds_ok hmoved
  obtain ⟨_, hcontext, -⟩ := takeIds_ok hcontext
  refine ⟨given, context, ?_, ⟨_, _, hcontext⟩, rfl, List.subset_append_right _ _⟩
  exact ⟨key, own, spooled, direct, moved, size, hown, ⟨_, _, hspooled⟩, ⟨_, _, hdirect⟩,
    ⟨_, _, hmoved⟩, hgiven⟩

/-- An attachment that is built is built from such a list. -/
theorem buildAttachment_context {index : Nat} {reserved : NodeId × BlockId}
    {attachment : AttachmentSpec} {content : ContentBuild} {streamed total : Nat}
    {built : AttachmentsBuild}
    (hrun : buildAttachment around output identities index reserved attachment content streamed
      session = .ok (built, total) session') :
    ∃ given context, AttachmentContext around output attachment identities given ∧
      (∃ ids ids', buildPropertyContext given reserved.2 ids = .ok context ids') ∧
      (∃ entry ∈ built.subnodes, entry.node = reserved.1 ∧ entry.block = context.dataBlock) ∧
      context.blocks ⊆ built.blocks := by
  simp only [buildAttachment, bind_run_ok, attempt_run_ok, pure_run_ok, Prod.mk.injEq] at hrun
  obtain ⟨_, _, ⟨-, rfl⟩, number, _, ⟨-, rfl⟩, own, _, ⟨hown, rfl⟩, _, _, ⟨-, rfl⟩, spooled, _,
    hspooled, _, _, ⟨-, rfl⟩, _, afterSpooled, ⟨-, rfl⟩, direct, _, hdirect, _, _, ⟨-, rfl⟩,
      size, _,
    ⟨-, rfl⟩, sized, afterDirect, ⟨hsized, rfl⟩, moved, afterMoved, hmoved, context, afterContext,
    hcontext, ⟨subnodeBlock, subnodeBlocks⟩, _, -, ⟨rfl, -⟩, -⟩ := hrun
  obtain ⟨_, hmoved, -⟩ := takeIds_ok hmoved
  obtain ⟨_, hcontext, -⟩ := takeIds_ok hcontext
  refine ⟨moved.properties, context, ?_, ⟨_, _, hcontext⟩, ?_, ?_⟩
  · exact ⟨number, _, _, own, spooled, direct, moved, size, sized, hown, ⟨_, _, hspooled⟩,
      ⟨_, _, hdirect⟩, hsized, ⟨_, _, hmoved⟩, rfl⟩
  · exact ⟨_, List.mem_singleton_self _, rfl, rfl⟩
  · intro block member
    exact List.mem_append_left _ (List.mem_append_right _ member)

end Contexts

section Messages

variable {τ : Type} {around : Surroundings τ} {output : Output} {sha256 : Bytes → Bytes}
  {message : MessageSpec} {associated : Bool} {identities : List NamedIdentity}

theorem streamed_mem_iff {id : Nat} : messageHasStreamedProperty message id = true ↔
    id ∈ message.spooledProperties.map (·.id) ++ message.directProperties.map (·.id) := by
  simp only [messageHasStreamedProperty, Bool.or_eq_true, List.any_eq_true, decide_eq_true_eq,
    List.mem_append, List.mem_map]

/-- The identifiers of the list that a message is given. -/
theorem MessageContext.ids {given : Properties}
    (context : MessageContext around output message associated identities given) :
    ∃ named, namedProperties identities message.namedProperties = .ok named ∧
      given.map (·.1) = managedIds message associated ++ named.map (·.1) ++
        (message.rawProperties.filter fun raw => !(associated && raw.id = 0x3001)).map (·.id) ++
        (message.spooledProperties.map (·.id) ++ message.directProperties.map (·.id)) := by
  obtain ⟨_, own, spooled, direct, moved, _, hown, ⟨_, _, hspooled⟩, ⟨_, _, hdirect⟩,
    ⟨_, _, hmoved⟩,
    hgiven⟩ := context
  obtain ⟨named, hnamed, ids⟩ := messageProperties_ids hown
  refine ⟨named, hnamed, ?_⟩
  rw [setProperty_ids hgiven, externalizeLargeProperties_ids hmoved, List.map_append,
    List.map_append, ids, appendStreamedProperties_ids hspooled, appendDirectProperties_ids hdirect,
    List.append_assoc]

/-- A raw property that is kept is none of the writer's own. -/
theorem Accepted.raw_not_managed (accepted : Accepted sha256 message) {id : Nat}
    (kept : id ∈ (message.rawProperties.filter fun raw =>
      !(associated && raw.id = 0x3001)).map (·.id)) : id ∉ managedIds message associated := by
  intro managed
  obtain ⟨property, member, rfl⟩ := List.mem_map.mp kept
  rw [List.mem_filter] at member
  rcases managedIds_explicit managed with explicit | display
  · rw [(accepted.raw property member.1).2] at explicit
    exact Bool.false_ne_true explicit
  · have shown := displayName_mem_iff.mp (display ▸ managed)
    rw [shown, display] at member
    exact Bool.false_ne_true member.2

/-- A property whose value is streamed is one of the writer's own exactly when it is the display
name of an associated message. -/
theorem Accepted.streamed_managed_iff (accepted : Accepted sha256 message) {id : Nat}
    (streamed : id ∈ message.spooledProperties.map (·.id) ++ message.directProperties.map (·.id)) :
    id ∈ managedIds message associated ↔ associated = true ∧ id = 0x3001 := by
  constructor
  · intro managed
    rcases managedIds_explicit managed with explicit | display
    · obtain ⟨kind, allowed⟩ := (accepted.streamed id streamed).managed explicit
      exact absurd managed (allowedManaged_not_mem allowed)
    · exact ⟨displayName_mem_iff.mp (display ▸ managed), display⟩
  · rintro ⟨shown, rfl⟩
    exact displayName_mem_iff.mpr shown

/-- Where an associated message does not stream its display name, no identifier stands twice. -/
theorem Accepted.nodup (accepted : Accepted sha256 message) {given : Properties}
    (context : MessageContext around output message associated identities given)
    (plain : ¬ (associated = true ∧ messageHasStreamedProperty message 0x3001 = true)) :
    (given.map (·.1)).Nodup := by
  obtain ⟨named, hnamed, ids⟩ := context.ids
  have mapped := namedProperties_ok hnamed
  have kept : ((message.rawProperties.filter fun raw =>
      !(associated && raw.id = 0x3001)).map (·.id)).Sublist (message.rawProperties.map (·.id)) :=
    List.filter_sublist.map _
  have low : ∀ id ∈ message.rawProperties.map (·.id), id < 0x8000 :=
    List.forall_mem_map.mpr fun property member => (accepted.raw property member).1
  rw [ids]
  refine List.Nodup.append (List.Nodup.append (List.Nodup.append managedIds_nodup
    (mapped.distinct accepted.named) ?_) (accepted.rawOnce.sublist kept) ?_)
      accepted.streamedOnce ?_
  · intro id managed other
    exact absurd (managedIds_low managed) (Nat.not_lt.mpr (mapped.named id other).1.1)
  · intro id first raw
    rcases List.mem_append.mp first with managed | other
    · exact accepted.raw_not_managed raw managed
    · exact absurd (low id (kept.subset raw)) (Nat.not_lt.mpr (mapped.named id other).1.1)
  · intro id first streamed
    have streamable := accepted.streamed id streamed
    rcases List.mem_append.mp first with first | raw
    · rcases List.mem_append.mp first with managed | other
      · obtain ⟨shown, rfl⟩ := (accepted.streamed_managed_iff streamed).mp managed
        exact plain ⟨shown, streamed_mem_iff.mpr streamed⟩
      · exact absurd streamable.low (Nat.not_lt.mpr (mapped.named id other).1.1)
    · exact streamable.fresh (kept.subset raw)

theorem Accepted.words (accepted : Accepted sha256 message) {given : Properties}
    (context : MessageContext around output message associated identities given) :
    ∀ id ∈ given.map (·.1), id < 2 ^ 16 := by
  obtain ⟨named, hnamed, ids⟩ := context.ids
  rw [ids]
  have mapped := namedProperties_ok hnamed
  have small {id : Nat} (low : id < 0x8000) : id < 2 ^ 16 := Nat.lt_trans low (by decide)
  intro id member
  rcases List.mem_append.mp member with first | streamed
  · rcases List.mem_append.mp first with first | raw
    · rcases List.mem_append.mp first with managed | other
      · exact small (managedIds_low managed)
      · exact (mapped.named id other).1.2
    · obtain ⟨property, there, rfl⟩ := List.mem_map.mp raw
      exact small (accepted.raw property (List.mem_filter.mp there).1).1
  · exact small (accepted.streamed id streamed).low

/-- The display name of an associated message stands twice where it is streamed as well. -/
theorem MessageContext.displayName_twice {given : Properties}
    (context : MessageContext around output message true identities given)
    (streamed : messageHasStreamedProperty message 0x3001 = true) :
    ¬ (given.map (·.1)).Nodup := by
  obtain ⟨named, -, ids⟩ := context.ids
  rw [ids, List.nodup_append]
  intro once
  have managed : 0x3001 ∈ managedIds message true := displayName_mem_iff.mpr rfl
  refine once.2.2 0x3001 ?_ 0x3001 (streamed_mem_iff.mp streamed) rfl
  exact List.mem_append_left _ (List.mem_append_left _ managed)

end Messages

section Attachments

variable {τ : Type} {around : Surroundings τ} {output : Output} {sha256 : Bytes → Bytes}
  {message : MessageSpec} {attachment : AttachmentSpec} {identities : List NamedIdentity}

/-- The identifiers that the writer makes of the fields of any attachment. -/
def managedAttachmentIds (attachment : AttachmentSpec) : List Nat :=
  [0x0E20, 0x0E21, 0x3704, 0x3705, 0x3707, 0x370B]
    ++ (if attachment.mimeType.isSome then [0x370E] else [])
    ++ (if attachment.contentId.isSome then [0x3712] else [])
    ++ (if attachment.contentLocation.isSome then [0x3713] else []) ++ [0x3714]

/-- The identifiers that the writer makes of a reference, but for the named ones. -/
def referenceIds (reference : AttachmentReferenceSpec) : List Nat :=
  [0x370D] ++ if reference.pathname.isSome then [0x3708] else []

/-- All identifiers that the writer makes of the fields of an attachment. -/
def allAttachmentIds : List Nat :=
  [0x0E20, 0x0E21, 0x3704, 0x3705, 0x3707, 0x370B] ++ [0x370E] ++ [0x3712] ++ [0x3713] ++ [0x3714]

theorem attachmentBaseProperties_ids {number method size : Int} :
    (attachmentBaseProperties attachment number method size).map (·.1) =
      managedAttachmentIds attachment ++ attachment.rawProperties.map (·.id) := by
  have raw : (attachment.rawProperties.map fun property => (property.id, property.value.value)).map
      (·.1) = attachment.rawProperties.map (·.id) := by
    rw [List.map_map]
    rfl
  simp only [attachmentBaseProperties, List.map_append, optional_ids, raw, List.map_cons,
    List.map_nil, managedAttachmentIds]

theorem managedAttachmentIds_sublist :
    (managedAttachmentIds attachment).Sublist allAttachmentIds := by
  have or {condition : Prop} [Decidable condition] (ids : List Nat) :
      (if condition then ids else []).Sublist ids := by
    split
    · exact List.Sublist.refl _
    · exact List.nil_sublist _
  exact ((((List.Sublist.refl _).append (or _)).append (or _)).append (or _)).append
    (List.Sublist.refl _)

/-- An accepted reference has no properties but the writer's own; those of another accepted
attachment are none of the writer's own. -/
structure AcceptedAttachment (attachment : AttachmentSpec) : Prop where
  once : (attachment.rawProperties.map (·.id) ++ (attachment.spooledProperties.map (·.id) ++
    attachment.directProperties.map (·.id))).Nodup
  apart : ∀ id ∈ attachment.rawProperties.map (·.id) ++ (attachment.spooledProperties.map (·.id) ++
    attachment.directProperties.map (·.id)), id < 0x8000 ∧ explicitAttachmentProperty id = false
  reference : (∃ reference, attachment.content = .reference reference) →
    attachment.rawProperties = [] ∧ attachment.spooledProperties = [] ∧
      attachment.directProperties = []

theorem validateAttachmentRawProperties_ok {binaryMetadata : Bool} {properties : List RawProperty} :
    ∀ {total total' : Nat},
      validateAttachmentRawProperties binaryMetadata total properties = .ok total' →
      ∀ property ∈ properties,
        property.id < 0x8000 ∧ explicitAttachmentProperty property.id = false := by
  induction properties with
  | nil =>
      intro total total' hvalid
      exact List.forall_mem_nil _
  | cons property rest ih =>
      intro total total' hvalid
      rw [validateAttachmentRawProperties] at hvalid
      simp only [bind_eq_ok, refuse_eq_ok] at hvalid
      obtain ⟨_, free, hvalid⟩ := hvalid
      rw [not_or, not_or, Nat.not_le] at free
      refine List.forall_mem_cons.mpr ⟨⟨free.2.1, Bool.eq_false_iff.mpr free.2.2⟩, ?_⟩
      split at hvalid
      · simp only [bind_eq_ok, refuse_eq_ok] at hvalid
        obtain ⟨_, -, _, -, _, -, _, -, hrest⟩ := hvalid
        exact ih hrest
      · simp only [bind_eq_ok, refuse_eq_ok] at hvalid
        obtain ⟨_, -, _, -, _, -, _, -, _, -, hrest⟩ := hvalid
        exact ih hrest

theorem validateAttachmentStreamed_ok {σ : Type} {what : String} {id propertyType : σ → Nat}
    {blob : σ → Except WriterError Unit} {binaryMetadata : Bool} {specs : List σ}
    (hvalid : validateAttachmentStreamed what id propertyType blob binaryMetadata specs = .ok ()) :
    ∀ spec ∈ specs, binaryMetadata = true ∧ oleAttachmentProperty (id spec) = true := by
  induction specs with
  | nil => exact List.forall_mem_nil _
  | cons spec rest ih =>
      simp only [validateAttachmentStreamed, bind_eq_ok, refuse_eq_ok] at hvalid
      obtain ⟨_, supported, _, -, hrest⟩ := hvalid
      rw [not_or, not_or, Bool.not_eq_false, Bool.not_eq_false] at supported
      exact List.forall_mem_cons.mpr ⟨⟨supported.1, supported.2.1⟩, ih hrest⟩

theorem oleAttachmentProperty_apart {id : Nat} (ole : oleAttachmentProperty id = true) :
    id < 0x8000 ∧ explicitAttachmentProperty id = false :=
  (by decide : ∀ id ∈ [0x3702, 0x3709, 0x370A], id < 0x8000 ∧
    explicitAttachmentProperty id = false) id (of_decide_eq_true ole)

theorem validateAttachment_accepted
    (hvalid : validateAttachment sha256 message attachment = .ok ()) :
    AcceptedAttachment attachment := by
  simp only [validateAttachment, bind_eq_ok, refuse_eq_ok] at hvalid
  obtain ⟨_, -, _, -, _, -, _, -, _, -, _, -, _, kinds, _, -, _, -, _, -, _, once, _, hraw, _,
    hspooled, _,
    hdirect, -⟩ := hvalid
  have raw := validateAttachmentRawProperties_ok hraw
  have spooled := validateAttachmentStreamed_ok hspooled
  have direct := validateAttachmentStreamed_ok hdirect
  refine ⟨?_, ?_, ?_⟩
  · rw [← List.append_assoc]
    exact repeats_eq_false once
  · intro id member
    rcases List.mem_append.mp member with first | streamed
    · obtain ⟨property, there, rfl⟩ := List.mem_map.mp first
      exact raw property there
    · rcases List.mem_append.mp streamed with first | second
      · obtain ⟨spec, there, rfl⟩ := List.mem_map.mp first
        exact oleAttachmentProperty_apart (spooled spec there).2
      · obtain ⟨spec, there, rfl⟩ := List.mem_map.mp second
        exact oleAttachmentProperty_apart (direct spec there).2
  · rintro ⟨reference, hcontent⟩
    have plain : isBinaryMetadataAttachment attachment.content = false := by rw [hcontent]; rfl
    have ordinary : isEmbeddedCalendarException attachment.content = false := by rw [hcontent]; rfl
    have absent {σ : Type} {id : σ → Nat} {specs : List σ}
        (each : ∀ spec ∈ specs, isBinaryMetadataAttachment attachment.content = true ∧
          oleAttachmentProperty (id spec) = true) : specs = [] := by
      refine List.eq_nil_iff_forall_not_mem.mpr fun spec member => ?_
      rw [plain] at each
      exact Bool.false_ne_true (each spec member).1
    refine ⟨?_, absent spooled, absent direct⟩
    by_contra some
    exact kinds ⟨List.isEmpty_eq_false_iff.mpr some, plain, .inr ordinary⟩

/-- The identifiers of the list that an attachment is given. -/
theorem AttachmentContext.ids {given : Properties}
    (context : AttachmentContext around output attachment identities given) :
    ∃ own, (∃ number method data, attachmentPropertiesMapped attachment number method 0 data
        identities = .ok own) ∧
      given.map (·.1) = own.map (·.1) ++ (attachment.spooledProperties.map (·.id) ++
        attachment.directProperties.map (·.id)) := by
  obtain ⟨number, method, data, own, spooled, direct, moved, _, sized, hown, ⟨_, _, hspooled⟩,
    ⟨_, _, hdirect⟩, hsized, ⟨_, _, hmoved⟩, rfl⟩ := context
  refine ⟨own, ⟨number, method, data, hown⟩, ?_⟩
  rw [externalizeLargeProperties_ids hmoved, setProperty_ids hsized, List.map_append,
    List.map_append, appendStreamedProperties_ids hspooled, appendDirectProperties_ids hdirect,
    List.append_assoc]

/-- The identifiers of the property list of an attachment. -/
theorem attachmentPropertiesMapped_ids {number method size : Int} {data : Option PropertyValue}
    {own : Properties}
    (hown : attachmentPropertiesMapped attachment number method size data identities = .ok own) :
    ∃ extra, own.map (·.1) = managedAttachmentIds attachment ++ attachment.rawProperties.map
      (·.id) ++
        (if data.isSome then [0x3701] else []) ++ extra ∧
      (extra = [] ∨ ∃ reference named, attachment.content = .reference reference ∧
        extra = referenceIds reference ++ named ∧
        Mapped identities ([attachmentProviderType, attachmentOriginalPermissionType,
          attachmentPermissionType].map fun name =>
            (.guid psetidAttachment, .string name)) named) := by
  have content : (data.toList.map fun data => (0x3701, data)).map (·.1) =
      if data.isSome then [0x3701] else [] := optional_ids data 0x3701 id
  unfold attachmentPropertiesMapped at hown
  dsimp only at hown
  split at hown
  · rename_i reference hcontent
    simp only [bind_eq_ok] at hown
    obtain ⟨named, hnamed, hpure⟩ := hown
    cases hpure
    refine ⟨referenceIds reference ++ named.map (·.1), ?_, .inr ⟨reference, _, hcontent, rfl,
      referenceNamedValues_ok hnamed⟩⟩
    simp only [List.map_append, attachmentBaseProperties_ids, content, optional_ids, referenceIds,
      List.map_cons, List.map_nil, List.append_assoc]
  · cases hown
    refine ⟨[], ?_, .inl rfl⟩
    rw [List.map_append, attachmentBaseProperties_ids, content, List.append_nil]

/-- No identifier stands twice in the list of an accepted attachment. -/
theorem AcceptedAttachment.nodup (accepted : AcceptedAttachment attachment) {given : Properties}
    (context : AttachmentContext around output attachment identities given) :
    (given.map (·.1)).Nodup ∧ ∀ id ∈ given.map (·.1), id < 2 ^ 16 := by
  obtain ⟨own, ⟨number, method, data, hown⟩, ids⟩ := context.ids
  obtain ⟨extra, ownIds, kind⟩ := attachmentPropertiesMapped_ids hown
  rw [ownIds] at ids
  have fixed : (managedAttachmentIds attachment ++ if data.isSome then [0x3701] else []).Sublist
      (allAttachmentIds ++ [0x3701]) := by
    refine managedAttachmentIds_sublist.append ?_
    split
    · exact List.Sublist.refl _
    · exact List.nil_sublist _
  rcases kind with rfl | ⟨reference, named, hcontent, rfl, mapped⟩
  · have given' : (given.map (·.1)).Perm ((managedAttachmentIds attachment ++
        if data.isSome then [0x3701] else []) ++ (attachment.rawProperties.map (·.id) ++
          (attachment.spooledProperties.map (·.id) ++ attachment.directProperties.map
            (·.id)))) := by
      rw [ids, List.append_nil, List.append_assoc, List.append_assoc, List.append_assoc]
      exact (List.perm_append_comm_assoc _ _ _).append_left _
    constructor
    · rw [given'.nodup_iff]
      refine List.Nodup.append (fixed.nodup (by decide)) accepted.once fun id managed other => ?_
      have explicit := (by decide : ∀ id ∈ allAttachmentIds ++ [0x3701],
        explicitAttachmentProperty id = true) id (fixed.subset managed)
      rw [(accepted.apart id other).2] at explicit
      exact Bool.false_ne_true explicit
    · intro id member
      rcases List.mem_append.mp (given'.mem_iff.mp member) with managed | other
      · exact (by decide : ∀ id ∈ allAttachmentIds ++ [0x3701], id < 2 ^ 16) id
          (fixed.subset managed)
      · exact Nat.lt_trans (accepted.apart id other).1 (by decide)
  · obtain ⟨raw, spooled, direct⟩ := accepted.reference ⟨reference, hcontent⟩
    have paths : (referenceIds reference).Sublist [0x370D, 0x3708] := by
      refine (List.Sublist.refl [0x370D]).append ?_
      split
      · exact List.Sublist.refl _
      · exact List.nil_sublist _
    have own := fixed.append paths
    rw [raw, spooled, direct] at ids
    simp only [List.map_nil, List.append_nil] at ids
    rw [ids, ← List.append_assoc]
    have low : ∀ id ∈ (allAttachmentIds ++ [0x3701]) ++ [0x370D, 0x3708], id < 0x8000 := by decide
    constructor
    · refine List.Nodup.append (own.nodup (by decide)) (mapped.distinct (by decide)) ?_
      intro id managed other
      exact absurd (low id (own.subset managed)) (Nat.not_lt.mpr (mapped.named id other).1.1)
    · intro id member
      rcases List.mem_append.mp member with managed | other
      · exact Nat.lt_trans (low id (own.subset managed)) (by decide)
      · exact (mapped.named id other).1.2

end Attachments

section Results

variable {τ : Type} (around : Surroundings τ) (output : Output) (sha256 : Bytes → Bytes)

/-- The keys of the properties of an accepted message are apart unless it is an associated message
that streams its display name; those of an accepted attachment are apart always. -/
theorem accepted_keysApart (message : MessageSpec) (depth : Nat)
    (hvalid : validateMessage sha256 message depth = .ok ()) :
    (∀ associated identities given,
      MessageContext around output message associated identities given →
        (KeysApart given ↔
          ¬ (associated = true ∧ messageHasStreamedProperty message 0x3001 = true))) ∧
      ∀ attachment ∈ message.attachments, ∀ identities given,
        AttachmentContext around output attachment identities given → KeysApart given := by
  have accepted := (validateMessage_accepted hvalid).1
  constructor
  · intro associated identities given context
    constructor
    · rintro apart ⟨rfl, streamed⟩
      exact context.displayName_twice streamed apart.once
    · intro plain
      exact keysApart_of_nodup (accepted.nodup context plain) (accepted.words context)
  · intro attachment member identities given context
    have own := validateAttachment_accepted (accepted.attachments attachment member)
    obtain ⟨once, words⟩ := own.nodup context
    exact keysApart_of_nodup once words

/-- The digest of the spooled name below. -/
def displayNameDigest : Bytes :=
  [0xE9, 0xF8, 0x6C, 0xEF, 0xCF, 0xD6, 0x15, 0x58, 0xFE, 0x75, 0xDA, 0x7D, 0x4E, 0xA4, 0x8A, 0x6C,
    0x82, 0xD9, 0x31, 0x91, 0xC6, 0xD4, 0x95, 0x79, 0xAA, 0xB4, 0x9F, 0x99, 0xE5, 0x43, 0xDC, 0xAD]

/-- Surroundings whose spool holds the encoded name `N`. -/
def displayNameSpool : Surroundings Unit where
  sha256 bytes := if bytes = [0x4E, 0x00] then displayNameDigest else []
  spool _ := .file [0x4E, 0x00]
  openBlob _ source := (.error (.invalidStructure "requested stream was absent"), source)
  interrupted _ := false
  outputFault _ := none
  truncateFault _ := none

/-- A note that streams its display name from the spool. -/
def displayNameNote : MessageSpec :=
  { MessageSpec.note "Rules".toList [] with
    spooledProperties := [⟨0x3001, 0x001F, ⟨"name", 0, 2, displayNameDigest⟩⟩] }

theorem displayNameNote_accepted :
    validateMessage displayNameSpool.sha256 displayNameNote 0 = .ok () := by
  decide +kernel

theorem displayNameNote_context (associated : Bool) :
    ∃ given, MessageContext displayNameSpool .physical displayNameNote associated [] given := by
  have success : succeeds (closeMessage displayNameSpool .physical displayNameNote associated
      (List.replicate 16 0) [] ⟨4⟩ ⟨8⟩ ⟨none, false, 0, ⟨12⟩, none, []⟩ ⟨[], [], []⟩ 0)
        ⟨.new, none, [], 0⟩ = true := by
    cases associated <;> decide +kernel
  obtain ⟨built, _, hrun⟩ := exists_run_ok success
  obtain ⟨given, _, context, -⟩ := closeMessage_context hrun
  exact ⟨given, context⟩

theorem accepted_keysApart_plain : ∃ given,
    MessageContext displayNameSpool .physical displayNameNote false [] given ∧ KeysApart given := by
  obtain ⟨given, context⟩ := displayNameNote_context false
  refine ⟨given, context, ?_⟩
  have result := accepted_keysApart displayNameSpool .physical displayNameSpool.sha256
    displayNameNote 0 displayNameNote_accepted
  exact (result.1 false [] given context).mpr fun shown => Bool.false_ne_true shown.1

theorem associated_displayName_twice :
    validateMessage displayNameSpool.sha256 displayNameNote 0 = .ok () ∧ ∃ given,
      MessageContext displayNameSpool .physical displayNameNote true [] given ∧
        ¬ (given.map (·.1)).Nodup := by
  obtain ⟨given, context⟩ := displayNameNote_context true
  exact ⟨displayNameNote_accepted, given, context, context.displayName_twice rfl⟩

end Results

end PstForge.Writer
