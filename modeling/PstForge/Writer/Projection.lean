import PstForge.Writer.Checkpoints

/-! # Projections predict appends

Before a message is appended to a part, its append is run without output and without
its payloads: the blocks of a payload are placed from its declared length alone. Two
builders of data trees do this work, one that reads and one that only counts. Here
the run that counts is shown to follow every successful run that reads: it takes the
same identifiers, places blocks of the same sizes at the same offsets, and files the
same rows.
-/

namespace PstForge.Writer

open PstForge.Foundation PstForge.Ndb PstForge.Ltp

variable {τ : Type}

section Alike

/-- A payload and one that stands for it in a projection. -/
inductive AlikePayload : BlockPayload → BlockPayload → Prop
  | same (payload : BlockPayload) : AlikePayload payload payload
  | declared (bytes : Bytes) : AlikePayload (.data bytes) (.projectedData bytes.length)

theorem AlikePayload.logicalSize {left right : BlockPayload} (alike : AlikePayload left right) :
    left.logicalSize = right.logicalSize := by
  cases alike <;> rfl

/-- Blocks that differ at most in the bytes they hold. -/
structure AlikeBlock (left right : BlockSpec) : Prop where
  id : left.id = right.id
  refCount : left.refCount = right.refCount
  payload : AlikePayload left.payload right.payload

theorem AlikeBlock.refl (block : BlockSpec) : AlikeBlock block block :=
  ⟨rfl, rfl, .same _⟩

/-- Blocks that were placed alike. -/
structure AlikeWritten (left right : WrittenBlock) : Prop where
  spec : AlikeBlock left.spec right.spec
  offset : left.offset = right.offset
  size : left.size = right.size

/-- Two sessions whose streams differ at most in the bytes of blocks; their tables have
some rows. -/
def Placed (contents associated : List (NodeId × TableRowSpec)) (left right : Session τ) : Prop :=
  left.stream.contentsRows = contents ∧ left.stream.associatedRows = associated ∧
    ∃ written, List.Forall₂ AlikeWritten left.stream.written written ∧
      right.stream = { left.stream with written }

/-- Surroundings in which nothing interrupts. -/
def Surroundings.calm (around : Surroundings τ) : Surroundings τ :=
  { around with interrupted := fun _ => false }

/-- A change of both streams that leaves the blocks and the rows as they are. -/
theorem Placed.update {contents associated : List (NodeId × TableRowSpec)}
    {left right left' right' : Session τ} (placed : Placed contents associated left right)
    (rows : left'.stream.contentsRows = left.stream.contentsRows)
    (others : left'.stream.associatedRows = left.stream.associatedRows)
    (blocks : left'.stream.written = left.stream.written)
    (step : ∀ written, right.stream = { left.stream with written } →
      right'.stream = { left'.stream with written }) :
    Placed contents associated left' right' := by
  obtain ⟨sameRows, sameOthers, written, alike, sameStream⟩ := placed
  refine ⟨rows.trans sameRows, others.trans sameOthers, written, ?_, step written sameStream⟩
  rwa [blocks]

variable {α β : Type} (contents associated : List (NodeId × TableRowSpec))

/-- A projection follows a run, and neither files a row. -/
abbrev Predicted (same : α → β → Prop) (left : Live τ α) (right : Live τ β) : Prop :=
  Follows (Placed contents associated) (Placed contents associated) same left right

variable {contents associated}

theorem Placed.refl {session other : Session τ} (same : other.stream = session.stream) :
    Placed session.stream.contentsRows session.stream.associatedRows session other := by
  refine ⟨rfl, rfl, session.stream.written, ?_, by rw [same]⟩
  rw [List.forall₂_same]
  exact fun block _ => ⟨.refl _, rfl, rfl⟩

/-- A change outside the streams. -/
theorem Placed.outside {left right left' right' : Session τ}
    (placed : Placed contents associated left right) (sameLeft : left'.stream = left.stream)
    (sameRight : right'.stream = right.stream) : Placed contents associated left' right' := by
  unfold Placed
  rw [sameLeft, sameRight]
  exact placed

theorem predicted_takeIds (program : Ids α) :
    Predicted contents associated Eq (takeIds program : Live τ α) (takeIds program) := by
  refine .of_zoom program (fun left right placed => ?_) fun left right counters placed => ?_
  · obtain ⟨-, -, written, -, sameStream⟩ := placed
    rw [sameStream]
  · obtain ⟨rows, others, written, alike, sameStream⟩ := placed
    refine ⟨rows, others, written, alike, ?_⟩
    dsimp only
    rw [sameStream]

theorem predicted_tick : Predicted contents associated (fun _ _ => True) (tick : Live τ Nat)
    tick := by
  refine .get_bind fun left right _ => ?_
  refine .bind_same (.of_modify fun s t placed => ?_) fun _ => .of_pure trivial
  exact placed.outside rfl rfl

theorem predicted_checkInterrupted (around : Surroundings τ) :
    Predicted contents associated Eq (checkInterrupted around)
      (checkInterrupted around.calm) := by
  refine .bind predicted_tick fun _ now _ => ?_
  refine .of_attempt fun _ _ => ⟨(), ?_, rfl⟩
  rw [refuse_eq_ok]
  exact Bool.false_ne_true

/-- What follows the first part is compared on values of a relation. -/
theorem predicted_bind {α' β' : Type} (related : α → β → Prop) {first : Live τ α}
    {first' : Live τ β} {next : α → Live τ α'} {next' : β → Live τ β'} {same : α' → β' → Prop}
    (predictedFirst : Predicted contents associated related first first')
    (predictedNext : ∀ value value', related value value' →
      Predicted contents associated same (next value) (next' value')) :
    Predicted contents associated same (first >>= next) (first' >>= next') :=
  predictedFirst.bind predictedNext

/-- A check that only the projection makes, and that succeeds. -/
theorem predicted_also {γ : Type} {source : Except WriterError γ} {c : γ}
    (success : source = .ok c) {left : Live τ α} {next : γ → Live τ β}
    {same : α → β → Prop} (predicted : Predicted contents associated same left (next c)) :
    Predicted contents associated same left (attempt source >>= next) := by
  intro s t placed value final hrun
  obtain ⟨value', final', hnext, related, behind⟩ := predicted s t placed value final hrun
  refine ⟨value', final', ?_, related, behind⟩
  exact attempt_bind_run_ok.mpr ⟨c, success, hnext⟩

/-- A check that only the run makes. -/
theorem predicted_skip {γ : Type} {source : Except WriterError γ} {next : γ → Live τ α}
    {right : Live τ β} {same : α → β → Prop}
    (predicted : ∀ value, source = .ok value → Predicted contents associated same (next value)
      right) : Predicted contents associated same (attempt source >>= next) right := by
  intro left other placed value final hrun
  obtain ⟨checked, hsource, hnext⟩ := attempt_bind_run_ok.mp hrun
  exact predicted checked hsource left other placed value final hnext

/-- Touching the output changes nothing that a projection could miss. -/
theorem predicted_touch {fault : Nat → Option String} {next : Live τ α} {right : Live τ β}
    {same : α → β → Prop} (predicted : Predicted contents associated same next right) :
    Predicted contents associated same (do touch fault; next) right := by
  intro left other placed value final hrun
  simp only [touch, tick, bind_run_ok, get_run_ok, modify_run_ok, pure_run_ok,
    attempt_run_ok] at hrun
  obtain ⟨_, _, ⟨_, _, ⟨_, _, ⟨rfl, rfl⟩, _, _, rfl, rfl, rfl⟩, -, rfl⟩, hnext⟩ := hrun
  refine predicted _ other ?_ value final hnext
  exact placed.outside rfl rfl

theorem predicted_allocate (size : Nat) :
    Predicted contents associated Eq (allocate size : Live τ Nat) (allocate size) := by
  refine .get_bind fun left right placed => ?_
  obtain ⟨-, -, written, -, sameStream⟩ := placed
  rw [sameStream]
  refine .bind_same (.attempt_same _) fun place => ?_
  refine .bind_same (.of_modify fun s t placed => ?_) fun _ => .of_pure rfl
  obtain ⟨rows, others, written, alike, sameStream⟩ := placed
  refine ⟨rows, others, written, alike, ?_⟩
  dsimp only
  rw [sameStream]

theorem predicted_listBlock {left right : WrittenBlock} (alike : AlikeWritten left right) :
    Predicted contents associated Eq (listBlock left : Live τ Unit) (listBlock right) := by
  refine .of_modify fun s t placed => ?_
  obtain ⟨rows, others, written, alikes, sameStream⟩ := placed
  refine ⟨rows, others, written ++ [right], ?_, ?_⟩
  · exact List.rel_append alikes (.cons alike .nil)
  · dsimp only
    rw [sameStream]

theorem blockExtent_alike {left right : BlockSpec} (alike : AlikeBlock left right) :
    blockExtent left = blockExtent right := by
  unfold blockExtent
  rw [alike.payload.logicalSize]

/-- A block that is written is placed where its projection is. -/
theorem predicted_emit (around : Surroundings τ) (output : Output) {left right : BlockSpec}
    (alike : AlikeBlock left right) :
    Predicted contents associated Eq (emit around output left)
      (emit around.calm .projected right) := by
  cases output with
  | physical =>
      refine .bind_same (predicted_checkInterrupted around) fun _ => ?_
      refine predicted_skip fun _ _ => ?_
      rw [← blockExtent_alike alike]
      refine .bind_same (.attempt_same _) fun extent => ?_
      refine .bind_same (predicted_allocate _) fun offset => ?_
      refine predicted_touch (predicted_skip fun _ _ => predicted_touch ?_)
      exact predicted_listBlock ⟨alike, rfl, rfl⟩
  | projected =>
      refine .bind_same (predicted_checkInterrupted around) fun _ => ?_
      rw [← blockExtent_alike alike]
      refine .bind_same (.attempt_same _) fun extent => ?_
      refine .bind_same (predicted_allocate _) fun offset => ?_
      exact predicted_listBlock ⟨alike, rfl, rfl⟩

theorem predicted_emitAll (around : Surroundings τ) (output : Output) (blocks : List BlockSpec) :
    Predicted contents associated Eq (emitAll around output blocks)
      (emitAll around.calm .projected blocks) := by
  induction blocks with
  | nil => exact .of_pure rfl
  | cons block rest ih =>
      exact .bind_same (predicted_emit around output (.refl block)) fun _ => ih

end Alike

section DataTree

variable {contents associated : List (NodeId × TableRowSpec)}
variable (around : Surroundings τ) (output : Output)

theorem groupTotal_text {what : String} (what' : String) {group : List (BlockId × Nat)}
    {total : Nat} (htotal : groupTotal what group = .ok total) :
    groupTotal what' group = .ok total := by
  unfold groupTotal at htotal ⊢
  rw [okOr_eq_ok] at htotal ⊢
  exact htotal

theorem predicted_emitXBlock {what : String} (what' : String) (leaves : List (BlockId × Nat)) :
    Predicted contents associated Eq (emitXBlock around output what leaves)
      (emitXBlock around.calm .projected what' leaves) := by
  refine predicted_bind Eq (.of_attempt fun total htotal => ⟨total, ?_, rfl⟩) ?_
  · exact groupTotal_text what' htotal
  · rintro total _ rfl
    refine .bind_same (predicted_takeIds _) fun id => ?_
    exact .bind_same (predicted_emit around output (.refl _)) fun _ => .of_pure rfl

/-- The groups and leaves of two trees that were built alike; what is left of their payloads
is related. -/
structure AlikeProgress {ρ ρ' : Type} (rest : ρ → ρ' → Prop) (left : TreeProgress ρ)
    (right : TreeProgress ρ') : Prop where
  leaves : right.leaves = left.leaves
  xblocks : right.xblocks = left.xblocks
  rest : rest left.rest right.rest

/-- A projection cuts a payload into pieces like those that a run reads. -/
def AlikePieces {ρ ρ' : Type} (rest : ρ → ρ' → Prop)
    (piece : ρ → Nat → Except WriterError (BlockPayload × ρ))
    (piece' : ρ' → Nat → Except WriterError (BlockPayload × ρ')) : Prop :=
  ∀ before before', rest before before' → ∀ length payload after,
    piece before length = .ok (payload, after) →
      ∃ payload' after', piece' before' length = .ok (payload', after') ∧
        AlikePayload payload payload' ∧ rest after after'

theorem predicted_streamLeaves {ρ ρ' : Type} {rest : ρ → ρ' → Prop}
    {piece : ρ → Nat → Except WriterError (BlockPayload × ρ)}
    {piece' : ρ' → Nat → Except WriterError (BlockPayload × ρ')}
    (pieces : AlikePieces rest piece piece') (what what' : String) (turns : Nat) :
    ∀ (remaining : Nat) {progress : TreeProgress ρ} {progress' : TreeProgress ρ'},
      AlikeProgress rest progress progress' →
        Predicted contents associated (AlikeProgress rest)
          (streamLeaves around output piece what turns remaining progress)
          (streamLeaves around.calm .projected piece' what' turns remaining progress') := by
  induction turns with
  | zero => exact fun _ _ _ alike => .of_pure alike
  | succ turns ih =>
      intro remaining progress progress' alike
      refine predicted_bind (fun taken taken' =>
        AlikePayload taken.1 taken'.1 ∧ rest taken.2 taken'.2) (.of_attempt ?_) ?_
      · rintro ⟨payload, after⟩ hpiece
        obtain ⟨payload', after', hpiece', alikePayload, alikeRest⟩ :=
          pieces _ _ alike.rest _ payload after hpiece
        exact ⟨(payload', after'), hpiece', alikePayload, alikeRest⟩
      · rintro ⟨payload, after⟩ ⟨payload', after'⟩ ⟨alikePayload, alikeRest⟩
        refine .bind_same (predicted_takeIds _) fun id => ?_
        have block : AlikeBlock ⟨id, payload, 2⟩ ⟨id, payload', 2⟩ := ⟨rfl, rfl, alikePayload⟩
        refine .bind_same (predicted_emit around output block) fun _ => ?_
        dsimp only
        rw [alike.leaves, alike.xblocks]
        split
        · refine .bind_same (predicted_emitXBlock around output what' _) fun xblock => ?_
          exact ih _ ⟨rfl, rfl, alikeRest⟩
        · exact ih _ ⟨rfl, rfl, alikeRest⟩

theorem predicted_closeStreamedTree {ρ ρ' : Type} {rest : ρ → ρ' → Prop} (names names' : TreeNames)
    {progress : TreeProgress ρ} {progress' : TreeProgress ρ'}
    (alike : AlikeProgress rest progress progress') :
    Predicted contents associated Eq (closeStreamedTree around output names progress)
      (closeStreamedTree around.calm .projected names' progress') := by
  unfold closeStreamedTree
  dsimp only
  rw [alike.leaves, alike.xblocks]
  split
  · exact .of_pure rfl
  · refine .bind_same (predicted_emitXBlock around output names'.group _) fun last => ?_
    split
    · exact .of_pure rfl
    · refine predicted_bind (fun _ _ => True) (.of_attempt fun _ few => ⟨(), ?_, trivial⟩) ?_
      · rw [refuse_eq_ok] at few ⊢
        exact few
      · rintro _ _ -
        refine predicted_bind Eq (.of_attempt fun total htotal => ⟨total, ?_, rfl⟩) ?_
        · exact groupTotal_text names'.tooLarge htotal
        · rintro total _ rfl
          refine .bind_same (predicted_takeIds _) fun id => ?_
          exact .bind_same (predicted_emit around output (.refl _)) fun _ => .of_pure rfl

theorem readPiece_declared : AlikePieces (fun _ _ => True) readPiece
    fun (_ : Unit) length => .ok (.projectedData length, ()) := by
  rintro ⟨reader, digested⟩ _ _ length payload after hpiece
  simp only [readPiece, bind_eq_ok] at hpiece
  obtain ⟨⟨chunk, left⟩, hread, hpure⟩ := hpiece
  cases hpure
  unfold Reader.readExact at hread
  split at hread
  case isTrue enough =>
    cases hread
    have whole : (reader.bytes.take length).length = length := List.length_take_of_le enough
    refine ⟨.projectedData length, (), rfl, ?_, trivial⟩
    have declared := AlikePayload.declared (reader.bytes.take length)
    rwa [whole] at declared
  case isFalse => cases hread

theorem alikePieces_same {ρ : Type} (piece : ρ → Nat → Except WriterError (BlockPayload × ρ)) :
    AlikePieces Eq piece piece := by
  rintro before _ rfl length payload after hpiece
  exact ⟨payload, after, hpiece, .same _, rfl⟩

theorem predicted_appendDeclaredDataTree (blob : DirectBlobSpec) :
    Predicted contents associated Eq (appendDeclaredDataTree around output blob)
      (appendDeclaredDataTree around.calm .projected blob) := by
  have started : AlikeProgress Eq ⟨[], [], ()⟩ ⟨[], [], ()⟩ := ⟨rfl, rfl, rfl⟩
  refine .bind (predicted_streamLeaves around output (alikePieces_same _) _ _ _ _ started) ?_
  intro progress progress' alike
  rw [alike.leaves]
  refine .bind_same (.attempt_same _) fun _ => ?_
  exact .bind_same (predicted_closeStreamedTree around output _ _ alike) fun _ => .of_pure rfl

/-- A payload that is read in a projection too is read alike. -/
theorem predicted_appendReaderDataTree (reader : Reader) (byteLen : Nat) (expected : Option Bytes)
    (requireEof : Bool) :
    Predicted contents associated Eq
      (appendReaderDataTree around output reader byteLen expected requireEof)
      (appendReaderDataTree around.calm .projected reader byteLen expected requireEof) := by
  have started : AlikeProgress Eq ⟨[], [], (reader, ([] : Bytes))⟩ ⟨[], [], (reader, [])⟩ :=
    ⟨rfl, rfl, rfl⟩
  refine .bind (predicted_streamLeaves around output (alikePieces_same _) _ _ _ _ started) ?_
  rintro progress progress' ⟨leaves, xblocks, rest⟩
  dsimp only
  rw [← rest, leaves]
  refine .bind_same (.attempt_same _) fun _ => ?_
  refine .bind_same (.attempt_same _) fun trailing => ?_
  refine .bind_same (.attempt_same _) fun _ => ?_
  split
  · refine .bind_same (predicted_takeIds _) fun id => ?_
    exact .bind_same (predicted_emit around output (.refl _)) fun _ => .of_pure rfl
  · have alike : AlikeProgress Eq progress progress' := ⟨leaves, xblocks, rest⟩
    exact .bind_same (predicted_closeStreamedTree around output _ _ alike) fun _ => .of_pure rfl

theorem predicted_appendSpooledDataTree (blob : FileBlobSpec) :
    Predicted contents associated Eq (appendSpooledDataTree around output blob)
      (appendSpooledDataTree around.calm .projected blob) := by
  refine .bind_same (.attempt_same _) fun bytes => .bind_same (.attempt_same _) fun last => ?_
  refine .bind_same (.attempt_same _) fun _ => ?_
  exact .bind_same (predicted_appendReaderDataTree around output _ _ _ _) fun _ => .of_pure rfl

/-- An empty data block is refused by the file. -/
theorem writeBlock_empty {id : BlockId} {session final : Session τ} {value : Unit}
    (hrun : writeBlock around ⟨id, .data [], 2⟩ session = .ok value final) : False := by
  simp only [writeBlock, bind_run_ok, attempt_run_ok] at hrun
  obtain ⟨_, _, -, _, _, -, ⟨size, physical⟩, _, ⟨hextent, -⟩, _, _, -, _, _, -, _, _, ⟨hcheck, -⟩,
    -⟩ := hrun
  have empty : size = 0 := by
    simp only [blockExtent, bind_eq_ok, okOr_eq_ok, tryFrom_eq_some] at hextent
    obtain ⟨_, ⟨rfl, -⟩, _, -, hpure⟩ := hextent
    cases hpure
    rfl
  simp only [checkBlock, bind_eq_ok, refuse_eq_ok] at hcheck
  obtain ⟨_, nonzero, -⟩ := hcheck
  exact nonzero (.inl empty)

/-- A payload that a run reads to its end is projected from its declared length. -/
theorem predicted_declaredDataTree (reader : Reader) (blob : DirectBlobSpec)
    (expected : Option Bytes) (requireEof : Bool) :
    Predicted contents associated (fun read placed => placed = (read.1, read.2.1))
      (appendReaderDataTree around .physical reader blob.byteLen expected requireEof)
      (appendDeclaredDataTree around.calm .projected blob) := by
  have started : AlikeProgress (fun _ _ => True) ⟨[], [], (reader, ([] : Bytes))⟩ ⟨[], [], ()⟩ :=
    ⟨rfl, rfl, trivial⟩
  refine .bind (predicted_streamLeaves around .physical readPiece_declared _ _ _ _ started) ?_
  intro progress progress' alike
  refine predicted_skip fun _ _ => predicted_skip fun _ _ => predicted_skip fun _ _ => ?_
  rw [alike.leaves]
  split
  case isTrue =>
    intro s t placed value final hrun
    obtain ⟨id, taken, -, hrun⟩ := bind_run_ok.mp hrun
    obtain ⟨_, _, hemit, -⟩ := bind_run_ok.mp hrun
    exact (writeBlock_empty around hemit).elim
  case isFalse some =>
    refine predicted_also (c := ()) ?_ ?_
    · rw [refuse_eq_ok]
      exact some
    · refine predicted_bind Eq (predicted_closeStreamedTree around .physical _ _ alike) ?_
      rintro root _ rfl
      exact .of_pure rfl

/-- A payload of the live source is projected from its declared length. -/
theorem predicted_appendDirectDataTree (absent : String) (blob : DirectBlobSpec) :
    Predicted contents associated Eq (appendDirectDataTree around .physical absent blob)
      (appendDeclaredDataTree around.calm .projected blob) := by
  intro s t placed value final hrun
  have opened (session : Session τ) (sameStream : session.stream = s.stream) (reader : Reader) :=
    predicted_declaredDataTree around reader blob blob.sha256 true session t
      (placed.outside sameStream rfl)
  simp only [appendDirectDataTree, bind_run_ok, attempt_run_ok, get_run_ok, modify_run_ok,
    pure_run_ok] at hrun
  obtain ⟨_, _, ⟨rfl, rfl⟩, source, _, ⟨-, rfl⟩, _, _, rfl, reader, _, ⟨-, rfl⟩,
    ⟨root, size, digest⟩, middle, hread, _, _, rfl, rfl, rfl⟩ := hrun
  obtain ⟨value', final', hproject, same, behind⟩ := opened _ (by rfl) reader _ _ hread
  exact ⟨value', final', hproject, same.symm, behind.outside rfl rfl⟩

theorem predicted_appendBlobDataTree (absent : String) (blob : DirectBlobSpec) :
    Predicted contents associated Eq (appendBlobDataTree around output absent blob)
      (appendBlobDataTree around.calm .projected absent blob) := by
  cases output with
  | physical => exact predicted_appendDirectDataTree around absent blob
  | projected => exact predicted_appendDeclaredDataTree around .projected blob

end DataTree

section Properties

variable {contents associated : List (NodeId × TableRowSpec)}
variable (around : Surroundings τ) (output : Output)

theorem predicted_appendStreamedProperties {spec : Type} (what valueNode : String)
    (id propertyType : spec → Nat) {append append' : spec → Live τ (BlockId × Nat)}
    (predicted : ∀ spec, Predicted contents associated Eq (append spec) (append' spec))
    (specs : List spec) : ∀ total, Predicted contents associated Eq
      (appendStreamedProperties what valueNode id propertyType append total specs)
      (appendStreamedProperties what valueNode id propertyType append' total specs) := by
  induction specs with
  | nil => exact fun _ => .of_pure rfl
  | cons head rest ih =>
      intro total
      refine .bind_same (.attempt_same _) fun kind => ?_
      refine .bind_same (predicted_takeIds _) fun node => ?_
      refine .bind_same (predicted head) fun built => .bind_same (.attempt_same _) fun total => ?_
      exact .bind_same (ih total) fun tail => .of_pure rfl

theorem predicted_appendSpooledProperties (specs : List SpooledPropertySpec) :
    Predicted contents associated Eq (appendSpooledProperties around output specs)
      (appendSpooledProperties around.calm .projected specs) :=
  predicted_appendStreamedProperties _ _ _ _
    (fun spec => predicted_appendSpooledDataTree around output spec.blob) specs 0

theorem predicted_requireSource (absent : String) :
    Predicted contents associated (fun _ _ => True) (requireSource output absent : Live τ Unit)
      (requireSource .projected absent) := by
  refine .get_bind fun s t _ => .of_attempt fun _ _ => ⟨(), ?_, trivial⟩
  rw [refuse_eq_ok]
  rintro ⟨physical, -⟩
  cases physical

theorem predicted_appendDirectProperties (absent : String) (specs : List DirectPropertySpec) :
    Predicted contents associated Eq (appendDirectProperties around output absent specs)
      (appendDirectProperties around.calm .projected absent specs) := by
  cases specs with
  | nil => exact .of_pure rfl
  | cons spec rest =>
      unfold appendDirectProperties
      refine .bind (predicted_requireSource output absent) fun _ _ _ => ?_
      apply predicted_appendStreamedProperties
      exact fun spec => predicted_appendBlobDataTree around output absent spec.blob

end Properties

section Message

variable {contents associated : List (NodeId × TableRowSpec)}
variable (around : Surroundings τ) (output : Output) (identities : List NamedIdentity)

theorem predicted_streamContent (kind : NodeIdType) (what : String)
    {append append' : Live τ (BlockId × Nat)}
    (predicted : Predicted contents associated Eq append append') :
    Predicted contents associated Eq (streamContent kind what append)
      (streamContent kind what append') :=
  .bind_same (predicted_takeIds _) fun _ => .bind_same predicted fun _ => .of_pure rfl

theorem predicted_buildContent (content : AttachmentContent) :
    Predicted contents associated Eq (buildContent around output content)
      (buildContent around.calm .projected content) := by
  have spooled (blob : FileBlobSpec) : Predicted contents associated Eq
      (appendSpooledDataTree around output blob) (appendSpooledDataTree around.calm .projected blob) :=
    predicted_appendSpooledDataTree around output blob
  have direct (absent : String) (blob : DirectBlobSpec) : Predicted contents associated Eq
      (appendBlobDataTree around output absent blob)
      (appendBlobDataTree around.calm .projected absent blob) :=
    predicted_appendBlobDataTree around output absent blob
  cases content with
  | binary data => exact .of_pure rfl
  | spooled blob =>
      exact .bind_same (predicted_streamContent _ _ (spooled blob)) fun _ => .of_pure rfl
  | direct blob =>
      exact .bind_same (predicted_streamContent _ _ (direct _ blob)) fun _ => .of_pure rfl
  | embedded message => exact .of_throw
  | reference reference => exact .of_pure rfl
  | ole ole =>
      simp only [buildContent]
      split
      · exact .bind_same (.attempt_same _) fun _ => .of_pure rfl
      · refine .bind_same (predicted_streamContent _ _ (spooled ole.data)) fun _ => ?_
        exact .bind_same (.attempt_same _) fun _ => .of_pure rfl
  | directOle ole =>
      simp only [buildContent]
      split
      · exact .of_pure rfl
      · refine .bind_same (predicted_streamContent _ _ (direct _ ole.data)) fun _ => ?_
        exact .bind_same (.attempt_same _) fun _ => .of_pure rfl

theorem predicted_buildAttachment (index : Nat) (reserved : NodeId × BlockId)
    (attachment : AttachmentSpec) (content : ContentBuild) (streamed : Nat) :
    Predicted contents associated Eq
      (buildAttachment around output identities index reserved attachment content streamed)
      (buildAttachment around.calm .projected identities index reserved attachment content
        streamed) := by
  refine .bind_same (.attempt_same _) fun _ => .bind_same (.attempt_same _) fun _ => ?_
  refine .bind_same (.attempt_same _) fun _ => .bind_same (.attempt_same _) fun _ => ?_
  refine .bind_same (predicted_appendSpooledProperties around output _) fun _ => ?_
  refine .bind_same (.attempt_same _) fun _ => .bind_same (.attempt_same _) fun _ => ?_
  refine .bind_same (predicted_appendDirectProperties around output _ _) fun _ => ?_
  refine .bind_same (.attempt_same _) fun _ => .bind_same (.attempt_same _) fun _ => ?_
  refine .bind_same (.attempt_same _) fun _ => .bind_same (predicted_takeIds _) fun _ => ?_
  refine .bind_same (predicted_takeIds _) fun _ => .bind_same (predicted_takeIds _) fun _ => ?_
  exact .of_pure rfl

theorem predicted_closeMessage (message : MessageSpec) (isAssociated : Bool) (recordKey : Bytes)
    (propertyBlock attachmentTableBlock : BlockId) (recipients : RecipientBuild)
    (attachments : AttachmentsBuild) (streamed : Nat) :
    Predicted contents associated Eq
      (closeMessage around output message isAssociated recordKey identities propertyBlock
        attachmentTableBlock recipients attachments streamed)
      (closeMessage around.calm .projected message isAssociated recordKey identities propertyBlock
        attachmentTableBlock recipients attachments streamed) := by
  refine .bind_same (.attempt_same _) fun _ => .bind_same (.attempt_same _) fun _ => ?_
  refine .bind_same (.attempt_same _) fun _ => ?_
  refine .bind_same (predicted_appendSpooledProperties around output _) fun _ => ?_
  refine .bind_same (.attempt_same _) fun _ => ?_
  refine .bind_same (predicted_appendDirectProperties around output _ _) fun _ => ?_
  refine .bind_same (.attempt_same _) fun _ => .bind_same (predicted_takeIds _) fun _ => ?_
  refine .bind_same (.attempt_same _) fun _ => .bind_same (.attempt_same _) fun _ => ?_
  refine .bind_same (.attempt_same _) fun _ => .bind_same (predicted_takeIds _) fun _ => ?_
  exact .of_pure rfl

mutual

theorem predicted_buildMessageBlocks (message : MessageSpec) (isAssociated : Bool)
    (recordKey : Bytes) (frame : MessageFrame) :
    Predicted contents associated Eq
      (buildMessageBlocks around output identities message isAssociated recordKey frame)
      (buildMessageBlocks around.calm .projected identities message isAssociated recordKey
        frame) :=
  match message with
  | { attachments, .. } => by
      simp only [buildMessageBlocks]
      refine .bind_same (predicted_takeIds _) fun _ => ?_
      refine .bind_same (predicted_buildAttachments attachments 0 recordKey 0) fun _ => ?_
      exact predicted_closeMessage around output identities _ _ _ _ _ _ _ _

theorem predicted_buildAttachments (attachments : List AttachmentSpec) (index : Nat)
    (recordKey : Bytes) (streamed : Nat) :
    Predicted contents associated Eq
      (buildAttachments around output identities attachments index recordKey streamed)
      (buildAttachments around.calm .projected identities attachments index recordKey
        streamed) :=
  match attachments with
  | [] => by
      simp only [buildAttachments]
      exact .of_pure rfl
  | { content, .. } :: rest => by
      simp only [buildAttachments]
      refine .bind_same (predicted_takeIds _) fun _ => ?_
      refine .bind_same (predicted_buildAttachmentContent content index recordKey) fun _ => ?_
      refine .bind_same (predicted_buildAttachment around output identities _ _ _ _ _) fun _ => ?_
      refine .bind_same (predicted_buildAttachments rest (index + 1) recordKey _) fun _ => ?_
      exact .of_pure rfl

theorem predicted_buildAttachmentContent (content : AttachmentContent) (index : Nat)
    (recordKey : Bytes) :
    Predicted contents associated Eq
      (buildAttachmentContent around output identities content index recordKey)
      (buildAttachmentContent around.calm .projected identities content index recordKey) :=
  match content with
  | .embedded message => by
      simp only [buildAttachmentContent]
      refine .bind_same (predicted_takeIds _) fun _ => ?_
      refine .bind_same (predicted_buildMessageBlocks message false _ _) fun _ => ?_
      exact predicted_takeIds _
  | .binary _ | .spooled _ | .direct _ | .reference _ | .ole _ | .directOle _ => by
      simp only [buildAttachmentContent]
      exact predicted_buildContent around output _

end

/-- The rows of two tables after a message was filed in one of them. -/
def FiledRows (isAssociated : Bool) (parent : NodeId) (left right : Session τ) : Prop :=
  ∃ row, Placed (contents ++ if isAssociated then [] else [(parent, row)])
    (associated ++ if isAssociated then [(parent, row)] else []) left right

theorem follows_filedRows {α β : Type} {same : α → β → Prop} {isAssociated : Bool}
    {parent : NodeId} {left : Live τ α} {right : Live τ β}
    (predicted : ∀ contents associated, Predicted contents associated same left right) :
    Follows (@FiledRows τ contents associated isAssociated parent)
      (@FiledRows τ contents associated isAssociated parent) same left right := by
  rintro s t ⟨row, placed⟩ value final hrun
  obtain ⟨value', final', hright, related, behind⟩ := predicted _ _ s t placed value final hrun
  exact ⟨value', final', hright, related, row, behind⟩

theorem follows_listMessage (message : MessageSpec) (messageNode parent : NodeId)
    (isAssociated : Bool) (storeKey : Bytes) (built : MessageBlocks)
    (contentsColumns associatedColumns : List TableColumnDescriptor) :
    Follows (@Placed τ contents associated)
      (@FiledRows τ contents associated isAssociated parent) Eq
      (listMessage message messageNode parent isAssociated storeKey built contentsColumns
        associatedColumns)
      (listMessage message messageNode parent isAssociated storeKey built contentsColumns
        associatedColumns) := by
  unfold listMessage
  cases isAssociated with
  | true =>
      refine .of_modify fun s t placed => ?_
      obtain ⟨rows, others, written, alike, sameStream⟩ := placed
      refine ⟨associatedMessageTableRow messageNode message associatedColumns, ?_, ?_, written,
        alike, ?_⟩
      · exact rows.trans (List.append_nil _).symm
      · exact congrArg (· ++ _) others
      · dsimp only
        rw [sameStream]
  | false =>
      refine .bind_same (.attempt_same _) fun row => .of_modify fun s t placed => ?_
      obtain ⟨rows, others, written, alike, sameStream⟩ := placed
      refine ⟨row, ?_, ?_, written, alike, ?_⟩
      · exact congrArg (· ++ _) rows
      · exact others.trans (List.append_nil _).symm
      · dsimp only
        rw [sameStream]

/-- A projected message follows an appended one, and each is filed with one row. -/
theorem follows_streamMessage (message : MessageSpec) (parent : NodeId) (isAssociated : Bool)
    (storeKey : Bytes) (contentsColumns associatedColumns : List TableColumnDescriptor) :
    Follows (@Placed τ contents associated)
      (@FiledRows τ contents associated isAssociated parent) (fun _ _ => True)
      (streamMessage around output message parent isAssociated storeKey identities contentsColumns
        associatedColumns)
      (streamMessage around.calm .projected message parent isAssociated storeKey identities
        contentsColumns associatedColumns) := by
  refine .bind_same (predicted_checkInterrupted around) fun _ => .get_bind fun s t placed => ?_
  have count : t.stream.messageCount = s.stream.messageCount := by
    obtain ⟨-, -, written, -, sameStream⟩ := placed
    rw [sameStream]
    rfl
  rw [count]
  refine .bind_same (.attempt_same _) fun messageNode => ?_
  refine .bind_same (predicted_takeIds _) fun frame => ?_
  refine .bind_same (predicted_buildMessageBlocks around output identities _ _ _ _) fun built => ?_
  refine .bind_same (follows_listMessage _ _ _ _ _ _ _ _) fun _ => ?_
  refine .bind_same (follows_filedRows fun _ _ => .of_modify fun s t placed => ?_) fun _ => ?_
  · refine placed.update rfl rfl rfl fun written sameStream => ?_
    dsimp only
    rw [sameStream]
  refine .bind_same (follows_filedRows fun _ _ => predicted_takeIds _) fun blocks => ?_
  refine .bind_same (follows_filedRows fun _ _ => .of_modify fun s t placed => ?_) fun _ => ?_
  · refine placed.update rfl rfl rfl fun written sameStream => ?_
    dsimp only
    rw [sameStream]
  refine .bind_same (follows_filedRows fun _ _ => predicted_emitAll around output _) fun _ => ?_
  refine .bind_same (follows_filedRows fun _ _ => .of_modify fun s t placed => ?_) fun _ => ?_
  · refine placed.update rfl rfl rfl fun written sameStream => ?_
    dsimp only
    rw [sameStream]
  exact .get_bind fun _ _ _ => .of_pure trivial

end Message

end PstForge.Writer
