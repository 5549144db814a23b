import PstForge.Ltp.Accounts
import PstForge.Writer.Transaction

/-! # The accounts of the block stream

Every block that is streamed while a message is built belongs to the data tree of a
payload. Together with the blocks that are collected for later, the streamed ones
keep the same balance as those of a builder in memory.
-/

namespace PstForge.Writer

open PstForge.Foundation PstForge.Ndb PstForge.Ltp

variable {τ : Type}

/-- The blocks that a stream has listed. -/
def MessageStreamState.specs (state : MessageStreamState) : List BlockSpec :=
  state.written.map (·.spec)

/-- What was streamed between two states while nothing else of the stream changed but
its counters and its cursor. -/
structure Streams (before after : MessageStreamState) (emitted : List BlockSpec) : Prop where
  specs : after.specs = before.specs ++ emitted
  streamedSubnodes : after.streamedSubnodes = before.streamedSubnodes
  contentsRows : after.contentsRows = before.contentsRows
  associatedRows : after.associatedRows = before.associatedRows
  topNodes : after.topNodes = before.topNodes

namespace Streams

theorem refl (state : MessageStreamState) : Streams state state [] :=
  ⟨by simp, rfl, rfl, rfl, rfl⟩

theorem trans {first second third : MessageStreamState} {emitted emitted' : List BlockSpec}
    (left : Streams first second emitted) (right : Streams second third emitted') :
    Streams first third (emitted ++ emitted') where
  specs := by rw [right.specs, left.specs, List.append_assoc]
  streamedSubnodes := right.streamedSubnodes.trans left.streamedSubnodes
  contentsRows := right.contentsRows.trans left.contentsRows
  associatedRows := right.associatedRows.trans left.associatedRows
  topNodes := right.topNodes.trans left.topNodes

end Streams

/-- The account of a computation on the stream: what it streamed, which holds no
subnode blocks, balances with the blocks it collected. -/
def Accounted (before after : MessageStreamState) (given outer roots : List BlockId)
    (blocks : List BlockSpec) : Prop :=
  ∃ emitted, Streams before after emitted ∧ subnodeIds emitted = [] ∧
    Built before.counters after.counters given outer roots (emitted ++ blocks)

namespace Accounted

variable {first second third : MessageStreamState}
variable {given given' outer outer' roots roots' : List BlockId} {blocks blocks' : List BlockSpec}

theorem idle (state : MessageStreamState) (outer : List BlockId) :
    Accounted state state [] outer outer [] :=
  ⟨[], .refl state, rfl, .idle (Nat.le_refl _) outer⟩

theorem indexes (accounted : Accounted first second given outer roots blocks) :
    first.counters.nextBlockIndex ≤ second.counters.nextBlockIndex := by
  obtain ⟨emitted, -, -, built⟩ := accounted
  exact built.indexes

theorem append (left : Accounted first second given outer roots blocks)
    (right : Accounted second third given' outer' roots' blocks') :
    Accounted first third (given ++ given') (outer ++ outer') (roots ++ roots')
      (blocks ++ blocks') := by
  obtain ⟨emitted, streams, plain, built⟩ := left
  obtain ⟨emitted', streams', plain', built'⟩ := right
  refine ⟨emitted ++ emitted', streams.trans streams', ?_, (built.append built').perm ?_⟩
  · rw [subnodeIds, List.flatMap_append]
    exact (congrArg₂ _ plain plain').trans (List.append_nil _)
  · rw [List.append_assoc, List.append_assoc]
    refine List.Perm.append_left emitted ?_
    rw [← List.append_assoc, ← List.append_assoc]
    exact List.perm_append_comm.append_right blocks'

theorem congr (accounted : Accounted first second given outer roots blocks)
    (sameGiven : ∀ index, indexCount given index = indexCount given' index)
    (sameReferences : ∀ id, roots'.count id + outer.count id = roots.count id + outer'.count id) :
    Accounted first second given' outer' roots' blocks := by
  obtain ⟨emitted, streams, plain, built⟩ := accounted
  exact ⟨emitted, streams, plain, built.congr sameGiven sameReferences⟩

theorem spare (accounted : Accounted first second given outer roots blocks)
    (extra : List BlockId) : Accounted first second (given ++ extra) outer roots blocks := by
  obtain ⟨emitted, streams, plain, built⟩ := accounted
  exact ⟨emitted, streams, plain, built.spare extra⟩

theorem perm (accounted : Accounted first second given outer roots blocks)
    (reordered : blocks'.Perm blocks) : Accounted first second given outer roots blocks' := by
  obtain ⟨emitted, streams, plain, built⟩ := accounted
  exact ⟨emitted, streams, plain, built.perm (reordered.append_left emitted)⟩

theorem link {shared : List BlockId} (left : Accounted first second given outer shared blocks)
    (right : Accounted second third given' shared roots blocks') :
    Accounted first third (given ++ given') outer roots (blocks ++ blocks') := by
  refine (left.append right).congr (fun _ => rfl) fun id => ?_
  simp only [List.count_append]
  omega

end Accounted

section Blocks

/-- Taking identifiers moves only the counters of the stream. -/
theorem takeIds_ok {α : Type} {program : Ids α} {session final : Session τ} {value : α}
    (hrun : takeIds program session = .ok value final) :
    ∃ counters, program session.stream.counters = .ok value counters ∧
      final = { session with stream := { session.stream with counters } } :=
  zoom_run_ok.mp hrun

/-- The account of a builder in memory is one of the stream whose counters it moved. -/
theorem accounted_of_built {state : MessageStreamState} {counters : Counters}
    {given outer roots : List BlockId} {blocks : List BlockSpec}
    (built : Built state.counters counters given outer roots blocks) :
    Accounted state { state with counters } given outer roots blocks :=
  ⟨[], ⟨by simp [MessageStreamState.specs], rfl, rfl, rfl, rfl⟩, rfl, built⟩

theorem accounted_takeIds {α : Type} {program : Ids α} {session final : Session τ} {value : α}
    {given outer roots : List BlockId} {blocks : List BlockSpec}
    (hrun : takeIds program session = .ok value final)
    (built : ∀ counters, program session.stream.counters = .ok value counters →
      Built session.stream.counters counters given outer roots blocks) :
    Accounted session.stream final.stream given outer roots blocks := by
  obtain ⟨counters, hprogram, rfl⟩ := takeIds_ok hrun
  exact accounted_of_built (built counters hprogram)

/-- An identifier that was taken just before need not have been set aside. -/
theorem Accounted.claim {kind : Bool} {session middle : Session τ} {last : MessageStreamState}
    {id : BlockId} {given outer roots : List BlockId} {blocks : List BlockSpec}
    (htake : takeIds (takeBlockId kind) session = .ok id middle)
    (accounted : Accounted middle.stream last (id :: given) outer roots blocks) :
    Accounted session.stream last given outer roots blocks := by
  obtain ⟨counters, hid, rfl⟩ := takeIds_ok htake
  obtain ⟨index, -, rfl⟩ := takeBlockId_ok hid
  obtain ⟨emitted, streams, plain, built⟩ := accounted
  exact ⟨emitted, ⟨streams.specs, streams.streamedSubnodes, streams.contentsRows,
    streams.associatedRows, streams.topNodes⟩, plain, built.claim index rfl⟩

theorem checkInterrupted_ok {around : Surroundings τ} {session final : Session τ} {value : Unit}
    (hrun : checkInterrupted around session = .ok value final) :
    final.stream = session.stream := by
  simp only [checkInterrupted, tick, bind_run_ok, get_run_ok, modify_run_ok, pure_run_ok,
    attempt_run_ok] at hrun
  obtain ⟨_, _, ⟨_, _, ⟨rfl, rfl⟩, _, _, rfl, rfl, rfl⟩, -, rfl⟩ := hrun
  rfl

theorem touch_ok {fault : Nat → Option String} {session final : Session τ} {value : Unit}
    (hrun : touch fault session = .ok value final) : final.stream = session.stream := by
  simp only [touch, tick, bind_run_ok, get_run_ok, modify_run_ok, pure_run_ok,
    attempt_run_ok] at hrun
  obtain ⟨_, _, ⟨_, _, ⟨rfl, rfl⟩, _, _, rfl, rfl, rfl⟩, -, rfl⟩ := hrun
  rfl

/-- The checks of a written block leave only blocks of the right kind. -/
theorem writable_of_checkBlock {block : BlockSpec} {size : Nat}
    (extent : size = block.payload.logicalSize) (hcheck : checkBlock block size = .ok ()) :
    Writable block := by
  obtain ⟨id, payload, refCount⟩ := block
  simp only [checkBlock, bind_eq_ok, refuse_eq_ok, not_or] at hcheck
  obtain ⟨-, ⟨positive, -⟩, hcheck⟩ := hcheck
  cases payload with
  | data bytes =>
      intro empty
      rw [extent, empty] at positive
      exact positive rfl
  | projectedData length => simp [throw, throwThe, MonadExceptOf.throw] at hcheck
  | subnode entries =>
      simp only [bind_eq_ok, verifyInternal, refuse_eq_ok] at hcheck
      obtain ⟨_, -, internal⟩ := hcheck
      simpa [Writable] using internal
  | intermediateSubnode level entries =>
      simp only [bind_eq_ok, verifyInternal, refuse_eq_ok] at hcheck
      obtain ⟨_, -, internal⟩ := hcheck
      simpa [Writable] using internal
  | dataTree level total entries =>
      simp only [bind_eq_ok, verifyInternal, refuse_eq_ok, List.any_eq_true,
        Bool.not_eq_true', not_exists, not_and] at hcheck
      obtain ⟨-, -, -, children, -, levels, internal⟩ := hcheck
      refine ⟨by simpa using internal, by omega, fun entry member => ?_⟩
      simpa using children entry member

/-- A written block is listed, and it is of a kind that can be written. -/
theorem writeBlock_ok {around : Surroundings τ} {block : BlockSpec} {session final : Session τ}
    {value : Unit} (hrun : writeBlock around block session = .ok value final) :
    Writable block ∧ Streams session.stream final.stream [block] ∧
      final.stream.counters = session.stream.counters := by
  simp only [writeBlock, allocate, listBlock, bind_run_ok, attempt_run_ok, get_run_ok,
    modify_run_ok, pure_run_ok] at hrun
  obtain ⟨_, checked, hcheck, _, _, ⟨-, rfl⟩, ⟨size, physical⟩, _, ⟨hextent, rfl⟩, offset, placed,
    ⟨_, _, ⟨rfl, rfl⟩, ⟨_, cursor⟩, _, ⟨-, rfl⟩, _, _, rfl, rfl, rfl⟩, _, touched, htouch, _, _,
    ⟨hblock, rfl⟩, _, again, hagain, rfl⟩ := hrun
  have extent : size = block.payload.logicalSize := by
    simp only [blockExtent, bind_eq_ok, okOr_eq_ok, tryFrom_eq_some] at hextent
    obtain ⟨_, ⟨rfl, -⟩, _, -, hpair⟩ := hextent
    cases hpair
    rfl
  have stream := (touch_ok hagain).trans (touch_ok htouch)
  have checked := checkInterrupted_ok hcheck
  refine ⟨writable_of_checkBlock extent hblock, ⟨?_, ?_, ?_, ?_, ?_⟩, ?_⟩ <;>
    simp [MessageStreamState.specs, stream, checked]

/-- A written block with one reference, under an identifier that was set aside. -/
theorem writeBlock_accounted {around : Surroundings τ} {id : BlockId} {payload : BlockPayload}
    {session final : Session τ} {value : Unit} (plain : subnodeIds [⟨id, payload, 2⟩] = [])
    (hrun : writeBlock around ⟨id, payload, 2⟩ session = .ok value final) :
    Accounted session.stream final.stream [id] payload.references [id] [] := by
  obtain ⟨writable, streams, counters⟩ := writeBlock_ok hrun
  refine ⟨_, streams, plain, ?_⟩
  rw [counters, List.append_nil]
  exact Built.single _ writable

end Blocks

section DataTree

variable {around : Surroundings τ}

/-- The references to the leaves and groups of a data tree under construction. -/
def TreeProgress.references {ρ : Type} (progress : TreeProgress ρ) : List BlockId :=
  progress.leaves.map (·.1) ++ progress.xblocks.map (·.1)

theorem emitXBlock_accounted {what : String} {leaves : List (BlockId × Nat)}
    {session final : Session τ} {xblock : BlockId × Nat}
    (hrun : emitXBlock around .physical what leaves session = .ok xblock final) :
    Accounted session.stream final.stream [] (leaves.map (·.1)) [xblock.1] [] := by
  simp only [emitXBlock, emit, bind_run_ok, attempt_run_ok, pure_run_ok] at hrun
  obtain ⟨total, session, ⟨-, rfl⟩, id, middle, htake, _, _, hwrite, rfl, rfl⟩ := hrun
  exact .claim htake (writeBlock_accounted rfl hwrite)

theorem streamLeaves_accounted {ρ : Type}
    {piece : ρ → Nat → Except WriterError (BlockPayload × ρ)} {what : String}
    (data : ∀ rest length payload rest', piece rest length = .ok (payload, rest') →
      ∃ bytes, payload = .data bytes) {turns : Nat} :
    ∀ {remaining : Nat} {progress progress' : TreeProgress ρ} {session final : Session τ},
      streamLeaves around .physical piece what turns remaining progress session =
          .ok progress' final →
        Accounted session.stream final.stream [] progress.references progress'.references [] := by
  induction turns with
  | zero =>
      intro remaining progress progress' session final hrun
      obtain ⟨rfl, rfl⟩ := pure_run_ok.mp hrun
      exact .idle _ _
  | succ turns ih =>
      intro remaining progress progress' session final hrun
      simp only [streamLeaves, emit, bind_run_ok, attempt_run_ok] at hrun
      obtain ⟨⟨payload, rest⟩, session, ⟨hpiece, rfl⟩, id, taken, htake, _, written, hwrite,
        hrun⟩ := hrun
      obtain ⟨bytes, rfl⟩ := data _ _ _ _ hpiece
      have leaf := Accounted.claim htake (writeBlock_accounted rfl hwrite)
      split at hrun
      · obtain ⟨xblock, closed, hclose, hrun⟩ := bind_run_ok.mp hrun
        have group := (leaf.append (emitXBlock_accounted hclose)).append (ih hrun)
        refine group.congr (fun _ => rfl) fun other => ?_
        simp only [TreeProgress.references, BlockPayload.references, List.map_append, List.map_cons,
          List.map_nil, List.count_append, List.count_nil]
        omega
      · refine (leaf.append (ih hrun)).congr (fun _ => rfl) fun other => ?_
        simp only [TreeProgress.references, BlockPayload.references, List.map_append, List.map_cons,
          List.map_nil, List.count_append, List.count_nil]
        omega

theorem closeStreamedTree_accounted {ρ : Type} {names : TreeNames} {progress : TreeProgress ρ}
    {session final : Session τ} {root : BlockId}
    (hrun : closeStreamedTree around .physical names progress session = .ok root final) :
    Accounted session.stream final.stream [] progress.references [root] [] := by
  generalize hprogram : closeStreamedTree around .physical names progress = program at hrun
  unfold closeStreamedTree at hprogram
  dsimp only at hprogram
  split at hprogram <;> subst hprogram
  · rename_i id size oneLeaf
    obtain ⟨rfl, rfl⟩ := pure_run_ok.mp hrun
    obtain ⟨noGroups, oneLeaf⟩ := Prod.mk.inj oneLeaf
    rw [TreeProgress.references, noGroups, oneLeaf]
    exact .idle _ _
  · obtain ⟨xblock, closed, hclose, hrun⟩ := bind_run_ok.mp hrun
    have last := emitXBlock_accounted hclose
    generalize hgroups : progress.xblocks ++ [xblock] = groups at hrun
    match groups with
    | [] => simp at hgroups
    | [(id, size)] =>
        obtain ⟨rfl, rfl⟩ := pure_run_ok.mp hrun
        obtain ⟨noGroups, rfl⟩ : progress.xblocks = [] ∧ xblock = (root, size) := by
          cases hxblocks : progress.xblocks <;> simp_all
        rw [TreeProgress.references, noGroups, List.map_nil, List.append_nil]
        exact last
    | head :: second :: rest =>
        simp only [emit, bind_run_ok, attempt_run_ok, pure_run_ok] at hrun
        obtain ⟨_, _, ⟨-, rfl⟩, total, closed, ⟨-, rfl⟩, id, taken, htake, _, _, hwrite, rfl,
          rfl⟩ := hrun
        have top := Accounted.claim htake (writeBlock_accounted rfl hwrite)
        rw [← hgroups] at top
        refine (last.append top).congr (fun _ => rfl) fun other => ?_
        simp only [TreeProgress.references, BlockPayload.references, List.map_append,
          List.map_cons, List.map_nil, List.count_append]
        omega

theorem readPiece_data (rest : Reader × Bytes) (length : Nat) (payload : BlockPayload)
    (rest' : Reader × Bytes) (hpiece : readPiece rest length = .ok (payload, rest')) :
    ∃ bytes, payload = .data bytes := by
  simp only [readPiece, bind_eq_ok] at hpiece
  obtain ⟨⟨chunk, reader⟩, -, hpair⟩ := hpiece
  cases hpair
  exact ⟨chunk, rfl⟩

theorem appendReaderDataTree_accounted {reader : Reader} {byteLen size : Nat}
    {expected : Option Bytes} {requireEof : Bool} {session final : Session τ} {root : BlockId}
    {digest : Bytes}
    (hrun : appendReaderDataTree around .physical reader byteLen expected requireEof session =
      .ok (root, size, digest) final) :
    Accounted session.stream final.stream [] [] [root] [] := by
  simp only [appendReaderDataTree, bind_run_ok, attempt_run_ok] at hrun
  obtain ⟨progress, _, hleaves, _, _, ⟨-, rfl⟩, _, _, ⟨-, rfl⟩, _, middle, ⟨-, rfl⟩, hrun⟩ := hrun
  have leaves := streamLeaves_accounted readPiece_data hleaves
  split at hrun
  · -- the block of an empty payload does not pass the checks of the output
    simp only [emit, bind_run_ok] at hrun
    obtain ⟨id, taken, -, _, _, hwrite, -⟩ := hrun
    exact absurd rfl (writeBlock_ok hwrite).1
  · simp only [bind_run_ok, pure_run_ok, Prod.mk.injEq] at hrun
    obtain ⟨id, _, hclose, ⟨rfl, rfl, rfl⟩, rfl⟩ := hrun
    exact leaves.link (closeStreamedTree_accounted hclose)

theorem appendSpooledDataTree_accounted {blob : FileBlobSpec} {session final : Session τ}
    {root : BlockId} {size : Nat}
    (hrun : appendSpooledDataTree around .physical blob session = .ok (root, size) final) :
    Accounted session.stream final.stream [] [] [root] [] := by
  simp only [appendSpooledDataTree, bind_run_ok, attempt_run_ok, pure_run_ok,
    Prod.mk.injEq] at hrun
  obtain ⟨_, _, ⟨-, rfl⟩, _, _, ⟨-, rfl⟩, _, session, ⟨-, rfl⟩, ⟨id, length, digest⟩, _, htree,
    ⟨rfl, rfl⟩, rfl⟩ := hrun
  exact appendReaderDataTree_accounted htree

theorem appendBlobDataTree_accounted {absent : String} {blob : DirectBlobSpec}
    {session final : Session τ} {root : BlockId} {size : Nat}
    (hrun : appendBlobDataTree around .physical absent blob session = .ok (root, size) final) :
    Accounted session.stream final.stream [] [] [root] [] := by
  simp only [appendBlobDataTree, appendDirectDataTree, bind_run_ok, attempt_run_ok, get_run_ok,
    modify_run_ok, pure_run_ok, Prod.mk.injEq] at hrun
  obtain ⟨_, _, ⟨rfl, rfl⟩, source, session, ⟨-, rfl⟩, _, _, rfl, reader, _, ⟨-, rfl⟩,
    ⟨id, length, digest⟩, _, htree, _, _, rfl, ⟨rfl, rfl⟩, rfl⟩ := hrun
  have accounted := appendReaderDataTree_accounted htree
  exact accounted

theorem takeValueNode_accounted {kind : NodeIdType} {what : String} {session final : Session τ}
    {node : NodeId} (htake : takeIds (takeValueNode kind what) session = .ok node final) :
    Accounted session.stream final.stream [] [] [] [] := by
  refine accounted_takeIds htake fun counters hnode => ?_
  obtain ⟨-, -, rfl⟩ := takeValueNode_ok hnode
  exact .idle (by simp) []

theorem appendStreamedProperties_accounted {spec : Type} {what valueNode : String}
    {id propertyType : spec → Nat} {append : spec → Live τ (BlockId × Nat)}
    (accounted : ∀ {spec session final root size}, append spec session = .ok (root, size) final →
      Accounted session.stream final.stream [] [] [root] []) {specs : List spec} :
    ∀ {total : Nat} {session final : Session τ} {streamed : StreamedProperties},
      appendStreamedProperties what valueNode id propertyType append total specs session =
          .ok streamed final →
        Accounted session.stream final.stream [] [] (entryReferences streamed.subnodes) [] := by
  induction specs with
  | nil =>
      intro total session final streamed hrun
      obtain ⟨rfl, rfl⟩ := pure_run_ok.mp hrun
      exact .idle _ _
  | cons spec rest ih =>
      intro total session final streamed hrun
      simp only [appendStreamedProperties, bind_run_ok, attempt_run_ok, pure_run_ok] at hrun
      obtain ⟨kind, session, ⟨-, rfl⟩, node, taken, htake, ⟨root, size⟩, _, htree, sum, middle,
        ⟨-, rfl⟩, tail, _, htail, rfl, rfl⟩ := hrun
      exact ((takeValueNode_accounted htake).append (accounted htree)).append (ih htail)

theorem appendSpooledProperties_accounted {specs : List SpooledPropertySpec}
    {session final : Session τ} {streamed : StreamedProperties}
    (hrun : appendSpooledProperties around .physical specs session = .ok streamed final) :
    Accounted session.stream final.stream [] [] (entryReferences streamed.subnodes) [] :=
  appendStreamedProperties_accounted appendSpooledDataTree_accounted hrun

theorem appendDirectProperties_accounted {absent : String} {specs : List DirectPropertySpec}
    {session final : Session τ} {streamed : StreamedProperties}
    (hrun : appendDirectProperties around .physical absent specs session = .ok streamed final) :
    Accounted session.stream final.stream [] [] (entryReferences streamed.subnodes) [] := by
  cases specs with
  | nil =>
      obtain ⟨rfl, rfl⟩ := pure_run_ok.mp hrun
      exact .idle _ _
  | cons spec rest =>
      simp only [appendDirectProperties, requireSource, bind_run_ok, get_run_ok,
        attempt_run_ok] at hrun
      obtain ⟨_, session, ⟨_, _, ⟨rfl, rfl⟩, -, rfl⟩, hrun⟩ := hrun
      exact appendStreamedProperties_accounted appendBlobDataTree_accounted hrun

end DataTree

end PstForge.Writer
