import PstForge.Ndb.AllocationSafety
import PstForge.Ndb.DataTree
import PstForge.Writer.StreamAccounts

/-! # Streamed data trees read back

A payload that is cut into leaves while it is read gets the tree that its bytes would get in
memory: a group of leaves is closed as soon as it is full and more is to come, so that the groups
are the pieces that the list of all leaves is cut into.
-/

namespace PstForge.Writer

open PstForge.Foundation PstForge.Ndb

variable {τ : Type} {around : Surroundings τ} {output : Output}

section Listing

/-- Blocks that were listed between two states, under identifiers that were taken one after
another for them. -/
structure Lists (before after : MessageStreamState) (listed : List BlockSpec) : Prop where
  streams : Streams before after listed
  numbered : Numbered before.counters.nextBlockIndex listed
  moved : after.counters.nextBlockIndex = before.counters.nextBlockIndex + listed.length

namespace Lists

variable {first second third : MessageStreamState} {listed listed' : List BlockSpec}

theorem refl (state : MessageStreamState) : Lists state state [] := ⟨.refl state, rfl, rfl⟩

theorem trans (left : Lists first second listed) (right : Lists second third listed') :
    Lists first third (listed ++ listed') where
  streams := left.streams.trans right.streams
  numbered := left.numbered.append (left.moved ▸ right.numbered)
  moved := by rw [right.moved, left.moved, List.length_append, Nat.add_assoc]

end Lists

theorem projectBlock_ok {block : BlockSpec} {session final : Session τ} {value : Unit}
    (hrun : projectBlock around block session = .ok value final) :
    Streams session.stream final.stream [block] ∧
      final.stream.counters = session.stream.counters := by
  simp only [projectBlock, allocate, listBlock, bind_run_ok, attempt_run_ok, get_run_ok,
    modify_run_ok, pure_run_ok] at hrun
  obtain ⟨_, checked, hcheck, ⟨size, physical⟩, _, ⟨-, rfl⟩, offset, placed,
    ⟨_, _, ⟨rfl, rfl⟩, ⟨_, cursor⟩, _, ⟨-, rfl⟩, _, _, rfl, rfl, rfl⟩, rfl⟩ := hrun
  have stream := checkInterrupted_ok hcheck
  refine ⟨⟨?_, ?_, ?_, ?_, ?_⟩, ?_⟩ <;> simp [MessageStreamState.specs, stream]

/-- A block that is passed to the stream is listed. -/
theorem emit_ok {block : BlockSpec} {session final : Session τ} {value : Unit}
    (hrun : emit around output block session = .ok value final) :
    Streams session.stream final.stream [block] ∧
      final.stream.counters = session.stream.counters := by
  cases output with
  | physical => exact (writeBlock_ok hrun).2
  | projected => exact projectBlock_ok hrun

/-- A block that is passed on under a fresh identifier. -/
theorem emit_lists {kind : Bool} {id : BlockId} {payload : BlockPayload}
    {session middle final : Session τ} {value : Unit}
    (htake : takeIds (takeBlockId kind) session = .ok id middle)
    (hrun : emit around output ⟨id, payload, 2⟩ middle = .ok value final) :
    id.isInternal = kind ∧ Lists session.stream final.stream [⟨id, payload, 2⟩] := by
  obtain ⟨counters, hid, rfl⟩ := takeIds_ok htake
  obtain ⟨index, internal, rfl⟩ := takeBlockId_ok hid
  obtain ⟨streams, counters⟩ := emit_ok hrun
  refine ⟨internal, ⟨?_, Numbered.single index, ?_⟩⟩
  · exact ⟨streams.specs, streams.streamedSubnodes, streams.contentsRows, streams.associatedRows,
      streams.topNodes⟩
  · rw [counters]
    rfl

/-- A group of leaves that is closed under a level-one block. -/
theorem emitXBlock_lists {what : String} {held : List BlockSpec} {leaves : List (BlockId × Nat)}
    {group : List Bytes} (below : List.Forall₂ (HoldsLeaf held) leaves group)
    {session final : Session τ} {xblock : BlockId × Nat}
    (hrun : emitXBlock around output what leaves session = .ok xblock final) :
    ∃ listed, Lists session.stream final.stream listed ∧ listed.length = 1 ∧
      HoldsXBlock (held ++ listed) xblock group := by
  simp only [emitXBlock, bind_run_ok, attempt_run_ok, pure_run_ok] at hrun
  obtain ⟨total, session, ⟨htotal, rfl⟩, id, middle, htake, _, _, hemit, rfl, rfl⟩ := hrun
  obtain ⟨internal, lists⟩ := emit_lists htake hemit
  refine ⟨_, lists, rfl, internal, ?_, leaves, ?_, ?_⟩
  · rw [groupTotal_ok htotal, leaves_total below]
  · exact below.imp fun _ _ leaf => leaf.mono (List.subset_append_left _ _)
  · exact List.mem_append_right _ (List.mem_singleton_self _)

end Listing

section Reading

/-- The blocks listed so far hold the closed groups of a tree and the leaves of the open one. -/
structure Underway (held : List BlockSpec) {ρ : Type} (progress : TreeProgress ρ)
    (groups : List (List Bytes)) (group : List Bytes) : Prop where
  leaves : List.Forall₂ (HoldsLeaf held) progress.leaves group
  xblocks : List.Forall₂ (HoldsXBlock held) progress.xblocks groups
  full : ∀ closed ∈ groups, closed.length = maxDataTreeEntries
  bound : group.length ≤ maxDataTreeEntries
  count : held.length = groups.flatten.length + groups.length + group.length

variable {held : List BlockSpec} {groups : List (List Bytes)} {group : List Bytes}

theorem Underway.leaf {ρ : Type} {progress : TreeProgress ρ}
    (underway : Underway held progress groups group) (room : group.length < maxDataTreeEntries)
    {id : BlockId} (kind : id.isInternal = false) (piece : Bytes) (rest : ρ) :
    Underway (held ++ [⟨id, .data piece, 2⟩])
      ⟨progress.leaves ++ [(id, piece.length)], progress.xblocks, rest⟩ groups
      (group ++ [piece]) := by
  have wider : held ⊆ held ++ [⟨id, .data piece, 2⟩] := List.subset_append_left _ _
  have own : HoldsLeaf (held ++ [⟨id, .data piece, 2⟩]) (id, piece.length) piece :=
    ⟨kind, rfl, List.mem_append_right _ (List.mem_singleton_self _)⟩
  refine ⟨?_, ?_, underway.full, ?_, ?_⟩
  · exact List.rel_append (underway.leaves.imp fun _ _ leaf => leaf.mono wider) (.cons own .nil)
  · exact underway.xblocks.imp fun _ _ xblock => xblock.mono wider
  · rw [List.length_append]
    exact room
  · rw [List.length_append, List.length_append, underway.count]
    rfl

theorem Underway.close {ρ : Type} {progress : TreeProgress ρ}
    (underway : Underway held progress groups group) (full : group.length = maxDataTreeEntries)
    {listed : List BlockSpec} (one : listed.length = 1) {xblock : BlockId × Nat}
    (own : HoldsXBlock (held ++ listed) xblock group) (rest : ρ) :
    Underway (held ++ listed) ⟨[], progress.xblocks ++ [xblock], rest⟩ (groups ++ [group]) [] := by
  have wider : held ⊆ held ++ listed := List.subset_append_left _ _
  refine ⟨.nil, ?_, ?_, Nat.zero_le _, ?_⟩
  · exact List.rel_append (underway.xblocks.imp fun _ _ xblock => xblock.mono wider)
      (.cons own .nil)
  · intro closed member
    rcases List.mem_append.mp member with before | here
    · exact underway.full closed before
    · rwa [List.mem_singleton.mp here]
  · rw [List.length_append, one, underway.count, List.flatten_append, List.flatten_singleton,
      List.length_append, List.length_append]
    simp only [List.length_cons, List.length_nil]
    omega

/-- The first piece of what is to be read, and the pieces of what is left of it then. -/
theorem chunks_take {bytes : Bytes} {remaining : Nat} (more : 0 < remaining)
    (there : remaining ≤ bytes.length) :
    chunks 8176 (bytes.take remaining) = bytes.take (min remaining 8176) ::
      chunks 8176 ((bytes.drop (min remaining 8176)).take (remaining - min remaining 8176)) := by
  have some : bytes.take remaining ≠ [] := by
    refine List.ne_nil_of_length_pos ?_
    rw [List.length_take]
    omega
  rw [chunks_cons (by decide) some, List.take_take, List.drop_take, Nat.min_comm]
  by_cases long : 8176 ≤ remaining
  · rw [Nat.min_eq_right long]
  · rw [Nat.min_eq_left (Nat.le_of_not_le long), Nat.sub_self,
      Nat.sub_eq_zero_of_le (Nat.le_of_not_le long), List.take_zero, List.take_zero]

theorem divCeil_next {remaining turns : Nat} (count : turns + 1 = divCeil remaining 8176) :
    0 < remaining ∧ turns = divCeil (remaining - min remaining 8176) 8176 := by
  rw [divCeil] at count ⊢
  omega

/-- The reader and the hashed bytes once so many bytes were read. -/
def readOn (rest : Reader × Bytes) (count : Nat) : Reader × Bytes :=
  ({ rest.1 with bytes := rest.1.bytes.drop count }, rest.2 ++ rest.1.bytes.take count)

theorem readPiece_ok {rest rest' : Reader × Bytes} {length : Nat} {payload : BlockPayload}
    (hrun : readPiece rest length = .ok (payload, rest')) : length ≤ rest.1.bytes.length ∧
      payload = .data (rest.1.bytes.take length) ∧ rest' = readOn rest length := by
  simp only [readPiece, bind_eq_ok, Reader.readExact] at hrun
  obtain ⟨⟨chunk, reader⟩, hread, hpair⟩ := hrun
  split at hread
  case isFalse => cases hread
  case isTrue there =>
    cases hread
    cases hpair
    exact ⟨there, rfl, rfl⟩

/-- One turn: a leaf joins the open group, which is closed when it is full and more is to come. -/
theorem streamLeaves_turn {what : String} {turns remaining : Nat}
    {progress progress' : TreeProgress (Reader × Bytes)} {session final : Session τ}
    (room : group.length < maxDataTreeEntries) (underway : Underway held progress groups group)
    (hrun : streamLeaves around output readPiece what (turns + 1) remaining progress session =
      .ok progress' final) :
    ∃ listed progress₁ middle groups₁ group₁, Lists session.stream middle.stream listed ∧
      Underway (held ++ listed) progress₁ groups₁ group₁ ∧
      groups₁.flatten ++ group₁ =
        groups.flatten ++ (group ++ [progress.rest.1.bytes.take (min remaining 8176)]) ∧
      min remaining 8176 ≤ progress.rest.1.bytes.length ∧
      progress₁.rest = readOn progress.rest (min remaining 8176) ∧
      (0 < remaining - min remaining 8176 → group₁.length < maxDataTreeEntries) ∧
      (0 < remaining - min remaining 8176 ∨ group₁ ≠ []) ∧
      streamLeaves around output readPiece what turns (remaining - min remaining 8176) progress₁
        middle = .ok progress' final := by
  simp only [streamLeaves, bind_run_ok, attempt_run_ok] at hrun
  obtain ⟨⟨payload, rest⟩, session, ⟨hpiece, rfl⟩, id, taken, htake, _, written, hemit,
    hrun⟩ := hrun
  obtain ⟨there, rfl, rfl⟩ := readPiece_ok hpiece
  obtain ⟨kind, lists⟩ := emit_lists htake hemit
  have length : (progress.rest.1.bytes.take (min remaining 8176)).length = min remaining 8176 := by
    rw [List.length_take, Nat.min_eq_left there]
  have next := underway.leaf room kind
    (progress.rest.1.bytes.take (min remaining 8176))
    (readOn progress.rest (min remaining 8176))
  rw [length] at next
  have count := next.leaves.length_eq
  dsimp only at count hrun
  rw [count] at hrun
  split at hrun
  case isTrue full =>
    obtain ⟨xblock, closed, hclose, hrun⟩ := bind_run_ok.mp hrun
    obtain ⟨listed, lists', one, own⟩ := emitXBlock_lists next.leaves hclose
    have groupClosed := next.close full.1 one own (readOn progress.rest (min remaining 8176))
    rw [List.append_assoc] at groupClosed
    refine ⟨_, _, closed, _, [], lists.trans lists', groupClosed, ?_, there, rfl, ?_, .inl full.2,
      hrun⟩
    · rw [List.append_nil, List.flatten_append, List.flatten_singleton]
    · exact fun _ => entries_positive
  case isFalse goesOn =>
    refine ⟨_, _, written, groups, _, lists, next, rfl, there, rfl, ?_, ?_, hrun⟩
    · intro more
      exact Nat.lt_of_le_of_ne next.bound fun full => goesOn ⟨full, more⟩
    · exact .inr (List.append_ne_nil_of_right_ne_nil _ (List.cons_ne_nil _ _))

/-- The leaves of a payload are the pieces that its bytes are cut into. -/
theorem streamLeaves_reads {what : String} {turns : Nat} : ∀ {remaining : Nat}
    {progress progress' : TreeProgress (Reader × Bytes)} {session final : Session τ}
    {held : List BlockSpec} {groups : List (List Bytes)} {group : List Bytes},
    turns = divCeil remaining 8176 → (0 < remaining → group.length < maxDataTreeEntries) →
    Underway held progress groups group →
    streamLeaves around output readPiece what turns remaining progress session =
      .ok progress' final →
    ∃ listed groups' group', Lists session.stream final.stream listed ∧
      Underway (held ++ listed) progress' groups' group' ∧
      (0 < remaining ∨ group ≠ [] → group' ≠ []) ∧
      groups'.flatten ++ group' =
        groups.flatten ++ group ++ chunks 8176 (progress.rest.1.bytes.take remaining) ∧
      remaining ≤ progress.rest.1.bytes.length ∧
      progress'.rest = readOn progress.rest remaining := by
  induction turns with
  | zero =>
      intro remaining progress progress' session final held groups group count room underway hrun
      obtain ⟨rfl, rfl⟩ := pure_run_ok.mp hrun
      obtain rfl : remaining = 0 := by
        rw [divCeil] at count
        omega
      refine ⟨[], groups, group, .refl _, ?_, ?_, ?_, Nat.zero_le _, ?_⟩
      · rwa [List.append_nil]
      · exact fun nonempty => nonempty.resolve_left (Nat.lt_irrefl 0)
      · rw [List.take_zero, chunks_nil, List.append_nil]
      · rw [readOn, List.take_zero, List.append_nil, List.drop_zero]
  | succ turns ih =>
      intro remaining progress progress' session final held groups group count room underway hrun
      obtain ⟨more, later⟩ := divCeil_next count
      obtain ⟨listed, progress₁, middle, groups₁, group₁, lists, next, pieces, there, rest, open₁,
        some₁, hrest⟩ := streamLeaves_turn (room more) underway hrun
      obtain ⟨listed', groups', group', lists', ended, some', pieces', there', rest'⟩ :=
        ih later open₁ next hrest
      rw [rest, readOn, List.length_drop] at there'
      have enough : remaining ≤ progress.rest.1.bytes.length := by omega
      have parts : min remaining 8176 + (remaining - min remaining 8176) = remaining := by omega
      refine ⟨listed ++ listed', groups', group', lists.trans lists', ?_, fun _ => some' some₁, ?_,
        enough, ?_⟩
      · rwa [← List.append_assoc]
      · rw [pieces', pieces, rest, readOn, chunks_take more enough, List.append_assoc,
          List.append_assoc, List.append_assoc, List.singleton_append]
      · rw [rest', rest, readOn, readOn, readOn, List.drop_drop, List.append_assoc, ← List.take_add,
          parts]

/-- Closing the tree of a payload makes the tree over its leaves. -/
theorem closeStreamedTree_makes {ρ : Type} {names : TreeNames} {progress : TreeProgress ρ}
    {first : Nat} (underway : Underway held progress groups group) (some : group ≠ [])
    (numbered : Numbered first held) {session final : Session τ}
    (start : session.stream.counters.nextBlockIndex = first + held.length) {root : BlockId}
    (hrun : closeStreamedTree around output names progress session = .ok root final) :
    ∃ listed, Lists session.stream final.stream listed ∧
      MakesTree first (groups.flatten ++ group) root (held ++ listed) := by
  have cut := chunks_flatten_append entries_positive underway.full some underway.bound
  obtain ⟨leaves, xblocks, rest⟩ := progress
  have leaf := underway.leaves
  have closedGroups := underway.xblocks
  have count := underway.count
  dsimp only at leaf closedGroups
  generalize hprogram : closeStreamedTree around output names ⟨leaves, xblocks, rest⟩ = program
    at hrun
  unfold closeStreamedTree at hprogram
  dsimp only at hprogram
  split at hprogram
  case h_1 id size oneLeaf =>
    subst hprogram
    obtain ⟨rfl, rfl⟩ := pure_run_ok.mp hrun
    cases oneLeaf
    cases closedGroups
    cases leaf with
    | @cons _ piece _ _ own tail =>
        cases tail
        refine ⟨[], .refl _, ?_⟩
        rw [List.append_nil]
        exact ⟨⟨own.1, rfl, own.2.2⟩, trivial, numbered, count⟩
  case h_2 several =>
    subst hprogram
    obtain ⟨xblock, closed, hclose, hrun⟩ := bind_run_ok.mp hrun
    obtain ⟨listed, lists, one, own⟩ := emitXBlock_lists leaf hclose
    have wider : held ⊆ held ++ listed := List.subset_append_left _ _
    have all : List.Forall₂ (HoldsXBlock (held ++ listed)) (xblocks ++ [xblock])
        (groups ++ [group]) :=
      List.rel_append (closedGroups.imp fun _ _ xblock => xblock.mono wider) (.cons own .nil)
    have numbered' : Numbered first (held ++ listed) := numbered.append (start ▸ lists.numbered)
    generalize hgroups : xblocks ++ [xblock] = closedBlocks at hrun all
    match closedBlocks with
    | [] => exact absurd hgroups (List.append_ne_nil_of_right_ne_nil _ (List.cons_ne_nil _ _))
    | [(id, size)] =>
        obtain ⟨rfl, rfl⟩ := pure_run_ok.mp hrun
        obtain ⟨rfl, holds⟩ : groups = [] ∧ HoldsXBlock (held ++ listed) (root, size) group := by
          cases groups with
          | nil =>
              cases all with
              | cons head _ => exact ⟨rfl, head⟩
          | cons other others =>
              have lengths := all.length_eq
              simp at lengths
        have notOne : group.length ≠ 1 := by
          intro onePiece
          cases closedGroups
          rw [← leaf.length_eq] at onePiece
          obtain ⟨⟨id, size⟩, onlyLeaf⟩ := List.length_eq_one_iff.mp onePiece
          exact several id size (by rw [onlyLeaf])
        have shape := above_xblock notOne some underway.bound
        refine ⟨listed, lists, ?_, ?_, numbered', ?_⟩
        · rw [List.flatten_nil, List.nil_append, shape, HoldsTree, ← holds.2.1]
          exact holds
        · rw [List.flatten_nil, List.nil_append, shape]
          exact ⟨underway.bound, rfl⟩
        · rw [List.flatten_nil, List.nil_append, shape, List.length_append, one, count,
            DataTree.blockCount]
          simp only [List.flatten_nil, List.length_nil, Nat.zero_add]
    | head :: second :: others =>
        simp only [bind_run_ok, attempt_run_ok, pure_run_ok] at hrun
        obtain ⟨_, _, ⟨hfits, rfl⟩, total, _, ⟨htotal, rfl⟩, id, taken, htake, _, _, hemit, rfl,
          rfl⟩ := hrun
        rw [← hgroups] at hfits htotal hemit all
        obtain ⟨internal, top⟩ := emit_lists htake hemit
        have fits : (chunks maxDataTreeEntries (groups.flatten ++ group)).length ≤
            maxDataTreeEntries := by
          rw [cut, ← all.length_eq]
          exact Nat.not_lt.mp (refuse_eq_ok.mp hfits)
        have manyGroups : (chunks maxDataTreeEntries (groups.flatten ++ group)).length ≠ 1 := by
          rw [cut, ← all.length_eq, hgroups]
          exact Nat.succ_succ_ne_one _
        have shape := above_xxblock manyGroups
        have size : total = totalSize (groups.flatten ++ group) := by
          rw [groupTotal_ok htotal, xblocks_total all, List.flatten_append, List.flatten_singleton]
        have exact := above_exact fits
        rw [cut] at shape
        refine ⟨listed ++ [dataTreeSpec root 2 total (xblocks ++ [xblock])], lists.trans top, ?_,
          exact, ?_, ?_⟩
        · rw [shape, HoldsTree, flatMap_groups, List.flatten_append, List.flatten_singleton, ← size]
          refine ⟨internal, rfl, xblocks ++ [xblock], List.forall₂_map_right_iff.mpr ?_, ?_⟩
          · have widest : held ++ listed ⊆
                held ++ (listed ++ [dataTreeSpec root 2 total (xblocks ++ [xblock])]) := by
              rw [← List.append_assoc]
              exact List.subset_append_left _ _
            exact all.imp fun xblock group own => ⟨own.2.1, own.mono widest⟩
          · exact List.mem_append_right _ (List.mem_append_right _ (List.mem_singleton_self _))
        · rw [← List.append_assoc]
          refine numbered'.append ?_
          have moved := top.numbered
          rwa [lists.moved, start, Nat.add_assoc, ← List.length_append] at moved
        · rw [shape, DataTree.blockCount, flatMap_groups, List.length_append, List.length_append,
            one, count, List.flatten_append, List.flatten_singleton, List.length_append,
            List.length_map, List.length_append]
          simp only [List.length_cons, List.length_nil]
          omega

/-- The blocks that are listed for a payload are the tree over the pieces of its bytes. -/
theorem appendReaderDataTree_makes {reader : Reader} {byteLen size : Nat} (some : 0 < byteLen)
    {expected : Option Bytes} {requireEof : Bool} {session final : Session τ} {root : BlockId}
    {digest : Bytes}
    (hrun : appendReaderDataTree around output reader byteLen expected requireEof session =
      .ok (root, size, digest) final) :
    byteLen ≤ reader.bytes.length ∧ size = byteLen ∧
      digest = around.sha256 (reader.bytes.take byteLen) ∧
      ∃ listed, Lists session.stream final.stream listed ∧
        MakesTree session.stream.counters.nextBlockIndex
          (chunks 8176 (reader.bytes.take byteLen)) root listed := by
  simp only [appendReaderDataTree, bind_run_ok, attempt_run_ok] at hrun
  obtain ⟨progress, middle, hleaves, _, _, ⟨-, rfl⟩, _, _, ⟨-, rfl⟩, _, _, ⟨-, rfl⟩, hrun⟩ := hrun
  have start : Underway [] (⟨[], [], (reader, [])⟩ : TreeProgress (Reader × Bytes)) [] [] :=
    ⟨.nil, .nil, fun _ member => absurd member List.not_mem_nil, Nat.zero_le _, rfl⟩
  have room : 0 < byteLen → ([] : List Bytes).length < maxDataTreeEntries := fun _ =>
    entries_positive
  obtain ⟨listed, groups, group, lists, underway, more, pieces, there, rest⟩ :=
    streamLeaves_reads rfl room start hleaves
  have nonempty := more (.inl some)
  split at hrun
  case isTrue empty =>
    have none := underway.leaves.length_eq
    rw [List.isEmpty_iff.mp empty, List.length_nil, eq_comm, List.length_eq_zero_iff] at none
    exact absurd none nonempty
  case isFalse =>
    simp only [bind_run_ok, pure_run_ok, Prod.mk.injEq] at hrun
    obtain ⟨id, _, hclose, ⟨rfl, rfl, rfl⟩, rfl⟩ := hrun
    obtain ⟨upper, lists', makes⟩ :=
      closeStreamedTree_makes underway nonempty lists.numbered lists.moved hclose
    rw [pieces] at makes
    refine ⟨there, rfl, ?_, _, lists.trans lists', makes⟩
    rw [rest, readOn, List.nil_append]

end Reading

section Success

/-- From a point of the clock on nothing interrupts, and the output does not fail. -/
def Undisturbed (around : Surroundings τ) (clock : Nat) : Prop :=
  ∀ now, clock ≤ now → around.interrupted now = false ∧ around.outputFault now = none

/-- There are identifiers, and there is space in the file, for so many blocks. -/
structure Room (session : Session τ) (blocks : Nat) : Prop where
  indexes : session.stream.counters.nextBlockIndex + blocks ≤ 2 ^ 62
  above : firstAMap ≤ session.stream.allocationCursor
  low : session.stream.allocationCursor + 20480 * blocks ≤ 2 ^ 62

/-- A session that moved on by at most so many blocks. -/
structure MovesOn (before after : Session τ) (blocks : Nat) : Prop where
  clock : before.clock ≤ after.clock
  room : ∀ more, Room before (blocks + more) → Room after more

theorem Undisturbed.later {clock later : Nat} (quiet : Undisturbed around clock)
    (after : clock ≤ later) : Undisturbed around later :=
  fun now past => quiet now (after.trans past)

theorem Room.mono {session : Session τ} {fewer blocks : Nat} (room : Room session blocks)
    (less : fewer ≤ blocks) : Room session fewer := by
  have indexes := room.indexes
  have low := room.low
  exact ⟨by omega, room.above, by omega⟩

namespace MovesOn

variable {first second third : Session τ} {blocks blocks' : Nat}

theorem trans (left : MovesOn first second blocks) (right : MovesOn second third blocks') :
    MovesOn first third (blocks + blocks') where
  clock := left.clock.trans right.clock
  room more room := right.room more (left.room _ (by rwa [Nat.add_assoc] at room))

theorem mono (moves : MovesOn first second blocks) (more : blocks ≤ blocks') :
    MovesOn first second blocks' where
  clock := moves.clock
  room rest room := moves.room rest (room.mono (by omega))

end MovesOn

/-- A block that the checks of the output accept, under any identifier of a kind. -/
structure Acceptable (kind : Bool) (payload : BlockPayload) : Prop where
  real : isProjectedData payload = false
  size : 0 < payload.logicalSize ∧ payload.logicalSize ≤ 8176
  passes : ∀ id : BlockId, id.isInternal = kind →
    checkBlock ⟨id, payload, 2⟩ payload.logicalSize = .ok ()

theorem refuse_size {size : Nat} (bounds : 0 < size ∧ size ≤ 8176) (error : WriterError) :
    refuse (size = 0 ∨ 8176 < size) error = .ok () :=
  refuse_eq_ok.mpr (by omega)

theorem acceptable_data {bytes : Bytes} (some : 0 < bytes.length) (small : bytes.length ≤ 8176) :
    Acceptable false (.data bytes) where
  real := rfl
  size := ⟨some, small⟩
  passes id _ := by
    rw [checkBlock, BlockPayload.logicalSize, refuse_size ⟨some, small⟩]
    rfl

theorem acceptable_dataTree {level total : Nat} {entries : List BlockId}
    (levels : level = 1 ∨ level = 2) (few : entries.length ≤ maxDataTreeEntries)
    (kinds : ∀ entry ∈ entries, isDataTreeChild level entry = true) :
    Acceptable true (.dataTree level total entries) where
  real := rfl
  size := by
    rw [maxDataTreeEntries] at few
    rw [BlockPayload.logicalSize]
    omega
  passes id internal := by
    rw [maxDataTreeEntries] at few
    have small : refuse (wordCount 16 ≤ entries.length)
        (WriterError.valueTooLarge "data-tree entry count") = .ok () :=
      refuse_eq_ok.mpr (by rw [wordCount]; omega)
    have children : ∀ error : WriterError,
        refuse (entries.any (!isDataTreeChild level ·) = true) error = .ok () := by
      refine fun error => refuse_eq_ok.mpr ?_
      rw [List.any_eq_true]
      rintro ⟨entry, member, other⟩
      rw [kinds entry member] at other
      exact absurd other Bool.false_ne_true
    have depth : ∀ error : WriterError, refuse (level < 1 ∨ 2 < level) error = .ok () :=
      fun error => refuse_eq_ok.mpr (by omega)
    have real : verifyInternal id = .ok () :=
      refuse_eq_ok.mpr (by rw [internal]; exact Bool.noConfusion)
    rw [checkBlock, BlockPayload.logicalSize, refuse_size (by omega)]
    simp only [small, children, depth, real]
    rfl

theorem checkInterrupted_runs {session : Session τ} (quiet : Undisturbed around session.clock) :
    checkInterrupted around session = .ok () { session with clock := session.clock + 1 } := by
  have calm : ¬around.interrupted session.clock = true := by
    rw [(quiet _ (Nat.le_refl _)).1]
    exact Bool.false_ne_true
  simp only [checkInterrupted, tick, bind_run_ok, get_run_ok, modify_run_ok, pure_run_ok,
    attempt_run_ok]
  exact ⟨_, _, ⟨_, _, ⟨rfl, rfl⟩, ⟨⟩, _, rfl, rfl, rfl⟩, refuse_eq_ok.mpr calm, rfl⟩

theorem touchOutput_runs {session : Session τ} (quiet : Undisturbed around session.clock) :
    touchOutput around session = .ok () { session with clock := session.clock + 1 } := by
  simp only [touchOutput, touch, tick, bind_run_ok, get_run_ok, modify_run_ok, pure_run_ok,
    attempt_run_ok]
  refine ⟨_, _, ⟨_, _, ⟨rfl, rfl⟩, ⟨⟩, _, rfl, rfl, rfl⟩, ?_, rfl⟩
  rw [(quiet _ (Nat.le_refl _)).2]

theorem blockExtent_runs {block : BlockSpec}
    (size : 0 < block.payload.logicalSize ∧ block.payload.logicalSize ≤ 8176) :
    ∃ physical, blockExtent block = .ok (block.payload.logicalSize, physical) ∧
      physical ≤ 8192 := by
  have word : okOr (WriterError.valueTooLarge "data block")
      (tryFrom 16 block.payload.logicalSize) = .ok block.payload.logicalSize := by
    rw [okOr_eq_ok, tryFrom_eq_some, wordCount]
    exact ⟨rfl, by omega⟩
  have total : saturatingAdd 16 block.payload.logicalSize 16 = block.payload.logicalSize + 16 := by
    rw [saturatingAdd, wordCount]
    omega
  refine ⟨divCeil (block.payload.logicalSize + 16) 64 * 64, ?_, ?_⟩
  · rw [blockExtent, word]
    have fits : blockSize (block.payload.logicalSize + 16) =
        .ok (divCeil (block.payload.logicalSize + 16) 64 * 64) := if_neg (by omega)
    rw [← total] at fits
    exact bind_eq_ok.mpr ⟨_, rfl, bind_eq_ok.mpr ⟨_, fits, by rw [total]; rfl⟩⟩
  · rw [divCeil]
    omega

theorem allocate_runs {session : Session τ} {size : Nat} (small : size ≤ 8192)
    (above : firstAMap ≤ session.stream.allocationCursor)
    (low : session.stream.allocationCursor ≤ 2 ^ 62) :
    ∃ offset cursor, allocate size session = .ok offset
        { session with stream := { session.stream with allocationCursor := cursor } } ∧
      session.stream.allocationCursor ≤ cursor ∧
      cursor ≤ session.stream.allocationCursor + 20480 := by
  obtain ⟨offset, cursor, placed, behind, near⟩ :=
    allocateExtent_runs ⟨size, slotSize, small, Or.inl rfl⟩ above low
  refine ⟨offset, cursor, ?_, behind, near⟩
  simp only [allocate, bind_run_ok, get_run_ok, attempt_run_ok, modify_run_ok, pure_run_ok]
  exact ⟨_, _, ⟨rfl, rfl⟩, _, _, ⟨placed, rfl⟩, ⟨⟩, _, rfl, rfl, rfl⟩

theorem emit_runs {kind : Bool} {id : BlockId} {payload : BlockPayload}
    (acceptable : Acceptable kind payload) (internal : id.isInternal = kind) {session : Session τ}
    (quiet : Undisturbed around session.clock)
    (above : firstAMap ≤ session.stream.allocationCursor)
    (low : session.stream.allocationCursor ≤ 2 ^ 62) :
    ∃ final, emit around output ⟨id, payload, 2⟩ session = .ok () final ∧
      session.clock ≤ final.clock ∧ final.stream.counters = session.stream.counters ∧
      session.stream.allocationCursor ≤ final.stream.allocationCursor ∧
      final.stream.allocationCursor ≤ session.stream.allocationCursor + 20480 := by
  obtain ⟨physical, extent, small⟩ :=
    (@blockExtent_runs ⟨id, payload, 2⟩) acceptable.size
  obtain ⟨offset, cursor, placed, behind, near⟩ :=
    (@allocate_runs _ ({ session with clock := session.clock + 1 })) small above low
  obtain ⟨listed, listedEq⟩ : ∃ listed : MessageStreamState, { session.stream with
      allocationCursor := cursor
      written := session.stream.written ++
        [⟨⟨id, payload, 2⟩, offset, payload.logicalSize⟩] } = listed := ⟨_, rfl⟩
  have counters : listed.counters = session.stream.counters := by rw [← listedEq]
  have moved : listed.allocationCursor = cursor := by rw [← listedEq]
  rw [← moved] at behind near
  cases output with
  | projected =>
      refine ⟨{ session with clock := session.clock + 1, stream := listed }, ?_, Nat.le_succ _,
        counters, behind, near⟩
      rw [← listedEq]
      simp only [emit, projectBlock, listBlock, bind_run_ok, attempt_run_ok, modify_run_ok]
      exact ⟨⟨⟩, _, checkInterrupted_runs quiet, _, _, ⟨extent, rfl⟩, _, _, placed, rfl⟩
  | physical =>
      have real : ¬isProjectedData payload = true := by
        rw [acceptable.real]
        exact Bool.false_ne_true
      have later : ∀ steps, Undisturbed around (session.clock + steps) := fun steps =>
        quiet.later (Nat.le_add_right _ _)
      refine ⟨{ session with clock := session.clock + 3, stream := listed }, ?_,
        Nat.le_add_right _ 3, counters, behind, near⟩
      rw [← listedEq]
      simp only [emit, writeBlock, listBlock, bind_run_ok, attempt_run_ok, modify_run_ok]
      exact ⟨⟨⟩, _, checkInterrupted_runs quiet, ⟨⟩, _, ⟨refuse_eq_ok.mpr real, rfl⟩, _, _,
        ⟨extent, rfl⟩, _, _, placed, ⟨⟩, _, touchOutput_runs (later 1), ⟨⟩, _,
        ⟨acceptable.passes id internal, rfl⟩, ⟨⟩, _, touchOutput_runs (later 2), rfl⟩

/-- A block is passed on under a fresh identifier. -/
theorem emitNew_runs {kind : Bool} {payload : BlockPayload} (acceptable : Acceptable kind payload)
    {session : Session τ} (quiet : Undisturbed around session.clock) (room : Room session 1) :
    ∃ id middle final, takeIds (takeBlockId kind) session = .ok id middle ∧
      emit around output ⟨id, payload, 2⟩ middle = .ok () final ∧ id.isInternal = kind ∧
      MovesOn session final 1 := by
  have indexes := room.indexes
  have low := room.low
  obtain ⟨id, taken⟩ := (@takeBlockId_runs kind session.stream.counters) (by omega)
  have internal := (takeBlockId_ok taken).2.1
  obtain ⟨final, emitted, clock, counters, behind, near⟩ := (@emit_runs _ _ output _ _ _
    acceptable internal { session with stream := { session.stream with counters :=
      { session.stream.counters with nextBlockIndex :=
          session.stream.counters.nextBlockIndex + 1 } } }) quiet room.above (by dsimp only; omega)
  refine ⟨id, _, final, zoom_run_ok.mpr ⟨_, taken, rfl⟩, emitted, internal, clock, ?_⟩
  intro more room
  have indexes := room.indexes
  have low := room.low
  dsimp only at behind near
  refine ⟨?_, room.above.trans behind, by omega⟩
  rw [counters]
  dsimp only
  omega

theorem emitXBlock_runs (what : String) {leaves : List (BlockId × Nat)}
    (kinds : ∀ leaf ∈ leaves, leaf.1.isInternal = false)
    (few : leaves.length ≤ maxDataTreeEntries) (small : (leaves.map (·.2)).sum < wordCount 32)
    {session : Session τ} (quiet : Undisturbed around session.clock) (room : Room session 1) :
    ∃ id final, emitXBlock around output what leaves session =
        .ok (id, (leaves.map (·.2)).sum) final ∧ id.isInternal = true ∧
      MovesOn session final 1 := by
  have acceptable : Acceptable true (.dataTree 1 (leaves.map (·.2)).sum (leaves.map (·.1))) := by
    refine acceptable_dataTree (.inl rfl) (by rwa [List.length_map]) fun entry member => ?_
    obtain ⟨leaf, there, rfl⟩ := List.mem_map.mp member
    simp [isDataTreeChild, kinds leaf there]
  obtain ⟨id, middle, final, taken, emitted, internal, moves⟩ :=
    (@emitNew_runs _ _ output) acceptable quiet room
  refine ⟨id, final, ?_, internal, moves⟩
  simp only [emitXBlock, bind_run_ok, attempt_run_ok, pure_run_ok]
  exact ⟨_, _, ⟨groupTotal_runs _ small, rfl⟩, id, middle, taken, ⟨⟩, final, emitted, rfl, rfl⟩

/-- What remains of a payload of so many bytes in so many pieces. -/
structure Pending (total count : Nat) (progress : TreeProgress (Reader × Bytes))
    (turns remaining : Nat) : Prop where
  leafKind : ∀ leaf ∈ progress.leaves, leaf.1.isInternal = false
  groupKind : ∀ xblock ∈ progress.xblocks, xblock.1.isInternal = true
  bound : progress.leaves.length ≤ maxDataTreeEntries
  room : 0 < remaining → progress.leaves.length < maxDataTreeEntries
  sizes : (progress.xblocks.map (·.2)).sum + (progress.leaves.map (·.2)).sum + remaining = total
  pieces : progress.xblocks.length * maxDataTreeEntries + progress.leaves.length + turns = count
  there : remaining ≤ progress.rest.1.bytes.length

theorem readPiece_runs {rest : Reader × Bytes} {length : Nat}
    (there : length ≤ rest.1.bytes.length) :
    readPiece rest length = .ok (.data (rest.1.bytes.take length), readOn rest length) := by
  rw [readPiece, Reader.readExact, if_pos there]
  rfl

/-- A turn goes through, and leaves less to do. -/
theorem streamLeaves_turn_runs {what : String} {total count : Nat} (small : total < wordCount 32)
    {turns remaining : Nat} (turnCount : turns + 1 = divCeil remaining 8176)
    {progress : TreeProgress (Reader × Bytes)}
    (pending : Pending total count progress (turns + 1) remaining) {session : Session τ}
    (quiet : Undisturbed around session.clock) (room : Room session 2) :
    ∃ progress' final, Pending total count progress' turns (remaining - min remaining 8176) ∧
      MovesOn session final 2 ∧
      streamLeaves around output readPiece what (turns + 1) remaining progress session =
        streamLeaves around output readPiece what turns (remaining - min remaining 8176) progress'
          final := by
  obtain ⟨more, -⟩ := divCeil_next turnCount
  have there := pending.there
  have sizes := pending.sizes
  have pieces := pending.pieces
  have within : min remaining 8176 ≤ progress.rest.1.bytes.length := by omega
  have length : (progress.rest.1.bytes.take (min remaining 8176)).length = min remaining 8176 := by
    rw [List.length_take, Nat.min_eq_left within]
  have acceptable : Acceptable false (.data (progress.rest.1.bytes.take (min remaining 8176))) :=
    acceptable_data (by rw [length]; omega) (by rw [length]; omega)
  obtain ⟨id, middle, written, taken, emitted, kind, moves⟩ :=
    (@emitNew_runs _ _ output) acceptable quiet (room.mono (by decide))
  have leafKind : ∀ leaf ∈ progress.leaves ++ [(id, min remaining 8176)],
      leaf.1.isInternal = false := by
    intro leaf member
    rcases List.mem_append.mp member with before | here
    · exact pending.leafKind leaf before
    · rw [List.mem_singleton.mp here]
      exact kind
  have leafCount : (progress.leaves ++ [(id, min remaining 8176)]).length =
      progress.leaves.length + 1 := List.length_append
  have leafSizes : ((progress.leaves ++ [(id, min remaining 8176)]).map (·.2)).sum =
      (progress.leaves.map (·.2)).sum + min remaining 8176 := by
    rw [List.map_append, List.sum_append, List.map_singleton, List.sum_singleton]
  have bound := pending.room more
  have restLength : remaining - min remaining 8176 ≤
      (readOn progress.rest (min remaining 8176)).1.bytes.length := by
    rw [readOn, List.length_drop]
    omega
  have step : streamLeaves around output readPiece what (turns + 1) remaining progress session =
      (if progress.leaves.length + 1 = maxDataTreeEntries ∧ 0 < remaining - min remaining 8176
        then do
          let xblock ← emitXBlock around output what (progress.leaves ++ [(id, min remaining 8176)])
          streamLeaves around output readPiece what turns (remaining - min remaining 8176)
            ⟨[], progress.xblocks ++ [xblock], readOn progress.rest (min remaining 8176)⟩
        else streamLeaves around output readPiece what turns (remaining - min remaining 8176)
            ⟨progress.leaves ++ [(id, min remaining 8176)], progress.xblocks,
              readOn progress.rest (min remaining 8176)⟩) written := by
    rw [streamLeaves]
    dsimp only
    rw [readPiece_runs within, run_bind]
    simp only [attempt]
    rw [run_bind, taken]
    dsimp only
    rw [run_bind, emitted, leafCount]
  by_cases full : progress.leaves.length + 1 = maxDataTreeEntries ∧
    0 < remaining - min remaining 8176
  · obtain ⟨xblock, final, closed, internal, moves'⟩ := (@emitXBlock_runs _ _ output) what
      leafKind (by rw [leafCount]; exact bound) (by rw [leafSizes]; omega)
      (quiet.later moves.clock) (moves.room 1 room)
    refine ⟨⟨[], progress.xblocks ++ [(xblock, ((progress.leaves ++
      [(id, min remaining 8176)]).map (·.2)).sum)], readOn progress.rest (min remaining 8176)⟩,
      final, ⟨?_, ?_, Nat.zero_le _, fun _ => entries_positive, ?_, ?_, restLength⟩,
      moves.trans moves', ?_⟩
    · exact fun leaf member => absurd member List.not_mem_nil
    · intro other member
      rcases List.mem_append.mp member with before | here
      · exact pending.groupKind other before
      · rw [List.mem_singleton.mp here]
        exact internal
    · rw [List.map_append, List.sum_append, List.map_singleton, List.sum_singleton, leafSizes]
      simp only [List.map_nil, List.sum_nil]
      omega
    · have size := full.1
      rw [List.length_append, List.length_singleton, Nat.succ_mul]
      simp only [List.length_nil]
      omega
    · rw [step, if_pos full, run_bind, closed]
  · refine ⟨⟨progress.leaves ++ [(id, min remaining 8176)], progress.xblocks,
      readOn progress.rest (min remaining 8176)⟩, written,
      ⟨leafKind, pending.groupKind, ?_, ?_, ?_, ?_, restLength⟩, moves.mono (by decide), ?_⟩
    · rw [leafCount]
      exact bound
    · intro left
      rw [leafCount]
      exact Nat.lt_of_le_of_ne bound fun size => full ⟨size, left⟩
    · dsimp only
      rw [leafSizes]
      omega
    · dsimp only
      rw [leafCount]
      omega
    · rw [step, if_neg full]

theorem streamLeaves_runs {what : String} {total count : Nat} (small : total < wordCount 32)
    {turns : Nat} : ∀ {remaining : Nat} {progress : TreeProgress (Reader × Bytes)}
    {session : Session τ}, turns = divCeil remaining 8176 →
    Pending total count progress turns remaining → Undisturbed around session.clock →
    Room session (2 * turns) →
    ∃ progress' final, Pending total count progress' 0 0 ∧ MovesOn session final (2 * turns) ∧
      streamLeaves around output readPiece what turns remaining progress session =
        .ok progress' final := by
  induction turns with
  | zero =>
      intro remaining progress session turnCount pending quiet room
      obtain rfl : remaining = 0 := by
        rw [divCeil] at turnCount
        omega
      exact ⟨progress, session, pending, ⟨Nat.le_refl _, fun more room =>
        room.mono (by omega)⟩, rfl⟩
  | succ turns ih =>
      intro remaining progress session turnCount pending quiet room
      obtain ⟨-, later⟩ := divCeil_next turnCount
      obtain ⟨progress', middle, pending', moves, same⟩ :=
        (@streamLeaves_turn_runs _ _ output what) small turnCount pending quiet
          (room.mono (by omega))
      obtain ⟨last, final, done, moves', run⟩ := ih later pending' (quiet.later moves.clock)
        (moves.room _ (room.mono (by omega)))
      exact ⟨last, final, done, (moves.trans moves').mono (by omega), same.trans run⟩

/-- A tree that is not one leaf is closed through the group of its last leaves. -/
theorem closeStreamedTree_grouped {names : TreeNames} {progress : TreeProgress (Reader × Bytes)}
    (grouped : ¬∃ leaf size, (progress.xblocks, progress.leaves) = ([], [(leaf, size)])) :
    closeStreamedTree around output names progress = (do
      let last ← emitXBlock around output names.group progress.leaves
      let xblocks := progress.xblocks ++ [last]
      if let [(id, _)] := xblocks then
        return id
      attempt (refuse (maxDataTreeEntries < xblocks.length) (.valueTooLarge names.tooMany))
      let total ← attempt (groupTotal names.tooLarge xblocks)
      let id ← takeIds (takeBlockId true)
      emit around output (dataTreeSpec id 2 total xblocks)
      return id) := by
  unfold closeStreamedTree
  dsimp only
  split
  case h_1 leaf size one => exact absurd ⟨leaf, size, one⟩ grouped
  case h_2 => rfl

theorem closeStreamedTree_runs {names : TreeNames} {total count : Nat}
    (small : total < wordCount 32)
    (few : count ≤ 525315) {progress : TreeProgress (Reader × Bytes)}
    (done : Pending total count progress 0 0) {session : Session τ}
    (quiet : Undisturbed around session.clock) (room : Room session 2) :
    ∃ root final, closeStreamedTree around output names progress session = .ok root final := by
  have sizes := done.sizes
  have pieces := done.pieces
  obtain ⟨id, middle, closed, internal, moves⟩ := (@emitXBlock_runs _ _ output) names.group
    done.leafKind done.bound (by omega) quiet (room.mono (by decide))
  have kinds : ∀ xblock ∈ progress.xblocks ++ [(id, (progress.leaves.map (·.2)).sum)],
      xblock.1.isInternal = true := by
    intro xblock member
    rcases List.mem_append.mp member with before | here
    · exact done.groupKind xblock before
    · rw [List.mem_singleton.mp here]
      exact internal
  have groupCount : (progress.xblocks ++ [(id, (progress.leaves.map (·.2)).sum)]).length ≤
      maxDataTreeEntries := by
    rw [List.length_append, List.length_singleton]
    rw [maxDataTreeEntries] at pieces ⊢
    omega
  have groupSizes : ((progress.xblocks ++ [(id, (progress.leaves.map (·.2)).sum)]).map (·.2)).sum <
      wordCount 32 := by
    rw [List.map_append, List.sum_append, List.map_singleton, List.sum_singleton]
    omega
  by_cases oneLeaf : ∃ leaf size, (progress.xblocks, progress.leaves) = ([], [(leaf, size)])
  · obtain ⟨leaf, size, oneLeaf⟩ := oneLeaf
    exact ⟨leaf, session, by rw [closeStreamedTree, oneLeaf]; rfl⟩
  · rw [closeStreamedTree_grouped oneLeaf, run_bind, closed]
    dsimp only
    generalize progress.xblocks ++ [(id, (progress.leaves.map (·.2)).sum)] = groups at *
    by_cases one : ∃ root size, groups = [(root, size)]
    · obtain ⟨root, size, rfl⟩ := one
      exact ⟨root, middle, rfl⟩
    · have acceptable : Acceptable true (.dataTree 2 (groups.map (·.2)).sum
        (groups.map (·.1))) := by
        refine acceptable_dataTree (.inr rfl) (by rwa [List.length_map]) fun entry member => ?_
        obtain ⟨xblock, there, rfl⟩ := List.mem_map.mp member
        simp [isDataTreeChild, kinds xblock there]
      obtain ⟨root, taken, final, htake, emitted, -, -⟩ :=
        (@emitNew_runs _ _ output) acceptable (quiet.later moves.clock) (moves.room 1 room)
      refine ⟨root, final, ?_⟩
      split
      case h_1 other size => exact absurd ⟨other, size, rfl⟩ one
      case h_2 =>
        simp only [bind_run_ok, attempt_run_ok, pure_run_ok]
        exact ⟨⟨⟩, _, ⟨refuse_eq_ok.mpr (Nat.not_lt.mpr groupCount), rfl⟩, _, _,
          ⟨groupTotal_runs _ groupSizes, rfl⟩, root, taken, htake, ⟨⟩, final, emitted, rfl, rfl⟩

/-- A payload that is there, of a length that is a 32-bit word, has its tree streamed while
nothing disturbs the stream. -/
theorem appendReaderDataTree_runs {reader : Reader} {byteLen : Nat} (positive : 0 < byteLen)
    (small : byteLen < wordCount 32) (there : byteLen ≤ reader.bytes.length)
    {expected : Option Bytes}
    (matching : ∀ digest, expected = some digest → digest = around.sha256
      (reader.bytes.take byteLen))
    {requireEof : Bool}
    (whole : requireEof = true → reader.bytes.length = byteLen ∧ reader.fault = none)
    {session : Session τ} (quiet : Undisturbed around session.clock)
    (room : Room session (2 ^ 21)) :
    ∃ root size digest final, appendReaderDataTree around output reader byteLen expected requireEof
      session = .ok (root, size, digest) final := by
  have count : divCeil byteLen 8176 ≤ 525315 := by
    rw [wordCount] at small
    rw [divCeil]
    omega
  have pending : Pending byteLen (divCeil byteLen 8176) ⟨[], [], (reader, [])⟩
      (divCeil byteLen 8176) byteLen :=
    ⟨fun _ member => absurd member List.not_mem_nil, fun _ member => absurd member List.not_mem_nil,
      Nat.zero_le _, fun _ => entries_positive, by simp, by simp, there⟩
  obtain ⟨progress, middle, done, moves, read⟩ :=
    (@streamLeaves_runs _ _ output spooledTreeNames.group) small rfl pending quiet
      (room.mono (by omega))
  have start : Underway [] (⟨[], [], (reader, [])⟩ : TreeProgress (Reader × Bytes)) [] [] :=
    ⟨.nil, .nil, fun _ member => absurd member List.not_mem_nil, Nat.zero_le _, rfl⟩
  have first : 0 < byteLen → ([] : List Bytes).length < maxDataTreeEntries := fun _ =>
    entries_positive
  obtain ⟨_, _, group, _, underway, more, _, _, rest⟩ := streamLeaves_reads rfl first start read
  have nonempty : progress.leaves.isEmpty = false := by
    rw [List.isEmpty_eq_false_iff]
    intro empty
    have lengths := underway.leaves.length_eq
    rw [empty, List.length_nil, eq_comm, List.length_eq_zero_iff] at lengths
    exact more (.inl positive) lengths
  obtain ⟨root, final, closed⟩ := (@closeStreamedTree_runs _ _ output spooledTreeNames) small count
    done (quiet.later moves.clock)
    (moves.room 2 (room.mono (by omega)))
  have hashed : around.sha256 progress.rest.2 = around.sha256 (reader.bytes.take byteLen) := by
    rw [rest, readOn, List.nil_append]
  have agrees : ¬expected.any (· ≠ around.sha256 progress.rest.2) = true := by
    rw [hashed]
    cases expected with
    | none => exact Bool.false_ne_true
    | some digest => simp [matching digest rfl]
  have trailing : (if requireEof = true then progress.rest.1.hasTrailing else .ok false) =
      (.ok false : Except WriterError Bool) := by
    cases requireEof with
    | false => rfl
    | true =>
        obtain ⟨length, fault⟩ := whole rfl
        have sound : progress.rest.1.fault = none := by
          rw [rest, readOn]
          exact fault
        have atEnd : progress.rest.1.bytes = [] := by
          rw [rest, readOn, ← length, List.drop_length]
        rw [if_pos rfl, Reader.hasTrailing, atEnd, sound]
  refine ⟨root, byteLen, around.sha256 progress.rest.2, final, ?_⟩
  simp only [appendReaderDataTree, bind_run_ok, attempt_run_ok]
  refine ⟨progress, middle, read, ⟨⟩, _, ⟨refuse_eq_ok.mpr agrees, rfl⟩, false, _, ⟨trailing, rfl⟩,
    ⟨⟩, _, ⟨refuse_eq_ok.mpr Bool.false_ne_true, rfl⟩, ?_⟩
  rw [nonempty]
  simp only [Bool.false_eq_true, if_false, bind_run_ok, pure_run_ok]
  exact ⟨root, final, closed, rfl, rfl⟩

end Success

section Trees

/-- What the tree over the pieces of a byte string is: its leaves are the string, all but the last
are full blocks, and no exact tree over leaves that fit their blocks has fewer levels. -/
structure IsByteTree (bytes : Bytes) (tree : DataTree) : Prop where
  content : tree.leaves.flatten = bytes
  some : ∀ leaf ∈ tree.leaves, 0 < leaf.length ∧ leaf.length ≤ 8176
  full : ∀ leaf ∈ tree.leaves.dropLast, leaf.length = 8176
  least : ∀ other : DataTree, other.Exact → (∀ leaf ∈ other.leaves, leaf.length ≤ 8176) →
    other.leaves.flatten = bytes → tree.levels ≤ other.levels

theorem isByteTree {bytes : Bytes} (nonempty : bytes ≠ []) :
    IsByteTree bytes (.above (chunks 8176 bytes)) := by
  have positive : 0 < 8176 := by decide
  refine ⟨?_, ?_, ?_, ?_⟩
  · rw [above_leaves, chunks_flatten positive]
  · rw [above_leaves]
    intro leaf member
    obtain ⟨some, small⟩ := mem_chunks positive member
    exact ⟨List.length_pos_of_ne_nil some, small⟩
  · rw [above_leaves]
    exact chunks_full positive (Nat.le_refl _)
  · rintro other exact short rfl
    exact above_least (chunks_ne_nil positive nonempty) exact (length_chunks_le positive short)

/-- **The three builders of data trees.** Within the limits that they check they succeed, and
whenever they succeed, what they made is read back as the tree of least levels over the pieces of
the byte string, or over the given pages; in memory and streamed it is the same tree. -/
theorem dataTrees_readBack (around : Surroundings τ) (output : Output) :
    (∀ bytes, bytes ≠ [] → IsByteTree bytes (.above (chunks 8176 bytes)) ∧ ∀ counters : Counters,
      (bytes.length < wordCount 32 → counters.nextBlockIndex + 2 ^ 20 ≤ 2 ^ 62 →
        ∃ root blocks final,
          appendDataTreeSized bytes 8176 counters = .ok (root, blocks) final) ∧
      ∀ root blocks final, appendDataTreeSized bytes 8176 counters = .ok (root, blocks) final →
        MakesTree counters.nextBlockIndex (chunks 8176 bytes) root blocks ∧
        readDataTree (payloadOf blocks) root = some (.above (chunks 8176 bytes))) ∧
    (∀ pages, pages ≠ [] → (DataTree.above pages).leaves = pages ∧
      (∀ other : DataTree, other.Exact → other.leaves = pages →
        (DataTree.above pages).levels ≤ other.levels) ∧ ∀ counters : Counters,
      ((∀ page ∈ pages, page.length ≤ 8176) →
        pages.length ≤ maxDataTreeEntries * maxDataTreeEntries →
        totalSize pages < wordCount 32 → counters.nextBlockIndex + 2 ^ 21 ≤ 2 ^ 62 →
        ∃ root blocks final, appendDataTreePages pages counters = .ok (root, blocks) final) ∧
      ∀ root blocks final, appendDataTreePages pages counters = .ok (root, blocks) final →
        MakesTree counters.nextBlockIndex pages root blocks ∧
        readDataTree (payloadOf blocks) root = some (.above pages)) ∧
    (∀ bytes, bytes ≠ [] → ∀ reader : Reader, bytes <+: reader.bytes → ∀ (session : Session τ)
      (expected : Option Bytes) (requireEof : Bool),
      (bytes.length < wordCount 32 →
        (∀ digest, expected = some digest → digest = around.sha256 bytes) →
        (requireEof = true → reader.bytes = bytes ∧ reader.fault = none) →
        Undisturbed around session.clock → Room session (2 ^ 21) → ∃ root size digest final,
          appendReaderDataTree around output reader bytes.length expected requireEof session =
            .ok (root, size, digest) final) ∧
      ∀ root size digest final,
        appendReaderDataTree around output reader bytes.length expected requireEof session =
            .ok (root, size, digest) final →
          size = bytes.length ∧ digest = around.sha256 bytes ∧
          ∃ listed, Lists session.stream final.stream listed ∧
            MakesTree session.stream.counters.nextBlockIndex (chunks 8176 bytes) root listed ∧
            readDataTree (payloadOf listed) root = some (.above (chunks 8176 bytes))) := by
  refine ⟨fun bytes nonempty => ⟨isByteTree nonempty, fun counters => ⟨?_, ?_⟩⟩,
    fun pages nonempty => ⟨above_leaves pages, ?_, fun counters => ⟨?_, ?_⟩⟩,
    fun bytes nonempty reader within session expected requireEof => ⟨?_, ?_⟩⟩
  · exact fun small room => appendDataTreeSized_runs small room
  · intro root blocks final hrun
    have makes := appendDataTreeSized_makes (by decide) nonempty hrun
    exact ⟨makes, makes.reads⟩
  · rintro other exact rfl
    exact above_least nonempty exact (Nat.le_refl _)
  · exact fun short few small room => appendDataTreePages_runs nonempty short few small room
  · intro root blocks final hrun
    have makes := appendDataTreePages_makes hrun
    exact ⟨makes, makes.reads⟩
  · intro small matching whole quiet room
    have taken := List.prefix_iff_eq_take.mp within
    refine appendReaderDataTree_runs (List.length_pos_of_ne_nil nonempty) small within.length_le
      ?_ ?_ quiet room
    · rwa [← taken]
    · intro required
      obtain ⟨same, fault⟩ := whole required
      exact ⟨congrArg List.length same, fault⟩
  · intro root size digest final hrun
    have taken := List.prefix_iff_eq_take.mp within
    obtain ⟨-, sized, hashed, listed, lists, makes⟩ :=
      appendReaderDataTree_makes (List.length_pos_of_ne_nil nonempty) hrun
    rw [← taken] at hashed makes
    exact ⟨sized, hashed, listed, lists, makes, makes.reads⟩

/-- A byte string, two pages and a part of a payload in a stream that nothing disturbs. -/
theorem dataTrees_readBack_samples :
    let around : Surroundings Unit := .quiet id fun _ source => (.ok ⟨[], none⟩, source)
    let counters : Counters := ⟨28, 0x40000⟩
    (∃ root blocks final, appendDataTreeSized [5, 6] 8176 counters = .ok (root, blocks) final ∧
      readDataTree (payloadOf blocks) root = some (.leaf [5, 6])) ∧
    (∃ root blocks final, appendDataTreePages [[1], [2, 3]] counters = .ok (root, blocks) final ∧
      readDataTree (payloadOf blocks) root = some (.xblock 3 [[1], [2, 3]])) ∧
    ∃ root size digest final listed, appendReaderDataTree around .physical ⟨[7, 8, 9], none⟩ 2 none
        false ⟨.new, none, [], 0⟩ = .ok (root, size, digest) final ∧
      readDataTree (payloadOf listed) root = some (.leaf [7, 8]) := by
  intro around counters
  obtain ⟨inMemory, ofPages, streamed⟩ := dataTrees_readBack around .physical
  refine ⟨?_, ?_, ?_⟩
  · obtain ⟨runs, reads⟩ := (inMemory [5, 6] (List.cons_ne_nil _ _)).2 counters
    obtain ⟨root, blocks, final, hrun⟩ := runs (by decide) (by decide)
    exact ⟨root, blocks, final, hrun, (reads _ _ _ hrun).2⟩
  · obtain ⟨runs, reads⟩ := (ofPages [[1], [2, 3]] (List.cons_ne_nil _ _)).2.2 counters
    obtain ⟨root, blocks, final, hrun⟩ := runs (by decide) (by decide) (by decide) (by decide)
    exact ⟨root, blocks, final, hrun, (reads _ _ _ hrun).2⟩
  · obtain ⟨runs, reads⟩ := streamed [7, 8] (List.cons_ne_nil _ _) ⟨[7, 8, 9], none⟩ ⟨[9], rfl⟩
      ⟨.new, none, [], 0⟩ none false
    have quiet : Undisturbed around 0 := fun _ _ => ⟨rfl, rfl⟩
    obtain ⟨root, size, digest, final, hrun⟩ := runs (by decide) (fun _ same => nomatch same)
      (fun required => nomatch required) quiet ⟨by decide, by decide, by decide⟩
    obtain ⟨-, -, listed, -, -, read⟩ := reads _ _ _ _ hrun
    exact ⟨root, size, digest, final, listed, hrun, read⟩

end Trees

end PstForge.Writer
