import PstForge.Job.PackEvents

/-! # What the batches of candidates keep of the pack

A candidate is taken back by cutting the pack to where it was when the candidate was
begun and rolling the ledger back to its savepoint; a batch likewise. The pack is on
the disk before a batch is committed. An operation of the transaction only fails when
the process is killed.
-/

namespace PstForge.Job

open PstForge.Foundation PstForge.Catalog

variable {sha256 : Bytes → Bytes} {sink : DurableCatalogSink}

section Dead

/-- The process has come to its end, and what it leaves is kept. -/
structure Dead (sha256 : Bytes → Bytes) (sink : DurableCatalogSink) : Prop where
  killed : sink.life = some 0
  kept : ∃ rows, Keeping sha256 rows sink

theorem Dead.fine (dead : Dead sha256 sink) : Fine sha256 sink :=
  ⟨dead.kept, fun alive => absurd dead.killed alive⟩

theorem Keeping.dead {rows : List BlobRow} {next : DurableCatalogSink}
    (keeping : Keeping sha256 rows sink) {failed : Prop} (stuck : Stuck sink failed next)
    (never : ¬ failed) : Dead sha256 next := by
  obtain ⟨life, rfl, killed | failed⟩ := stuck
  · exact ⟨killed, rows, keeping⟩
  · exact absurd failed never

theorem transact_dead (killed : sink.life = some 0)
    (statement : Connection → Except JobError Connection) :
    Ensures (transact statement) sink (fun _ _ => False) (fun _ next => next = sink) := by
  refine .bind (M := fun _ _ => False) (.get_bind ?_) fun _ _ gone => gone.elim
  rw [killed]
  exact .of_throw rfl

theorem truncate_dead (killed : sink.life = some 0) (length : Nat) :
    Ensures (truncatePayloadPack length) sink (fun _ _ => False) (fun _ next => next = sink) := by
  refine .bind (M := fun _ _ => False) (.bind (M := fun _ _ => False) (.get_bind ?_)
    fun _ _ gone => gone.elim) fun _ _ gone => gone.elim
  rw [killed]
  exact .of_throw rfl

theorem dropBatch_dead (dead : Dead sha256 sink) :
    Ensures dropBatch sink (fun _ => Dead sha256) (fun _ => Dead sha256) := by
  refine .bind (M := fun _ next => next = sink) ?_ ?_
  · refine .of_onError ((transact_dead dead.killed _).mono (fun _ _ gone => gone.elim)
      fun _ _ same => same) fun _ _ same => .of_pure same
  · intro _ next same
    rw [same]
    refine .get_bind (.bind (M := fun _ next => next = sink) ?_ ?_)
    · exact .of_onError ((truncate_dead dead.killed _).mono (fun _ _ gone => gone.elim)
        fun _ _ same => same) fun _ _ same => .of_pure same
    · intro _ next same
      rw [same]
      exact .of_modify ⟨dead.killed, dead.kept⟩

end Dead

section Commit

theorem Connection.commit_ok {connection : Connection} {begun : Database}
    (isBegun : connection.begun = some begun) :
    connection.commit = .ok (.idle connection.database) := by
  simp [Connection.commit, refuse, isBegun, bind, Except.bind, pure, Except.pure]

theorem Connection.rollback_ok {connection : Connection} {begun : Database}
    (isBegun : connection.begun = some begun) : connection.rollback = .ok (.idle begun) := by
  simp [Connection.rollback, Connection.durable, refuse, isBegun, bind, Except.bind, pure,
    Except.pure]

/-- A batch is committed when no candidate is open. -/
theorem commitCandidateBatch_ensures (sound : Sound sha256 sink) (idle : sink.active = none) :
    Ensures commitCandidateBatch sink
      (fun _ next => Sound sha256 next ∧ SameOpen sink next) (fun _ => Dead sha256) := by
  refine .get_bind ?_
  split
  case isFalse => exact .of_pure ⟨sound, rfl, rfl, rfl, rfl⟩
  case isTrue opened =>
    have shape := sound.batch
    unfold BatchShape at shape
    rw [idle] at shape
    simp only [opened, ↓reduceIte] at shape
    obtain ⟨-, begun, isBegun, -, -⟩ := shape
    refine .bind ((touchPack_ensures sink _).mono (fun _ _ synced => synced)
      fun _ _ stuck => sound.kept.dead stuck id) ?_
    intro _ _ synced
    obtain ⟨life, rfl⟩ := synced
    have kept := sound.kept.sync
    refine .attempt_bind (fun _ _ => ?_) fun error failed => ?_
    · refine .bind ((transact_ensures _ _).mono (fun _ _ committed => committed)
        fun _ _ stuck => ?_) ?_
      · have before : Keeping sha256 sink.connection.database.blobs
            { sink with payloadPack := sink.payloadPack.sync, life } :=
          ⟨kept.stored, kept.ordered, sound.kept.among,
            fun row member => kept.synced row (sound.kept.among.subset member)⟩
        refine before.dead stuck ?_
        dsimp only
        rw [Connection.commit_ok isBegun]
        intro failed
        cases failed
      · intro _ _ committed
        obtain ⟨_, connection, done, rfl⟩ := committed
        dsimp only at done
        rw [Connection.commit_ok isBegun] at done
        obtain rfl := Except.ok.inj done
        refine .of_modify ⟨⟨kept, sound.cursor, sound.atEnd, ?_, fun property there => ?_,
          fun attachment there => ?_⟩, rfl, rfl, rfl, rfl⟩
        · unfold BatchShape
          dsimp only
          rw [idle]
          exact ⟨rfl, rfl⟩
        · obtain ⟨captured, whole, owned⟩ := sound.property property there
          exact ⟨captured, fun pack => (whole pack).sync, owned⟩
        · have busy := (sound.attachment attachment there).1
          rw [idle] at busy
          cases busy
    · simp only [refuse, sound.cursor, ne_eq, not_true_eq_false, ↓reduceIte] at failed
      cases failed

end Commit

section Held

/-- The savepoint of a candidate stands while no candidate is open: the rows from before
the candidate are kept. -/
structure Held (sha256 : Bytes → Bytes) (saved : Database) (sink : DurableCatalogSink) :
    Prop where
  kept : Keeping sha256 saved.blobs sink
  cursor : sink.payloadPackPosition = sink.payloadPack.bytes.length
  atEnd : sink.payloadPack.offset = sink.payloadPack.bytes.length
  idle : sink.active = none
  closed : sink.property = none
  detached : sink.attachment = none
  opened : sink.batchOpen = true
  begun : ∃ begun, sink.connection.begun = some begun ∧
    ∀ row ∈ begun.blobs, Ahead sink.batchPackStart row
  saved : sink.connection.savepoints = [saved]

namespace Held

variable {saved : Database}

theorem durable (held : Held sha256 saved sink) (database : Database)
    (savepoints : List Database) :
    (⟨database, sink.connection.begun, savepoints⟩ : Connection).durable =
      sink.connection.durable := by
  obtain ⟨begun, isBegun, -⟩ := held.begun
  simp [Connection.durable, isBegun]

theorem durable_begun (held : Held sha256 saved sink) :
    sink.connection.begun = some sink.connection.durable := by
  obtain ⟨begun, isBegun, -⟩ := held.begun
  simp [Connection.durable, isBegun]

/-- The ledger goes back to the savepoint. -/
theorem rollbackTo (held : Held sha256 saved sink) :
    Ensures (transact Connection.rollbackTo) sink
      (fun _ next => Held sha256 saved next ∧ next.connection.database = saved)
      (fun _ => Dead sha256) := by
  refine (transact_ensures sink _).mono (fun _ next done => ?_) fun _ _ stuck => ?_
  · obtain ⟨life, connection, done, rfl⟩ := done
    simp only [Connection.rollbackTo, held.saved] at done
    obtain rfl := Except.ok.inj done
    refine ⟨⟨?_, held.cursor, held.atEnd, held.idle, held.closed, held.detached, held.opened,
      held.begun, rfl⟩, rfl⟩
    unfold Keeping
    dsimp only
    rw [held.durable saved [saved]]
    exact held.kept
  · refine held.kept.dead stuck ?_
    simp [Connection.rollbackTo, held.saved]

/-- The savepoint is given up; what was written since is kept. -/
theorem release (held : Held sha256 saved sink)
    (kept : Keeping sha256 sink.connection.database.blobs sink) :
    Ensures (transact Connection.release) sink
      (fun _ next => Sound sha256 next ∧ next.active = none) (fun _ => Dead sha256) := by
  refine (transact_ensures sink _).mono (fun _ next done => ?_) fun _ _ stuck => ?_
  · obtain ⟨life, connection, done, rfl⟩ := done
    simp only [Connection.release, held.saved] at done
    obtain rfl := Except.ok.inj done
    refine ⟨⟨?_, held.cursor, held.atEnd, ?_, ?_, ?_⟩, held.idle⟩
    · unfold Keeping
      dsimp only
      rw [held.durable sink.connection.database []]
      exact kept
    · obtain ⟨begun, isBegun, behind⟩ := held.begun
      unfold BatchShape
      dsimp only
      rw [held.idle, held.opened]
      refine ⟨rfl, begun, isBegun, ?_, behind⟩
      have among := kept.among
      rw [Option.some.inj (held.durable_begun.symm.trans isBegun)] at among
      exact among
    · intro property there
      rw [held.closed] at there
      cases there
    · intro attachment there
      rw [held.detached] at there
      cases there
  · refine kept.dead stuck ?_
    simp [Connection.release, held.saved]

/-- The candidate is taken back. -/
theorem abort (held : Held sha256 saved sink) :
    Ensures abortCandidate sink (fun _ next => Sound sha256 next ∧ next.active = none)
      (fun _ => Dead sha256) := by
  refine .bind held.rollbackTo fun _ next done => ?_
  refine done.1.release ?_
  rw [done.2]
  exact done.1.kept

/-- The candidate is finished, and with it perhaps the batch. -/
theorem finish (held : Held sha256 saved sink)
    (kept : Keeping sha256 sink.connection.database.blobs sink) :
    Ensures finishCandidate sink (fun _ => Sound sha256) (fun _ => Dead sha256) := by
  refine .bind (held.release kept) fun _ next done => .modify_bind (.get_bind ?_)
  have counted : Sound sha256 { next with
      batchCandidates := saturatingAdd 32 next.batchCandidates 1 } :=
    ⟨done.1.kept, done.1.cursor, done.1.atEnd, done.1.batch, done.1.property, done.1.attachment⟩
  split
  · exact (commitCandidateBatch_ensures counted done.2).mono (fun _ _ done => done.1)
      fun _ _ dead => dead
  · exact .of_pure counted

theorem finishOrDrop (held : Held sha256 saved sink)
    (kept : Keeping sha256 sink.connection.database.blobs sink) :
    Ensures Job.finishOrDrop sink (fun _ => Sound sha256) (fun _ => Fine sha256) := by
  refine .of_onError (held.finish kept) fun error next dead => ?_
  refine .bind ((dropBatch_dead dead).mono (fun _ _ dead => dead) fun _ _ dead => dead.fine) ?_
  exact fun _ _ dead => .of_throw dead.fine

end Held

end Held

section Start

theorem dropFolderProperty_ensures (sound : Sound sha256 sink) :
    Ensures dropFolderProperty sink (fun _ => Sound sha256) (fun _ => Fine sha256) := by
  refine .of_modify ?_
  split
  · exact sound.dropProperty
  · exact sound

/-- A batch that is opened begins with what the ledger has. -/
theorem openBatch_ensures (sound : Sound sha256 sink) (idle : sink.active = none) :
    Ensures openBatch sink
      (fun _ next => Sound sha256 next ∧ SameOpen sink next ∧ next.active = none ∧
        next.batchOpen = true ∧ next.payloadPackPosition = sink.payloadPackPosition)
      (fun _ => Fine sha256) := by
  refine .get_bind ?_
  split
  case isFalse opened =>
    exact .of_pure ⟨sound, ⟨rfl, rfl, rfl, rfl⟩, idle, Bool.eq_true_of_not_eq_false opened, rfl⟩
  case isTrue unopened =>
    have shape := sound.batch
    unfold BatchShape at shape
    rw [idle] at shape
    simp only [unopened, Bool.false_eq_true, ↓reduceIte] at shape
    obtain ⟨noSavepoints, notBegun⟩ := shape
    refine .bind ((transact_ensures sink _).mono (fun _ _ done => done)
      fun _ _ stuck => sound.stuck stuck) ?_
    intro _ _ done
    obtain ⟨life, connection, begun, rfl⟩ := done
    simp only [Connection.begin, bind_eq_ok, refuse_eq_ok] at begun
    obtain ⟨_, -, begun⟩ := begun
    obtain rfl := Except.ok.inj begun
    refine .of_modify ⟨⟨?_, sound.cursor, sound.atEnd, ?_, sound.property, sound.attachment⟩,
      ⟨rfl, rfl, rfl, rfl⟩, idle, rfl, rfl⟩
    · have kept := sound.kept
      simp only [Keeping, Connection.durable, notBegun, noSavepoints, List.getLast?_nil,
        Option.getD_none] at kept
      exact kept
    · unfold BatchShape
      dsimp only
      rw [idle]
      refine ⟨noSavepoints, sink.connection.database, rfl, List.prefix_rfl, ?_⟩
      rw [sound.cursor]
      exact sound.kept.ahead

/-- The savepoint of a new candidate. -/
theorem savepoint_ensures (sound : Sound sha256 sink) (idle : sink.active = none)
    (closed : sink.property = none) (opened : sink.batchOpen = true) :
    Ensures (transact fun connection => .ok connection.savepoint) sink
      (fun _ next => Held sha256 sink.connection.database next ∧
        next.connection.database = sink.connection.database ∧
        next.payloadPackPosition = sink.payloadPackPosition)
      (fun _ => Fine sha256) := by
  refine (transact_ensures sink _).mono (fun _ next done => ?_) fun _ _ stuck => sound.stuck stuck
  obtain ⟨life, connection, done, rfl⟩ := done
  obtain rfl := Except.ok.inj done
  have shape := sound.batch
  unfold BatchShape at shape
  rw [idle] at shape
  simp only [opened, ↓reduceIte] at shape
  obtain ⟨noSavepoints, begun, isBegun, -, behind⟩ := shape
  refine ⟨⟨?_, sound.cursor, sound.atEnd, idle, closed, ?_, opened, ⟨begun, isBegun, behind⟩, ?_⟩,
    rfl, rfl⟩
  · have kept := sound.kept
    simp only [Keeping, Connection.durable, isBegun, Option.getD_some, Connection.savepoint]
      at kept ⊢
    exact kept
  · cases there : sink.attachment with
    | none => rfl
    | some attachment =>
        have busy := (sound.attachment attachment there).1
        rw [idle] at busy
        cases busy
  · simp only [Connection.savepoint, noSavepoints]

/-- The candidate that was begun is open from now on. -/
theorem Held.activate {saved : Database} (held : Held sha256 saved sink)
    (same : sink.connection.database.blobs = saved.blobs) {active : ActiveCandidate}
    (start : active.packStart = sink.payloadPackPosition) :
    Sound sha256 { sink with active := some active } := by
  have kept := held.kept
  rw [← same] at kept
  refine ⟨kept, held.cursor, held.atEnd, ?_, ?_, ?_⟩
  · obtain ⟨begun, isBegun, behind⟩ := held.begun
    have among := held.kept.among
    rw [Option.some.inj (held.durable_begun.symm.trans isBegun)] at among
    refine ⟨held.opened, begun, saved, isBegun, held.saved, among, ?_, behind, ?_⟩
    · rw [same]
    · rw [start, held.cursor]
      exact held.kept.ahead
  · intro property there
    rw [held.closed] at there
    cases there
  · intro attachment there
    rw [held.detached] at there
    cases there

theorem insertActive_ensures {saved : Database} (held : Held sha256 saved sink)
    (same : sink.connection.database = saved) (row : CandidateRow) :
    Ensures (insertActive row) sink
      (fun _ next => Held sha256 saved next ∧ next.connection.database.blobs = saved.blobs ∧
        next.payloadPackPosition = sink.payloadPackPosition)
      (fun _ => Fine sha256) := by
  have tried : Ensures (execute (Database.insertCandidate row)) sink
      (fun _ next => Held sha256 saved next ∧ next.connection.database.blobs = saved.blobs ∧
        next.payloadPackPosition = sink.payloadPackPosition)
      (fun _ => Held sha256 saved) := by
    refine (execute_ensures sink _).mono (fun _ next done => ?_) fun _ next stuck => ?_
    · obtain ⟨life, database, inserted, rfl⟩ := done
      simp only [Database.insertCandidate, bind_eq_ok] at inserted
      obtain ⟨_, -, _, -, inserted⟩ := inserted
      obtain rfl := Except.ok.inj inserted
      refine ⟨⟨?_, held.cursor, held.atEnd, held.idle, held.closed, held.detached, held.opened,
        held.begun, held.saved⟩, by rw [same], rfl⟩
      unfold Keeping
      dsimp only
      rw [held.durable _ sink.connection.savepoints]
      exact held.kept
    · obtain ⟨life, rfl, -⟩ := stuck
      exact ⟨held.kept, held.cursor, held.atEnd, held.idle, held.closed, held.detached,
        held.opened, held.begun, held.saved⟩
  refine .of_onError tried fun error next held => ?_
  refine .bind (M := fun _ => Fine sha256) ?_ fun _ _ fine => .of_throw fine
  exact .of_onError (held.abort.mono (fun _ _ done => done.1.fine) fun _ _ dead => dead.fine)
    fun _ _ fine => .of_pure fine

theorem startCandidate_ensures (sound : Sound sha256 sink) (start : MessageStart) :
    Ensures (startCandidate start) sink (fun _ => Fine sha256) (fun _ => Fine sha256) := by
  refine .get_bind (.attempt_bind (fun _ _ => ?_) fun _ _ => sound.fine)
  refine .bind (dropFolderProperty_ensures sound) fun _ sink sound => .get_bind ?_
  refine .attempt_bind (fun _ closed => ?_) fun _ _ => sound.fine
  refine .attempt_bind (fun _ idle => ?_) fun _ _ => sound.fine
  refine .attempt_bind (fun occurrence _ => ?_) fun _ _ => sound.fine
  refine .attempt_bind (fun parent _ => ?_) fun _ _ => sound.fine
  refine .attempt_bind (fun _ _ => ?_) fun _ _ => sound.fine
  rw [refuse_eq_ok, not_not] at closed idle
  refine .bind (M := fun _ next => Held sha256 next.connection.database next ∧
    next.payloadPackPosition = sink.payloadPackPosition) ?_ fun _ next held => ?_
  · refine .bind (openBatch_ensures sound idle) fun _ middle begun => ?_
    obtain ⟨sound, same, idle, opened, position⟩ := begun
    refine (savepoint_ensures sound idle (same.property.trans closed) opened).mono
      (fun _ next held => ?_) fun _ _ fine => fine
    obtain ⟨held, database, moved⟩ := held
    exact ⟨database ▸ held, moved.trans position⟩
  · refine .bind (insertActive_ensures held.1 rfl _) fun _ last inserted => .of_modify ?_
    obtain ⟨held', blobs, moved⟩ := inserted
    exact (held'.activate blobs (held.2.symm.trans moved.symm)).fine

end Start

section End

theorem cutOpenProperty_ensures (sound : Sound sha256 sink) (behind : CutsBehind sink) :
    Ensures cutOpenProperty sink
      (fun _ next => Sound sha256 next ∧ next.property = none ∧
        next.active.isSome = sink.active.isSome)
      (fun _ => Fine sha256) := by
  refine .get_bind ?_
  split
  case h_1 property there =>
    refine .modify_bind ((cutProperty_ensures (sound.close there) rfl (behind property there) _
      _).mono (fun _ _ done => ⟨done.1, done.2.property, done.2.active⟩) fun _ _ fine => fine)
  case h_2 closed => exact .of_pure ⟨sound, closed, rfl⟩

/-- After this, neither a property nor an attachment is open. -/
theorem closeIncomplete_ensures (sound : Sound sha256 sink) {complete : Bool}
    (behind : complete = false → CutsBehind sink)
    (closed : complete = false ∨ sink.property = none)
    (detached : complete = false ∨ sink.attachment = none) :
    Ensures (closeIncomplete sha256 complete) sink
      (fun _ next => Sound sha256 next ∧ next.property = none ∧ next.attachment = none ∧
        next.active.isSome = sink.active.isSome)
      (fun _ => Fine sha256) := by
  cases complete with
  | true => exact .of_pure ⟨sound, closed.resolve_left nofun, detached.resolve_left nofun, rfl⟩
  | false =>
      refine .bind (cutOpenProperty_ensures sound (behind rfl)) fun _ next cut => ?_
      obtain ⟨sound, closed, busy⟩ := cut
      refine (finishAttachment_ensures sound (fun _ => closed) false).mono
        (fun _ last done => ?_) fun _ _ fine => fine
      obtain ⟨sound, detached, same, still⟩ := done
      exact ⟨sound, same.trans closed, detached, still.trans busy⟩

theorem recordUnsupported_ensures (sound : Sound sha256 sink) :
    Ensures recordUnsupported sink (fun _ next => Sound sha256 next ∧ SameOpen sink next)
      (fun _ => Fine sha256) := by
  refine .get_bind ?_
  split
  · exact recordEvent_ensures sound _ _ _
  · exact .of_pure ⟨sound, rfl, rfl, rfl, rfl⟩

/-- A candidate that is open no more leaves its savepoint behind. -/
theorem Sound.hold (sound : Sound sha256 sink) {active : ActiveCandidate}
    (busy : sink.active = some active) (closed : sink.property = none)
    (detached : sink.attachment = none) :
    ∃ saved, saved.blobs <+: sink.connection.database.blobs ∧
      (∀ row ∈ saved.blobs, Ahead active.packStart row) ∧
      Held sha256 saved { sink with active := none } := by
  have shape := sound.batch
  unfold BatchShape at shape
  rw [busy] at shape
  obtain ⟨opened, begun, saved, isBegun, isSaved, earlier, later, behind, ahead⟩ := shape
  have durable : sink.connection.durable = begun := by
    simp [Connection.durable, isBegun]
  refine ⟨saved, later, ahead, sound.kept.fewer later (durable ▸ earlier), sound.cursor,
    sound.atEnd, rfl, closed, detached, opened, ⟨begun, isBegun, behind⟩, isSaved⟩

theorem handleMessageEnd_ensures (sound : Sound sha256 sink) (id : Nat) (complete : Bool)
    (behind : complete = false → CutsBehind sink) :
    Ensures (handleMessageEnd sha256 id complete) sink (fun _ => Fine sha256)
      (fun _ => Fine sha256) := by
  refine .get_bind (.attempt_bind (fun _ matched => ?_) fun _ _ => sound.fine)
  refine .attempt_bind (fun _ _ => ?_) fun _ _ => sound.fine
  refine .attempt_bind (fun _ closed => ?_) fun _ _ => sound.fine
  refine .attempt_bind (fun _ detached => ?_) fun _ _ => sound.fine
  rw [refuse_eq_ok, not_not] at closed detached
  refine .bind (closeIncomplete_ensures sound behind closed detached) fun _ next done => ?_
  obtain ⟨sound, closed, detached, -⟩ := done
  refine .bind (recordUnsupported_ensures sound) fun _ next done => .get_bind (.modify_bind ?_)
  obtain ⟨sound, same⟩ := done
  refine .attempt_bind (fun active busy => ?_) fun error failed => ?_
  · obtain ⟨saved, later, -, held⟩ := sound.hold (okOr_eq_ok.mp busy)
      (same.property.trans closed) (same.attachment.trans detached)
    refine .bind ((execute_ensures _ _).mono (fun _ _ done => done)
      fun _ _ stuck => ?_) fun _ _ done => ?_
    · have kept : Keeping sha256 next.connection.database.blobs { next with active := none } :=
        sound.kept
      exact (kept.dead stuck nofun).fine
    · obtain ⟨life, database, changed, rfl⟩ := done
      obtain rfl := Except.ok.inj changed
      have updated : Held sha256 saved { next with
          active := none
          connection := { next.connection with
            database := next.connection.database.updateCandidate active.key
              (if complete then .complete else .partialContent)
              (if active.supported then .spooled else .unsupported) }
          life } := by
        refine ⟨?_, held.cursor, held.atEnd, rfl, held.closed, held.detached, held.opened,
          held.begun, held.saved⟩
        unfold Keeping
        dsimp only
        rw [held.durable _ next.connection.savepoints]
        exact held.kept
      refine .bind (updated.finishOrDrop ?_) fun _ last sound => .of_modify ?_
      · unfold Keeping
        dsimp only
        rw [held.durable _ next.connection.savepoints]
        exact sound.kept
      · exact Sound.fine ⟨sound.kept, sound.cursor, sound.atEnd, sound.batch, sound.property,
          sound.attachment⟩
  · have idle : next.active = none := by
      cases active : next.active with
      | none => rfl
      | some _ => simp [active] at failed
    have same : ({ next with active := none } : DurableCatalogSink) = next := by
      rw [← idle]
    rw [same]
    exact sound.fine

end End

section Attempts

/-- Whatever was open is let go of. -/
theorem Sound.dropOpen (sound : Sound sha256 sink) (unit : Option RecoveryUnit)
    (pending : Option (PropertyDescriptor × NamedPropertyIdentity))
    (recent : List (List Nat × ItemKey)) (replayed : List (Nat × Nat)) :
    Sound sha256 { sink with
      property := none
      pendingNamedProperty := pending
      attachment := none
      unit
      recentCandidates := recent
      replayedSourceIds := replayed } :=
  ⟨sound.kept, sound.cursor, sound.atEnd, sound.batch, (fun _ gone => nomatch gone),
    (fun _ gone => nomatch gone)⟩

/-- The pack is cut back to where a candidate was begun. -/
theorem Held.cut {saved : Database} (held : Held sha256 saved sink) {length : Nat}
    (ahead : ∀ row ∈ saved.blobs, Ahead length row) :
    Ensures (truncatePayloadPack length) sink (fun _ => Held sha256 saved)
      (fun _ => Dead sha256) := by
  refine (truncatePayloadPack_ensures sink length).mono (fun _ next done => ?_)
    fun _ _ stuck => held.kept.dead stuck id
  obtain ⟨life, rfl⟩ := done
  have size : (sink.payloadPack.setLen length).bytes.length = length := PackFile.setLen_length _
  exact ⟨held.kept.cut List.prefix_rfl held.kept.among ahead, size.symm, size.symm, held.idle,
    held.closed, held.detached, held.opened, held.begun, held.saved⟩

theorem abortWorkerAttempt_ensures (sound : Sound sha256 sink) :
    Ensures abortWorkerAttempt sink (fun _ => Fine sha256) (fun _ => Fine sha256) := by
  refine .modify_bind (.get_bind ?_)
  have dropped : Sound sha256 { sink with
      property := none, attachment := none, unit := none, recentCandidates := [] } :=
    sound.dropOpen none _ [] _
  split
  case h_1 idle =>
    exact (commitCandidateBatch_ensures dropped idle).mono (fun _ _ done => done.1.fine)
      fun _ _ dead => dead.fine
  case h_2 active busy =>
    obtain ⟨saved, -, ahead, held⟩ := dropped.hold busy rfl rfl
    refine .modify_bind (.bind ((held.cut ahead).mono (fun _ _ held => held)
      fun _ _ dead => dead.fine) fun _ next held => ?_)
    have taken : Ensures (do abortCandidate; pure true) next
        (fun aborted last => aborted = true ∧ Sound sha256 last ∧ last.active = none)
        (fun _ => Dead sha256) :=
      .bind held.abort fun _ _ done => .of_pure ⟨rfl, done⟩
    refine .bind (M := fun aborted last =>
      aborted = true ∧ Sound sha256 last ∧ last.active = none ∨
        aborted = false ∧ Dead sha256 last)
      (.of_onError (taken.mono (fun _ _ done => .inl done) fun _ _ dead => dead)
        fun _ _ dead => .of_pure (.inr ⟨rfl, dead⟩)) fun aborted last done => ?_
    rcases done with ⟨rfl, sound, idle⟩ | ⟨rfl, dead⟩
    · exact (commitCandidateBatch_ensures sound idle).mono (fun _ _ done => done.1.fine)
        fun _ _ dead => dead.fine
    · -- the candidate is only left in place when the process was killed
      refine .bind (M := fun _ next => next = last) (.of_onError
        ((transact_dead dead.killed _).mono (fun _ _ gone => gone.elim) fun _ _ same => same)
        fun error next same => ?_) fun _ next same => ?_
      · rw [same]
        split
        · exact .of_pure rfl
        · exact .of_throw dead.fine
      · rw [same]
        exact .get_bind (.bind ((truncate_dead dead.killed _).mono (fun _ _ gone => gone)
          fun _ _ same => same ▸ dead.fine) fun _ _ gone => gone.elim)

/-- The batch is rolled back, with the pack behind it. -/
theorem dropBatch_ensures (sound : Sound sha256 sink) (opened : sink.batchOpen = true)
    (closed : sink.property = none) (detached : sink.attachment = none) :
    Ensures dropBatch { sink with active := none } (fun _ => Fine sha256)
      (fun _ => Fine sha256) := by
  have shape : ∃ begun, sink.connection.begun = some begun ∧
      begun.blobs <+: sink.connection.database.blobs ∧
      ∀ row ∈ begun.blobs, Ahead sink.batchPackStart row := by
    have shape := sound.batch
    unfold BatchShape at shape
    cases busy : sink.active with
    | some active =>
        rw [busy] at shape
        obtain ⟨-, begun, saved, isBegun, -, earlier, later, behind, -⟩ := shape
        exact ⟨begun, isBegun, earlier.trans later, behind⟩
    | none =>
        rw [busy] at shape
        simp only [opened, ↓reduceIte] at shape
        exact shape.2
  obtain ⟨begun, isBegun, earlier, behind⟩ := shape
  have durable : sink.connection.durable = begun := by
    simp [Connection.durable, isBegun]
  have kept : Kept sha256 begun.blobs begun.blobs sink.payloadPack := by
    have kept := sound.kept.fewer earlier (durable ▸ List.prefix_rfl)
    rw [durable] at kept
    exact kept
  refine .bind (M := fun _ next => Dead sha256 next ∨ ∃ life,
    next = { sink with active := none, connection := .idle begun, life }) ?_ fun _ next done => ?_
  · refine .of_onError ((transact_ensures _ _).mono (fun _ next done => ?_) fun _ _ stuck => ?_)
      fun _ _ dead => .of_pure (.inl dead)
    · obtain ⟨life, connection, done, rfl⟩ := done
      dsimp only at done
      rw [Connection.rollback_ok isBegun] at done
      obtain rfl := Except.ok.inj done
      exact .inr ⟨life, rfl⟩
    · have keeping : Keeping sha256 sink.connection.database.blobs { sink with active := none } :=
        sound.kept
      refine keeping.dead stuck ?_
      dsimp only
      rw [Connection.rollback_ok isBegun]
      intro failed
      cases failed
  · refine .get_bind ?_
    rcases done with dead | ⟨life, rfl⟩
    · refine .bind (M := fun _ last => last = next) (.of_onError
        ((truncate_dead dead.killed _).mono (fun _ _ gone => gone.elim) fun _ _ same => same)
        fun _ _ same => .of_pure same) fun _ last same => ?_
      rw [same]
      exact .of_modify (Dead.fine ⟨dead.killed, dead.kept⟩)
    · refine .bind (M := fun _ last => Dead sha256 last ∨ ∃ life, last = { sink with
        active := none
        connection := .idle begun
        payloadPack := (sink.payloadPack.setLen sink.batchPackStart).seek sink.batchPackStart
        payloadPackPosition := sink.batchPackStart
        life }) ?_ fun _ last done => .of_modify ?_
      · refine .of_onError ((truncatePayloadPack_ensures _ _).mono (fun _ last done => .inr done)
          fun _ _ stuck => ?_) fun _ _ dead => .of_pure (.inl dead)
        have keeping : Keeping sha256 begun.blobs
            { sink with active := none, connection := .idle begun, life } := kept
        exact keeping.dead stuck id
      · rcases done with dead | ⟨life, rfl⟩
        · exact Dead.fine ⟨dead.killed, dead.kept⟩
        · have size : (sink.payloadPack.setLen sink.batchPackStart).bytes.length =
              sink.batchPackStart := PackFile.setLen_length _
          refine Sound.fine ⟨kept.cut List.prefix_rfl List.prefix_rfl behind, size.symm, size.symm,
            ⟨rfl, rfl⟩, fun property there => ?_, fun attachment there => ?_⟩
          · dsimp only at there
            rw [closed] at there
            cases there
          · dsimp only at there
            rw [detached] at there
            cases there

theorem rollback_ensures (sound : Sound sha256 sink) :
    Ensures rollback sink (fun _ => Fine sha256) (fun _ => Fine sha256) := by
  refine .modify_bind (.get_bind ?_)
  have dropped := sound.dropOpen none none [] []
  split
  case isTrue opened => exact dropBatch_ensures dropped opened rfl rfl
  case isFalse unopened =>
    have idle : sink.active = none := by
      cases busy : sink.active with
      | none => rfl
      | some active =>
          have shape := sound.batch
          unfold BatchShape at shape
          rw [busy] at shape
          exact absurd shape.1 unopened
    rw [← idle]
    exact .of_pure dropped.fine

theorem checkpoint_ensures (sound : Sound sha256 sink) :
    Ensures checkpoint sink (fun _ => Fine sha256) (fun _ => Fine sha256) := by
  refine .get_bind (.attempt_bind (fun _ idle => ?_) fun _ _ => sound.fine)
  rw [refuse_eq_ok, not_not] at idle
  exact (commitCandidateBatch_ensures sound idle).mono (fun _ _ done => done.1.fine)
    fun _ _ dead => dead.fine

theorem enableDirectMetadataCapture_ensures (sound : Sound sha256 sink)
    (propertyPrefixBytes attachmentPrefixBytes : Nat) :
    Ensures (enableDirectMetadataCapture propertyPrefixBytes attachmentPrefixBytes) sink
      (fun _ => Fine sha256) (fun _ => Fine sha256) := by
  refine .get_bind (.attempt_bind (fun _ idle => ?_) fun _ _ => sound.fine)
  rw [refuse_eq_ok, not_not] at idle
  refine .attempt_bind (fun next _ => .of_modify (Sound.fine ⟨sound.kept, sound.cursor,
    sound.atEnd, sound.batch, fun property there => ?_, fun attachment there => ?_⟩))
    fun _ _ => sound.fine
  · dsimp only at there
    rw [idle.2.1] at there
    cases there
  · dsimp only at there
    rw [idle.2.2] at there
    cases there

end Attempts

end PstForge.Job
