import PstForge.Worker.Forwarding

/-! # Binding beginnings of values to candidates

A beginning of a value is captured under the path of the message that is open. Once the
message is in the ledger, the paths of its tree are known with the keys of the
candidates, and every beginning is bound to the candidate at its path.
-/

namespace PstForge.Worker

open PstForge.Foundation PstForge.Catalog PstForge.Job

section Captures

/-- The beginning of a value with what frames add to it. -/
def extendBeginning (owner : DirectStreamOwner) : Option Bytes → List Frame → Option Bytes
  | known, [] => known
  | known, frame :: frames =>
      extendBeginning owner
        (if frame.owner = some owner then some (known.getD [] ++ frame.payload) else known) frames

/-- The beginning of a value that frames have. -/
def beginning (owner : DirectStreamOwner) (frames : List Frame) : Option Bytes :=
  extendBeginning owner none frames

theorem captureFrame_same (path : List Nat) (frame : Frame) (owner : DirectStreamOwner)
    (unbound : AList fun _ : DirectPathStreamIdentity => Bytes) :
    (captureFrame path frame unbound).lookup ⟨path, owner⟩ =
      if frame.owner = some owner then
        some ((unbound.lookup ⟨path, owner⟩).getD [] ++ frame.payload)
      else unbound.lookup ⟨path, owner⟩ := by
  unfold captureFrame
  cases is : frame.owner with
  | none => simp
  | some other =>
      by_cases same : other = owner
      · subst same
        simp [captureUnbound]
      · have apart : (⟨path, owner⟩ : DirectPathStreamIdentity) ≠ ⟨path, other⟩ :=
          fun equal => same (congrArg DirectPathStreamIdentity.owner equal).symm
        simp [captureUnbound, AList.lookup_insert_ne apart, same]

theorem captureFrame_other {path other : List Nat} (apart : other ≠ path) (frame : Frame)
    (owner : DirectStreamOwner) (unbound : AList fun _ : DirectPathStreamIdentity => Bytes) :
    (captureFrame path frame unbound).lookup ⟨other, owner⟩ = unbound.lookup ⟨other, owner⟩ := by
  unfold captureFrame
  cases frame.owner with
  | none => rfl
  | some _ =>
      exact AList.lookup_insert_ne fun equal =>
        apart (congrArg DirectPathStreamIdentity.embeddedPath equal)

/-- Nothing is captured at a path where no message is. -/
theorem captureBody_other {body : MetadataBody} {path other : List Nat} (apart : other ≠ path)
    (nowhere : other ∉ body.nested.map OwnMessage.path) (owner : DirectStreamOwner)
    (unbound : AList fun _ : DirectPathStreamIdentity => Bytes) :
    (captureBody path body unbound).lookup ⟨other, owner⟩ = unbound.lookup ⟨other, owner⟩ := by
  induction body generalizing path unbound with
  | nil => rfl
  | frame item rest ih =>
      rw [captureBody, ih apart nowhere, captureFrame_other apart]
  | message start body complete rest inner ih =>
      simp only [MetadataBody.nested, List.map_cons, List.map_append, List.mem_cons,
        List.mem_append, not_or, OwnMessage.path_mk] at nowhere
      obtain ⟨notHere, notInside, notBehind⟩ := nowhere
      rw [captureBody, ih apart notBehind, inner notHere notInside]

/-- What is captured at the path of a message is the beginnings its own frames have. -/
theorem captureBody_same {body : MetadataBody} {path : List Nat}
    (distinct : (path :: body.nested.map OwnMessage.path).Nodup) (owner : DirectStreamOwner)
    (unbound : AList fun _ : DirectPathStreamIdentity => Bytes) :
    (captureBody path body unbound).lookup ⟨path, owner⟩ =
        extendBeginning owner (unbound.lookup ⟨path, owner⟩) body.own ∧
      ∀ message ∈ body.nested, (captureBody path body unbound).lookup ⟨message.path, owner⟩ =
        extendBeginning owner (unbound.lookup ⟨message.path, owner⟩) message.own := by
  induction body generalizing path unbound with
  | nil =>
      refine ⟨rfl, fun message member => ?_⟩
      cases member
  | frame item rest ih =>
      obtain ⟨here, inside⟩ := ih distinct (captureFrame path item unbound)
      rw [captureFrame_same] at here
      refine ⟨here, fun message member => ?_⟩
      have apart : message.path ≠ path := fun same =>
        (List.nodup_cons.mp distinct).1 (same ▸ List.mem_map_of_mem member)
      rw [captureBody, inside message member, captureFrame_other apart]
  | message start body complete rest inner ih =>
      simp only [MetadataBody.nested, List.map_cons, List.map_append,
        OwnMessage.path_mk] at distinct
      obtain ⟨notPath, distinct⟩ := List.nodup_cons.mp distinct
      obtain ⟨notChild, distinct⟩ := List.nodup_cons.mp distinct
      simp only [List.mem_cons, List.mem_append, not_or] at notPath notChild
      obtain ⟨distinctInside, distinctBehind, disjoint⟩ := List.nodup_append'.mp distinct
      have first := inner (List.nodup_cons.mpr ⟨notChild.1, distinctInside⟩) unbound
      have second := ih (List.nodup_cons.mpr ⟨notPath.2.2, distinctBehind⟩)
        (captureBody start.metadata.embeddedPath body unbound)
      constructor
      · rw [captureBody, second.1, captureBody_other notPath.1 notPath.2.1]
        rfl
      intro message member
      rw [captureBody]
      rcases List.mem_cons.mp member with rfl | member
      · rw [OwnMessage.path_mk, captureBody_other (Ne.symm notPath.1) notChild.2]
        exact first.1
      rcases List.mem_append.mp member with member | member
      · have there := List.mem_map_of_mem (f := OwnMessage.path) member
        have apart : message.path ≠ path := fun same => notPath.2.1 (same ▸ there)
        rw [captureBody_other apart fun behind => disjoint there behind]
        exact first.2 message member
      · have there := List.mem_map_of_mem (f := OwnMessage.path) member
        have apart : message.path ≠ start.metadata.embeddedPath :=
          fun same => notChild.2 (same ▸ there)
        rw [second.2 message member, captureBody_other apart fun inside => disjoint inside there]

end Captures

section Keys

/-- The paths of a tree with the keys of its candidates. -/
def pathKeysOf (ownerships : List CandidateOwnership) : AList fun _ : List Nat => ItemKey :=
  ownerships.foldl (fun keys ownership => keys.insert ownership.embeddedPath ownership.itemKey) ∅

theorem lookup_foldl_other {ownerships : List CandidateOwnership} {path : List Nat}
    (nowhere : ∀ ownership ∈ ownerships, ownership.embeddedPath ≠ path)
    (keys : AList fun _ : List Nat => ItemKey) :
    (ownerships.foldl (fun keys ownership =>
      keys.insert ownership.embeddedPath ownership.itemKey) keys).lookup path = keys.lookup
        path := by
  induction ownerships generalizing keys with
  | nil => rfl
  | cons ownership ownerships ih =>
      rw [List.foldl_cons, ih (fun other member => nowhere other (List.mem_cons_of_mem _ member)),
        AList.lookup_insert_ne (nowhere ownership List.mem_cons_self).symm]

theorem lookup_foldl_same {ownerships : List CandidateOwnership} {path : List Nat} {key : ItemKey}
    (alone : ∀ ownership ∈ ownerships, ownership.embeddedPath = path → ownership.itemKey = key)
    (keys : AList fun _ : List Nat => ItemKey)
    (there : keys.lookup path = some key ∨ ∃ ownership ∈ ownerships,
      ownership.embeddedPath = path) :
    (ownerships.foldl (fun keys ownership =>
      keys.insert ownership.embeddedPath ownership.itemKey) keys).lookup path = some key := by
  induction ownerships generalizing keys with
  | nil =>
      rcases there with there | ⟨ownership, member, -⟩
      · exact there
      · cases member
  | cons ownership ownerships ih =>
      rw [List.foldl_cons]
      refine ih (fun other member => alone other (List.mem_cons_of_mem _ member)) _ ?_
      by_cases same : ownership.embeddedPath = path
      · refine .inl ?_
        rw [← alone ownership List.mem_cons_self same, ← same]
        exact AList.lookup_insert _
      rcases there with there | ⟨other, member, is⟩
      · refine .inl ?_
        rw [AList.lookup_insert_ne (Ne.symm same)]
        exact there
      rcases List.mem_cons.mp member with rfl | member
      · exact absurd is same
      · exact .inr ⟨other, member, is⟩

/-- The key at a path is that of the row there. -/
theorem lookup_pathKeysOf {rows : List CandidateRow} {ownerships : List CandidateOwnership}
    (owners : ∀ ownership, ownership ∈ ownerships ↔ ∃ row ∈ rows, row.ownership = ownership)
    (distinct : (rows.map (·.embeddedPath)).Nodup) {row : CandidateRow} (member : row ∈ rows) :
    (pathKeysOf ownerships).lookup row.embeddedPath = some row.itemKey := by
  refine lookup_foldl_same (fun ownership there same => ?_) ∅
    (.inr ⟨row.ownership, (owners _).mpr ⟨row, member, rfl⟩, rfl⟩)
  obtain ⟨other, isRow, rfl⟩ := (owners ownership).mp there
  rw [List.inj_on_of_nodup_map distinct isRow member same]
  rfl

theorem lookup_pathKeysOf_some {rows : List CandidateRow} {ownerships : List CandidateOwnership}
    (owners : ∀ ownership, ownership ∈ ownerships ↔ ∃ row ∈ rows, row.ownership = ownership)
    (distinct : (rows.map (·.embeddedPath)).Nodup) {path : List Nat} {key : ItemKey}
    (found : (pathKeysOf ownerships).lookup path = some key) :
    ∃ row ∈ rows, row.embeddedPath = path ∧ row.itemKey = key := by
  by_cases nowhere : ∀ ownership ∈ ownerships, ownership.embeddedPath ≠ path
  · rw [pathKeysOf, lookup_foldl_other nowhere, AList.lookup_empty] at found
    cases found
  · push Not at nowhere
    obtain ⟨ownership, there, is⟩ := nowhere
    obtain ⟨row, member, rfl⟩ := (owners ownership).mp there
    have known := lookup_pathKeysOf owners distinct member
    replace is : row.embeddedPath = path := is
    rw [is, found] at known
    exact ⟨row, member, is, (Option.some.inj known).symm⟩

end Keys

section Binding

variable {pathKeys : AList fun _ : List Nat => ItemKey}

/-- Beginnings with a candidate at their path are bound. -/
theorem bindPrefixes_ok {entries : List (Sigma fun _ : DirectPathStreamIdentity => Bytes)}
    (bound : ∀ entry ∈ entries, ∃ key, pathKeys.lookup entry.1.embeddedPath = some key)
    (prefixes : AList fun _ : DirectStreamIdentity => Bytes) :
    ∃ prefixes', bindPrefixes pathKeys entries prefixes = .ok prefixes' := by
  induction entries generalizing prefixes with
  | nil => exact ⟨prefixes, rfl⟩
  | cons entry entries ih =>
      obtain ⟨identity, bytes⟩ := entry
      obtain ⟨key, there⟩ := bound _ List.mem_cons_self
      simp only [bindPrefixes, there, okOr, bind, Except.bind]
      exact ih (fun entry member => bound entry (List.mem_cons_of_mem _ member)) _

/-- Nothing else is bound to a candidate. -/
theorem bindPrefixes_other {entries : List (Sigma fun _ : DirectPathStreamIdentity => Bytes)}
    {prefixes prefixes' : AList fun _ : DirectStreamIdentity => Bytes}
    (done : bindPrefixes pathKeys entries prefixes = .ok prefixes')
    {identity : DirectStreamIdentity}
    (nowhere : ∀ entry ∈ entries, entry.1.owner = identity.owner →
      pathKeys.lookup entry.1.embeddedPath ≠ some identity.itemKey) :
    prefixes'.lookup identity = prefixes.lookup identity := by
  induction entries generalizing prefixes with
  | nil => rw [Except.ok.inj done]
  | cons entry entries ih =>
      obtain ⟨path, bytes⟩ := entry
      obtain ⟨key, there, done⟩ := bind_eq_ok.mp done
      rw [ih done fun entry member => nowhere entry (List.mem_cons_of_mem _ member)]
      refine AList.lookup_insert_ne fun same => ?_
      have key' : key = identity.itemKey := (congrArg DirectStreamIdentity.itemKey same).symm
      refine nowhere _ List.mem_cons_self (congrArg DirectStreamIdentity.owner same).symm ?_
      rw [← key']
      exact okOr_eq_ok.mp there

/-- A beginning is bound to the candidate at its path. -/
theorem bindPrefixes_same {entries : List (Sigma fun _ : DirectPathStreamIdentity => Bytes)}
    (distinct : entries.NodupKeys)
    (injective : ∀ first second key, pathKeys.lookup first = some key →
      pathKeys.lookup second = some key → first = second)
    {prefixes prefixes' : AList fun _ : DirectStreamIdentity => Bytes}
    (done : bindPrefixes pathKeys entries prefixes = .ok prefixes')
    {path : List Nat} {owner : DirectStreamOwner} {bytes : Bytes} {key : ItemKey}
    (member : ⟨⟨path, owner⟩, bytes⟩ ∈ entries) (known : pathKeys.lookup path = some key) :
    prefixes'.lookup ⟨key, owner⟩ = some bytes := by
  induction entries generalizing prefixes with
  | nil => cases member
  | cons entry entries ih =>
      obtain ⟨identity, bytes'⟩ := entry
      obtain ⟨key', there, done⟩ := bind_eq_ok.mp done
      obtain ⟨notAgain, distinct⟩ := List.nodupKeys_cons.mp distinct
      rcases List.mem_cons.mp member with same | member
      · cases same
        have same : key' = key := Option.some.inj ((okOr_eq_ok.mp there).symm.trans known)
        rw [bindPrefixes_other done, same, AList.lookup_insert]
        -- no other path has this candidate
        intro other isEntry sameOwner isKey
        refine notAgain (List.mem_keys.mpr ⟨other.2, ?_⟩)
        have samePath := injective _ _ _ isKey known
        have same : other.1 = ⟨path, owner⟩ := by
          rw [← samePath]
          exact congrArg (DirectPathStreamIdentity.mk _) sameOwner
        rw [← same]
        exact isEntry
      · exact ih distinct done member

end Binding

end PstForge.Worker
