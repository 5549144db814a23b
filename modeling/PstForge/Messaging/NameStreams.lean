import Mathlib.Data.List.Lex
import PstForge.Messaging.NamedProp

/-! # The streams of the name-to-id map

What the writer puts into the streams and buckets of the map: the custom property sets in order,
each once; an entry for every identity, in its stream and in its bucket; and the names, padded, one
after another.
-/

namespace PstForge.Messaging

open PstForge.Foundation PstForge.Ltp PstForge.Writer

section Sets

/-- The order of property sets. -/
def SetLt (first second : Bytes) : Prop := first.map UInt8.toNat < second.map UInt8.toNat

theorem setLt_trans {first second third : Bytes} (left : SetLt first second)
    (right : SetLt second third) : SetLt first third :=
  lt_trans left right

theorem setLt_of_ne {first second : Bytes} (ne : first ≠ second) (le : ¬SetLt first second) :
    SetLt second first := by
  refine lt_of_le_of_ne (not_lt.mp le) fun same => ne ?_
  have injective : Function.Injective UInt8.toNat := fun _ _ => UInt8.toNat_inj.mp
  exact (List.map_injective_iff.mpr injective same).symm

theorem insertGuid_order {guid : Bytes} {guids : List Bytes} (ordered : guids.Pairwise SetLt) :
    (insertGuid guid guids).Pairwise SetLt ∧
      ∀ other, other ∈ insertGuid guid guids ↔ other = guid ∨ other ∈ guids := by
  induction guids with
  | nil => exact ⟨List.pairwise_singleton _ _, fun other => by simp [insertGuid]⟩
  | cons head tail ih =>
      obtain ⟨above, rest⟩ := List.pairwise_cons.mp ordered
      obtain ⟨sorted, members⟩ := ih rest
      rw [insertGuid]
      by_cases same : guid = head
      · rw [if_pos same]
        subst same
        exact ⟨ordered, fun other => by simp⟩
      · rw [if_neg same]
        split
        case isTrue lower =>
          have below : SetLt guid head := List.lex_eq_true_iff_lt.mp lower
          refine ⟨List.pairwise_cons.mpr ⟨?_, ordered⟩, fun other => List.mem_cons⟩
          intro other member
          rcases List.mem_cons.mp member with rfl | later
          · exact below
          · exact setLt_trans below (above other later)
        case isFalse higher =>
          have behind : SetLt head guid :=
            setLt_of_ne same fun lower => higher (List.lex_eq_true_iff_lt.mpr lower)
          refine ⟨List.pairwise_cons.mpr ⟨?_, sorted⟩, fun other => ?_⟩
          · intro other member
            rcases (members other).mp member with rfl | later
            · exact behind
            · exact above other later
          · rw [List.mem_cons, members, List.mem_cons]
            exact or_left_comm

/-- Add the property set of an identity to the custom sets. -/
def addSet (guids : List Bytes) (identity : NamedIdentity) : List Bytes :=
  match identity.1 with
  | .guid value => insertGuid value guids
  | .mapi | .publicStrings => guids

/-- The custom property sets that some identities use, in order. -/
def customGuids (named : List NamedIdentity) : List Bytes := named.foldl addSet []

theorem foldl_addSet {named : List NamedIdentity} : ∀ {guids : List Bytes},
    guids.Pairwise SetLt →
      (named.foldl addSet guids).Pairwise SetLt ∧
        ∀ other, other ∈ named.foldl addSet guids ↔
          other ∈ guids ∨ ∃ identity ∈ named, identity.1 = .guid other := by
  induction named with
  | nil => exact fun ordered => ⟨ordered, fun other => by simp⟩
  | cons identity rest ih =>
      intro guids ordered
      rw [List.foldl_cons]
      obtain ⟨set, name⟩ := identity
      cases set with
      | guid value =>
          obtain ⟨sorted, members⟩ := (@insertGuid_order value) ordered
          obtain ⟨whole, found⟩ := ih sorted
          refine ⟨whole, fun other => (found other).trans ?_⟩
          rw [members, List.exists_mem_cons_iff, NamedPropertySet.guid.injEq, eq_comm]
          tauto
      | mapi | publicStrings =>
          obtain ⟨whole, found⟩ := ih ordered
          refine ⟨whole, fun other => (found other).trans ?_⟩
          rw [List.exists_mem_cons_iff]
          simp

/-- The custom sets are the sets of the identities, each once. -/
theorem customGuids_sets (named : List NamedIdentity) :
    (customGuids named).Nodup ∧
      ∀ guid, guid ∈ customGuids named ↔ ∃ identity ∈ named, identity.1 = .guid guid := by
  obtain ⟨sorted, members⟩ := (@foldl_addSet named) List.Pairwise.nil
  refine ⟨sorted.imp fun less same => ?_, fun guid => (members guid).trans (by simp)⟩
  subst same
  exact lt_irrefl _ less

theorem length_insertGuid (guid : Bytes) (guids : List Bytes) :
    (insertGuid guid guids).length ≤ guids.length + 1 := by
  induction guids with
  | nil => exact Nat.le_refl _
  | cons head tail ih =>
      rw [insertGuid]
      split
      · exact Nat.le_succ _
      · split
        · exact Nat.le_refl _
        · exact Nat.succ_le_succ ih

/-- There are no more custom sets than identities. -/
theorem length_customGuids (named : List NamedIdentity) :
    (customGuids named).length ≤ named.length := by
  have from_any : ∀ guids : List Bytes,
      (named.foldl addSet guids).length ≤ guids.length + named.length := by
    induction named with
    | nil => exact fun _ => Nat.le_refl _
    | cons identity rest ih =>
        intro guids
        rw [List.foldl_cons, List.length_cons]
        have one : (addSet guids identity).length ≤ guids.length + 1 := by
          unfold addSet
          split
          · exact length_insertGuid _ _
          · exact Nat.le_succ _
          · exact Nat.le_succ _
        have rest := ih (addSet guids identity)
        omega
  have whole := from_any []
  rwa [List.length_nil, Nat.zero_add] at whole

/-- A property set is found at its position. -/
theorem findIdx_set {guids : List Bytes} {guid : Bytes} (member : guid ∈ guids) :
    ∃ position, guids.findIdx? (· = guid) = some position ∧ guids[position]? = some guid := by
  cases found : guids.findIdx? (· = guid) with
  | none =>
      rw [List.findIdx?_eq_none_iff] at found
      exact absurd (found guid member) (by simp)
  | some position =>
      refine ⟨position, rfl, ?_⟩
      obtain ⟨inside, same, -⟩ := List.findIdx?_eq_some_iff_getElem.mp found
      rw [List.getElem?_eq_getElem inside, of_decide_eq_true same]

end Sets

section Buckets

/-- The content of a bucket. -/
def bucketContent (bucket : Nat) (buckets : List (Nat × Bytes)) : Option Bytes :=
  (buckets.find? (·.1 = bucket)).map (·.2)

theorem bucketContent_cons (bucket : Nat) (head : Nat × Bytes) (tail : List (Nat × Bytes)) :
    bucketContent bucket (head :: tail) =
      if head.1 = bucket then some head.2 else bucketContent bucket tail := by
  unfold bucketContent
  rw [List.find?_cons]
  by_cases here : head.1 = bucket <;> simp [here]

/-- The numbers of the buckets ascend. -/
def Ascending (buckets : List (Nat × Bytes)) : Prop := (buckets.map (·.1)).Pairwise (· < ·)

theorem bucketContent_none {bucket : Nat} {buckets : List (Nat × Bytes)}
    (above : ∀ other ∈ buckets, bucket < other.1) : bucketContent bucket buckets = none := by
  unfold bucketContent
  rw [Option.map_eq_none_iff, List.find?_eq_none]
  intro other member
  have less := above other member
  rw [decide_eq_true_iff]
  omega

/-- Adding an entry extends its bucket and leaves the others. -/
theorem addToBucket_content {bucket : Nat} {entry : Bytes} {buckets : List (Nat × Bytes)}
    (ascending : Ascending buckets) :
    (∀ other, bucketContent other (addToBucket bucket entry buckets) =
      if other = bucket then some ((bucketContent bucket buckets).getD [] ++ entry)
      else bucketContent other buckets) ∧
    Ascending (addToBucket bucket entry buckets) ∧
    ∀ lower, lower < bucket → (∀ head ∈ buckets, lower < head.1) →
      ∀ head ∈ addToBucket bucket entry buckets, lower < head.1 := by
  induction buckets with
  | nil =>
      refine ⟨fun other => ?_, List.pairwise_singleton _ _, fun lower less _ => ?_⟩
      · rw [addToBucket, bucketContent_cons]
        by_cases same : bucket = other
        · subst same
          rfl
        · rw [if_neg same, if_neg (Ne.symm same)]
      · exact List.forall_mem_singleton.mpr less
  | cons head tail ih =>
      obtain ⟨number, content⟩ := head
      obtain ⟨above, rest⟩ := List.pairwise_cons.mp ascending
      have greater : ∀ other ∈ tail, number < other.1 :=
        fun other member => above _ (List.mem_map_of_mem member)
      obtain ⟨contents, ordered, bounded⟩ := ih rest
      rw [addToBucket]
      by_cases same : bucket = number
      · subst same
        rw [if_pos rfl]
        refine ⟨fun other => ?_, ascending, fun lower less within => ?_⟩
        · rw [bucketContent_cons, bucketContent_cons, bucketContent_cons, if_pos rfl]
          by_cases here : bucket = other
          · rw [if_pos here, if_pos here.symm]
            rfl
          · rw [if_neg here, if_neg (Ne.symm here), if_neg here]
        · exact List.forall_mem_cons.mpr ⟨less, (List.forall_mem_cons.mp within).2⟩
      · rw [if_neg same]
        by_cases lower : bucket < number
        · rw [if_pos lower]
          have before : ∀ other ∈ (number, content) :: tail, bucket < other.1 :=
            List.forall_mem_cons.mpr ⟨lower, fun other member => lower.trans (greater other member)⟩
          refine ⟨fun other => ?_, ?_, fun bound less within => ?_⟩
          · rw [bucketContent_cons, bucketContent_none before]
            by_cases here : bucket = other
            · rw [if_pos here, if_pos here.symm]
              rfl
            · rw [if_neg here, if_neg (Ne.symm here)]
          · refine List.pairwise_cons.mpr ⟨?_, ascending⟩
            intro other member
            obtain ⟨head, inside, rfl⟩ := List.mem_map.mp member
            exact before head inside
          · exact List.forall_mem_cons.mpr ⟨less, within⟩
        · rw [if_neg lower]
          refine ⟨fun other => ?_, ?_, fun bound less within => ?_⟩
          · rw [bucketContent_cons, bucketContent_cons, bucketContent_cons, contents,
              if_neg (Ne.symm same)]
            by_cases here : number = other
            · subst here
              rw [if_pos rfl, if_neg (Ne.symm same), if_pos rfl]
            · rw [if_neg here, if_neg here]
          · refine List.pairwise_cons.mpr ⟨?_, ordered⟩
            intro other member
            obtain ⟨head, inside, rfl⟩ := List.mem_map.mp member
            exact bounded number (by omega) greater head inside
          · obtain ⟨first, others⟩ := List.forall_mem_cons.mp within
            exact List.forall_mem_cons.mpr ⟨first, bounded bound less others⟩

/-- The buckets that some entries were put into, each with the bucket it belongs to. -/
def fillBuckets (records : List (Nat × Bytes)) (buckets : List (Nat × Bytes)) :
    List (Nat × Bytes) :=
  records.foldl (fun buckets record => addToBucket record.1 record.2 buckets) buckets

/-- A bucket holds the entries that belong to it, in order. -/
theorem fillBuckets_content {records : List (Nat × Bytes)} :
    ∀ {buckets : List (Nat × Bytes)}, Ascending buckets → ∀ bucket,
      bucketContent bucket (fillBuckets records buckets) =
        if (records.filter (·.1 = bucket)).isEmpty then bucketContent bucket buckets
        else some ((bucketContent bucket buckets).getD [] ++
          (records.filter (·.1 = bucket)).flatMap (·.2)) := by
  induction records with
  | nil => exact fun _ _ => rfl
  | cons record records ih =>
      intro buckets ascending bucket
      obtain ⟨contents, ordered, -⟩ := (@addToBucket_content record.1 record.2) ascending
      have rest := ih ordered bucket
      rw [fillBuckets, List.foldl_cons]
      rw [fillBuckets] at rest
      rw [rest, contents bucket, List.filter_cons]
      by_cases here : record.1 = bucket
      · subst here
        simp only [decide_true, ↓reduceIte, List.isEmpty_cons, Bool.false_eq_true]
        cases others : records.filter (·.1 = record.1) with
        | nil => simp
        | cons head tail => simp
      · simp only [here, decide_false, Bool.false_eq_true, ↓reduceIte, Ne.symm here]

end Buckets

section Streams

/-- A name in the string stream: its length, its bytes and padding. -/
def padded (encoded : Bytes) : Bytes :=
  leBytes 4 encoded.length ++ encoded ++ List.replicate ((4 - encoded.length % 4) % 4) 0

/-- The number of a property set; custom sets are numbered behind the two fixed ones. -/
def guidNumber (guids : List Bytes) : NamedPropertySet → Nat
  | .mapi => 1
  | .publicStrings => 2
  | .guid value => (guids.findIdx? (· = value)).getD 0 + 3

/-- The word that packs the number of the property set and the kind of the name. -/
def packedKind (guids : List Bytes) (identity : NamedIdentity) : Nat :=
  match identity.2 with
  | .numeric _ => guidNumber guids identity.1 * 2 % wordCount 16
  | .string _ => (guidNumber guids identity.1 * 2 % wordCount 16) ||| 1

/-- The word that a name is hashed by. -/
def hashedName : NamedPropertyName → Nat
  | .numeric value => value
  | .string name => computeCrc 0 (unicodeBytes name)

/-- The bucket that the writer puts an identity into. -/
def writerBucket (guids : List Bytes) (identity : NamedIdentity) : Nat :=
  (hashedName identity.2 ^^^ packedKind guids identity) % 251

/-- What an identity adds to the string stream. -/
def nameBytes (identity : NamedIdentity) : Bytes :=
  match identity.2 with
  | .numeric _ => []
  | .string name => padded (unicodeBytes name)

/-- The entry of an identity, with the place of its name in the string stream. -/
def recordEntry (guids : List Bytes) (index offset : Nat) (identity : NamedIdentity) : Bytes :=
  leBytes 4 (match identity.2 with
    | .numeric value => value
    | .string _ => offset) ++ leBytes 2 (packedKind guids identity) ++ leBytes 2 index

/-- Where an identity is filed: its position, and the place of its name in the string stream. -/
structure Filing where
  index : Nat
  offset : Nat
  identity : NamedIdentity

/-- The filings of identities, one after another. -/
def filings : (index offset : Nat) → List NamedIdentity → List Filing
  | _, _, [] => []
  | index, offset, identity :: rest =>
      ⟨index, offset, identity⟩ ::
        filings (index + 1) (offset + (nameBytes identity).length) rest

namespace Filing

variable (guids : List Bytes) (filing : Filing)

/-- The bytes of the entry. -/
def bytes : Bytes := recordEntry guids filing.index filing.offset filing.identity

/-- The entry with the bucket that it is put into. -/
def record : Nat × Bytes := (writerBucket guids filing.identity, filing.bytes guids)

end Filing

/-- The entries of identities, each with its bucket. -/
def records (guids : List Bytes) (index offset : Nat) (named : List NamedIdentity) :
    List (Nat × Bytes) :=
  (filings index offset named).map (Filing.record guids)

theorem length_padded (encoded : Bytes) :
    (padded encoded).length = 4 + encoded.length + (4 - encoded.length % 4) % 4 := by
  rw [padded, List.length_append, List.length_append, length_leBytes, List.length_replicate]

theorem length_nameBytes_aligned (identity : NamedIdentity) :
    (nameBytes identity).length % 4 = 0 := by
  unfold nameBytes
  cases identity.2 with
  | numeric value => rfl
  | string name =>
      dsimp only
      rw [length_padded]
      omega

/-- A name fits the fields of the string stream. -/
def NameFits (offset : Nat) (identity : NamedIdentity) : Prop :=
  match identity.2 with
  | .numeric _ => True
  | .string name => offset < wordCount 32 ∧ (unicodeBytes name).length < wordCount 32

/-- What adding an identity does to the streams. -/
structure Added (guids : List Bytes) (index : Nat) (identity : NamedIdentity)
    (before after : NameStreams) : Prop where
  entries : after.entries =
    before.entries ++ recordEntry guids index before.strings.length identity
  strings : after.strings = before.strings ++ nameBytes identity
  buckets : after.buckets = addToBucket (writerBucket guids identity)
    (recordEntry guids index before.strings.length identity) before.buckets
  fits : NameFits before.strings.length identity

/-- A name is padded so that the stream stays aligned. -/
theorem padded_aligned {strings encoded : Bytes} (aligned : strings.length % 4 = 0) :
    (strings ++ leBytes 4 encoded.length ++ encoded) ++ List.replicate
      ((4 - (strings ++ leBytes 4 encoded.length ++ encoded).length % 4) % 4) 0 =
        strings ++ padded encoded := by
  have same : (4 - (strings ++ leBytes 4 encoded.length ++ encoded).length % 4) % 4 =
      (4 - encoded.length % 4) % 4 := by
    rw [List.length_append, List.length_append, length_leBytes]
    omega
  rw [same, padded]
  simp only [List.append_assoc]

/-- The number that the writer finds for a property set. -/
def setNumber (guids : List Bytes) : NamedPropertySet → Except Ndb.WriterError Nat
  | .mapi => return 1
  | .publicStrings => return 2
  | .guid value => do
      let position ← okOr (.invalidStructure "named GUID is not indexed")
        (guids.findIdx? (· = value))
      okOr (.valueTooLarge "named-property GUID count")
        ((tryFrom 16 position).bind fun position => checkedAdd 16 position 3)

/-- Adding a name whose property set has a number. -/
def addName (streams : NameStreams) (guid : Nat) (index : Nat) :
    NamedPropertyName → Except Ndb.WriterError NameStreams
  | .numeric value => do
      let index ← okOr (.valueTooLarge "named-property count") (tryFrom 16 index)
      let kind := guid * 2 % wordCount 16
      let entry := leBytes 4 value ++ leBytes 2 kind ++ leBytes 2 index
      return ⟨streams.entries ++ entry, streams.strings,
        addToBucket ((value ^^^ kind) % 251) entry streams.buckets⟩
  | .string name => do
      let offset ← okOr (.valueTooLarge "named-property string stream")
        (tryFrom 32 streams.strings.length)
      let length ← okOr (.valueTooLarge "named-property name")
        (tryFrom 32 (unicodeBytes name).length)
      let strings := streams.strings ++ leBytes 4 length ++ unicodeBytes name
      let strings := strings ++ List.replicate ((4 - strings.length % 4) % 4) 0
      let index ← okOr (.valueTooLarge "named-property count") (tryFrom 16 index)
      let kind := (guid * 2 % wordCount 16) ||| 1
      let entry := leBytes 4 offset ++ leBytes 2 kind ++ leBytes 2 index
      return ⟨streams.entries ++ entry, strings,
        addToBucket ((computeCrc 0 (unicodeBytes name) ^^^ kind) % 251) entry streams.buckets⟩

theorem addNamedIdentity_eq (guids : List Bytes) (streams : NameStreams)
    (identity : NamedIdentity) (index : Nat) :
    addNamedIdentity guids streams identity index =
      setNumber guids identity.1 >>= fun guid => addName streams guid index identity.2 := by
  obtain ⟨set, name⟩ := identity
  cases set with
  | mapi | publicStrings => cases name <;> rfl
  | guid value =>
      rw [setNumber, bind_assoc]
      cases name <;> rfl

theorem setNumber_ok {guids : List Bytes} {set : NamedPropertySet} {number : Nat}
    (hnumber : setNumber guids set = .ok number) : number = guidNumber guids set := by
  cases set with
  | mapi | publicStrings => exact (Except.ok.inj hnumber).symm
  | guid value =>
      obtain ⟨position, found, added⟩ := bind_eq_ok.mp hnumber
      rw [okOr_eq_ok] at found added
      obtain ⟨word, small, sum⟩ := Option.bind_eq_some_iff.mp added
      obtain ⟨rfl, -⟩ := tryFrom_eq_some.mp small
      obtain ⟨rfl, -⟩ := checkedAdd_eq_some.mp sum
      rw [guidNumber, found]
      rfl

theorem addNamedIdentity_added {guids : List Bytes} {streams next : NameStreams}
    {identity : NamedIdentity} {index : Nat} (aligned : streams.strings.length % 4 = 0)
    (hrun : addNamedIdentity guids streams identity index = .ok next) :
    Added guids index identity streams next := by
  rw [addNamedIdentity_eq] at hrun
  obtain ⟨number, hnumber, hrun⟩ := bind_eq_ok.mp hrun
  obtain rfl := setNumber_ok hnumber
  obtain ⟨set, name⟩ := identity
  cases name with
  | numeric value =>
      obtain ⟨_, hindex, hpure⟩ := bind_eq_ok.mp hrun
      obtain ⟨rfl, -⟩ := tryFrom_eq_some.mp (okOr_eq_ok.mp hindex)
      obtain rfl := Except.ok.inj hpure
      exact ⟨rfl, (List.append_nil _).symm, rfl, trivial⟩
  | string name =>
      obtain ⟨offset, hoffset, hrun⟩ := bind_eq_ok.mp hrun
      obtain ⟨rfl, inside⟩ := tryFrom_eq_some.mp (okOr_eq_ok.mp hoffset)
      obtain ⟨length, hlength, hrun⟩ := bind_eq_ok.mp hrun
      obtain ⟨rfl, short⟩ := tryFrom_eq_some.mp (okOr_eq_ok.mp hlength)
      obtain ⟨_, hindex, hpure⟩ := bind_eq_ok.mp hrun
      obtain ⟨rfl, -⟩ := tryFrom_eq_some.mp (okOr_eq_ok.mp hindex)
      obtain rfl := Except.ok.inj hpure
      exact ⟨rfl, padded_aligned aligned, rfl, inside, short⟩

/-- Every name fits, from an offset on. -/
def NamesFit : (offset : Nat) → List NamedIdentity → Prop
  | _, [] => True
  | offset, identity :: rest =>
      NameFits offset identity ∧ NamesFit (offset + (nameBytes identity).length) rest

/-- What adding identities does to the streams. -/
structure AddedAll (guids : List Bytes) (index : Nat) (named : List NamedIdentity)
    (before after : NameStreams) : Prop where
  entries : after.entries =
    before.entries ++ (records guids index before.strings.length named).flatMap (·.2)
  strings : after.strings = before.strings ++ named.flatMap nameBytes
  buckets : after.buckets =
    fillBuckets (records guids index before.strings.length named) before.buckets
  fit : NamesFit before.strings.length named

theorem addNamedIdentities_added {guids : List Bytes} {named : List NamedIdentity} :
    ∀ {index : Nat} {streams final : NameStreams}, streams.strings.length % 4 = 0 →
      addNamedIdentities guids index streams named = .ok final →
        AddedAll guids index named streams final := by
  induction named with
  | nil =>
      intro index streams final _ hrun
      obtain rfl := Except.ok.inj hrun
      exact ⟨(List.append_nil _).symm, (List.append_nil _).symm, rfl, trivial⟩
  | cons identity rest ih =>
      intro index streams final aligned hrun
      obtain ⟨next, hadd, hrest⟩ := bind_eq_ok.mp hrun
      have added := addNamedIdentity_added aligned hadd
      have length : next.strings.length = streams.strings.length + (nameBytes identity).length := by
        rw [added.strings, List.length_append]
      have still : next.strings.length % 4 = 0 := by
        have piece := length_nameBytes_aligned identity
        omega
      obtain ⟨entries, strings, buckets, fit⟩ := ih still hrest
      rw [length] at entries buckets fit
      refine ⟨?_, ?_, ?_, added.fits, fit⟩
      · rw [entries, added.entries, List.append_assoc]
        rfl
      · rw [strings, added.strings, List.append_assoc, List.flatMap_cons]
      · rw [buckets, added.buckets]
        rfl

variable {named : List NamedIdentity}

theorem setNumber_runs {guids : List Bytes} (fewSets : guids.length ≤ 0x8000)
    {set : NamedPropertySet} (known : ∀ guid, set = .guid guid → guid ∈ guids) :
    ∃ number, setNumber guids set = .ok number := by
  cases set with
  | mapi => exact ⟨1, rfl⟩
  | publicStrings => exact ⟨2, rfl⟩
  | guid value =>
      obtain ⟨position, found, there⟩ := findIdx_set (known value rfl)
      have inside := (List.getElem?_eq_some_iff.mp there).1
      have word : 0x8000 + 3 < wordCount 16 := by decide
      have small : tryFrom 16 position = some position := tryFrom_eq_some.mpr ⟨rfl, by omega⟩
      have sum : checkedAdd 16 position 3 = some (position + 3) :=
        checkedAdd_eq_some.mpr ⟨rfl, by omega⟩
      refine ⟨position + 3, bind_eq_ok.mpr ⟨position, okOr_eq_ok.mpr found, okOr_eq_ok.mpr ?_⟩⟩
      exact Option.bind_eq_some_iff.mpr ⟨position, small, sum⟩

theorem addName_runs {streams : NameStreams} (number : Nat) {index : Nat} (early : index < 0x8000)
    {identity : NamedIdentity}
    (room : streams.strings.length + (nameBytes identity).length < wordCount 32) :
    ∃ next, addName streams number index identity.2 = .ok next := by
  have word : 0x8000 < wordCount 16 := by decide
  have position : tryFrom 16 index = some index := tryFrom_eq_some.mpr ⟨rfl, by omega⟩
  obtain ⟨set, name⟩ := identity
  cases name with
  | numeric value => exact ⟨_, bind_eq_ok.mpr ⟨index, okOr_eq_ok.mpr position, rfl⟩⟩
  | string name =>
      have piece : (nameBytes (set, .string name)).length =
        (padded (unicodeBytes name)).length := rfl
      rw [piece, length_padded] at room
      have offset : tryFrom 32 streams.strings.length = some streams.strings.length :=
        tryFrom_eq_some.mpr ⟨rfl, by omega⟩
      have length : tryFrom 32 (unicodeBytes name).length = some (unicodeBytes name).length :=
        tryFrom_eq_some.mpr ⟨rfl, by omega⟩
      exact ⟨_, bind_eq_ok.mpr ⟨_, okOr_eq_ok.mpr offset, bind_eq_ok.mpr ⟨_, okOr_eq_ok.mpr length,
        bind_eq_ok.mpr ⟨index, okOr_eq_ok.mpr position, rfl⟩⟩⟩⟩

/-- Adding identities succeeds while the string stream stays short. -/
theorem addNamedIdentities_runs {guids : List Bytes} (fewSets : guids.length ≤ 0x8000) :
    ∀ {index : Nat} {streams : NameStreams}, index + named.length ≤ 0x8000 →
      (∀ identity ∈ named, ∀ guid, identity.1 = .guid guid → guid ∈ guids) →
      streams.strings.length % 4 = 0 →
      streams.strings.length + (named.flatMap nameBytes).length < wordCount 32 →
        ∃ final, addNamedIdentities guids index streams named = .ok final := by
  induction named with
  | nil => exact fun _ _ _ _ => ⟨_, rfl⟩
  | cons identity rest ih =>
      intro index streams few known aligned room
      rw [List.length_cons] at few
      rw [List.flatMap_cons, List.length_append] at room
      obtain ⟨own, others⟩ := List.forall_mem_cons.mp known
      obtain ⟨number, hnumber⟩ := setNumber_runs fewSets own
      obtain ⟨next, hname⟩ := addName_runs number (by omega : index < 0x8000)
        (by omega : streams.strings.length + (nameBytes identity).length < wordCount 32)
      have hadd : addNamedIdentity guids streams identity index = .ok next := by
        rw [addNamedIdentity_eq]
        exact bind_eq_ok.mpr ⟨number, hnumber, hname⟩
      have added := addNamedIdentity_added aligned hadd
      have piece := length_nameBytes_aligned identity
      have length : next.strings.length = streams.strings.length + (nameBytes identity).length := by
        rw [added.strings, List.length_append]
      obtain ⟨final, hrest⟩ := @ih (index + 1) next (by omega) others (by omega)
        (by omega)
      exact ⟨final, bind_eq_ok.mpr ⟨next, hadd, hrest⟩⟩

end Streams

end PstForge.Messaging
