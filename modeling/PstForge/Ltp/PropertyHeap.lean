import PstForge.Ltp.HeapTree

/-! # Property contexts read back

The records of a property context are found through the tree that its first page names, and the
reference of a record leads to the bytes of its value. This holds of both forms. The external form
keeps every allocation within the limit of the format; the compact form puts all records into one
allocation and each value into another, whatever their lengths.
-/

namespace PstForge.Ltp

open PstForge.Foundation PstForge.Ndb

section Records

variable {find find' : HeapId → Option Bytes}

/-- The word of a property record, which carries the value or refers to its bytes. -/
def ValueStored (find : HeapId → Option Bytes) (value : PropertyValue) (word : Bytes) : Prop :=
  match value.inlineValue with
  | some inline => word = leBytes 4 inline
  | none => ∃ bytes, value.variableBytes = .ok (some bytes) ∧
      if bytes = [] then word = leBytes 4 0 else find ⟨leValue word⟩ = some bytes

/-- A property record: the identifier, the type, and the word of the value. -/
def RecordStored (find : HeapId → Option Bytes) (property : Nat × PropertyValue) (record : Bytes) :
    Prop :=
  record.take 4 = leBytes 2 property.1 ++ leBytes 2 property.2.propertyType.code ∧
    ValueStored find property.2 (record.drop 4)

/-- The pages of a heap hold the properties of a list, in the order of their identifiers. -/
def PropertiesStored (pages : List Bytes) (properties : Properties) : Prop :=
  ∃ header records, userRoot pages = some header ∧
    readTree (findEntry pages) 2 6 header = some records ∧
    List.Forall₂ (RecordStored (findEntry pages)) (sortByKey (·.1) properties) records

/-- The bytes that some property of a list keeps outside its record. -/
def HeapValue (properties : Properties) (bytes : Bytes) : Prop :=
  ∃ property ∈ properties, property.2.inlineValue = none ∧
    property.2.variableBytes = .ok (some bytes) ∧ bytes ≠ []

theorem ValueStored.mono {value : PropertyValue} {word : Bytes}
    (stored : ValueStored find value word)
    (extends' : Extends find find') : ValueStored find' value word := by
  unfold ValueStored at stored ⊢
  split
  · rename_i inline hinline
    rwa [hinline] at stored
  · rename_i hinline
    rw [hinline] at stored
    obtain ⟨bytes, hbytes, word⟩ := stored
    refine ⟨bytes, hbytes, ?_⟩
    split
    · rename_i empty
      rwa [if_pos empty] at word
    · rename_i nonempty
      rw [if_neg nonempty] at word
      exact extends' _ _ word

/-- Records of eight bytes for the properties of a list. -/
def RecordsFor (find : HeapId → Option Bytes) : Properties → List Bytes → Prop :=
  List.Forall₂ fun property record => record.length = 8 ∧ RecordStored find property record

theorem RecordsFor.mono {properties : Properties} {records : List Bytes}
    (stored : RecordsFor find properties records) (extends' : Extends find find') :
    RecordsFor find' properties records :=
  List.Forall₂.imp (fun _ _ record => ⟨record.1, record.2.1, record.2.2.mono extends'⟩) stored

theorem RecordsFor.full {properties : Properties} {records : List Bytes}
    (stored : RecordsFor find properties records) : ∀ record ∈ records, record.length = 8 := by
  induction stored with
  | nil => exact fun _ member => absurd member List.not_mem_nil
  | cons head _ ih => exact List.forall_mem_cons.mpr ⟨head.1, ih⟩

/-- A record whose word was formed for its value. -/
theorem record_ok {property : Nat × PropertyValue} {word : Bytes} (four : word.length = 4)
    (stored : ValueStored find property.2 word) :
    (leBytes 2 property.1 ++ leBytes 2 property.2.propertyType.code ++ word).length = 8 ∧
      RecordStored find property
        (leBytes 2 property.1 ++ leBytes 2 property.2.propertyType.code ++ word) := by
  have front : (leBytes 2 property.1 ++ leBytes 2 property.2.propertyType.code).length = 4 := by
    rw [List.length_append, length_leBytes, length_leBytes]
  refine ⟨?_, List.take_left' front, ?_⟩
  · rw [List.length_append, front, four]
  · rwa [List.drop_left' front]

theorem valueStored_inline {value : PropertyValue} {inline : Nat}
    (hinline : value.inlineValue = some inline) : ValueStored find value (leBytes 4 inline) := by
  rw [ValueStored, hinline]

theorem valueStored_empty {value : PropertyValue} (hinline : value.inlineValue = none)
    (hbytes : value.variableBytes = .ok (some [])) : ValueStored find value (leBytes 4 0) := by
  rw [ValueStored, hinline]
  exact ⟨[], hbytes, by rw [if_pos rfl]⟩

theorem valueStored_reference {value : PropertyValue} {bytes : Bytes} {id : HeapId}
    (hinline : value.inlineValue = none) (hbytes : value.variableBytes = .ok (some bytes))
    (nonempty : bytes ≠ []) (valid : id.Valid) (found : find id = some bytes) :
    ValueStored find value (leBytes 4 id.value) := by
  rw [ValueStored, hinline]
  refine ⟨bytes, hbytes, ?_⟩
  rw [if_neg nonempty, leValue_leBytes valid.small]
  exact found

theorem heapValue_cons {property : Nat × PropertyValue} {properties : Properties} {bytes : Bytes} :
    HeapValue (property :: properties) bytes ↔
      (property.2.inlineValue = none ∧ property.2.variableBytes = .ok (some bytes) ∧ bytes ≠ []) ∨
        HeapValue properties bytes := by
  simp only [HeapValue, List.exists_mem_cons_iff]

end Records

section Compact

/-- The records of the compact form refer to the allocations behind the records. -/
theorem compactRecords_ok {properties : Properties} : ∀ {allocations values : List Bytes}
    {records : Bytes}, compactRecords allocations properties = .ok (records, values) →
      ∃ more recordList, values = allocations ++ more ∧ records = recordList.flatten ∧
        (∀ header whole, RecordsFor (entryOf [header :: whole :: values]) properties recordList) ∧
        ∀ bytes, bytes ∈ more ↔ HeapValue properties bytes := by
  induction properties with
  | nil =>
      intro allocations values records hrecords
      cases hrecords
      exact ⟨[], [], (List.append_nil _).symm, rfl, fun _ _ => .nil, by simp [HeapValue]⟩
  | cons property rest ih =>
      intro allocations values records hrecords
      obtain ⟨propertyId, value⟩ := property
      rw [compactRecords] at hrecords
      cases hinline : value.inlineValue with
      | some inline =>
          simp only [hinline, bind_eq_ok] at hrecords
          obtain ⟨⟨others, final⟩, hrest, hpure⟩ := hrecords
          cases hpure
          obtain ⟨more, recordList, rfl, rfl, stored, same⟩ := ih hrest
          refine ⟨more, _ :: recordList, rfl, rfl, fun header whole => .cons ?_
            (stored header whole),
            fun bytes => ?_⟩
          · exact record_ok (length_leBytes 4 _) (valueStored_inline hinline)
          · rw [heapValue_cons, same, hinline]
            simp
      | none =>
          simp only [hinline, bind_eq_ok, okOr_eq_ok] at hrecords
          obtain ⟨_, hencoded, bytes, rfl, hrecords⟩ := hrecords
          split at hrecords
          · rename_i empty
            obtain rfl := List.isEmpty_iff.mp empty
            simp only [bind_eq_ok] at hrecords
            obtain ⟨⟨others, final⟩, hrest, hpure⟩ := hrecords
            cases hpure
            obtain ⟨more, recordList, rfl, rfl, stored, same⟩ := ih hrest
            refine ⟨more, _ :: recordList, rfl, rfl,
              fun header whole => .cons ?_ (stored header whole), fun bytes => ?_⟩
            · exact record_ok (length_leBytes 4 _) (valueStored_empty hinline hencoded)
            · rw [heapValue_cons, same, hencoded]
              constructor
              · exact .inr
              · rintro (⟨-, found, nonempty⟩ | later)
                · cases found
                  exact absurd rfl nonempty
                · exact later
          · rename_i nonempty
            rw [List.isEmpty_iff] at nonempty
            simp only [bind_eq_ok, okOr_eq_ok, tryFrom_eq_some] at hrecords
            obtain ⟨_, ⟨rfl, small⟩, hrecords⟩ := hrecords
            split at hrecords
            · cases hrecords
            · rename_i id hnew
              simp only [bind_eq_ok] at hrecords
              obtain ⟨⟨others, final⟩, hrest, hpure⟩ := hrecords
              cases hpure
              obtain ⟨more, recordList, rfl, rfl, stored, same⟩ := ih hrest
              have hid : HeapId.ofIndex ((allocations ++ [bytes]).length + 2) 0 = .ok id := by
                rw [HeapId.ofIndex, hnew]
              obtain ⟨valid, block, index⟩ := ofIndex_ok hid (Nat.succ_pos _) (by decide)
              refine ⟨bytes :: more, _ :: recordList, ?_, rfl,
                fun header whole => .cons ?_ (stored header whole), fun other => ?_⟩
              · rw [List.append_assoc, List.singleton_append]
              · refine record_ok (length_leBytes 4 _)
                  (valueStored_reference hinline hencoded nonempty valid ?_)
                have position : (allocations ++ [bytes]).length + 2 - 1 =
                    allocations.length + 2 := by
                  rw [List.length_append, List.length_singleton]
                  omega
                rw [entryOf, block, index, position]
                simp
              · rw [List.mem_cons, heapValue_cons, same, hinline, hencoded]
                constructor
                · rintro (rfl | later)
                  · exact .inl ⟨rfl, rfl, nonempty⟩
                  · exact .inr later
                · rintro (⟨-, found, -⟩ | later)
                  · cases found
                    exact .inl rfl
                  · exact .inr later

theorem mem_sortByKey {α : Type} {key : α → Nat} {source : List α} {element : α} :
    element ∈ sortByKey key source ↔ element ∈ source := (sortByKey_perm key source).mem_iff

theorem heapValue_sorted {properties : Properties} {bytes : Bytes} :
    HeapValue (sortByKey (·.1) properties) bytes ↔ HeapValue properties bytes := by
  simp only [HeapValue, mem_sortByKey]

/-- The compact form holds its properties, and keeps within the limit exactly when the records
and every value do. -/
theorem propertyContext_stored {properties : Properties} {page : Bytes}
    (hcontext : propertyContext properties = .ok page) :
    PropertiesStored [page] properties ∧ (WithinLimit [page] ↔
      properties.length * 8 ≤ maxHeapAllocation ∧
        ∀ bytes, HeapValue properties bytes → bytes.length ≤ maxHeapAllocation) := by
  simp only [propertyContext, bind_eq_ok] at hcontext
  obtain ⟨⟨records, values⟩, hrecords, root, hroot, hpage⟩ := hcontext
  obtain ⟨valid, block, index⟩ := ofIndex_ok hroot (by decide) (by decide)
  obtain ⟨_, recordList, rfl, rfl, stored, same⟩ := compactRecords_ok hrecords
  have holds : HeapFrom 0 [page]
      [heapTreeHeader 2 6 0 root :: recordList.flatten :: values] :=
        ⟨heapPage_pageAt hpage, trivial⟩
  have find : findEntry [page] =
      entryOf [heapTreeHeader 2 6 0 root :: recordList.flatten :: values] := funext holds.findEntry
  have recordsStored := stored (heapTreeHeader 2 6 0 root) recordList.flatten
  have whole := wholeRecords (by decide : 0 < 8) recordsStored.full
  constructor
  · have headed : findEntry [page] ⟨32⟩ = some (heapTreeHeader 2 6 0 root) := by
      rw [find]
      rfl
    have below : descendTree (findEntry [page]) 2 0 [root] = some [root] := rfl
    have found : [root].mapM (findEntry [page]) = some [recordList.flatten] := by
      rw [find]
      simp [entryOf, block, index]
    have read := readTree_ok headed valid (by decide) below found
    rw [List.flatMap_singleton, whole] at read
    refine ⟨⟨32⟩, recordList, holds.userRoot (List.cons_ne_nil _ _), read, ?_⟩
    rw [find]
    exact recordsStored.imp fun _ _ record => record.2
  · have length : recordList.flatten.length = properties.length * 8 := by
      rw [List.length_flatten, List.map_congr_left recordsStored.full, List.map_const',
        List.sum_replicate, smul_eq_mul, ← recordsStored.length_eq,
        (sortByKey_perm (fun property : Nat × PropertyValue => property.1) properties).length_eq]
    rw [holds.withinLimit, List.forall_mem_singleton, List.forall_mem_cons, List.forall_mem_cons,
      length]
    have header : (heapTreeHeader 2 6 0 root).length ≤ maxHeapAllocation := by
      simp [heapTreeHeader, maxHeapAllocation]
    simp only [header, true_and, same, heapValue_sorted]

end Compact

section External

/-- The records of the external form refer to the allocations of the later pages. -/
theorem externalRecords_ok {properties : Properties} : ∀ {pages pages' : List (List Bytes)}
    {records : Bytes}, externalRecords pages properties = .ok (records, pages') →
      Grew pages pages' ∧ ∃ recordList, records = recordList.flatten ∧
        RecordsFor (entryOf ([] :: pages')) properties recordList := by
  induction properties with
  | nil =>
      intro pages pages' records hrecords
      cases hrecords
      exact ⟨.refl _, [], rfl, .nil⟩
  | cons property rest ih =>
      intro pages pages' records hrecords
      obtain ⟨propertyId, value⟩ := property
      rw [externalRecords] at hrecords
      cases hinline : value.inlineValue with
      | some inline =>
          simp only [hinline, bind_eq_ok] at hrecords
          obtain ⟨⟨others, final⟩, hrest, hpure⟩ := hrecords
          cases hpure
          obtain ⟨grew, recordList, rfl, stored⟩ := ih hrest
          refine ⟨grew, _ :: recordList, rfl, .cons ?_ stored⟩
          exact record_ok (length_leBytes 4 _) (valueStored_inline hinline)
      | none =>
          simp only [hinline, bind_eq_ok, okOr_eq_ok] at hrecords
          obtain ⟨_, hencoded, bytes, rfl, hrecords⟩ := hrecords
          split at hrecords
          · rename_i empty
            obtain rfl := List.isEmpty_iff.mp empty
            simp only [bind_eq_ok] at hrecords
            obtain ⟨⟨others, final⟩, hrest, hpure⟩ := hrecords
            cases hpure
            obtain ⟨grew, recordList, rfl, stored⟩ := ih hrest
            refine ⟨grew, _ :: recordList, rfl, .cons ?_ stored⟩
            exact record_ok (length_leBytes 4 _) (valueStored_empty hinline hencoded)
          · rename_i nonempty
            rw [List.isEmpty_iff] at nonempty
            simp only [bind_eq_ok] at hrecords
            obtain ⟨⟨middle, id⟩, hpush, ⟨others, final⟩, hrest, hpure⟩ := hrecords
            cases hpure
            obtain ⟨grew, pushed⟩ := pushHeapAllocation_ok hpush
            obtain ⟨grew', recordList, rfl, stored⟩ := ih hrest
            have kept := pushed.mono grew'
            refine ⟨grew.trans grew', _ :: recordList, rfl, .cons ?_ stored⟩
            exact record_ok (length_leBytes 4 _)
              (valueStored_reference hinline hencoded nonempty kept.valid kept.found)

/-- The records that stand in groups on the heap are those of the whole list. -/
theorem groupedRecords {size count : Nat} (positive : 0 < size) (some : 0 < count)
    {records : List Bytes} (full : ∀ record ∈ records, record.length = size) :
    ((chunks (count * size) records.flatten).flatMap fun content =>
      (chunks size content).filter (·.length = size)) = records := by
  have group : ∀ group ∈ chunks count records,
      (chunks size group.flatten).filter (·.length = size) = group := by
    intro group member
    refine wholeRecords positive fun record there => full record ?_
    rw [← chunks_flatten some records]
    exact List.mem_flatten_of_mem member there
  rw [chunks_flatten_groups positive some full, List.flatMap_map, List.flatMap_def,
    List.map_congr_left group, List.map_id', chunks_flatten some]

/-- The external form holds its properties and keeps within the limit. -/
theorem propertyContextExternal_stored {properties : Properties} {pages : List Bytes}
    (hcontext : propertyContextExternal properties = .ok pages) :
    WithinLimit pages ∧ PropertiesStored pages properties := by
  simp only [propertyContextExternal, bind_eq_ok] at hcontext
  obtain ⟨_, -, ⟨records, early⟩, hrecords, ⟨middle, roots⟩, hlevel, ⟨late, levels, root⟩, hlevels,
    first, hfirst, hfinish⟩ := hcontext
  obtain ⟨grew, recordList, rfl, stored⟩ := externalRecords_ok hrecords
  obtain ⟨grew', leaves⟩ := pushTreeLevel_ok hlevel
  obtain ⟨grew'', valid, few, depth, rfl, below⟩ :=
    pushTreeLevels_ok (by decide) hlevels (stored_valid leaves) (by decide)
  have limited : Limited late := by
    have whole := (grew.trans grew').trans grew''
    exact whole.limited fun _ member => absurd member List.not_mem_nil
  have header : ∀ allocation ∈ [heapTreeHeader 2 6 (0 + depth) root],
      allocation.length ≤ maxHeapAllocation := by
    simp [heapTreeHeader, maxHeapAllocation]
  obtain ⟨within, rooted, atRoot, later⟩ :=
    finishHeapPages_finds (heapPage_pageAt hfirst) header limited hfinish
  have found := (grew''.keeps.trans later).mapM (stored_mapM leaves)
  have read := readTree_ok (atRoot ⟨32⟩ _ rfl) valid few
    ((Nat.zero_add depth).symm ▸ later.descendTree below) found
  have kept := stored.mono ((grew'.trans grew'').keeps.trans later)
  rw [groupedRecords (by decide) (by decide) kept.full] at read
  exact ⟨within, ⟨32⟩, recordList, rooted, read, kept.imp fun _ _ record => record.2⟩

end External

end PstForge.Ltp
