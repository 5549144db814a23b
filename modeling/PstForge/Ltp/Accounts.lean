import PstForge.Ltp.TableContext
import PstForge.Ndb.TreeAccounts

/-! # The accounts of property and table contexts

A context hands on one reference to its data block, and one to its subnode block
when it has one. In the compact form it takes the identifier that was set aside for
it; in the external form that identifier stays unused.
-/

namespace PstForge.Ltp

open PstForge.Foundation PstForge.Ndb

section Pages

theorem patchBytes_ne_nil {target value : Bytes} {offset : Nat} (nonempty : value ≠ []) :
    patchBytes target offset value ≠ [] := by
  simp [patchBytes, nonempty]

theorem leBytes_ne_nil {count : Nat} (positive : 0 < count) (value : Nat) :
    leBytes count value ≠ [] := by
  intro empty
  have length := length_leBytes count value
  rw [empty, List.length_nil] at length
  omega

theorem pageMap_ne_nil (count free : Nat) (offsets : List Nat) :
    pageMap count free offsets ≠ [] := by
  simp [pageMap, leBytes_ne_nil]

theorem heapPage_ne_nil {kind : HeapNodeType} {allocations : List Bytes} {page : Bytes}
    (hpage : heapPage kind allocations = .ok page) : page ≠ [] := by
  simp only [heapPage, bind_eq_ok] at hpage
  obtain ⟨_, -, _, -, _, -, _, -, hpage⟩ := hpage
  cases hpage
  simp [pageMap_ne_nil]

theorem heapContinuationPage_ne_nil {pageIndex : Nat} {allocations : List Bytes} {page : Bytes}
    (hpage : heapContinuationPageAllocations pageIndex allocations = .ok page) : page ≠ [] := by
  simp only [heapContinuationPageAllocations, bind_eq_ok] at hpage
  obtain ⟨_, -, _, -, _, -, hpage⟩ := hpage
  cases hpage
  simp [pageMap_ne_nil]

theorem fillHeapPage_ne_nil {page filled : Bytes} (hfill : fillHeapPage page = .ok filled) :
    filled ≠ [] := by
  unfold fillHeapPage at hfill
  split at hfill
  · rename_i full
    split at hfill
    · cases hfill
      rintro rfl
      simp [maxDataBlockPayload] at full
    · cases hfill
  · simp only [bind_eq_ok] at hfill
    obtain ⟨_, -, _, -, _, -, _, -, _, -, _, -, _, -, _, -, _, -, hfill⟩ := hfill
    cases hfill
    exact patchBytes_ne_nil (leBytes_ne_nil (by decide) _)

theorem updateHeapFillLevels_ne_nil {pages updated : List Bytes}
    (nonempty : ∀ page ∈ pages, page ≠ []) (hupdate : updateHeapFillLevels pages = .ok updated) :
    ∀ page ∈ updated, page ≠ [] := by
  unfold updateHeapFillLevels at hupdate
  obtain ⟨levels, -, hupdate⟩ := bind_eq_ok.mp hupdate
  cases pages with
  | nil => cases hupdate
  | cons root rest =>
      cases hupdate
      intro page member
      rcases List.mem_cons.mp member with rfl | member
      · exact patchBytes_ne_nil (leBytes_ne_nil (by decide) _)
      · obtain ⟨⟨old, position⟩, found, rfl⟩ := List.mem_map.mp member
        dsimp only
        split
        · refine patchBytes_ne_nil ?_
          simp [heapNodeBitmapHeader, leBytes_ne_nil]
        · exact nonempty old (.tail _ (List.fst_mem_of_mem_zipIdx found))

theorem finishHeapPages_ne_nil {first : Bytes} {allocations : List (List Bytes)}
    {pages : List Bytes} (nonempty : first ≠ [])
    (hfinish : finishHeapPages first allocations = .ok pages) : ∀ page ∈ pages, page ≠ [] := by
  simp only [finishHeapPages, bind_eq_ok] at hfinish
  obtain ⟨rest, hrest, filled, hfilled, hupdate⟩ := hfinish
  have plain : ∀ page ∈ first :: rest, page ≠ [] := by
    intro page member
    rcases List.mem_cons.mp member with rfl | member
    · exact nonempty
    · obtain ⟨⟨allocations, index⟩, -, hpage⟩ := exists_of_mem_mapM_ok hrest member
      obtain ⟨pageIndex, -, hpage⟩ := bind_eq_ok.mp hpage
      exact heapContinuationPage_ne_nil hpage
  refine updateHeapFillLevels_ne_nil (fun page member => ?_) hupdate
  rcases List.mem_append.mp member with member | member
  · obtain ⟨source, -, hfill⟩ := exists_of_mem_mapM_ok hfilled member
    exact fillHeapPage_ne_nil hfill
  · exact plain page (List.mem_of_getLast? (Option.mem_toList.mp member))

end Pages

section PropertyContext

theorem propertyContext_ne_nil {properties : Properties} {context : Bytes}
    (hcontext : propertyContext properties = .ok context) : context ≠ [] := by
  simp only [propertyContext, bind_eq_ok] at hcontext
  obtain ⟨_, -, _, -, hpage⟩ := hcontext
  exact heapPage_ne_nil hpage

theorem propertyContextExternal_ne_nil {properties : Properties} {pages : List Bytes}
    (hcontext : propertyContextExternal properties = .ok pages) : ∀ page ∈ pages, page ≠ [] := by
  simp only [propertyContextExternal, bind_eq_ok] at hcontext
  obtain ⟨_, -, _, -, _, -, _, -, first, hfirst, hfinish⟩ := hcontext
  exact finishHeapPages_ne_nil (heapPage_ne_nil hfirst) hfinish

theorem buildPropertyContext_built {properties : Properties} {preferred : BlockId}
    {counters final : Counters} {build : PropertyBuild}
    (hrun : buildPropertyContext properties preferred counters = .ok build final) :
    Built counters final [preferred] [] [build.dataBlock] build.blocks := by
  generalize hprogram : buildPropertyContext properties preferred = program at hrun
  unfold buildPropertyContext at hprogram
  split at hprogram <;> subst hprogram
  · rename_i context hcontext
    obtain ⟨rfl, rfl⟩ := pure_run_ok.mp hrun
    have writable : Writable ⟨preferred, .data context, 2⟩ := propertyContext_ne_nil hcontext
    exact Built.single final writable
  · simp only [bind_run_ok, attempt_run_ok, pure_run_ok] at hrun
    obtain ⟨pages, _, ⟨hpages, rfl⟩, ⟨root, blocks⟩, _, htree, rfl, rfl⟩ := hrun
    exact (appendDataTreePages_built (propertyContextExternal_ne_nil hpages) htree).spare _
  · simp at hrun

theorem externalizeLargeProperties_built {properties : Properties} :
    ∀ {counters final : Counters} {moved : Externalized},
      externalizeLargeProperties properties counters = .ok moved final →
        Built counters final [] [] (entryReferences moved.subnodes) moved.blocks := by
  induction properties with
  | nil =>
      intro counters final moved hrun
      obtain ⟨rfl, rfl⟩ := pure_run_ok.mp hrun
      exact .idle (Nat.le_refl _) []
  | cons property rest ih =>
      intro counters final moved hrun
      obtain ⟨propertyId, value⟩ := property
      simp only [externalizeLargeProperties, bind_run_ok, attempt_run_ok] at hrun
      obtain ⟨bytes, counters, ⟨-, rfl⟩, hrun⟩ := hrun
      -- a value that is kept leaves the account to the rest of the list
      have kept : ∀ {moved : Externalized},
          (do
            let tail ← externalizeLargeProperties rest
            return { tail with properties := (propertyId, value) :: tail.properties } :
              Ids Externalized) counters = .ok moved final →
          Built counters final [] [] (entryReferences moved.subnodes) moved.blocks := by
        intro moved hkeep
        simp only [bind_run_ok, pure_run_ok] at hkeep
        obtain ⟨tail, _, htail, rfl, rfl⟩ := hkeep
        exact (ih htail :)
      cases bytes with
      | none => exact kept hrun
      | some bytes =>
          simp only [bind_run_ok, attempt_run_ok] at hrun
          obtain ⟨_, counters, ⟨-, rfl⟩, hrun⟩ := hrun
          split at hrun
          · exact kept hrun
          · simp only [bind_run_ok, pure_run_ok] at hrun
            obtain ⟨valueNode, taken, htake, ⟨root, blocks⟩, middle, htree, tail, _, htail, rfl,
              rfl⟩ := hrun
            obtain ⟨-, -, rfl⟩ := takeValueNode_ok htake
            have built := appendDataTree_built htree
            have both := built.append (ih htail)
            have start : Built counters { counters with
                nextValueNode := counters.nextValueNode + 1 } [] [] [] [] := .idle (by simp) []
            exact start.append both

end PropertyContext

section TableContext

theorem tableContext_ne_nil {columns : List TableColumnDescriptor} {rows : List TableRowSpec}
    {table : Bytes} (htable : tableContext columns rows = .ok table) : table ≠ [] := by
  simp only [tableContext, bind_eq_ok] at htable
  obtain ⟨_, -, _, -, htable⟩ := htable
  split at htable
  · obtain ⟨_, -, hpage⟩ := bind_eq_ok.mp htable
    exact heapPage_ne_nil hpage
  · simp only [bind_eq_ok] at htable
    obtain ⟨_, -, _, -, _, -, _, -, _, -, hpage⟩ := htable
    exact heapPage_ne_nil hpage

/-- The account of the large cells that an external table has collected. -/
def CellsBuilt (start counters : Counters) (cells : ExternalCells) : Prop :=
  Built start counters [] [] (entryReferences cells.subnodes) cells.blocks

theorem writeExternalTableValue_built {start counters final : Counters} {row row' : Bytes}
    {columns : List TableColumnDescriptor} {propertyId : Nat} {value : PropertyValue}
    {cells cells' : ExternalCells} (built : CellsBuilt start counters cells)
    (hrun : writeExternalTableValue row columns propertyId value cells counters =
      .ok (row', cells') final) : CellsBuilt start final cells' := by
  simp only [writeExternalTableValue, bind_run_ok, attempt_run_ok] at hrun
  obtain ⟨column, _, ⟨-, rfl⟩, hrun⟩ := hrun
  cases hcell : inlineCell value with
  | some cell =>
      simp only [hcell, bind_run_ok, attempt_run_ok, pure_run_ok, Prod.mk.injEq] at hrun
      obtain ⟨_, _, ⟨-, rfl⟩, _, _, ⟨-, rfl⟩, ⟨-, rfl⟩, rfl⟩ := hrun
      exact built
  | none =>
      simp only [hcell, bind_run_ok, attempt_run_ok] at hrun
      obtain ⟨data, _, ⟨-, rfl⟩, hrun⟩ := hrun
      split at hrun
      · simp only [bind_run_ok, attempt_run_ok, pure_run_ok, Prod.mk.injEq] at hrun
        obtain ⟨_, _, ⟨-, rfl⟩, _, _, ⟨-, rfl⟩, ⟨-, rfl⟩, rfl⟩ := hrun
        exact built
      · split at hrun
        · simp only [bind_run_ok, attempt_run_ok, pure_run_ok, Prod.mk.injEq] at hrun
          obtain ⟨_, _, ⟨-, rfl⟩, _, _, ⟨-, rfl⟩, _, _, ⟨-, rfl⟩, ⟨-, rfl⟩, rfl⟩ := hrun
          exact built
        · simp only [bind_run_ok, attempt_run_ok, pure_run_ok, Prod.mk.injEq] at hrun
          obtain ⟨valueNode, _, ⟨-, rfl⟩, _, _, ⟨-, rfl⟩, ⟨root, blocks⟩, middle, htree, _, _,
            ⟨-, rfl⟩, _, _, ⟨-, rfl⟩, ⟨-, rfl⟩, rfl⟩ := hrun
          have both := Built.append built (appendDataTree_built htree)
          refine both.congr (fun _ => rfl) fun id => ?_
          simp

theorem writeExternalTableRow_built {start : Counters} {columns : List TableColumnDescriptor}
    {values : Properties} :
    ∀ {counters final : Counters} {row row' : Bytes} {cells cells' : ExternalCells},
      CellsBuilt start counters cells →
      writeExternalTableRow columns row cells values counters = .ok (row', cells') final →
        CellsBuilt start final cells' := by
  induction values with
  | nil =>
      intro counters final row row' cells cells' built hrun
      simp only [writeExternalTableRow, pure_run_ok, Prod.mk.injEq] at hrun
      obtain ⟨⟨-, rfl⟩, rfl⟩ := hrun
      exact built
  | cons property rest ih =>
      intro counters final row row' cells cells' built hrun
      obtain ⟨propertyId, value⟩ := property
      simp only [writeExternalTableRow, bind_run_ok] at hrun
      obtain ⟨⟨middleRow, middleCells⟩, middle, hvalue, hrest⟩ := hrun
      exact ih (writeExternalTableValue_built built hvalue) hrest

theorem writeExternalTableRows_built {start : Counters} {layout : RowLayout}
    {columns : List TableColumnDescriptor} {rows : List TableRowSpec} :
    ∀ {counters final : Counters} {matrix : Bytes} {cells cells' : ExternalCells},
      CellsBuilt start counters cells →
      writeExternalTableRows layout columns cells rows counters = .ok (matrix, cells') final →
        CellsBuilt start final cells' := by
  induction rows with
  | nil =>
      intro counters final matrix cells cells' built hrun
      simp only [writeExternalTableRows, pure_run_ok, Prod.mk.injEq] at hrun
      obtain ⟨⟨-, rfl⟩, rfl⟩ := hrun
      exact built
  | cons row rest ih =>
      intro counters final matrix cells cells' built hrun
      simp only [writeExternalTableRows, bind_run_ok, attempt_run_ok, pure_run_ok,
        Prod.mk.injEq] at hrun
      obtain ⟨_, _, ⟨-, rfl⟩, ⟨bytes, rowCells⟩, middle, hrow, ⟨others, restCells⟩, _, hrest,
        ⟨-, rfl⟩, rfl⟩ := hrun
      exact ih (writeExternalTableRow_built built hrow) hrest

theorem tableContextExternal_built {columns : List TableColumnDescriptor}
    {rows : List TableRowSpec} {counters final : Counters} {build : TableBuild}
    (hrun : tableContextExternal columns rows counters = .ok build final) :
    Built counters final [] [] (build.dataBlock :: build.subnodeBlock.toList) build.blocks := by
  simp only [tableContextExternal, bind_run_ok, attempt_run_ok, pure_run_ok] at hrun
  obtain ⟨_, _, ⟨-, rfl⟩, layout, _, ⟨-, rfl⟩, _, _, ⟨-, rfl⟩, matrixNode, _, ⟨-, rfl⟩, _,
    counters, ⟨-, rfl⟩, ⟨matrix, cells⟩, afterRows, hrows, ⟨matrixRoot, matrixBlocks⟩, afterMatrix,
      hmatrix,
    ⟨subnodeBlock, subnodeBlocks⟩, afterTree, htree, _, _, ⟨-, rfl⟩, _, _, ⟨-, rfl⟩, _, _,
    ⟨-, rfl⟩, first, _, ⟨hfirst, rfl⟩, pages, afterTree, ⟨hpages, rfl⟩, ⟨dataBlock, dataBlocks⟩, _,
      hdata,
    rfl, rfl⟩ := hrun
  have noCells : CellsBuilt counters counters ⟨[], 0x50001, [], []⟩ := .idle (Nat.le_refl _) []
  have cellsBuilt : Built counters afterRows [] [] (entryReferences cells.subnodes) cells.blocks :=
    writeExternalTableRows_built noCells hrows
  have leaves := cellsBuilt.append (appendRowMatrixDataTree_built hmatrix)
  have subnodes := appendSubnodeTree_built htree
  rw [entryReferences_append] at subnodes
  have nonempty := finishHeapPages_ne_nil (heapPage_ne_nil hfirst) hpages
  have whole := (leaves.link subnodes).append (appendDataTreePages_built nonempty hdata)
  refine whole.congr (fun _ => rfl) fun id => ?_
  simp only [Option.toList_some, List.count_cons, List.count_nil, List.singleton_append,
    List.append_nil]
  omega

theorem buildTableContext_built {columns : List TableColumnDescriptor} {rows : List TableRowSpec}
    {compactBlock : Option BlockId} {counters final : Counters} {build : TableBuild}
    (hrun : buildTableContext columns rows compactBlock counters = .ok build final) :
    Built counters final compactBlock.toList [] (build.dataBlock :: build.subnodeBlock.toList)
      build.blocks := by
  generalize hprogram : buildTableContext columns rows compactBlock = program at hrun
  unfold buildTableContext at hprogram
  split at hprogram <;> subst hprogram
  · rename_i table htable
    have nonempty := tableContext_ne_nil htable
    cases compactBlock with
    | some block =>
        simp only [bind_run_ok, pure_run_ok] at hrun
        obtain ⟨block, _, ⟨rfl, rfl⟩, rfl, rfl⟩ := hrun
        exact Built.single final (show Writable ⟨block, .data table, 2⟩ from nonempty)
    | none =>
        simp only [bind_run_ok, pure_run_ok] at hrun
        obtain ⟨block, _, htake, rfl, rfl⟩ := hrun
        obtain ⟨index, -, moved⟩ := takeBlockId_ok htake
        exact Built.claim index (by rw [moved])
          (Built.single final (show Writable ⟨block, .data table, 2⟩ from nonempty))
  · exact (tableContextExternal_built hrun).spare _
  · simp at hrun

end TableContext

end PstForge.Ltp
