import DatalogFragments.Proofs.Query.Compilation

/-!
# Fresh names and the projection

Fresh names avoid every name that some fragment uses.  The projection is passed
through as given and its names are not among the taken ones.  So a name that
only the projection mentions can be drawn, and then what is projected under it
is a private variable of a fragment.  This file says when that happens: just
when the names to be drawn would be others if those of the projection were
taken as well.

## Main results

* `renamedSlices_eq_of_apart` — taking further names that are not drawn;
* `Query.Projected`, `Query.compile_projection` — what fresh names guarantee for
  a projection, and when they capture it;
* `Query.compile_captures_projection` — a captured projection.
-/

namespace DatalogFragments

/-- Names that are taken in addition leave the renamed fragments as they are iff
none of them is drawn. -/
theorem renameSlices_append_eq_iff {slices : List Fragment}
    (h : ∀ f ∈ slices, f.WellFormed)
    (hInfo : (orderSlices slices).findSome? Fragment.infoFault? = none)
    (names : List String) :
    renameSlices 0 (names ++ usedNames slices) (orderSlices slices) =
        .ok (renamedSlices slices) ↔
      ∀ n ∈ drawnNames slices, n ∉ names := by
  let taken := names ++ usedNames slices
  let ρ := renamingOf sliceBase 0 taken (orderSlices slices)
  have hTaken : ∀ f ∈ orderSlices slices, ∀ n ∈ f.names, n ∈ taken :=
    fun f hf n hn => List.mem_append_right _
      (usedNames_of_mem_orderSlices slices f hf n hn)
  have hApart : FreshenedApart (orderSlices slices) ρ taken :=
    freshenedApart_renamingOf isVariableName_sliceBase 0 taken _
  have hRun : renameSlices 0 taken (orderSlices slices) =
      .ok ((orderSlices slices).mapIdx fun k f => f.renamed (ρ k)) := by
    rw [renameSlices_eq (fun f hf => h f (mem_orderSlices.mp hf)) 0 taken hTaken,
      hInfo, okUnless_none]
  rw [hRun, Except.ok.injEq]
  constructor
  · intro hEq n hn hMem
    rw [drawnNames, ← hEq, List.mem_flatMap] at hn
    obtain ⟨g, hg, hn⟩ := hn
    obtain ⟨k, hk⟩ := List.mem_iff_getElem?.mp hg
    rw [List.getElem?_mapIdx, Option.map_eq_some_iff] at hk
    obtain ⟨f, hf, rfl⟩ := hk
    have hFresh := hApart.freshens k f hf
    obtain ⟨s, hs, rfl⟩ := (Fragment.mem_privateNames_renamed hFresh
      (hTaken f (List.mem_of_getElem? hf))).mp hn
    exact hFresh.fresh s hs (List.mem_append_left _ hMem)
  · intro hNone
    have hSame : ρ = compiledMap slices := by
      refine renamingOf_mono isVariableName_sliceBase 0
        (fun _ => List.mem_append_right _) _ ?_
      intro k f hf s hs hMem
      rcases List.mem_append.mp hMem with hMem | hMem
      · exact hNone _ (mem_drawnNames.mpr ⟨k, s, ⟨f, hf, hs⟩, rfl⟩) hMem
      · exact compiledMap_not_used ⟨f, hf, hs⟩ hMem
    rw [hSame]
    rfl

namespace Query

/-- A projection given as a list of terms. -/
def projection (terms : List Clause) : Value := .list (terms.map .term)

/-- The names of the symbols that occur in a projection. -/
def projectedNames (terms : List Clause) : List String :=
  (Term.symbolsOf terms).map Symbol.name

/-- What a compiled query guarantees for its projection. -/
structure Projected (terms : List Clause) (slices : List Fragment) (q : Query) :
    Prop where
  find_eq : q.find = projection terms
  /-- Fresh names are variables that no fragment uses, so what is projected and
  occurs in some fragment is safe. -/
  fresh : ∀ n ∈ q.privateNames,
    isVariableName n = true ∧ ∀ f ∈ slices, n ∉ f.names
  /-- A projected name is captured iff it made a difference to take the
  projected names, too, before fresh ones are drawn. -/
  captured_iff : (∃ n ∈ projectedNames terms, n ∈ q.privateNames) ↔
    renameSlices 0 (projectedNames terms ++ usedNames slices)
      (orderSlices slices) ≠ .ok q.slices

/-- Fresh names stay apart from what the fragments use, and from the projection
as long as that would not have changed them. -/
theorem compile_projection (terms : List Clause) (slices : List Fragment)
    (q : Query) (hValid : ∀ f ∈ slices, f.Valid)
    (hCompile : compile (projection terms) slices = .ok q) :
    Projected terms slices q := by
  have hWell : ∀ f ∈ slices, f.WellFormed :=
    fun f hf => f.valid_iff.mp (hValid f hf)
  have hInfo := infoFault_of_compile_eq_ok hWell hCompile
  obtain ⟨a, -, rfl⟩ := exists_of_compile_eq_ok hWell hCompile
  refine ⟨rfl, ?_, ?_⟩
  · intro n hn
    obtain ⟨k, s, hs, rfl⟩ := mem_drawnNames.mp hn
    refine ⟨isVariableName_compiledMap hs, fun g hg hMem => ?_⟩
    exact compiledMap_not_used hs (names_subset_usedNames slices g hg _ hMem)
  · have hIff := not_congr
      (renameSlices_append_eq_iff hWell hInfo (projectedNames terms))
    push Not at hIff
    exact (exists_congr fun n => and_comm).trans hIff.symm

/-- A fragment that keeps `?x` to itself. -/
def asking : Fragment where
  clauses := [.vector [.named "?e", .literal (.keyword ":a"), .named "?x"]]
  provide := [Symbol.plain "?e", Symbol.plain "$"]

theorem asking_valid : ∀ f ∈ [asking], f.Valid := by
  rw [List.forall_mem_singleton]
  rfl

private theorem exists_compile_asking (find : Value) :
    ∃ q, compile find [asking] = .ok q := by
  refine exists_compile_of_valid asking_valid find rfl rfl ?_ fun n => ?_
  · rw [List.forall_mem_singleton]
    rfl
  · exact List.pairwise_singleton _ _

theorem compile_projection_asking :
    (∀ f ∈ [asking], f.Valid) ∧ ∃ q,
      compile (projection [.named "?e", .named "?x"]) [asking] = .ok q ∧
      Projected [.named "?e", .named "?x"] [asking] q := by
  obtain ⟨q, hq⟩ := exists_compile_asking (projection [.named "?e", .named "?x"])
  exact ⟨asking_valid, q, hq, compile_projection _ [asking] q asking_valid hq⟩

/-- A projection that asks for a name which happens to be the fresh one of a
private variable captures that variable. -/
theorem compile_captures_projection :
    asking.Valid ∧ ∃ q,
      compile (projection [.named "?e", .named "?x__0_0"]) [asking] = .ok q ∧
      ∃ n ∈ projectedNames [.named "?e", .named "?x__0_0"], n ∈ q.privateNames := by
  have hWell : ∀ f ∈ [asking], f.WellFormed :=
    fun f hf => f.valid_iff.mp (asking_valid f hf)
  have hDrawn : compiledMap [asking] 0 "?x" = "?x__0_0" := by
    rw [compiledMap, orderSlices_singleton]
    rfl
  obtain ⟨q, hq⟩ :=
    exists_compile_asking (projection [.named "?e", .named "?x__0_0"])
  obtain ⟨a, -, rfl⟩ := exists_of_compile_eq_ok hWell hq
  refine ⟨rfl, _, hq, "?x__0_0", by decide, ?_⟩
  refine mem_drawnNames.mpr ⟨0, "?x", ⟨asking, ?_, by decide⟩, hDrawn⟩
  rw [orderSlices_singleton]
  rfl

end Query

end DatalogFragments
