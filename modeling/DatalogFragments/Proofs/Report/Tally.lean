import DatalogFragments.Report
import DatalogFragments.Proofs.Fragment.Renaming
import DatalogFragments.Proofs.Listing

/-!
# What a report counts

The totals of a report, the provided names and the repeated ones depend on
little of a fragment: its name, its interface, how many bindings it has,
whether it is locked, and the size of its clauses.  This is the outline of the
fragment.  Renaming variables leaves it as it is, and as everything is summed
up or sorted in the end, the order of the fragments does not matter either.

## Main results

* `Fragment.outline_renamed` — renaming keeps the outline;
* `Report.SameTotals`, `Report.sameTotals_of_perm` — lists with the same
  outlines in any order have the same totals;
* `Report.duplicateNames_congr` — and the same repeated names.
-/

namespace DatalogFragments

/-! ## The size of clauses -/

namespace Term

theorem depth_metricsOf (ts : List Clause) :
    (metricsOf ts).depth = (ts.map fun t => (metrics t).depth).foldr max 0 := by
  induction ts with
  | nil => rfl
  | cons t ts ih => rw [metricsOf, Metrics.beside, ih, List.map_cons, List.foldr_cons]

theorem nodes_metricsOf (ts : List Clause) :
    (metricsOf ts).nodes = total (ts.map fun t => (metrics t).nodes) := by
  induction ts with
  | nil => rfl
  | cons t ts ih => rw [metricsOf, Metrics.beside, ih, List.map_cons, total, total, List.foldr_cons]

/-- Depth and number of nodes of a clause. -/
def extent (t : Clause) : Nat × Nat := ((metrics t).depth, (metrics t).nodes)

theorem extent_sym (s : Name) : extent (.sym s) = (0, 1) := rfl

/-- The size of a composite is made of the sizes of its items. -/
def enclosedExtent (extents : List (Nat × Nat)) : Nat × Nat :=
  ((extents.map Prod.fst).foldr max 0 + 1, total (extents.map Prod.snd) + 1)

theorem extent_enclosed (ts : List Clause) :
    ((metricsOf ts).enclosed.depth, (metricsOf ts).enclosed.nodes) =
      enclosedExtent (ts.map extent) := by
  rw [Metrics.enclosed, depth_metricsOf, nodes_metricsOf, enclosedExtent, List.map_map,
    List.map_map]
  rfl

theorem extent_seq (ts : List Clause) (i : Option Value) :
    extent (.seq ts i) = enclosedExtent (ts.map extent) := by
  rw [← extent_enclosed, extent, metrics]

theorem extent_vec (ts : List Clause) (i : Option Value) :
    extent (.vec ts i) = enclosedExtent (ts.map extent) := by
  rw [← extent_enclosed, extent, metrics]

/-- Renaming symbols changes neither the depth nor the number of nodes. -/
theorem extent_renamed (ρ : String → String) (t : Clause) : (t.renamed ρ).extent = t.extent := by
  induction t using Term.induct with
  | hSym s => rw [renamed_sym, extent_sym, extent_sym]
  | hSeq xs i ih =>
      rw [renamed_seq, extent_seq, extent_seq, List.map_map]
      exact congrArg enclosedExtent (List.map_congr_left ih)
  | hVec xs i ih =>
      rw [renamed_vec, extent_vec, extent_vec, List.map_map]
      exact congrArg enclosedExtent (List.map_congr_left ih)
  | hLit v i => rw [renamed_lit]
  | hStray v => rw [renamed_stray]

end Term

/-! ## Outlines -/

/-- What the totals of a report depend on. -/
structure Outline where
  name : Value
  provide : List Name
  require : List Name
  parameters : Nat
  locked : Bool
  extents : List (Nat × Nat)

namespace Fragment

/-- The outline of a fragment. -/
def outline (f : Fragment) : Outline where
  name := f.name
  provide := f.provide
  require := f.require
  parameters := f.lets.length
  locked := f.isLocked
  extents := f.clauses.map Term.extent

theorem outline_renamed (ρ : String → String) (f : Fragment) :
    (f.renamed ρ).outline = f.outline := by
  have hExtents : (f.clauses.map (Term.renamed ρ)).map Term.extent = f.clauses.map Term.extent := by
    rw [List.map_map]
    exact List.map_congr_left fun t _ => Term.extent_renamed ρ t
  have hParameters : (f.lets.map fun p => (p.1.renamed ρ, p.2)).length = f.lets.length :=
    List.length_map _
  rw [outline, outline]
  exact congr (congrArg (fun n => Outline.mk f.name f.provide f.require n f.isLocked) hParameters)
    hExtents

end Fragment

namespace Report

/-! ## Totals -/

/-- The name is in the table of provided names. -/
def Provides (r : Report) (n : String) : Prop := n ∈ r.providedBy.map Prod.fst

/-- Two reports have the same totals. -/
structure SameTotals (r r' : Report) : Prop where
  totalSlices : r'.totalSlices = r.totalSlices
  totalClauses : r'.totalClauses = r.totalClauses
  totalParameters : r'.totalParameters = r.totalParameters
  lockedSlices : r'.lockedSlices = r.lockedSlices
  maxClauseDepth : r'.maxClauseDepth = r.maxClauseDepth
  totalTermNodes : r'.totalTermNodes = r.totalTermNodes
  provides : ∀ n, r'.Provides n ↔ r.Provides n
  unusedProvides : r'.unusedProvides = r.unusedProvides

theorem keys_append (key item n : String) (table : Table) :
    n ∈ (table.append key item).map Prod.fst ↔ n = key ∨ n ∈ table.map Prod.fst := by
  induction table with
  | nil => simp [Table.append]
  | cons row rest ih =>
      obtain ⟨k, items⟩ := row
      rw [Table.append]
      split
      · next hk => simp [hk]
      · rw [List.map_cons, List.mem_cons, ih, List.map_cons, List.mem_cons]
        exact or_left_comm

private theorem keys_foldl_append (label n : String) (names : List Name) (table : Table) :
    n ∈ (names.foldl (fun table s => Table.append s.name label table) table).map Prod.fst ↔
      n ∈ names.map Symbol.name ∨ n ∈ table.map Prod.fst := by
  induction names generalizing table with
  | nil => simp
  | cons s names ih =>
      rw [List.foldl_cons, ih, keys_append, List.map_cons, List.mem_cons]
      tauto

private theorem keys_foldl_provide (n : String) (fs : List (String × Fragment)) (table : Table) :
    n ∈ (fs.foldl (fun table (label, f) =>
        f.provide.foldl (fun table s => Table.append s.name label table) table)
        table).map Prod.fst ↔
      (∃ f ∈ fs.map Prod.snd, n ∈ f.provideNames) ∨ n ∈ table.map Prod.fst := by
  induction fs generalizing table with
  | nil => simp
  | cons p fs ih =>
      obtain ⟨label, f⟩ := p
      rw [List.foldl_cons, ih]
      dsimp only
      rw [keys_foldl_append, ← or_assoc, List.map_cons, List.exists_mem_cons_iff]
      exact or_congr_left or_comm

/-- The table of providers has a row for every provided name. -/
theorem mem_providersOf (slices : List Fragment) (n : String) :
    n ∈ (providersOf slices).map Prod.fst ↔ ∃ f ∈ slices, n ∈ f.provideNames := by
  have hFragments : (labelled slices).map Prod.snd = slices := by
    rw [labelled, List.map_map]
    exact List.zipIdx_map_fst 0 slices
  rw [providersOf, keys_foldl_provide, hFragments]
  simp

private theorem extents_eq (slices : List Fragment) :
    (slices.flatMap Fragment.clauses).map Term.extent =
      (slices.map Fragment.outline).flatMap Outline.extents := by
  rw [List.map_flatMap, List.flatMap_map]
  rfl

theorem maxClauseDepth_inventory (slices : List Fragment) :
    (inventory slices).maxClauseDepth =
      (((slices.flatMap Fragment.clauses).map Term.extent).map Prod.fst).foldl max 0 := by
  simp only [inventory, List.map_map]
  rfl

theorem totalTermNodes_inventory (slices : List Fragment) :
    (inventory slices).totalTermNodes =
      total (((slices.flatMap Fragment.clauses).map Term.extent).map Prod.snd) := by
  simp only [inventory, List.map_map]
  rfl

/-- Unused names only depend on what is provided and what is required. -/
theorem unusedOf_congr {slices slices' : List Fragment}
    (hProvide : (slices'.flatMap Fragment.provide).Perm (slices.flatMap Fragment.provide))
    (hRequire : (slices'.flatMap Fragment.require).Perm (slices.flatMap Fragment.require)) :
    unusedOf slices' = unusedOf slices := by
  have hUsed : ∀ s : Name, s.isIn (slices'.flatMap Fragment.require) =
      s.isIn (slices.flatMap Fragment.require) := by
    intro s
    rw [Bool.eq_iff_iff, isIn_iff, isIn_iff, (hRequire.map Symbol.name).mem_iff]
  rw [unusedOf, unusedOf]
  simp only [hUsed]
  exact sortTexts_congr (firstsBy_perm ((hProvide.filter _).map Symbol.name))

/-- Fragments with the same outlines in any order have the same totals,
whatever the warnings are. -/
theorem sameTotals_of_perm {slices slices' : List Fragment}
    (h : (slices'.map Fragment.outline).Perm (slices.map Fragment.outline))
    (warnings warnings' : List String) :
    SameTotals { inventory slices with warnings }
      { inventory slices' with warnings := warnings' } := by
  have hExtents : ((slices'.flatMap Fragment.clauses).map Term.extent).Perm
      ((slices.flatMap Fragment.clauses).map Term.extent) := by
    rw [extents_eq, extents_eq]
    exact h.flatMap_right _
  have hProvide : (slices'.flatMap Fragment.provide).Perm (slices.flatMap Fragment.provide) := by
    have hFlat := h.flatMap_right Outline.provide
    rwa [List.flatMap_map, List.flatMap_map] at hFlat
  have hRequire : (slices'.flatMap Fragment.require).Perm (slices.flatMap Fragment.require) := by
    have hFlat := h.flatMap_right Outline.require
    rwa [List.flatMap_map, List.flatMap_map] at hFlat
  exact
    { totalSlices := by
        have hLength := h.length_eq
        rwa [List.length_map, List.length_map] at hLength
      totalClauses := by
        have hLength := hExtents.length_eq
        rw [List.length_map, List.length_map] at hLength
        simpa only [inventory, List.length_map] using hLength
      totalParameters := by
        have hParameters := total_congr (h.map Outline.parameters)
        rwa [List.map_map, List.map_map] at hParameters
      lockedSlices := by
        have hLocked := h.countP_eq Outline.locked
        rwa [List.countP_map, List.countP_map, List.countP_eq_length_filter,
          List.countP_eq_length_filter] at hLocked
      maxClauseDepth := by
        have hDepth := (hExtents.map Prod.fst).foldl_eq (f := max) 0
        rwa [← maxClauseDepth_inventory, ← maxClauseDepth_inventory] at hDepth
      totalTermNodes := by
        have hNodes := total_congr (hExtents.map Prod.snd)
        rwa [← totalTermNodes_inventory, ← totalTermNodes_inventory] at hNodes
      provides := by
        intro n
        have hNames := (hProvide.map Symbol.name).mem_iff (a := n)
        rw [List.map_flatMap, List.mem_flatMap, List.map_flatMap, List.mem_flatMap] at hNames
        exact (mem_providersOf slices' n).trans (hNames.trans (mem_providersOf slices n).symm)
      unusedProvides := unusedOf_congr hProvide hRequire }

/-! ## Repeated names -/

/-- The entries that occur more than once. -/
private def repeatedAmong (names : List Value) : List Value :=
  names.filter fun n => 1 < (names.filter n.same).length

private theorem repeatedAmong_perm {names names' : List Value} (h : names'.Perm names) :
    (repeatedAmong names').Perm (repeatedAmong names) := by
  rw [repeatedAmong, repeatedAmong]
  simp only [(h.filter _).length_eq]
  exact h.filter _

private def nameText : Value → Except Fault String
  | .text s => .ok s
  | _ => .error .wrongShape

private theorem eq_wrongShape_of_nameText (n : Value) (w : Fault)
    (h : nameText n = .error w) : w = .wrongShape := by
  unfold nameText at h
  split at h
  · cases h
  · exact (Except.error.inj h).symm

private theorem duplicateNames_eq (slices : List Fragment) :
    duplicateNames slices =
      ((repeatedAmong ((slices.map Fragment.name).filter fun n =>
          match n with
          | .null => false
          | _ => true)).mapM nameText >>= fun texts =>
        .ok (sortTexts (firstsBy id texts))) := rfl

/-- The repeated names only depend on the names, in any order. -/
theorem duplicateNames_congr {slices slices' : List Fragment}
    (h : (slices'.map Fragment.name).Perm (slices.map Fragment.name)) :
    duplicateNames slices' = duplicateNames slices := by
  rw [duplicateNames_eq, duplicateNames_eq]
  rcases mapM_perm eq_wrongShape_of_nameText (repeatedAmong_perm (h.filter _)) with
    ⟨hError', hError⟩ | ⟨texts', texts, hTexts', hTexts, hPerm⟩
  · rw [hError', hError]
  · rw [hTexts', hTexts, ok_bind, ok_bind, sortTexts_congr (firstsBy_perm hPerm)]

end Report

end DatalogFragments
