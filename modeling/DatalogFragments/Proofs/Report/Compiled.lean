import DatalogFragments.Proofs.Report.Gaps
import DatalogFragments.Proofs.Report.Tally
import DatalogFragments.Proofs.Query.CaptureFreedom

/-!
# The report on compiled fragments

A query keeps the fragments that it was compiled from, sorted and with their
private variables renamed.  A report on them counts what a report on the
fragments as they were given counts.  What compilation sees to, it finds seen
to: every requirement is provided, every must-let variable bound, and no two
fragments have a private variable of one name.

## Main results

* `outlines_renamedSlices` — compilation keeps the outlines;
* `nodup_drawnNames` — no private variable is shared;
* `Report.Settles`, `Report.ofSlices_compiled` — the two reports.
-/

namespace DatalogFragments

section

variable {slices : List Fragment}

/-! ## Compiled fragments -/

/-- Compiled fragments have the outlines of the given ones, in another order. -/
theorem outlines_renamedSlices (slices : List Fragment) :
    ((renamedSlices slices).map Fragment.outline).Perm (slices.map Fragment.outline) := by
  have hOutlines : (renamedSlices slices).map Fragment.outline =
      (orderSlices slices).map Fragment.outline := by
    refine List.ext_getElem? fun k => ?_
    rw [List.getElem?_map, renamedSlices, List.getElem?_mapIdx, List.getElem?_map, Option.map_map]
    exact congrArg (Option.map · _) (funext fun f => Fragment.outline_renamed _ f)
  rw [hOutlines]
  exact (List.mergeSort_perm _ _).map _

/-- No name is private to two compiled fragments, or twice to one. -/
theorem nodup_drawnNames (slices : List Fragment) : (drawnNames slices).Nodup := by
  rw [drawnNames, List.nodup_flatMap]
  refine ⟨fun g _ => g.nodup_privateNames, ?_⟩
  rw [List.pairwise_iff_getElem]
  intro j k hj hk hjk n hnj hnk
  obtain ⟨f, hf, hfEq⟩ := getElem?_renamedSlices.mp (List.getElem?_eq_getElem hj)
  obtain ⟨g, hg, hgEq⟩ := getElem?_renamedSlices.mp (List.getElem?_eq_getElem hk)
  have hUsed := usedNames_of_mem_orderSlices slices
  rw [← hfEq, Fragment.mem_privateNames_renamed (freshens_compiledMap hf)
    (hUsed f (List.mem_of_getElem? hf))] at hnj
  rw [← hgEq, Fragment.mem_privateNames_renamed (freshens_compiledMap hg)
    (hUsed g (List.mem_of_getElem? hg))] at hnk
  obtain ⟨s, hs, hsn⟩ := hnj
  obtain ⟨t, ht, htn⟩ := hnk
  have hSame := compiledMap_injective ⟨f, hf, hs⟩ ⟨g, hg, ht⟩ (hsn.trans htn.symm)
  omega

theorem sharedOf_renamedSlices (slices : List Fragment) :
    Report.sharedOf (renamedSlices slices) = [] := by
  have hOnce : (firstsBy id (drawnNames slices)).filter
      (fun n => decide (1 < (drawnNames slices).count n)) = [] := by
    rw [List.filter_eq_nil_iff]
    intro n _
    have hCount := List.nodup_iff_count_le_one.mp (nodup_drawnNames slices) n
    rw [decide_eq_true_eq]
    omega
  exact (congrArg sortTexts hOnce).trans List.mergeSort_nil

/-- The interfaces of compiled fragments are those of the given ones. -/
theorem checkSatisfied_renamedSlices (hWell : ∀ f ∈ slices, f.WellFormed)
    (h : checkSatisfied slices = .ok ()) : checkSatisfied (renamedSlices slices) = .ok () := by
  rw [checkSatisfied_eq_ok_iff (wellFormed_of_mem_renamedSlices hWell)]
  rw [checkSatisfied_eq_ok_iff hWell] at h
  intro g hg n hn
  obtain ⟨k, f, hf, rfl⟩ := mem_renamedSlices.mp hg
  obtain ⟨f', hf', hProvide⟩ := h f (mem_orderSlices.mp (List.mem_of_getElem? hf)) n hn
  obtain ⟨j, hj⟩ := List.mem_iff_getElem?.mp (mem_orderSlices.mpr hf')
  exact ⟨_, mem_renamedSlices.mpr ⟨j, f', hj, rfl⟩, hProvide⟩

/-- A must-let variable and its binding are renamed alike. -/
theorem checkMustLet_renamedSlices (h : checkMustLet slices = .ok ()) :
    checkMustLet (renamedSlices slices) = .ok () := by
  rw [checkMustLet_eq_ok_iff] at h ⊢
  intro g hg n hn
  obtain ⟨k, f, hf, rfl⟩ := mem_renamedSlices.mp hg
  rw [Fragment.mustLetNames_renamed] at hn
  rw [Fragment.letNames_renamed (freshens_compiledMap hf).keepsKinds]
  obtain ⟨s, hs, rfl⟩ := List.mem_map.mp hn
  exact List.mem_map_of_mem (h f (mem_orderSlices.mp (List.mem_of_getElem? hf)) s hs)

end

namespace Report

theorem ofSlices_of_duplicateNames {slices : List Fragment} {duplicates : List String}
    (h : duplicateNames slices = .ok duplicates) :
    ofSlices slices = .ok { inventory slices with
      warnings := firstsBy id ((inventory slices).warningsOf slices duplicates) } := by
  rw [ofSlices, h, ok_bind]
  exact congrArg Except.ok (foldl_addWarning _ _ List.nodup_nil)

/-- What a report on compiled fragments says, next to the report on the given
ones. -/
structure Settles (given compiled : Report) : Prop where
  sharedPrivateNames : compiled.sharedPrivateNames = []
  unsatisfied : compiled.unsatisfied = []
  unboundMustLet : compiled.unboundMustLet = []
  totals : given.SameTotals compiled

/-- Where a query is compiled, there is a report on the compiled fragments iff
there is one on the given ones, and nothing is left to settle in it.  Reports
on valid fragments with usable names always exist. -/
theorem ofSlices_compiled (find : Value) (slices : List Fragment) (q : Query)
    (hValid : ∀ f ∈ slices, f.Valid) (hCompile : Query.compile find slices = .ok q) :
    ((∀ f ∈ slices, f.IsNamed) → ∃ r, ofSlices slices = .ok r) ∧
    ((∃ e, ofSlices slices = .error e ∧ ofSlices q.slices = .error e) ∨
      ∃ given compiled, ofSlices slices = .ok given ∧ ofSlices q.slices = .ok compiled ∧
        given.Settles compiled) := by
  have hWell : ∀ f ∈ slices, f.WellFormed := fun f hf => f.valid_iff.mp (hValid f hf)
  obtain ⟨hSatisfied, hMustLet⟩ := Query.checks_of_compile_eq_ok hCompile
  obtain ⟨a, -, rfl⟩ := Query.exists_of_compile_eq_ok hWell hCompile
  have hOutlines := outlines_renamedSlices slices
  have hNames : duplicateNames (renamedSlices slices) = duplicateNames slices := by
    refine duplicateNames_congr ?_
    have hMap := hOutlines.map Outline.name
    rwa [List.map_map, List.map_map] at hMap
  refine ⟨exists_ofSlices_eq_ok, ?_⟩
  change (∃ e, _ ∧ ofSlices (renamedSlices slices) = .error e) ∨
    ∃ given compiled, _ ∧ ofSlices (renamedSlices slices) = .ok compiled ∧ _
  cases hDuplicates : duplicateNames slices with
  | error e =>
      rw [hDuplicates] at hNames
      exact .inl ⟨e, by rw [ofSlices, hDuplicates, error_bind],
        by rw [ofSlices, hNames, error_bind]⟩
  | ok duplicates =>
      rw [hDuplicates] at hNames
      refine .inr ⟨_, _, ofSlices_of_duplicateNames hDuplicates,
        ofSlices_of_duplicateNames hNames, ?_⟩
      exact
        { sharedPrivateNames := sharedOf_renamedSlices slices
          unsatisfied := (gapsAgree_unmetAt _).silent_iff.mp
            (checkSatisfied_renamedSlices hWell hSatisfied)
          unboundMustLet := (gapsAgree_unboundMustLet _).silent_iff.mp
            (checkMustLet_renamedSlices hMustLet)
          totals := sameTotals_of_perm hOutlines _ _ }

/-- A locked fragment that is compiled last and requires `?x`, and one that
provides it; both keep `?y` to themselves. -/
def staged : List Fragment :=
  [ { name := .text "last"
      clauses := [.sequence [.named "not", .vector [.named "?x", .named ":a", .named "?y"]]]
      require := [Symbol.plain "?x"]
      selectivity := 7
      locked := .bool true }
  , { name := .text "first"
      clauses := [.vector [.named "?x", .named ":b", .named "?y"]]
      provide := [Symbol.plain "?x"] } ]

private theorem sharedOf_staged : sharedOf staged = ["?y"] :=
  List.mergeSort_singleton "?y"

theorem ofSlices_compiled_staged :
    (∀ f ∈ staged, f.Valid) ∧ (∀ f ∈ staged, f.IsNamed) ∧
    ∃ q, Query.compile .null staged = .ok q ∧
      ∃ given compiled, ofSlices staged = .ok given ∧ ofSlices q.slices = .ok compiled ∧
        given.Settles compiled ∧ given.sharedPrivateNames = ["?y"] := by
  have hValid : ∀ f ∈ staged, f.Valid := by
    rw [staged, List.forall_mem_cons, List.forall_mem_singleton]
    exact ⟨rfl, rfl⟩
  have hNamed : ∀ f ∈ staged, f.IsNamed := by
    rw [staged, List.forall_mem_cons, List.forall_mem_singleton]
    exact ⟨.inr ⟨"last", rfl⟩, .inr ⟨"first", rfl⟩⟩
  obtain ⟨q, hq⟩ : ∃ q, Query.compile .null staged = .ok q := by
    refine Query.exists_compile_of_valid hValid .null rfl rfl ?_ fun n => ?_
    · rw [staged, List.forall_mem_cons, List.forall_mem_singleton]
      exact ⟨rfl, rfl⟩
    · rw [staged, List.pairwise_pair]
      rintro ⟨⟨-, -, hLet⟩, -⟩
      exact absurd hLet List.not_mem_nil
  obtain ⟨hExists, hReports⟩ := ofSlices_compiled .null staged q hValid hq
  obtain ⟨r, hr⟩ := hExists hNamed
  rcases hReports with ⟨e, hError, -⟩ | ⟨given, compiled, hGiven, hCompiled, hSettles⟩
  · cases hr.symm.trans hError
  · refine ⟨hValid, hNamed, q, hq, given, compiled, hGiven, hCompiled, hSettles, ?_⟩
    obtain ⟨duplicates, -, rfl⟩ := ofSlices_eq_ok hGiven
    exact sharedOf_staged

end Report

end DatalogFragments
