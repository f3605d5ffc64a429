import DatalogFragments.Proofs.Report.Gaps

/-!
# Plans without warnings

A report without warnings rules out the refusals that it looks for: unmet
requirements and must-let variables that are not bound.  Compilation assembles
the parameters after that, and two of its steps have no counterpart in a
report.  Reading the display information of private variables may fail, and a
variable may be exported by two fragments.  So a plan without warnings is
compiled unless one of the two occurs, and the second one does occur.

## Main results

* `Report.warnings_eq_nil_iff` — what a report without warnings says;
* `Query.CleanOutcome`, `Query.compile_of_clean` — what compilation answers
  then;
* `Query.compile_clean_clash` — a plan without warnings that is refused.
-/

namespace DatalogFragments

namespace Report

/-- What a report without warnings says. -/
structure Clean (slices : List Fragment) (r : Report) : Prop where
  unsatisfied : r.unsatisfied = []
  unboundMustLet : r.unboundMustLet = []
  inhabited : ∀ f ∈ slices, f.clauses ≠ [] ∨ f.lets ≠ []
  unrepeated : duplicateNames slices = .ok []
  shallow : r.maxClauseDepth ≤ 5

private theorem emptyWarnings_eq_nil_iff (slices : List Fragment) :
    ((labelled slices).filterMap (fun (label, f) =>
        if f.clauses.isEmpty && f.lets.isEmpty then
          some ("Empty fragment: " ++ label ++ " has no clauses and no bindings")
        else none)) = [] ↔
      ∀ f ∈ slices, f.clauses ≠ [] ∨ f.lets ≠ [] := by
  have hSplit : ∀ f : Fragment, (f.clauses ≠ [] ∨ f.lets ≠ []) ↔
      ¬(f.clauses.isEmpty && f.lets.isEmpty) = true := by
    intro f
    rw [Bool.and_eq_true, List.isEmpty_iff, List.isEmpty_iff, not_and_or]
  rw [List.filterMap_eq_nil_iff, labelled, List.forall_mem_map]
  constructor
  · intro h f hf
    obtain ⟨k, hk⟩ := List.mem_iff_getElem?.mp hf
    have hNone := h (f, k) (List.mem_zipIdx_iff_getElem?.mpr hk)
    rw [hSplit]
    intro hEmpty
    dsimp only at hNone
    rw [if_pos hEmpty] at hNone
    cases hNone
  · rintro h ⟨f, k⟩ hMem
    have hf := List.mem_of_getElem? (List.mem_zipIdx_iff_getElem?.mp hMem)
    exact if_neg ((hSplit f).mp (h f hf))

theorem warnings_eq_nil_iff {slices : List Fragment} {r : Report}
    (h : ofSlices slices = .ok r) : r.warnings = [] ↔ r.Clean slices := by
  obtain ⟨duplicates, hDuplicates, rfl⟩ := ofSlices_eq_ok h
  have hFirsts : ∀ ws : List String, firstsBy id ws = [] ↔ ws = [] := by
    intro ws
    cases ws <;> simp
  have hRepeated : (if duplicates.isEmpty then []
      else ["Duplicate fragment names: " ++ joinTexts ", " duplicates]) = [] ↔
        duplicates = [] := by
    cases duplicates <;> simp
  have hDeep : (if 5 < (inventory slices).maxClauseDepth then
      ["High clause complexity: max depth " ++
        intText (inventory slices).maxClauseDepth] else []) = [] ↔
        (inventory slices).maxClauseDepth ≤ 5 := by
    rw [← Nat.not_lt]
    split <;> simp [*]
  rw [hFirsts, warningsOf, List.append_eq_nil_iff, List.append_eq_nil_iff,
    List.append_eq_nil_iff, List.append_eq_nil_iff, List.map_eq_nil_iff,
    List.map_eq_nil_iff, emptyWarnings_eq_nil_iff, hRepeated, hDeep]
  constructor
  · rintro ⟨⟨⟨⟨hUnmet, hUnbound⟩, hInhabited⟩, rfl⟩, hShallow⟩
    exact ⟨hUnmet, hUnbound, hInhabited, hDuplicates, hShallow⟩
  · intro hClean
    have hNone := hDuplicates.symm.trans hClean.unrepeated
    exact ⟨⟨⟨⟨hClean.unsatisfied, hClean.unboundMustLet⟩, hClean.inhabited⟩,
      Except.ok.inj hNone⟩, hClean.shallow⟩

end Report

namespace Query

/-- The outcomes of a compilation that a report without warnings leaves. -/
structure CleanOutcome (find : Value) (slices : List Fragment) : Prop where
  /-- No requirement is unmet and no must-let variable is left unbound. -/
  satisfied : ¬HasBlame slices Fragment.require (LacksProvider slices)
  bound : ¬HasBlame slices Fragment.mustLet LeftUnbound
  /-- The fault of reading display information of a private variable. -/
  unreadable_info :
    ∀ e, (orderSlices slices).findSome? Fragment.infoFault? = some e →
      compile find slices = .error e
  /-- A name that two positions provide and bind. -/
  clash : (orderSlices slices).findSome? Fragment.infoFault? = none →
    (∃ n, ClashesOn slices n) →
    ∃ (w : Failure) (s : Name) (first last : Value),
      compile find slices = .error (.failure w) ∧ w.kind = .bindingForm ∧
      w.cause = .declaredTwice s.name first last ∧ ClashesOn slices s.name
  /-- Nothing else stops a compilation. -/
  success : (orderSlices slices).findSome? Fragment.infoFault? = none →
    (∀ n, ¬ClashesOn slices n) → ∃ q, compile find slices = .ok q

/-- Valid fragments of which the report has no warnings are compiled, unless
display information cannot be read or a variable is exported twice. -/
theorem compile_of_clean (find : Value) (slices : List Fragment) (r : Report)
    (hValid : ∀ f ∈ slices, f.Valid) (hReport : Report.ofSlices slices = .ok r)
    (hClean : r.warnings = []) : CleanOutcome find slices := by
  have hWell : ∀ f ∈ slices, f.WellFormed :=
    fun f hf => f.valid_iff.mp (hValid f hf)
  have hNone := (Report.warnings_eq_nil_iff hReport).mp hClean
  obtain ⟨duplicates, -, rfl⟩ := Report.ofSlices_eq_ok hReport
  have hSatisfied : checkSatisfied slices = .ok () :=
    (Report.gapsAgree_unmetAt slices).silent_iff.mpr hNone.unsatisfied
  have hBound : checkMustLet slices = .ok () :=
    (Report.gapsAgree_unboundMustLet slices).silent_iff.mpr hNone.unboundMustLet
  exact
    { satisfied := by
        rcases checkSatisfied_outcome slices with ⟨-, hNot⟩ | ⟨k, f, unmet, -, hError⟩
        · exact hNot
        · exact nomatch hSatisfied.symm.trans hError
      bound := by
        rcases checkMustLet_outcome slices with ⟨-, hNot⟩ | ⟨k, f, unmet, -, hError⟩
        · exact hNot
        · exact nomatch hBound.symm.trans hError
      unreadable_info := fun e he =>
        compile_eq_error_of_infoFault hWell find hSatisfied hBound he
      clash := by
        intro hInfo hClash
        obtain ⟨e, f, n, hError, ⟨s, first, rfl, hRefuse⟩, hClashes⟩ :=
          exists_compile_eq_error hWell find hSatisfied hBound hInfo hClash
        obtain rfl := Except.error.inj hRefuse
        exact ⟨_, s, first, f.name, hError, rfl, rfl, hClashes⟩
      success := exists_compile_eq_ok hWell find hSatisfied hBound }

/-- Two fragments without clauses that provide and bind a variable each. -/
def parameters (first second : String) : List Fragment :=
  [ { provide := [Symbol.plain first]
      lets := [(.sym (Symbol.plain first), .int 1)] }
  , { provide := [Symbol.plain second]
      lets := [(.sym (Symbol.plain second), .int 2)] } ]

private theorem exists_clean_parameters (first second : String) :
    ∃ r, Report.ofSlices (parameters first second) = .ok r ∧ r.warnings = [] := by
  have hNamed : ∀ f ∈ parameters first second, f.IsNamed := by
    rw [parameters, List.forall_mem_cons, List.forall_mem_singleton]
    exact ⟨.inl rfl, .inl rfl⟩
  obtain ⟨r, hr⟩ := Report.exists_ofSlices_eq_ok hNamed
  refine ⟨r, hr, (Report.warnings_eq_nil_iff hr).mpr ?_⟩
  obtain ⟨duplicates, hDuplicates, rfl⟩ := Report.ofSlices_eq_ok hr
  exact
    { unsatisfied := rfl
      unboundMustLet := rfl
      inhabited := by
        rw [parameters, List.forall_mem_cons, List.forall_mem_singleton]
        exact ⟨.inr (List.cons_ne_nil _ _), .inr (List.cons_ne_nil _ _)⟩
      unrepeated := by
        rw [Report.duplicateNames]
        exact congrArg Except.ok List.mergeSort_nil
      shallow := Nat.zero_le 5 }

theorem compile_of_clean_apart :
    (∀ f ∈ parameters "?x" "?y", f.Valid) ∧
    (∃ r, Report.ofSlices (parameters "?x" "?y") = .ok r ∧ r.warnings = []) ∧
      CleanOutcome .null (parameters "?x" "?y") := by
  have hValid : ∀ f ∈ parameters "?x" "?y", f.Valid := by
    rw [parameters, List.forall_mem_cons, List.forall_mem_singleton]
    exact ⟨rfl, rfl⟩
  obtain ⟨r, hr, hClean⟩ := exists_clean_parameters "?x" "?y"
  exact ⟨hValid, ⟨r, hr, hClean⟩, compile_of_clean .null _ r hValid hr hClean⟩

/-- Both fragments export `?x`, of which the report has no warning. -/
theorem compile_clean_clash :
    (∀ f ∈ parameters "?x" "?x", f.Valid) ∧
    (∃ r, Report.ofSlices (parameters "?x" "?x") = .ok r ∧ r.warnings = []) ∧
    ∀ find, ∃ w, compile find (parameters "?x" "?x") = .error (.failure w) ∧
      w.kind = .bindingForm := by
  have hValid : ∀ f ∈ parameters "?x" "?x", f.Valid := by
    rw [parameters, List.forall_mem_cons, List.forall_mem_singleton]
    exact ⟨rfl, rfl⟩
  have hClash : ClashesOn (parameters "?x" "?x") "?x" :=
    ⟨0, 1, _, _, by decide, rfl, rfl, ⟨by decide, by decide, by decide⟩,
      ⟨by decide, by decide, by decide⟩⟩
  have hWell : ∀ f ∈ parameters "?x" "?x", f.WellFormed :=
    fun f hf => f.valid_iff.mp (hValid f hf)
  have hReadable : ∀ f ∈ parameters "?x" "?x", f.infoFault? = none := by
    rw [parameters, List.forall_mem_cons, List.forall_mem_singleton]
    exact ⟨rfl, rfl⟩
  have hInfo : (orderSlices (parameters "?x" "?x")).findSome? Fragment.infoFault? =
      none :=
    List.findSome?_eq_none_iff.mpr fun f hf => hReadable f (mem_orderSlices.mp hf)
  refine ⟨hValid, exists_clean_parameters "?x" "?x", fun find => ?_⟩
  obtain ⟨e, f, n, hError, ⟨s, first, rfl, hRefuse⟩, -⟩ :=
    exists_compile_eq_error hWell find rfl rfl hInfo ⟨"?x", hClash⟩
  obtain rfl := Except.error.inj hRefuse
  exact ⟨_, hError, rfl⟩

end Query

end DatalogFragments
