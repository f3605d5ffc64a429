import DatalogFragments.Proofs.Disjunction.Composite

/-!
# What a disjunction answers

Branches that cannot be merged are refused as such, display information of a
private variable can be unreadable, and in every other case there is a merged
fragment: nothing that is put together from admissible branches is refused
again.  Joining arms under a header implies no special that the branches do
not imply themselves, so branches that require theirs determine the interface
of the merged fragment.

## Main results

* `impliedBy_disjunctionClause` — no further special is required;
* `DisjunctionOutcome` — the outcomes and when they occur;
* `disjunction_exact` — they are the outcomes of a disjunction;
* `disjunction_unreadable` — the second one does occur.
-/

namespace DatalogFragments

/-! ## Specials -/

private theorem bodySpecials_disjunctionClause (fs : List Fragment) :
    Term.bodySpecials false [disjunctionClause fs] =
      Term.bodySpecials false (renamedArms fs) := by
  have hSource : (Symbol.plain "or-join" : Name).isDatasource = false := by
    decide
  have hRules : (Symbol.plain "or-join" : Name).isRuleset = false := by decide
  have hNested : Term.nestedForms.contains
      (Symbol.plain "or-join" : Name).name = false := by decide
  have hJoin : Term.joinForms.contains
      (Symbol.plain "or-join" : Name).name = true := by decide
  rw [Term.bodySpecials, Term.bodySpecials, List.append_nil, disjunctionClause,
    Term.sequence, Term.clauseSpecials, Term.named, Term.callSpecials, hSource,
    hRules, hNested, hJoin]
  rfl

/-- A branch that requires the specials that its clauses imply. -/
def Fragment.RequiresImplied (f : Fragment) : Prop :=
  ∀ n ∈ Term.impliedSpecials f.clauses, n ∈ f.requireNames

/-- What the clause of a disjunction implies, some branch implies. -/
private theorem implied_of_disjunctionClause {fs : List Fragment} {n : String}
    (hn : n ∈ Term.bodySpecials false [disjunctionClause fs]) :
    ∃ f ∈ fs, n ∈ Term.impliedSpecials f.clauses := by
  rw [bodySpecials_disjunctionClause, Term.mem_bodySpecials] at hn
  obtain ⟨c, hc, hMem⟩ := hn
  obtain ⟨k, f, hf, rfl⟩ := mem_renamedArms.mp hc
  have hKinds := ((freshenedApart_armMap fs).freshens k f hf).keepsKinds
  have hClauses : (f.renamed (armMap fs k)).clauses =
      f.clauses.map (Term.renamed (armMap fs k)) := rfl
  rw [Fragment.clauseSpecials_arm, hClauses, Term.bodySpecials_renamed hKinds,
    ← Term.mem_impliedSpecials] at hMem
  exact ⟨f, List.mem_of_getElem? hf, hMem⟩

/-- What an arm mentions of specials, its branch requires. -/
private theorem required_of_arm {f : Fragment} {ρ : String → String}
    {used : List String} (hFresh : f.Freshens ρ used) (hf : f.WellFormed)
    (hAdmissible : f.Admissible) {n : String} (hSpecial : isSpecialName n = true)
    (hn : n ∈ (f.renamed ρ).arm.symbols.map Symbol.name) :
    n ∈ f.requireNames := by
  obtain ⟨t, ht, rfl⟩ := (Fragment.mem_names_renamed_arm hFresh
    (isDeclarableName_of_special hSpecial)).mp hn
  rw [hFresh.keepsKinds.isSpecialName_eq] at hSpecial
  -- A special is no variable, so the map has left it alone.
  rw [hFresh.keepsKinds.eq_of_not_variable
    (isVariableName_eq_false_of_special hSpecial)]
  rcases ht with hLet | hMention
  · rw [hAdmissible.let_plain t hLet] at hSpecial
    cases hSpecial
  · rcases hf.specials_declared t hMention hSpecial with hRequire | hProvide
    · exact hRequire
    · rw [hAdmissible.provide_plain t hProvide] at hSpecial
      cases hSpecial

/-- The clause of a disjunction implies and mentions no special besides those
that its branches require. -/
theorem impliedBy_disjunctionClause {fs : List Fragment}
    (hWell : ∀ f ∈ fs, f.WellFormed) (hAdmissible : ∀ f ∈ fs, f.Admissible)
    (hImplied : ∀ f ∈ fs, f.RequiresImplied) :
    Fragment.impliedBy [disjunctionClause fs] ((disjunctionHeader fs).2 ++
      distinctNames (fs.flatMap Fragment.require)) = [] := by
  rw [Fragment.impliedBy, List.filter_eq_nil_iff]
  intro s hs
  rw [Bool.not_eq_true, Bool.not_eq_false', isIn_iff, List.map_append,
    List.mem_append, mem_names_require]
  rcases (Fragment.mem_foundSpecials _ s.name).mp (List.mem_map_of_mem hs) with
    hBody | ⟨hSymbol, hSpecial⟩
  · obtain ⟨f, hf, hMem⟩ := implied_of_disjunctionClause hBody
    exact .inr ⟨f, hf, hImplied f hf s.name hMem⟩
  · have hClause : s.name ∈ (disjunctionClause fs).symbols.map Symbol.name := by
      rwa [Term.symbolsOf_cons, Term.symbolsOf_nil, List.append_nil] at hSymbol
    rcases (mem_names_disjunctionClause
      (isDeclarableName_of_special hSpecial)).mp hClause with
      hRequired | hProvided | ⟨k, f, hf, hArm⟩
    · exact .inr ((mem_required fs s.name).mp hRequired).1
    · exact .inl hProvided
    · have hFresh := (freshenedApart_armMap fs).freshens k f hf
      have hIn := List.mem_of_getElem? hf
      exact .inr ⟨f, hIn, required_of_arm hFresh (hWell f hIn)
        (hAdmissible f hIn) hSpecial hArm⟩

/-! ## The interface of the merged fragment -/

/-- What a merged fragment declares, in terms of its branches. -/
structure Merges (fs : List Fragment) (g : Fragment) : Prop where
  /-- It requires what some branch requires, each symbol once and in order. -/
  require_eq : (∀ f ∈ fs, f.RequiresImplied) →
    g.require = distinctNames (fs.flatMap Fragment.require)
  /-- It provides what some branch provides, each symbol once and in order,
  minus the variables that some branch requires. -/
  provide_eq : g.provide =
    (distinctNames (fs.flatMap Fragment.provide)).filter fun s =>
      !s.isIn ((fs.flatMap Fragment.require).filter Symbol.isVariable)
  lets_eq : g.lets = []
  locked : g.isLocked = true

/-- The provided part of a header, with the duplicates removed first. -/
theorem provided_eq (fs : List Fragment) :
    (disjunctionHeader fs).2 =
      (distinctNames (fs.flatMap Fragment.provide)).filter fun s =>
        !s.isIn ((fs.flatMap Fragment.require).filter Symbol.isVariable) := by
  let required := (fs.flatMap Fragment.require).filter Symbol.isVariable
  have hIn : ∀ s : Name, s.isIn (distinctNames required) =
      decide (s.name ∈ required.map Symbol.name) := by
    intro s
    rw [Bool.eq_iff_iff, isIn_iff, mem_names_distinctNames, decide_eq_true_iff]
  have hIn' : ∀ s : Name, s.isIn required =
      decide (s.name ∈ required.map Symbol.name) := by
    intro s
    rw [Bool.eq_iff_iff, isIn_iff, decide_eq_true_iff]
  have hProvided : (disjunctionHeader fs).2 = distinctNames
      ((fs.flatMap Fragment.provide).filter fun s =>
        !s.isIn (distinctNames required)) := rfl
  rw [hProvided]
  simp only [hIn]
  rw [distinctNames, firstsBy_filter Symbol.name
    (fun n => !decide (n ∈ required.map Symbol.name))]
  exact List.filter_congr fun s _ => by rw [hIn']

theorem merges_composite {fs : List Fragment}
    (hWell : ∀ f ∈ fs, f.WellFormed) (hAdmissible : ∀ f ∈ fs, f.Admissible)
    (names : List String) : Merges fs (composite fs names) where
  require_eq := by
    intro hImplied
    show distinctNames (fs.flatMap Fragment.require) ++
      Fragment.impliedBy [disjunctionClause fs] ((disjunctionHeader fs).2 ++
        distinctNames (fs.flatMap Fragment.require)) = _
    rw [impliedBy_disjunctionClause hWell hAdmissible hImplied, List.append_nil]
  provide_eq := provided_eq fs
  lets_eq := rfl
  locked := rfl

/-! ## The outcome -/

/-- The fragments among branches. -/
def fragmentsAmong (branches : List Branch) : List Fragment :=
  branches.filterMap fun
    | .fragment f => some f
    | .other _ => none

theorem fragmentsAmong_map (fs : List Fragment) :
    fragmentsAmong (fs.map .fragment) = fs := by
  rw [fragmentsAmong, List.filterMap_map]
  exact List.filterMap_some

/-- The three outcomes of a disjunction, each with what decides for it. -/
structure DisjunctionOutcome (branches : List Branch) : Prop where
  /-- Branches that cannot be merged are refused as such. -/
  refused : Unmergeable branches →
    ∃ w : Failure, disjunction branches = .error (.failure w) ∧ w.kind = .branch
  /-- Then the fault of reading display information of a private variable stops
  the disjunction. -/
  unreadable_info : ¬Unmergeable branches →
    ∀ e, (fragmentsAmong branches).findSome? Fragment.infoFault? = some e →
      disjunction branches = .error e
  /-- Mappings can be read, so this does not happen to them. -/
  mapping_info : (∀ f ∈ fragmentsAmong branches, f.InfoIsMapping) →
    (fragmentsAmong branches).findSome? Fragment.infoFault? = none
  /-- Nothing else stops it. -/
  merged : ¬Unmergeable branches →
    (fragmentsAmong branches).findSome? Fragment.infoFault? = none →
    ∃ g, disjunction branches = .ok g ∧ Merges (fragmentsAmong branches) g

/-- A disjunction of values answers as they decide, when the fragments among
them are valid and have usable names. -/
theorem disjunction_exact (branches : List Branch)
    (hValid : ∀ f, .fragment f ∈ branches → f.Valid)
    (hNamed : ∀ f, .fragment f ∈ branches → f.IsNamed) :
    DisjunctionOutcome branches := by
  have hWell : ∀ f, .fragment f ∈ branches → f.WellFormed :=
    fun f hf => f.valid_iff.mp (hValid f hf)
  have hMapping : (∀ f ∈ fragmentsAmong branches, f.InfoIsMapping) →
      (fragmentsAmong branches).findSome? Fragment.infoFault? = none :=
    Fragment.findSome?_infoFault?_eq_none
  rcases disjunction_outcome hWell with
    ⟨hUnmergeable, hRefused⟩ | ⟨fs, rfl, hMergeable, hAdmissible, hOutcome⟩
  · exact
      { refused := fun _ => hRefused
        unreadable_info := fun h => absurd hUnmergeable h
        mapping_info := hMapping
        merged := fun h => absurd hUnmergeable h }
  · have hFragments := forall_fragment_map.mp hWell
    have hNames := forall_fragment_map.mp hNamed
    refine ⟨fun h => absurd h hMergeable, ?_, hMapping, ?_⟩
    · intro _ e he
      rw [fragmentsAmong_map] at he
      rw [hOutcome, he, okUnless_some, error_bind]
    · intro _ hInfo
      rw [fragmentsAmong_map] at hInfo ⊢
      obtain ⟨names, hMerged⟩ :=
        exists_disjunction_eq_ok hFragments hMergeable hInfo hNames
      exact ⟨_, hMerged, merges_composite hFragments hAdmissible names⟩

/-- Two branches that ask the default datasource, of which one provides `?x`
and the other one requires it. -/
def offers : List Fragment :=
  [ { clauses := [.vector [.named "?x", .named ":a", .named "?y"]]
      name := .text "a"
      provide := [Symbol.plain "?x"]
      require := [Symbol.plain "$"] }
  , { clauses := [.vector [.named "?x", .named ":b", .named "?y"]]
      require := [Symbol.plain "$", Symbol.plain "?x"] } ]

theorem disjunction_exact_offers :
    (∀ f, .fragment f ∈ offers.map Branch.fragment → f.Valid) ∧
      (∀ f, .fragment f ∈ offers.map Branch.fragment → f.IsNamed) ∧
      ∃ g, disjunction (offers.map .fragment) = .ok g ∧
        g.require = [Symbol.plain "$", Symbol.plain "?x"] ∧ g.provide = [] := by
  have hValid : ∀ f, .fragment f ∈ offers.map Branch.fragment → f.Valid := by
    rw [forall_fragment_map, offers, List.forall_mem_cons,
      List.forall_mem_singleton]
    exact ⟨rfl, rfl⟩
  have hNamed : ∀ f, .fragment f ∈ offers.map Branch.fragment → f.IsNamed := by
    rw [forall_fragment_map, offers, List.forall_mem_cons,
      List.forall_mem_singleton]
    exact ⟨.inr ⟨"a", rfl⟩, .inl rfl⟩
  have hAdmissible : ∀ f ∈ offers, f.Admissible := by
    rw [offers, List.forall_mem_cons, List.forall_mem_singleton]
    exact ⟨⟨by decide, by decide, by decide, by decide⟩,
      ⟨by decide, by decide, by decide, by decide⟩⟩
  have hImplied : ∀ f ∈ offers, f.RequiresImplied := by
    rw [offers, List.forall_mem_cons, List.forall_mem_singleton]
    exact ⟨by unfold Fragment.RequiresImplied; decide,
      by unfold Fragment.RequiresImplied; decide⟩
  have hMergeable : ¬Unmergeable (offers.map .fragment) :=
    not_unmergeable_iff.mpr ⟨hAdmissible, _, List.mem_cons_self, "?x",
      .inl (by decide), by decide⟩
  have hOutcome := disjunction_exact (offers.map .fragment) hValid hNamed
  obtain ⟨g, hg, hMerges⟩ := hOutcome.merged hMergeable rfl
  refine ⟨hValid, hNamed, g, hg, hMerges.require_eq hImplied, ?_⟩
  rw [hMerges.provide_eq]
  rfl

/-- A branch that provides `?x` and whose private variable carries the number
five as display information. -/
def unreadableBranch : Fragment where
  clauses := [.vector [.named "?x", .sym ⟨"?y", some (.int 5)⟩]]
  provide := [Symbol.plain "?x"]

/-- The branch can be merged, but renaming its arm reads the display
information and stops. -/
theorem disjunction_unreadable :
    unreadableBranch.Valid ∧ unreadableBranch.IsNamed ∧
      ¬Unmergeable [.fragment unreadableBranch] ∧
      disjunction [.fragment unreadableBranch] = .error .wrongShape := by
  have hValid : unreadableBranch.Valid := rfl
  have hAdmissible : ∀ f ∈ [unreadableBranch], f.Admissible := by
    rw [List.forall_mem_singleton]
    exact ⟨by decide, by decide, by decide, by decide⟩
  have hWell : ∀ f ∈ [unreadableBranch], f.WellFormed := by
    rw [List.forall_mem_singleton]
    exact unreadableBranch.valid_iff.mp hValid
  have hMergeable : ¬Unmergeable ([unreadableBranch].map .fragment) :=
    not_unmergeable_iff.mpr ⟨hAdmissible, _, List.mem_cons_self, "?x",
      .inl (by decide), by decide⟩
  refine ⟨hValid, .inl rfl, hMergeable, ?_⟩
  rcases disjunction_outcome (forall_fragment_map.mpr hWell) with
    ⟨h, -⟩ | ⟨fs, hEq, -, -, hOutcome⟩
  · exact absurd h hMergeable
  · obtain rfl : [unreadableBranch] = fs := eq_of_fragment_map_eq hEq
    have hFault : [unreadableBranch].findSome? Fragment.infoFault? =
        some .wrongShape := rfl
    show disjunction ([unreadableBranch].map .fragment) = _
    rw [hOutcome, hFault]
    rfl

end DatalogFragments
