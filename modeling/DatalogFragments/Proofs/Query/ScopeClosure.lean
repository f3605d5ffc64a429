import DatalogFragments.Proofs.Fragment.Described
import DatalogFragments.Proofs.Query.Outcome

/-!
# A compiled query is closed

Whatever a compiled query mentions comes from somewhere: a variable is provided
by some fragment or belongs to the clauses of a single one, and a special is
always provided.  Three things work together.  A special of the clauses is
declared by its fragment, a declared one that is required is provided by
another fragment, and renaming touches private variables only.

The specials that the clauses merely imply are covered as well, once the
fragments come from descriptions: renaming leaves what clauses imply alone.

## Main results

* `Query.ScopeClosed` — the guarantee;
* `Query.compile_scope_closed` — every compiled query comes with it.
-/

namespace DatalogFragments

namespace Query

/-- The names in the clauses of a query, with repetitions. -/
def clauseNames (q : Query) : List String :=
  (Term.symbolsOf q.clauses).map Symbol.name

/-- The name is a private variable of the compiled fragment at the position,
and no clause of another compiled fragment mentions it. -/
structure OwnedAt (q : Query) (k : Nat) (g : Fragment) (n : String) : Prop where
  position : q.slices[k]? = some g
  is_private : n ∈ g.privateNames
  occurs : n ∈ g.clauseNames
  only_here : ∀ (j : Nat) (g' : Fragment), q.slices[j]? = some g' →
    n ∈ g'.clauseNames → j = k

/-- Every variable and every special of a query is accounted for. -/
structure ScopeClosed (slices : List Fragment) (q : Query) : Prop where
  /-- It is provided, or a fresh variable of a single compiled fragment. -/
  accounted : ∀ n ∈ q.clauseNames, isDeclarableName n = true →
    (∃ f ∈ slices, n ∈ f.provideNames) ∨
      isVariableName n = true ∧ n ∉ usedNames slices ∧
        ∃ (k : Nat) (g : Fragment), OwnedAt q k g n
  specials_provided : ∀ n ∈ q.clauseNames, isSpecialName n = true →
    ∃ f ∈ slices, n ∈ f.provideNames
  /-- What the clauses imply is provided, if the fragments come from
  descriptions. -/
  implied_provided : (∀ f ∈ slices, f.Described) →
    ∀ n ∈ Term.impliedSpecials q.clauses, ∃ f ∈ slices, n ∈ f.provideNames

/-! ## Where names of the clauses come from -/

theorem mem_clauseNames_build {find : Value} {ordered : List Fragment}
    {a : Assembly} {n : String} : n ∈ (build find ordered a).clauseNames ↔
      ∃ g ∈ ordered, n ∈ g.clauseNames := by
  have hClauses : (build find ordered a).clauses =
      ordered.flatMap Fragment.clauses := rfl
  rw [clauseNames, hClauses, Term.symbolsOf_eq_flatMap, List.flatMap_assoc,
    List.map_flatMap, List.mem_flatMap]
  refine exists_congr fun g => and_congr_right fun _ => ?_
  rw [Fragment.clauseNames, Term.symbolsOf_eq_flatMap]

/-- A name in the clauses of a compiled query is the image of a name in the
clauses of a fragment. -/
theorem exists_of_mem_clauseNames {slices : List Fragment} {find : Value}
    {a : Assembly} {n : String}
    (hn : n ∈ (build find (renamedSlices slices) a).clauseNames) :
    ∃ (k : Nat) (f : Fragment), (orderSlices slices)[k]? = some f ∧
      ∃ s ∈ f.clauseNames, compiledMap slices k s = n := by
  obtain ⟨g, hg, hn⟩ := mem_clauseNames_build.mp hn
  obtain ⟨k, f, hf, rfl⟩ := mem_renamedSlices.mp hg
  rw [Fragment.clauseNames_renamed] at hn
  obtain ⟨s, hs, rfl⟩ := List.mem_map.mp hn
  exact ⟨k, f, hf, s, hs, rfl⟩

/-- A declarable name of the clauses that is not private is exposed. -/
theorem exposed_of_not_private {f : Fragment} (hf : f.WellFormed) {n : String}
    (hn : n ∈ f.clauseNames) (hDeclarable : isDeclarableName n = true)
    (hPrivate : n ∉ f.privateNames) :
    n ∈ f.requireNames ∨ n ∈ f.provideNames := by
  rw [isDeclarableName, Bool.or_eq_true] at hDeclarable
  rcases hDeclarable with hVariable | hSpecial
  · by_contra hHidden
    rw [not_or] at hHidden
    exact hPrivate ((f.mem_privateNames n).mpr
      ⟨.inl hn, hVariable, hHidden.2, hHidden.1⟩)
  · exact hf.specials_declared n hn hSpecial

/-- What a fragment of a satisfied plan exposes is provided. -/
theorem provided_of_exposed {slices : List Fragment}
    (hWell : ∀ f ∈ slices, f.WellFormed) (h : checkSatisfied slices = .ok ())
    {f : Fragment} (hf : f ∈ slices) {n : String}
    (hn : n ∈ f.requireNames ∨ n ∈ f.provideNames) :
    ∃ g ∈ slices, n ∈ g.provideNames := by
  rcases hn with hRequire | hProvide
  · exact (checkSatisfied_eq_ok_iff hWell).mp h f hf n hRequire
  · exact ⟨f, hf, hProvide⟩

/-- The new name of a private variable of the clauses is owned by the compiled
fragment at its position. -/
theorem ownedAt_of_private {slices : List Fragment} {find : Value}
    {a : Assembly} {k : Nat} {f : Fragment}
    (hf : (orderSlices slices)[k]? = some f) {s : String}
    (hs : s ∈ f.clauseNames) (hPrivate : s ∈ f.privateNames) :
    OwnedAt (build find (renamedSlices slices) a) k
      (f.renamed (compiledMap slices k)) (compiledMap slices k s) := by
  have hUsed := usedNames_of_mem_orderSlices slices
  have hOccurs : compiledMap slices k s ∈
      (f.renamed (compiledMap slices k)).clauseNames := by
    rw [Fragment.clauseNames_renamed]
    exact List.mem_map_of_mem hs
  refine ⟨getElem?_renamedSlices.mpr ⟨f, hf, rfl⟩, ?_, hOccurs, ?_⟩
  · exact (Fragment.mem_privateNames_renamed (freshens_compiledMap hf)
      (hUsed f (List.mem_of_getElem? hf))).mpr ⟨s, hPrivate, rfl⟩
  · intro j g' hj hn
    obtain ⟨g, hg, rfl⟩ := getElem?_renamedSlices.mp hj
    rw [Fragment.clauseNames_renamed] at hn
    obtain ⟨t, ht, heq⟩ := List.mem_map.mp hn
    exact ((freshenedApart_compiledMap slices).capture_free hUsed hf hg hPrivate
      (g.mem_names_of_clause ht) heq.symm).1.symm

/-! ## Implied specials -/

/-- The clauses of a compiled query imply what the clauses of its fragments
imply. -/
theorem mem_impliedSpecials_build {slices : List Fragment} {find : Value}
    {a : Assembly} {n : String}
    (hn : n ∈ Term.impliedSpecials (build find (renamedSlices slices) a).clauses) :
    ∃ f ∈ slices, n ∈ Term.impliedSpecials f.clauses := by
  have hClauses : (build find (renamedSlices slices) a).clauses =
      (renamedSlices slices).flatMap Fragment.clauses := rfl
  rw [Term.mem_impliedSpecials, hClauses, Term.mem_bodySpecials] at hn
  obtain ⟨t, ht, hn⟩ := hn
  obtain ⟨g, hg, ht⟩ := List.mem_flatMap.mp ht
  obtain ⟨k, f, hf, rfl⟩ := mem_renamedSlices.mp hg
  have hKeeps := (freshens_compiledMap hf).keepsKinds
  obtain ⟨u, hu, rfl⟩ := List.mem_map.mp ht
  rw [Term.clauseSpecials_renamed hKeeps] at hn
  exact ⟨f, mem_orderSlices.mp (List.mem_of_getElem? hf),
    (Term.mem_impliedSpecials _ _).mpr (Term.mem_bodySpecials.mpr ⟨u, hu, hn⟩)⟩

/-! ## The guarantee -/

/-- Every compiled query is closed, whatever valid fragments it is made of. -/
theorem compile_scope_closed (find : Value) (slices : List Fragment)
    (q : Query) (hValid : ∀ f ∈ slices, f.Valid)
    (hCompile : compile find slices = .ok q) : ScopeClosed slices q := by
  have hWell : ∀ f ∈ slices, f.WellFormed :=
    fun f hf => f.valid_iff.mp (hValid f hf)
  have hApart := freshenedApart_compiledMap slices
  obtain ⟨hSatisfied, -⟩ := checks_of_compile_eq_ok hCompile
  obtain ⟨a, -, rfl⟩ := exists_of_compile_eq_ok hWell hCompile
  refine ⟨?_, ?_, ?_⟩
  · intro n hn hDeclarable
    obtain ⟨k, f, hf, s, hs, rfl⟩ := exists_of_mem_clauseNames hn
    have hFresh := hApart.freshens k f hf
    have hMem := mem_orderSlices.mp (List.mem_of_getElem? hf)
    by_cases hPrivate : s ∈ f.privateNames
    · exact .inr ⟨hFresh.isVariable s hPrivate, hFresh.fresh s hPrivate, k, _,
        ownedAt_of_private hf hs hPrivate⟩
    · rw [hFresh.keeps s hPrivate] at hDeclarable ⊢
      exact .inl (provided_of_exposed hWell hSatisfied hMem
        (exposed_of_not_private (hWell f hMem) hs hDeclarable hPrivate))
  · intro n hn hSpecial
    obtain ⟨k, f, hf, s, hs, rfl⟩ := exists_of_mem_clauseNames hn
    have hKeeps := (hApart.freshens k f hf).keepsKinds
    have hMem := mem_orderSlices.mp (List.mem_of_getElem? hf)
    rw [hKeeps.isSpecialName_eq] at hSpecial
    rw [hKeeps.eq_of_not_variable (isVariableName_eq_false_of_special hSpecial)]
    exact provided_of_exposed hWell hSatisfied hMem
      ((hWell f hMem).specials_declared s hs hSpecial)
  · intro hDescribed n hn
    obtain ⟨f, hf, hImplied⟩ := mem_impliedSpecials_build hn
    exact provided_of_exposed hWell hSatisfied hf
      ((hDescribed f hf).declaresImplied n hImplied)

/-- A pattern that asks the default datasource and keeps `?y` to itself, and a
fragment that provides the datasource. -/
def sourced : List Fragment :=
  [ { clauses := [.vector [.named "?x", .literal (.keyword ":a"), .named "?y"]]
      provide := [Symbol.plain "?x"]
      require := [Symbol.plain "$"] }
  , { provide := [Symbol.plain "$"]
      lets := [(.sym (Symbol.plain "$"), .text "db")] } ]

theorem sourced_valid : ∀ f ∈ sourced, f.Valid := by
  rw [sourced, List.forall_mem_cons, List.forall_mem_singleton]
  exact ⟨rfl, rfl⟩

private theorem sourced_described : ∀ f ∈ sourced, f.Described := by
  have hForm : Form.ofData (.text "$") = .ok (.sym (Symbol.plain "$")) := by
    rw [Form.ofData]
  have hBound : ({ provide := [Symbol.plain "$"] } : Fragment).bindAll
      [(.text "$", .text "db")] =
        .ok { provide := [Symbol.plain "$"]
              lets := [(.sym (Symbol.plain "$"), .text "db")] } := by
    rw [Fragment.bindAll, Fragment.readForms, hForm]
    rfl
  rw [sourced, List.forall_mem_cons, List.forall_mem_singleton]
  constructor
  · exact .made (c :=
      { clauses := [.list [.term (.named "?x"), .keyword ":a", .term (.named "?y")]]
        provide := [.text "?x"] }) rfl
  · exact .bound (.made (c := { provide := [.text "$"] }) rfl) hBound

theorem compile_scope_closed_sourced :
    (∀ f ∈ sourced, f.Valid) ∧ (∀ f ∈ sourced, f.Described) ∧
      ∃ q, compile .null sourced = .ok q ∧ ScopeClosed sourced q := by
  have hWell : ∀ f ∈ sourced, f.WellFormed :=
    fun f hf => f.valid_iff.mp (sourced_valid f hf)
  have hInfo : ∀ f ∈ sourced, f.infoFault? = none := by
    rw [sourced, List.forall_mem_cons, List.forall_mem_singleton]
    exact ⟨rfl, rfl⟩
  have hApart : ∀ n, ¬ClashesOn sourced n := by
    intro n
    rw [not_clashesOn_iff, sourced, List.pairwise_pair]
    rintro ⟨⟨-, -, hLet⟩, -⟩
    exact List.not_mem_nil hLet
  obtain ⟨q, hq⟩ := exists_compile_eq_ok hWell .null rfl rfl
    (findSome?_orderSlices_eq_none hInfo) hApart
  exact ⟨sourced_valid, sourced_described, q, hq,
    compile_scope_closed .null sourced q sourced_valid hq⟩

end Query

end DatalogFragments
