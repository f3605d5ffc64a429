import DatalogFragments.Proofs.Disjunction.Composite

/-!
# Scopes of a disjunction

The arms of a disjunction are alternatives, so a variable that a branch keeps
to itself must neither leave its arm nor meet a variable of another one.  The
maps of names see to that: what an arm shares with the header or with another
arm its branch exposes, and what the merged fragment keeps to itself are the
images of private variables of its branches.

## Main results

* `ScopesArms` — the guarantee;
* `disjunction_scopes_arms` — every disjunction comes with it.
-/

namespace DatalogFragments

/-- The arms of a merged fragment are its branches, moved along maps of names
of their own, under which a private variable stays inside its arm. -/
structure ScopesArms (branches : List Fragment) (g : Fragment)
    (ρ : Nat → String → String) : Prop where
  /-- The arm of a branch is its bindings as clauses, then its own clauses,
  moved along its map. -/
  clauses_eq : g.clauses = [.sequence (.named "or-join" ::
    headerClause (disjunctionHeader branches).1 (disjunctionHeader branches).2 ::
      branches.mapIdx fun i f => joinedClause
        (((f.renamed (ρ i)).lets.map fun p => groundClause p.1 p.2) ++
          (f.renamed (ρ i)).clauses))]
  /-- Private variables get pairwise different new variables that no branch
  uses; every other name stays. -/
  freshens : ∀ (i : Nat) (f : Fragment), branches[i]? = some f →
    f.Freshens (ρ i) (usedNames branches)
  private_apart : ∀ (i j : Nat) (f f' : Fragment), branches[i]? = some f →
    branches[j]? = some f' → ∀ s ∈ f.privateNames, ∀ t ∈ f'.privateNames,
    ρ i s = ρ j t → i = j ∧ s = t
  /-- A variable that an arm shares with the header is exposed by its branch. -/
  shared_header : ∀ (i : Nat) (f : Fragment), branches[i]? = some f →
    ∀ n ∈ (f.renamed (ρ i)).arm.symbols.map Symbol.name,
    isVariableName n = true →
    n ∈ (disjunctionHeader branches).1.map Symbol.name ∨
      n ∈ (disjunctionHeader branches).2.map Symbol.name →
    n ∈ f.provideNames ∨ n ∈ f.requireNames
  /-- So is a variable that it shares with another arm. -/
  shared_arm : ∀ (i j : Nat) (f f' : Fragment), i ≠ j →
    branches[i]? = some f → branches[j]? = some f' →
    ∀ n ∈ (f.renamed (ρ i)).arm.symbols.map Symbol.name,
    n ∈ (f'.renamed (ρ j)).arm.symbols.map Symbol.name →
    isVariableName n = true → n ∈ f.provideNames ∨ n ∈ f.requireNames
  /-- What the merged fragment keeps to itself. -/
  private_iff : ∀ n, n ∈ g.privateNames ↔
    ∃ (i : Nat) (f : Fragment) (s : String), branches[i]? = some f ∧
      s ∈ f.privateNames ∧ n = ρ i s

/-! ## Variables of arms -/

/-- A variable of an arm is exposed by the branch or the image of a private
variable. -/
theorem variable_of_arm {f : Fragment} {ρ : String → String}
    {used : List String} (h : f.Freshens ρ used) {n : String}
    (hn : n ∈ (f.renamed ρ).arm.symbols.map Symbol.name)
    (hVariable : isVariableName n = true) :
    (n ∈ f.provideNames ∨ n ∈ f.requireNames) ∨
      ∃ s ∈ f.privateNames, ρ s = n := by
  obtain ⟨s, hs, rfl⟩ :=
    (Fragment.mem_names_renamed_arm h (isDeclarableName_of_variable hVariable)).mp hn
  rw [h.keepsKinds.isVariableName_eq] at hVariable
  by_cases hPrivate : s ∈ f.privateNames
  · exact .inr ⟨s, hPrivate, rfl⟩
  · left
    rw [h.keeps s hPrivate]
    by_contra hHidden
    rw [not_or] at hHidden
    exact hPrivate ((Fragment.mem_privateNames f s).mpr
      ⟨hs.symm, hVariable, hHidden⟩)

/-! ## Variables that arms share -/

section Shared

variable {branches : List Fragment}

/-- The header mentions names that the branches use. -/
theorem mem_usedNames_of_header {n : String}
    (hn : n ∈ (disjunctionHeader branches).1.map Symbol.name ∨
      n ∈ (disjunctionHeader branches).2.map Symbol.name) :
    n ∈ usedNames branches := by
  rw [mem_usedNames]
  rcases hn with hn | hn
  · obtain ⟨⟨f, hf, hRequire⟩, -⟩ := (mem_required branches n).mp hn
    exact ⟨f, hf, f.mem_names_of_exposed (.inr hRequire)⟩
  · obtain ⟨⟨f, hf, hProvide⟩, -⟩ := (mem_provided branches n).mp hn
    exact ⟨f, hf, f.mem_names_of_exposed (.inl hProvide)⟩

theorem exposed_of_shared_header {i : Nat} {f : Fragment}
    (hf : branches[i]? = some f) {n : String}
    (hn : n ∈ (f.renamed (armMap branches i)).arm.symbols.map Symbol.name)
    (hVariable : isVariableName n = true)
    (hHeader : n ∈ (disjunctionHeader branches).1.map Symbol.name ∨
      n ∈ (disjunctionHeader branches).2.map Symbol.name) :
    n ∈ f.provideNames ∨ n ∈ f.requireNames := by
  have hFresh := (freshenedApart_armMap branches).freshens i f hf
  rcases variable_of_arm hFresh hn hVariable with hExposed | ⟨s, hs, rfl⟩
  · exact hExposed
  · exact absurd (mem_usedNames_of_header hHeader) (hFresh.fresh s hs)

theorem exposed_of_shared_arm {i j : Nat} {f f' : Fragment} (hij : i ≠ j)
    (hf : branches[i]? = some f) (hf' : branches[j]? = some f') {n : String}
    (hn : n ∈ (f.renamed (armMap branches i)).arm.symbols.map Symbol.name)
    (hn' : n ∈ (f'.renamed (armMap branches j)).arm.symbols.map Symbol.name)
    (hVariable : isVariableName n = true) :
    n ∈ f.provideNames ∨ n ∈ f.requireNames := by
  have hApart := freshenedApart_armMap branches
  rcases variable_of_arm (hApart.freshens i f hf) hn hVariable with
    hExposed | ⟨s, hs, hsn⟩
  · exact hExposed
  · obtain ⟨t, ht, htn⟩ := (Fragment.mem_names_renamed_arm (hApart.freshens j f' hf')
      (isDeclarableName_of_variable hVariable)).mp hn'
    have htNames : t ∈ f'.names := by
      rcases ht with ht | ht
      · exact f'.mem_names_of_let ht
      · exact f'.mem_names_of_clause ht
    have hSame := hApart.capture_free (names_subset_usedNames branches) hf hf' hs
      htNames (hsn.trans htn.symm)
    exact absurd hSame.1 hij

/-! ## What the merged fragment keeps to itself -/

/-- The merged fragment exposes the variables that its branches expose. -/
theorem exposed_composite (names : List String) {n : String}
    (hVariable : isVariableName n = true) :
    (n ∈ (composite branches names).provideNames ∨
      n ∈ (composite branches names).requireNames) ↔
      ∃ f ∈ branches, n ∈ f.provideNames ∨ n ∈ f.requireNames := by
  have hProvide : (composite branches names).provideNames =
      (disjunctionHeader branches).2.map Symbol.name := rfl
  have hRequire : (composite branches names).requireNames =
      (unlockedComposite branches names).requireNames := rfl
  have hImplied : n ∉ (Fragment.impliedBy [disjunctionClause branches]
      ((disjunctionHeader branches).2 ++
        distinctNames (branches.flatMap Fragment.require))).map Symbol.name := by
    intro hn
    have hSpecial := Fragment.foundSpecials_special _ n
      ((Fragment.mem_impliedBy _ _ n).mp hn).1
    rw [isSpecialName_eq_false_of_variable hVariable] at hSpecial
    cases hSpecial
  rw [hProvide, hRequire, unlockedComposite, Fragment.requireNames_inferred,
    List.mem_append, or_iff_left hImplied, mem_provided, mem_names_require]
  constructor
  · rintro (⟨⟨f, hf, h⟩, -⟩ | ⟨f, hf, h⟩)
    · exact ⟨f, hf, .inl h⟩
    · exact ⟨f, hf, .inr h⟩
  · rintro ⟨f, hf, h | h⟩
    · by_cases hRequired : ∃ f ∈ branches, n ∈ f.requireNames
      · exact .inr hRequired
      · exact .inl ⟨⟨f, hf, h⟩, fun hn =>
          hRequired ((mem_required branches n).mp hn).1⟩
    · exact .inr ⟨f, hf, h⟩

/-- The private variables of the merged fragment are the images of the private
variables of its branches. -/
theorem mem_privateNames_composite (names : List String) (n : String) :
    n ∈ (composite branches names).privateNames ↔
      ∃ (i : Nat) (f : Fragment) (s : String), branches[i]? = some f ∧
        s ∈ f.privateNames ∧ n = armMap branches i s := by
  have hApart := freshenedApart_armMap branches
  have hClause : (composite branches names).clauseNames =
      (disjunctionClause branches).symbols.map Symbol.name :=
    congrArg (List.map Symbol.name) (List.append_nil _)
  rw [Fragment.mem_privateNames, hClause]
  constructor
  · rintro ⟨hOccurs | hLet, hVariable, hHidden⟩
    · have hNotExposed := mt (exposed_composite names hVariable).mpr
        (not_or.mpr hHidden)
      rcases (mem_names_disjunctionClause
        (isDeclarableName_of_variable hVariable)).mp hOccurs with
        hRequired | hProvided | ⟨i, f, hf, hArm⟩
      · obtain ⟨⟨f, hf, h⟩, -⟩ := (mem_required branches n).mp hRequired
        exact absurd ⟨f, hf, .inr h⟩ hNotExposed
      · obtain ⟨⟨f, hf, h⟩, -⟩ := (mem_provided branches n).mp hProvided
        exact absurd ⟨f, hf, .inl h⟩ hNotExposed
      · rcases variable_of_arm (hApart.freshens i f hf) hArm hVariable with
          h | ⟨s, hs, rfl⟩
        · exact absurd ⟨f, List.mem_of_getElem? hf, h⟩ hNotExposed
        · exact ⟨i, f, s, hf, hs, rfl⟩
    · exact absurd hLet List.not_mem_nil
  · rintro ⟨i, f, s, hf, hs, rfl⟩
    have hFresh := hApart.freshens i f hf
    have hVariable := hFresh.isVariable s hs
    have hDeclarable := isDeclarableName_of_variable hVariable
    have hOccurs := ((Fragment.mem_privateNames f s).mp hs).1
    refine ⟨.inl ((mem_names_disjunctionClause hDeclarable).mpr (.inr (.inr
      ⟨i, f, hf, (Fragment.mem_names_renamed_arm hFresh hDeclarable).mpr
        ⟨s, hOccurs.symm, rfl⟩⟩))), hVariable, ?_⟩
    rw [← not_or, exposed_composite names hVariable]
    rintro ⟨f', hf', hExposed⟩
    exact hFresh.fresh s hs ((mem_usedNames branches _).mpr
      ⟨f', hf', f'.mem_names_of_exposed hExposed⟩)

end Shared

/-- The arms of a disjunction of valid branches are scoped. -/
theorem disjunction_scopes_arms (branches : List Fragment) (g : Fragment)
    (hValid : ∀ f ∈ branches, f.Valid)
    (hDisjunction : disjunction (branches.map .fragment) = .ok g) :
    ∃ ρ : Nat → String → String, ScopesArms branches g ρ := by
  have hWell : ∀ f ∈ branches, f.WellFormed :=
    fun f hf => f.valid_iff.mp (hValid f hf)
  have hApart := freshenedApart_armMap branches
  have hUsed := names_subset_usedNames branches
  rcases disjunction_outcome (forall_fragment_map.mpr hWell) with
    ⟨-, w, hError, -⟩ | ⟨fs, hBranches, -, -, hOutcome⟩
  · rw [hError] at hDisjunction
    cases hDisjunction
  · obtain rfl := eq_of_fragment_map_eq hBranches
    rw [hOutcome, then_eq_ok_iff, bind_eq_ok_iff] at hDisjunction
    obtain ⟨-, names, -, hComposite⟩ := hDisjunction
    obtain rfl := Except.ok.inj hComposite
    exact ⟨armMap branches,
      { clauses_eq := rfl
        freshens := hApart.freshens
        private_apart := fun _ _ _ _ hi hj _ hs _ ht =>
          hApart.capture_free hUsed hi hj hs (Fragment.mem_names_of_private ht)
        shared_header := fun _ _ hf _ => exposed_of_shared_header hf
        shared_arm := fun _ _ _ _ hij hf hf' _ =>
          exposed_of_shared_arm hij hf hf'
        private_iff := mem_privateNames_composite names }⟩

/-- Two branches that provide `?x` and use `?y` each for itself. -/
def alternatives : List Fragment :=
  [ { clauses := [.vector [.named "?x", .named ":a", .named "?y"]]
      provide := [Symbol.plain "?x"] }
  , { clauses := [.vector [.named "?x", .named ":b", .named "?y"]]
      provide := [Symbol.plain "?x"] } ]

theorem alternatives_valid : ∀ f ∈ alternatives, f.Valid := by
  rw [alternatives, List.forall_mem_cons, List.forall_mem_singleton]
  exact ⟨rfl, rfl⟩

private theorem exists_disjunction_alternatives :
    ∃ g, disjunction (alternatives.map .fragment) = .ok g := by
  have hWell : ∀ f ∈ alternatives, f.WellFormed :=
    fun f hf => f.valid_iff.mp (alternatives_valid f hf)
  have hAdmissible : ∀ f ∈ alternatives, f.Admissible := by
    rw [alternatives, List.forall_mem_cons, List.forall_mem_singleton]
    exact ⟨⟨by decide, by decide, by decide, by decide⟩,
      ⟨by decide, by decide, by decide, by decide⟩⟩
  have hNamed : ∀ f ∈ alternatives, f.IsNamed := by
    rw [alternatives, List.forall_mem_cons, List.forall_mem_singleton]
    exact ⟨.inl rfl, .inl rfl⟩
  have hMergeable : ¬Unmergeable (alternatives.map .fragment) :=
    not_unmergeable_iff.mpr ⟨hAdmissible, _, List.mem_cons_self, "?x",
      .inl (by decide), by decide⟩
  obtain ⟨names, h⟩ := exists_disjunction_eq_ok hWell hMergeable rfl hNamed
  exact ⟨_, h⟩

theorem disjunction_scopes_arms_alternatives :
    (∀ f ∈ alternatives, f.Valid) ∧
      ∃ g, disjunction (alternatives.map .fragment) = .ok g ∧
        ∃ ρ : Nat → String → String, ScopesArms alternatives g ρ := by
  obtain ⟨g, hg⟩ := exists_disjunction_alternatives
  exact ⟨alternatives_valid, g, hg,
    disjunction_scopes_arms alternatives g alternatives_valid hg⟩

end DatalogFragments
