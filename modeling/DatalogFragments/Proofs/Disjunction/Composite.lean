import DatalogFragments.Proofs.Disjunction.Arms
import DatalogFragments.Proofs.Fragment.Inference

/-!
# The merged fragment

Admissible branches that expose a variable are merged into one fragment, whose
clause joins their arms under a header of exposed variables.  It is well
formed whatever the branches are: what one of them provides and another one
requires counts as required, and the branches declare every special that their
arms mention.

## Main results

* `Fragment.Admissible`, `admittedBranches_outcome` — the branches that can be
  merged;
* `mem_required`, `mem_provided` — the header;
* `composite` — the merged fragment;
* `wellFormed_composite`, `disjunction_eq` — it is what a disjunction makes;
* `Unmergeable`, `disjunction_outcome` — when there is none.
-/

namespace DatalogFragments

namespace Fragment

/-- The conditions on a branch: must-let variables are bound, no special is
provided or bound, and what is provided occurs in the clauses or is bound. -/
structure Admissible (f : Fragment) : Prop where
  mustLet_bound : ∀ n ∈ f.mustLetNames, n ∈ f.letNames
  provide_plain : ∀ n ∈ f.provideNames, isSpecialName n = false
  let_plain : ∀ n ∈ f.letNames, isSpecialName n = false
  provide_occurs : ∀ n ∈ f.provideNames, n ∈ f.clauseNames ∨ n ∈ f.letNames

theorem unboundMustLet_eq_nil_iff (f : Fragment) :
    f.unboundMustLet = [] ↔ ∀ n ∈ f.mustLetNames, n ∈ f.letNames := by
  rw [unboundMustLet, List.filter_eq_nil_iff, mustLetNames, List.forall_mem_map]
  refine forall₂_congr fun s _ => ?_
  rw [Bool.not_eq_true, Bool.not_eq_false', isIn_iff, letNames]

private theorem specials_eq_nil_iff (f : Fragment) :
    (f.provide ++ f.letSymbols).filter Symbol.isSpecial = [] ↔
      (∀ n ∈ f.provideNames, isSpecialName n = false) ∧
        ∀ n ∈ f.letNames, isSpecialName n = false := by
  rw [List.filter_eq_nil_iff, List.forall_mem_append, provideNames, letNames,
    List.forall_mem_map, List.forall_mem_map]
  simp only [Bool.not_eq_true]
  rfl

private theorem escapingSymbols_eq_nil_iff {f : Fragment} (hf : f.WellFormed) :
    escapingSymbols f = [] ↔
      ∀ n ∈ f.provideNames, n ∈ f.clauseNames ∨ n ∈ f.letNames := by
  rw [escapingSymbols, List.filter_eq_nil_iff, provideNames,
    List.forall_mem_map]
  refine forall₂_congr fun s hs => ?_
  have hFree : s.name ∈ f.freeNames ↔ s.name ∈ f.clauseNames := by
    rw [mem_freeNames]
    exact and_iff_left (hf.provide_declarable s.name (List.mem_map_of_mem hs))
  rw [← hFree, letNames, freeNames, ← isIn_iff, ← isIn_iff]
  cases s.isIn f.freeSymbols <;> cases s.isIn f.letSymbols <;> simp

/-- A branch is let through when it is admissible, and refused otherwise. -/
theorem checkBranch_outcome {f : Fragment} (hf : f.WellFormed) (index : Nat) :
    (checkBranch index f = .ok () ∧ f.Admissible) ∨
    ∃ w : Failure, checkBranch index f = .error (.failure w) ∧
      w.kind = .branch ∧ ¬f.Admissible := by
  rw [checkBranch]
  cases hUnbound : f.unboundMustLet with
  | cons s ss =>
      refine .inr ⟨_, rfl, rfl, fun h => ?_⟩
      rw [f.unboundMustLet_eq_nil_iff.mpr h.mustLet_bound] at hUnbound
      cases hUnbound
  | nil =>
      dsimp only
      cases hSpecials : (f.provide ++ f.letSymbols).filter Symbol.isSpecial with
      | cons s ss =>
          refine .inr ⟨_, rfl, rfl, fun h => ?_⟩
          rw [f.specials_eq_nil_iff.mpr ⟨h.provide_plain, h.let_plain⟩]
            at hSpecials
          cases hSpecials
      | nil =>
          dsimp only
          cases hEscaping : escapingSymbols f with
          | cons s ss =>
              refine .inr ⟨_, rfl, rfl, fun h => ?_⟩
              rw [(escapingSymbols_eq_nil_iff hf).mpr h.provide_occurs]
                at hEscaping
              cases hEscaping
          | nil =>
              obtain ⟨hProvide, hLet⟩ := f.specials_eq_nil_iff.mp hSpecials
              exact .inl ⟨rfl, f.unboundMustLet_eq_nil_iff.mp hUnbound, hProvide,
                hLet, (escapingSymbols_eq_nil_iff hf).mp hEscaping⟩

end Fragment

/-- A branch is admissible when it is an admissible fragment. -/
def Branch.Admissible : Branch → Prop
  | .fragment f => f.Admissible
  | .other _ => False

/-- What holds of the fragments among branches that all are fragments. -/
theorem forall_fragment_map {p : Fragment → Prop} {fs : List Fragment} :
    (∀ f, .fragment f ∈ fs.map Branch.fragment → p f) ↔ ∀ f ∈ fs, p f := by
  constructor
  · exact fun h f hf => h f (List.mem_map_of_mem hf)
  · intro h f hf
    obtain ⟨f', hf', heq⟩ := List.mem_map.mp hf
    exact Branch.fragment.inj heq ▸ h f' hf'

theorem eq_of_fragment_map_eq {fs gs : List Fragment}
    (h : fs.map Branch.fragment = gs.map Branch.fragment) : fs = gs :=
  List.map_injective_iff.mpr (fun _ _ heq => Branch.fragment.inj heq) h

/-- Branches are let through when all of them are admissible fragments, and
refused otherwise. -/
theorem admittedBranches_outcome {branches : List Branch}
    (hWell : ∀ f, .fragment f ∈ branches → f.WellFormed) (index : Nat) :
    (∃ fs, admittedBranches index branches = .ok fs ∧
      branches = fs.map .fragment ∧ ∀ f ∈ fs, f.Admissible) ∨
    ∃ w : Failure, admittedBranches index branches = .error (.failure w) ∧
      w.kind = .branch ∧ ∃ b ∈ branches, ¬b.Admissible := by
  induction branches generalizing index with
  | nil => exact .inl ⟨[], rfl, rfl, fun f hf => absurd hf List.not_mem_nil⟩
  | cons b rest ih =>
      cases b with
      | other v =>
          rw [admittedBranches]
          exact .inr ⟨_, rfl, rfl, .other v, List.mem_cons_self, id⟩
      | fragment f =>
          rw [admittedBranches]
          rcases Fragment.checkBranch_outcome (hWell f List.mem_cons_self) index
            with ⟨hOk, hAdmissible⟩ | ⟨w, hError, hKind, hNot⟩
          · rw [hOk, ok_bind]
            rcases ih (fun g hg => hWell g (List.mem_cons_of_mem _ hg)) (index + 1)
              with ⟨fs, hRest, rfl, hAll⟩ | ⟨w, hError, hKind, c, hc, hNot⟩
            · rw [hRest, ok_bind]
              exact .inl ⟨f :: fs, rfl, rfl,
                List.forall_mem_cons.mpr ⟨hAdmissible, hAll⟩⟩
            · rw [hError]
              exact .inr ⟨w, rfl, hKind, c, List.mem_cons_of_mem _ hc, hNot⟩
          · rw [hError]
            exact .inr ⟨w, rfl, hKind, .fragment f, List.mem_cons_self, hNot⟩

/-! ## The header -/

section Header

variable (fs : List Fragment) (n : String)

/-- The names that some branch requires. -/
theorem mem_names_require :
    n ∈ (distinctNames (fs.flatMap Fragment.require)).map Symbol.name ↔
      ∃ f ∈ fs, n ∈ f.requireNames := by
  rw [mem_names_distinctNames, List.map_flatMap, List.mem_flatMap]
  rfl

/-- The header requires the variables that some branch requires. -/
theorem mem_required :
    n ∈ (disjunctionHeader fs).1.map Symbol.name ↔
      (∃ f ∈ fs, n ∈ f.requireNames) ∧ isVariableName n = true := by
  have hTest : ∀ s : Name,
      s.isVariable = true ↔ isVariableName s.name = true := fun _ => Iff.rfl
  rw [disjunctionHeader, mem_names_distinctNames,
    mem_names_filter (q := (isVariableName · = true)) hTest, List.map_flatMap,
    List.mem_flatMap]
  rfl

/-- It provides what some branch provides, unless it is required. -/
theorem mem_provided :
    n ∈ (disjunctionHeader fs).2.map Symbol.name ↔
      (∃ f ∈ fs, n ∈ f.provideNames) ∧
        n ∉ (disjunctionHeader fs).1.map Symbol.name := by
  have hTest : ∀ s : Name, (!s.isIn (disjunctionHeader fs).1) = true ↔
      s.name ∉ (disjunctionHeader fs).1.map Symbol.name := by
    intro s
    rw [Bool.not_eq_true', isIn_eq_false_iff]
  have hProvided : (disjunctionHeader fs).2 = distinctNames
      ((fs.flatMap Fragment.provide).filter fun s =>
        !s.isIn (disjunctionHeader fs).1) := rfl
  rw [hProvided, mem_names_distinctNames,
    mem_names_filter
      (q := (· ∉ (disjunctionHeader fs).1.map Symbol.name)) hTest,
    List.map_flatMap, List.mem_flatMap]
  rfl

theorem symbols_headerClause (required provided : List Name) :
    (headerClause required provided).symbols = required ++ provided := by
  have hSyms : ∀ l : List Name,
      Term.symbolsOf (l.map Term.sym) = l := by
    intro l
    rw [Term.symbolsOf_eq_flatMap, List.flatMap_map]
    exact List.flatMap_pure_eq_map id l |>.trans (List.map_id _)
  unfold headerClause
  cases required with
  | nil => exact hSyms provided
  | cons s ss =>
      show Term.symbolsOf (Term.vector ((s :: ss).map Term.sym) ::
        provided.map Term.sym) = _
      rw [Term.symbolsOf_cons, hSyms, Term.vector, Term.symbols_vec, hSyms]

theorem misnamedNames_headerClause (required provided : List Name) :
    Term.misnamedNames (headerClause required provided) = [] := by
  have hSyms : ∀ l : List Name, Term.misnamedNamesOf (l.map Term.sym) = [] := by
    intro l
    rw [Term.misnamedNamesOf_eq_flatMap, List.flatMap_map,
      List.flatMap_eq_nil_iff]
    exact fun s _ => rfl
  unfold headerClause
  cases required with
  | nil => exact hSyms provided
  | cons s ss =>
      show Term.misnamedNamesOf (Term.vector ((s :: ss).map Term.sym) ::
        provided.map Term.sym) = _
      rw [Term.misnamedNamesOf, hSyms, Term.vector, Term.misnamedNames, hSyms,
        List.append_nil]

end Header

/-! ## The merged fragment -/

/-- The arms of branches, each under the names of its own. -/
def renamedArms (fs : List Fragment) : List Clause :=
  fs.mapIdx fun k f => (f.renamed (armMap fs k)).arm

/-- The arms under a header of the exposed variables. -/
def disjunctionClause (fs : List Fragment) : Clause :=
  .sequence (.named "or-join" ::
    headerClause (disjunctionHeader fs).1 (disjunctionHeader fs).2 ::
      renamedArms fs)

/-- The merged fragment before it is locked. -/
def unlockedComposite (fs : List Fragment) (names : List String) : Fragment :=
  Fragment.inferred (.text ("or(" ++ joinTexts " " names ++ ")"))
    [disjunctionClause fs] (disjunctionHeader fs).2
    (distinctNames (fs.flatMap Fragment.require))

/-- The merged fragment. -/
def composite (fs : List Fragment) (names : List String) : Fragment :=
  (unlockedComposite fs names).lock

theorem mem_renamedArms {fs : List Fragment} {c : Clause} :
    c ∈ renamedArms fs ↔
      ∃ (k : Nat) (f : Fragment), fs[k]? = some f ∧
        (f.renamed (armMap fs k)).arm = c := by
  rw [List.mem_iff_getElem?]
  refine exists_congr fun k => ?_
  rw [renamedArms, List.getElem?_mapIdx, Option.map_eq_some_iff]

/-- The variables and specials of the clause are those of the header and those
of the arms. -/
theorem mem_names_disjunctionClause {fs : List Fragment} {n : String}
    (hn : isDeclarableName n = true) :
    n ∈ (disjunctionClause fs).symbols.map Symbol.name ↔
      n ∈ (disjunctionHeader fs).1.map Symbol.name ∨
      n ∈ (disjunctionHeader fs).2.map Symbol.name ∨
      ∃ (k : Nat) (f : Fragment), fs[k]? = some f ∧
        n ∈ (f.renamed (armMap fs k)).arm.symbols.map Symbol.name := by
  have hHead : n ≠ "or-join" := by
    rintro rfl
    exact absurd hn (by decide)
  have hArms : n ∈ (Term.symbolsOf (renamedArms fs)).map Symbol.name ↔
      ∃ (k : Nat) (f : Fragment), fs[k]? = some f ∧
        n ∈ (f.renamed (armMap fs k)).arm.symbols.map Symbol.name := by
    rw [Term.symbolsOf_eq_flatMap, List.map_flatMap, List.mem_flatMap]
    constructor
    · rintro ⟨c, hc, hMem⟩
      obtain ⟨k, f, hf, rfl⟩ := mem_renamedArms.mp hc
      exact ⟨k, f, hf, hMem⟩
    · rintro ⟨k, f, hf, hMem⟩
      exact ⟨_, mem_renamedArms.mpr ⟨k, f, hf, rfl⟩, hMem⟩
  rw [← hArms, disjunctionClause, Term.sequence, Term.symbols_seq,
    Term.symbolsOf_cons, Term.symbolsOf_cons, symbols_headerClause, Term.named,
    Term.symbols_sym]
  simp only [List.map_append, List.mem_append, List.map_cons, List.map_nil,
    List.mem_singleton, Symbol.plain, hHead, false_or, or_assoc]

private theorem renamed_arm_wellFormed {fs : List Fragment}
    (hWell : ∀ f ∈ fs, f.WellFormed) {k : Nat} {f : Fragment}
    (hf : fs[k]? = some f) : (f.renamed (armMap fs k)).WellFormed := by
  have hMem := List.mem_of_getElem? hf
  exact (hWell f hMem).renamed ((freshenedApart_armMap fs).freshens k f hf)
    (names_subset_usedNames fs f hMem)

theorem misnamedNames_disjunctionClause {fs : List Fragment}
    (hWell : ∀ f ∈ fs, f.WellFormed) :
    Term.misnamedNames (disjunctionClause fs) = [] := by
  have hArms : Term.misnamedNamesOf (renamedArms fs) = [] := by
    rw [Term.misnamedNamesOf_eq_flatMap, List.flatMap_eq_nil_iff]
    intro c hc
    obtain ⟨k, f, hf, rfl⟩ := mem_renamedArms.mp hc
    exact Fragment.misnamedNames_arm (renamed_arm_wellFormed hWell hf)
  rw [disjunctionClause, Term.sequence, Term.misnamedNames,
    Term.misnamedNamesOf, Term.misnamedNamesOf, misnamedNames_headerClause,
    hArms]
  rfl

/-- What an admissible branch provides are variables. -/
theorem Fragment.Admissible.variable_of_provide {f : Fragment}
    (h : f.Admissible) (hf : f.WellFormed) {n : String}
    (hn : n ∈ f.provideNames) : isVariableName n = true := by
  have hDeclarable := hf.provide_declarable n hn
  rw [isDeclarableName, h.provide_plain n hn, Bool.or_false] at hDeclarable
  exact hDeclarable

/-- Admissible branches merge into a well-formed fragment. -/
theorem wellFormed_composite {fs : List Fragment}
    (hWell : ∀ f ∈ fs, f.WellFormed) (hAdmissible : ∀ f ∈ fs, f.Admissible)
    (names : List String) : (unlockedComposite fs names).WellFormed := by
  apply Fragment.wellFormed_inferred
  · rw [Term.misnamedNamesOf, misnamedNames_disjunctionClause hWell]
    rfl
  · exact nodup_names_distinctNames _
  · exact nodup_names_distinctNames _
  · intro n hn
    obtain ⟨⟨f, hf, hProvide⟩, -⟩ := (mem_provided fs n).mp hn
    exact (hWell f hf).provide_declarable n hProvide
  · intro n hn
    obtain ⟨f, hf, hRequire⟩ := (mem_names_require fs n).mp hn
    exact (hWell f hf).require_declarable n hRequire
  · intro n hn hRequire
    obtain ⟨⟨f, hf, hProvide⟩, hNot⟩ := (mem_provided fs n).mp hn
    have hVariable := (hAdmissible f hf).variable_of_provide (hWell f hf) hProvide
    exact hNot ((mem_required fs n).mpr
      ⟨(mem_names_require fs n).mp hRequire, hVariable⟩)

/-- A disjunction of admissible branches that expose a variable makes the
merged fragment, unless a renaming or the name of a branch stops it. -/
theorem disjunction_eq {branches : List Branch} {fs : List Fragment}
    (hNonempty : branches ≠ [])
    (hAdmitted : admittedBranches 0 branches = .ok fs)
    (hWell : ∀ f ∈ fs, f.WellFormed) (hAdmissible : ∀ f ∈ fs, f.Admissible)
    (hHeader : ((disjunctionHeader fs).1.isEmpty &&
      (disjunctionHeader fs).2.isEmpty) = false) :
    disjunction branches =
      (okUnless (fs.findSome? Fragment.infoFault?) () >>= fun _ =>
        branchNames fs >>= fun names => .ok (composite fs names)) := by
  have hArms : branchArms 0 (usedNames fs) fs =
      okUnless (fs.findSome? Fragment.infoFault?) (renamedArms fs) :=
    branchArms_eq 0 fs (names_subset_usedNames fs)
  have hBranches : branches.isEmpty = false := by
    rw [List.isEmpty_eq_false_iff]
    exact hNonempty
  have hTerms : ∀ t ∈ [disjunctionClause fs], ∀ v, t ≠ .stray v := by
    rw [List.forall_mem_singleton]
    exact fun v h => nomatch h
  rw [disjunction, hBranches, hAdmitted]
  simp only [Bool.false_eq_true, if_false, ok_bind, hHeader, hArms]
  cases fs.findSome? Fragment.infoFault? with
  | some e => rfl
  | none =>
      rw [okUnless_none, okUnless_none, ok_bind, ok_bind]
      cases branchNames fs with
      | error e => rfl
      | ok names =>
          rw [ok_bind, ok_bind]
          exact Fragment.ofConfig_eq_ok hTerms (nodup_names_distinctNames _)
            (wellFormed_composite hWell hAdmissible names)

/-! ## The outcome of a disjunction -/

/-- A branch exposes a variable when it provides or requires one. -/
def Fragment.ExposesVariable (f : Fragment) : Prop :=
  ∃ n, (n ∈ f.provideNames ∨ n ∈ f.requireNames) ∧ isVariableName n = true

/-- The header of admissible branches is empty iff none exposes a variable. -/
theorem header_nonempty_iff {fs : List Fragment}
    (hWell : ∀ f ∈ fs, f.WellFormed) (hAdmissible : ∀ f ∈ fs, f.Admissible) :
    ((disjunctionHeader fs).1.isEmpty && (disjunctionHeader fs).2.isEmpty) =
      false ↔ ∃ f ∈ fs, f.ExposesVariable := by
  have hEmpty : ∀ l : List Name,
      l.isEmpty = false ↔ ∃ n, n ∈ l.map Symbol.name := by
    intro l
    cases l with
    | nil => simp
    | cons s ss => simp
  rw [Bool.and_eq_false_iff, hEmpty, hEmpty]
  constructor
  · rintro (⟨n, hn⟩ | ⟨n, hn⟩)
    · obtain ⟨⟨f, hf, hRequire⟩, hVariable⟩ := (mem_required fs n).mp hn
      exact ⟨f, hf, n, .inr hRequire, hVariable⟩
    · obtain ⟨⟨f, hf, hProvide⟩, -⟩ := (mem_provided fs n).mp hn
      exact ⟨f, hf, n, .inl hProvide,
        (hAdmissible f hf).variable_of_provide (hWell f hf) hProvide⟩
  · rintro ⟨f, hf, n, hProvide | hRequire, hVariable⟩
    · by_cases hRequired : n ∈ (disjunctionHeader fs).1.map Symbol.name
      · exact .inl ⟨n, hRequired⟩
      · exact .inr ⟨n, (mem_provided fs n).mpr ⟨⟨f, hf, hProvide⟩, hRequired⟩⟩
    · exact .inl ⟨n, (mem_required fs n).mpr ⟨⟨f, hf, hRequire⟩, hVariable⟩⟩

/-- Branches that cannot be merged: none at all, one that is not admissible,
or only such that expose no variable. -/
def Unmergeable (branches : List Branch) : Prop :=
  branches = [] ∨ (∃ b ∈ branches, ¬b.Admissible) ∨
    ∀ f, .fragment f ∈ branches → ¬f.ExposesVariable

/-- Fragments can be merged iff all of them are admissible and one exposes a
variable. -/
theorem not_unmergeable_iff {fs : List Fragment} :
    ¬Unmergeable (fs.map .fragment) ↔
      (∀ f ∈ fs, f.Admissible) ∧ ∃ f ∈ fs, f.ExposesVariable := by
  constructor
  · intro h
    refine ⟨fun f hf => ?_, ?_⟩
    · by_contra hNot
      exact h (.inr (.inl ⟨.fragment f, List.mem_map_of_mem hf, hNot⟩))
    · by_contra hNone
      refine h (.inr (.inr (forall_fragment_map.mpr fun f hf hExposes => ?_)))
      exact hNone ⟨f, hf, hExposes⟩
  · rintro ⟨hAdmissible, f, hf, hExposes⟩ (hNil | ⟨b, hb, hNot⟩ | hNone)
    · rw [List.map_eq_nil_iff.mp hNil] at hf
      exact absurd hf List.not_mem_nil
    · obtain ⟨g, hg, rfl⟩ := List.mem_map.mp hb
      exact hNot (hAdmissible g hg)
    · exact forall_fragment_map.mp hNone f hf hExposes

/-- A disjunction refuses what cannot be merged, and goes on to the merged
fragment otherwise. -/
theorem disjunction_outcome {branches : List Branch}
    (hWell : ∀ f, .fragment f ∈ branches → f.WellFormed) :
    (Unmergeable branches ∧ ∃ w : Failure,
      disjunction branches = .error (.failure w) ∧ w.kind = .branch) ∨
    ∃ fs : List Fragment, branches = fs.map .fragment ∧
      ¬Unmergeable branches ∧ (∀ f ∈ fs, f.Admissible) ∧
      disjunction branches =
        (okUnless (fs.findSome? Fragment.infoFault?) () >>= fun _ =>
          branchNames fs >>= fun names => .ok (composite fs names)) := by
  by_cases hNil : branches = []
  · have hError : disjunction [] = .error (.failure { cause := .noBranches }) :=
      rfl
    rw [hNil]
    exact .inl ⟨.inl rfl, _, hError, rfl⟩
  have hBranches : branches.isEmpty = false :=
    List.isEmpty_eq_false_iff.mpr hNil
  rcases admittedBranches_outcome hWell 0 with
    ⟨fs, hAdmitted, rfl, hAdmissible⟩ | ⟨w, hError, hKind, hNot⟩
  · have hFragments := forall_fragment_map.mp hWell
    have hExposed := header_nonempty_iff hFragments hAdmissible
    cases hHeader : ((disjunctionHeader fs).1.isEmpty &&
        (disjunctionHeader fs).2.isEmpty) with
    | true =>
        refine .inl ⟨.inr (.inr (forall_fragment_map.mpr ?_)), ?_⟩
        · intro f hf hExposes
          rw [hExposed.mpr ⟨f, hf, hExposes⟩] at hHeader
          cases hHeader
        · rw [disjunction, hBranches, hAdmitted]
          simp only [Bool.false_eq_true, if_false, ok_bind, hHeader, if_true]
          exact ⟨_, rfl, rfl⟩
    | false =>
        have hMergeable : ¬Unmergeable (fs.map .fragment) :=
          not_unmergeable_iff.mpr ⟨hAdmissible, hExposed.mp hHeader⟩
        exact .inr ⟨fs, rfl, hMergeable, hAdmissible, disjunction_eq hNil
          hAdmitted hFragments hAdmissible hHeader⟩
  · refine .inl ⟨.inr (.inl hNot), w, ?_, hKind⟩
    rw [disjunction, hBranches, hError]
    rfl

/-- The name of a branch is a text or missing. -/
def Fragment.IsNamed (f : Fragment) : Prop :=
  f.name = .null ∨ ∃ s, f.name = .text s

theorem exists_branchNames_eq_ok {fs : List Fragment}
    (h : ∀ f ∈ fs, f.IsNamed) : ∃ names, branchNames fs = .ok names := by
  refine exists_mapM_eq_ok fun f hf => ?_
  rcases h f hf with hName | ⟨s, hName⟩
  · exact ⟨"_", by rw [hName]⟩
  · exact ⟨s, by rw [hName]⟩

/-- Mergeable branches with readable display information and usable names are
merged. -/
theorem exists_disjunction_eq_ok {fs : List Fragment}
    (hWell : ∀ f ∈ fs, f.WellFormed)
    (hMergeable : ¬Unmergeable (fs.map .fragment))
    (hInfo : fs.findSome? Fragment.infoFault? = none)
    (hNamed : ∀ f ∈ fs, f.IsNamed) :
    ∃ names, disjunction (fs.map .fragment) = .ok (composite fs names) := by
  rcases disjunction_outcome (forall_fragment_map.mpr hWell) with
    ⟨hNot, -⟩ | ⟨fs', hEq, -, -, hOutcome⟩
  · exact absurd hNot hMergeable
  · obtain rfl := eq_of_fragment_map_eq hEq
    obtain ⟨names, hNames⟩ := exists_branchNames_eq_ok hNamed
    exact ⟨names, by rw [hOutcome, hInfo, okUnless_none, ok_bind, hNames, ok_bind]⟩

end DatalogFragments
