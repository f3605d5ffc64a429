import DatalogFragments.Disjunction
import DatalogFragments.Proofs.Fragment.RenamingRun

/-!
# Arms of a disjunction

An arm is the bindings of a branch as clauses, then its own clauses, under the
renaming of the branch.  Renaming a branch first and writing its arm down then
comes to the same, so what an arm mentions and implies is read off the renamed
branch.

## Main results

* `Fragment.arm` — the arm that a fragment makes as it is;
* `branchArms_eq` — the arms of a disjunction are those of renamed branches;
* `Fragment.mem_names_arm` — the variables and specials of an arm;
* `Fragment.clauseSpecials_arm` — the specials that it implies.
-/

namespace DatalogFragments

namespace Fragment

/-- The bindings of a fragment as clauses, then its clauses. -/
def armBody (f : Fragment) : List Clause :=
  f.lets.map (fun p => groundClause p.1 p.2) ++ f.clauses

/-- A fragment as an arm, under its own names. -/
def arm (f : Fragment) : Clause := joinedClause f.armBody

end Fragment

/-! ## Renamed branches -/

/-- The base of a new name for an arm. -/
def armIndexBase (index _ : Nat) (name : String) : String := armBase name index

/-- The map of names for every branch of a list. -/
def armMap (branches : List Fragment) : Nat → String → String :=
  renamingOf armIndexBase 0 (usedNames branches) branches

/-- The maps freshen the private variables of their branches and keep
different branches apart. -/
theorem freshenedApart_armMap (branches : List Fragment) :
    FreshenedApart branches (armMap branches) (usedNames branches) :=
  freshenedApart_renamingOf (fun _ _ _ h => isVariableName_armBase h _) 0 _ _

/-- The body of an arm is that of the renamed branch. -/
private theorem armClauses_eq {f : Fragment} {r : Renaming} (h : r.Moves) :
    armClauses f r = okUnless ((Term.symbolsOf f.clauses).findSome? r.infoFault?)
      (f.renamed r.renameText).armBody := by
  have hBody : armClauses f r = (f.underRenaming r).map Fragment.armBody := by
    rw [armClauses, Fragment.underRenaming]
    cases r.renameClauses f.clauses <;> rfl
  rw [hBody, Fragment.underRenaming_eq h, okUnless_map]

theorem branchArm_eq (index : Nat) (f : Fragment) {taken : List String}
    (hUsed : ∀ n ∈ f.names, n ∈ taken) :
    branchArm index f taken = okUnless f.infoFault?
      ((f.renamed (f.privateRenaming (armIndexBase index) taken).1.renameText).arm,
        (f.privateRenaming (armIndexBase index) taken).2) := by
  have hDrawn : armRenaming index f taken =
      f.privateRenaming (armIndexBase index) taken := rfl
  have hMoves : (f.privateRenaming (armIndexBase index) taken).1.Moves :=
    Fragment.moves_privateRenaming hUsed
  rw [branchArm, hDrawn]
  dsimp only
  rw [armClauses_eq hMoves, f.findSome?_infoFault?_privateRenaming]
  cases f.infoFault? <;> rfl

/-- The arms of all branches, with the fault of the first one that has any. -/
theorem branchArms_eq (index : Nat) {taken : List String} (fs : List Fragment)
    (hUsed : ∀ f ∈ fs, ∀ n ∈ f.names, n ∈ taken) :
    branchArms index taken fs = okUnless (fs.findSome? Fragment.infoFault?)
      (fs.mapIdx fun k f =>
        (f.renamed (renamingOf armIndexBase index taken fs k)).arm) := by
  induction fs generalizing index taken with
  | nil => rfl
  | cons f fs ih =>
      obtain ⟨hHead, hTail⟩ := List.forall_mem_cons.mp hUsed
      rw [branchArms, branchArm_eq index f hHead, List.findSome?_cons]
      cases f.infoFault? with
      | some e => rfl
      | none =>
          rw [okUnless_none, ok_bind]
          dsimp only
          rw [ih (index + 1) fun g hg n hn =>
            mem_privateRenaming_taken f index (hTail g hg n hn)]
          cases fs.findSome? Fragment.infoFault? with
          | some e => rfl
          | none =>
              rw [List.mapIdx_cons]
              rfl

namespace Fragment

/-! ## What an arm mentions -/

private theorem names_joinedClause {n : String} (hn : isDeclarableName n = true)
    (cs : List Clause) : n ∈ (joinedClause cs).symbols.map Symbol.name ↔
      n ∈ (Term.symbolsOf cs).map Symbol.name := by
  have hAnd : n ≠ "and" := by
    rintro rfl
    exact absurd hn (by decide)
  unfold joinedClause
  split
  · rw [Term.symbolsOf_cons, Term.symbolsOf_nil, List.append_nil]
  · rw [Term.sequence, Term.symbols_seq, Term.symbolsOf_cons, List.map_append,
      List.mem_append, Term.named, Term.symbols_sym]
    simp [Symbol.plain, hAnd]

private theorem names_groundClause {n : String} (hn : isDeclarableName n = true)
    (form : Form) (value : Value) :
    n ∈ (groundClause form value).symbols.map Symbol.name ↔ n ∈ form.names := by
  have hNot : n ≠ "ground" ∧ n ≠ placeholderName ∧ n ≠ ellipsisName := by
    refine ⟨?_, ?_, ?_⟩ <;> rintro rfl <;> exact absurd hn (by decide)
  rw [← Form.mem_names_render hNot.2.1 hNot.2.2]
  simp [groundClause, Term.vector, Term.sequence, Term.named, Term.literal,
    Symbol.plain, hNot.1]

/-- The variables and specials of an arm are those that the fragment binds or
mentions in its clauses. -/
theorem mem_names_arm (f : Fragment) {n : String}
    (hn : isDeclarableName n = true) :
    n ∈ f.arm.symbols.map Symbol.name ↔ n ∈ f.letNames ∨ n ∈ f.clauseNames := by
  rw [arm, names_joinedClause hn, armBody, Term.symbolsOf_append,
    List.map_append, List.mem_append, ← clauseNames, letNames, letSymbols,
    Term.symbolsOf_eq_flatMap, List.flatMap_map, List.map_flatMap,
    List.map_flatMap, List.mem_flatMap, List.mem_flatMap]
  refine or_congr_left (exists_congr fun p => and_congr_right fun _ => ?_)
  exact names_groundClause hn p.1 p.2

/-- The variables and specials of an arm are images of bound names and of
names in the clauses. -/
theorem mem_names_renamed_arm {f : Fragment} {ρ : String → String}
    {used : List String} (h : f.Freshens ρ used) {n : String}
    (hn : isDeclarableName n = true) :
    n ∈ (f.renamed ρ).arm.symbols.map Symbol.name ↔
      ∃ s, (s ∈ f.letNames ∨ s ∈ f.clauseNames) ∧ ρ s = n := by
  rw [mem_names_arm _ hn, letNames_renamed h.keepsKinds, clauseNames_renamed,
    List.mem_map, List.mem_map]
  constructor
  · rintro (⟨s, hs, rfl⟩ | ⟨s, hs, rfl⟩)
    · exact ⟨s, .inl hs, rfl⟩
    · exact ⟨s, .inr hs, rfl⟩
  · rintro ⟨s, hs | hs, rfl⟩
    · exact .inl ⟨s, hs, rfl⟩
    · exact .inr ⟨s, hs, rfl⟩

private theorem misnamedNames_joinedClause (cs : List Clause) :
    Term.misnamedNames (joinedClause cs) = Term.misnamedNamesOf cs := by
  unfold joinedClause
  split
  · rw [Term.misnamedNamesOf, Term.misnamedNamesOf, List.append_nil]
  · rw [Term.sequence, Term.misnamedNames, Term.misnamedNamesOf]
    rfl

private theorem misnamedNames_render {form : Form} (h : form.Inner) :
    Term.misnamedNames form.render = [] := by
  induction h with
  | scalar h => rfl
  | skip h => rfl
  | @coll f _ ih =>
      rw [Form.render]
      split <;> simp [Term.vector, Term.named, Term.misnamedNames,
        Term.misnamedNamesOf, ih]
  | @tup fs _ _ ih =>
      rw [Form.render, Form.renderAll_eq_map, Term.vector, Term.misnamedNames,
        Term.misnamedNamesOf_eq_flatMap, List.flatMap_map, List.flatMap_eq_nil_iff]
      exact ih

private theorem misnamedNames_groundClause {form : Form} (h : form.Whole)
    (value : Value) : Term.misnamedNames (groundClause form value) = [] := by
  have hRender : Term.misnamedNames form.render = [] := by
    cases h with
    | symbol h => rfl
    | coll h => exact misnamedNames_render (.coll h)
    | tup h => exact misnamedNames_render h
  simp [groundClause, Term.vector, Term.sequence, Term.named, Term.literal,
    Term.misnamedNames, Term.misnamedNamesOf, hRender]

/-- Every symbol of an arm of a well-formed fragment has a name. -/
theorem misnamedNames_arm {f : Fragment} (hf : f.WellFormed) :
    Term.misnamedNames f.arm = [] := by
  rw [arm, misnamedNames_joinedClause, armBody,
    Term.misnamedNamesOf_eq_flatMap, List.flatMap_append, List.flatMap_map,
    ← Term.misnamedNamesOf_eq_flatMap, hf.wellNamed, List.append_nil,
    List.flatMap_eq_nil_iff]
  exact fun p hp => misnamedNames_groundClause (hf.forms_whole p hp) p.2

/-! ## What an arm implies -/

private theorem clauseSpecials_joinedClause (b : Bool) (cs : List Clause) :
    Term.clauseSpecials b (joinedClause cs) = Term.bodySpecials b cs := by
  unfold joinedClause
  split
  · rw [Term.bodySpecials, Term.bodySpecials, List.append_nil]
  · rw [Term.sequence, Term.clauseSpecials, Term.named, Term.callSpecials]
    have hSource : (Symbol.plain "and" : Name).isDatasource = false := by decide
    have hRules : (Symbol.plain "and" : Name).isRuleset = false := by decide
    have hNested : Term.nestedForms.contains
        (Symbol.plain "and" : Name).name = true := by decide
    rw [hSource, hRules, hNested]
    rfl

/-- An arm implies what the clauses of the fragment imply: bindings that have
become clauses ask no datasource. -/
theorem clauseSpecials_arm (b : Bool) (f : Fragment) :
    Term.clauseSpecials b f.arm = Term.bodySpecials b f.clauses := by
  have hGround : ∀ ps : List (Form × Value),
      Term.bodySpecials b (ps.map (fun p => groundClause p.1 p.2) ++ f.clauses) =
        Term.bodySpecials b f.clauses := by
    intro ps
    induction ps with
    | nil => rfl
    | cons p ps ih =>
        rw [List.map_cons, List.cons_append, Term.bodySpecials, ih]
        rfl
  rw [arm, clauseSpecials_joinedClause, armBody, hGround]

end Fragment

end DatalogFragments
