import DatalogFragments.Proofs.FreshName.Numbering
import DatalogFragments.Proofs.Query.Compilation
import DatalogFragments.Proofs.Disjunction.Scoping

/-!
# The names of private variables in closed form

Compilation and disjunction thread the taken names through all fragments, so
that a name depends, as computed, on every name before it.  As candidates for
different places never meet, it does not: the new name of a variable is read
off its place and the names that the fragments use.

## Main results

* `renamingOf_eq_freshName` — a run draws every name from the names used at the
  start;
* `closedForm_renamingOf` — its maps in closed form;
* `private_names_closed_form` — compiled queries and disjunctions.
-/

namespace DatalogFragments

/-! ## One run -/

section Run

variable {base : Nat → Nat → String → String} {used taken : List String}

private theorem pairwise_bases (hApart : KeepsApart base) (slice : Nat) (f : Fragment) :
    (f.privateNames.mapIdx (base slice)).Pairwise fun a b =>
      ∀ m n, candidateName a m ≠ candidateName b n := by
  rw [List.pairwise_iff_getElem]
  intro i j hi hj hij m n heq
  rw [List.getElem_mapIdx, List.getElem_mapIdx] at heq
  obtain ⟨-, hName⟩ := hApart heq
  rw [(Fragment.nodup_privateNames f).getElem_inj_iff] at hName
  omega

/-- The names drawn for one fragment, when no taken name but the used ones is a
candidate for its position. -/
theorem freshNames_privateNames (hApart : KeepsApart base) (slice : Nat)
    (hUsed : ∀ n ∈ used, n ∈ taken)
    (hTaken : ∀ n ∈ taken, n ∈ used ∨
      ∀ j i t m, candidateName (base j i t) m = n → j < slice) (f : Fragment) :
    (freshNames (f.privateNames.mapIdx (base slice)) taken).1 =
      (f.privateNames.mapIdx (base slice)).map (freshName · used) := by
  refine freshNames_eq_map hUsed (fun n hn => (hTaken n hn).imp_right ?_)
    (pairwise_bases hApart slice f)
  intro hEarlier b hb m heq
  obtain ⟨i, hi, rfl⟩ := List.mem_mapIdx.mp hb
  exact absurd (hEarlier slice i _ m heq) (Nat.lt_irrefl slice)

/-- Every name of a run is the one that the names used at the start ask for:
the other taken names are candidates for earlier positions. -/
theorem renamingOf_eq_freshName (hApart : KeepsApart base) (slice : Nat)
    (hUsed : ∀ n ∈ used, n ∈ taken)
    (hTaken : ∀ n ∈ taken, n ∈ used ∨
      ∀ j i t m, candidateName (base j i t) m = n → j < slice)
    (fs : List Fragment) {k p : Nat} {f : Fragment} {s : String}
    (hf : fs[k]? = some f) (hs : f.privateNames[p]? = some s) :
    renamingOf base slice taken fs k s = freshName (base (slice + k) p s) used := by
  induction fs generalizing slice taken k with
  | nil => simp at hf
  | cons g fs ih =>
      have hDrawn := freshNames_privateNames hApart slice hUsed hTaken g
      cases k with
      | zero =>
          obtain rfl : g = f := by simpa using hf
          have hAt := congrArg (fun names => names[p]?)
            ((g.map_privateRenaming (base slice) taken).trans hDrawn)
          simp only [List.getElem?_map, List.getElem?_mapIdx, hs, Option.map_some,
            Option.some.injEq] at hAt
          exact hAt
      | succ k =>
          rw [List.getElem?_cons_succ] at hf
          rw [renamingOf, ih (slice + 1) _ _ hf, Nat.add_assoc, Nat.add_comm 1 k]
          · exact fun n hn => mem_privateRenaming_taken g slice (hUsed n hn)
          · intro n hn
            rw [g.privateRenaming_taken, hDrawn, List.mem_append, List.mem_reverse,
              List.mem_map] at hn
            rcases hn with ⟨b, hb, rfl⟩ | hn
            · obtain ⟨i, hi, rfl⟩ := List.mem_mapIdx.mp hb
              obtain ⟨m, -, hm, -⟩ := freshName_spec (base slice i _) used
              refine .inr fun j i t n heq => ?_
              rw [(hApart (heq.trans hm)).1]
              exact Nat.lt_succ_self slice
            · exact (hTaken n hn).imp_right fun h j i t m heq =>
                Nat.lt_succ_of_lt (h j i t m heq)

end Run

/-- Every fragment of a list has a map that gives a private variable the name
for its place, and keeps all other names. -/
structure ClosedForm (fs : List Fragment) (used : List String)
    (base : Nat → Nat → String → String) (ρ : Nat → String → String) : Prop where
  /-- The variable at a position among the private ones of a fragment. -/
  private_name : ∀ (k p : Nat) (f : Fragment) (s : String), fs[k]? = some f →
    f.privateNames[p]? = some s → LeastUnused used (base k p s) (ρ k s)
  keeps : ∀ (k : Nat) (f : Fragment), fs[k]? = some f →
    ∀ n, n ∉ f.privateNames → ρ k n = n

/-- The maps of a whole run in closed form. -/
theorem closedForm_renamingOf {base : Nat → Nat → String → String}
    (hApart : KeepsApart base)
    (hBase : ∀ k i n, isVariableName n = true → isVariableName (base k i n) = true)
    (used : List String) (fs : List Fragment) :
    ClosedForm fs used base (renamingOf base 0 used fs) where
  private_name := by
    intro k p f s hf hs
    rw [renamingOf_eq_freshName hApart 0 (fun _ hn => hn) (fun _ hn => .inl hn) fs hf hs,
      Nat.zero_add]
    exact leastUnused_freshName _ used
  keeps := fun k f hf => ((freshenedApart_renamingOf hBase 0 used fs).freshens k f hf).keeps

/-! ## Queries and disjunctions -/

/-- The compiled fragments are the sorted ones under names in closed form. -/
structure Query.NamedInClosedForm (slices : List Fragment) (q : Query)
    (ρ : Nat → String → String) : Prop where
  slices_eq : q.slices = (orderSlices slices).mapIdx fun k f => f.renamed (ρ k)
  clauses_eq : q.clauses = q.slices.flatMap Fragment.clauses
  closed_form : ClosedForm (orderSlices slices) (usedNames slices)
    (fun k p s => s ++ "__" ++ intText (k : Int) ++ "_" ++ intText (p : Int)) ρ

/-- The arms of a merged fragment are its branches under names in closed form. -/
structure ArmsInClosedForm (branches : List Fragment) (g : Fragment)
    (ρ : Nat → String → String) : Prop where
  clauses_eq : g.clauses = [.sequence (.named "or-join" ::
    headerClause (disjunctionHeader branches).1 (disjunctionHeader branches).2 ::
      branches.mapIdx fun i f => (f.renamed (ρ i)).arm)]
  closed_form : ClosedForm branches (usedNames branches)
    (fun i _ s => s ++ "__or" ++ intText (i : Int)) ρ

/-- Whatever valid fragments are compiled or made alternatives, a private
variable is renamed after its place, with a suffix only if a fragment uses that
name already. -/
theorem private_names_closed_form :
    (∀ (find : Value) (slices : List Fragment) (q : Query),
      (∀ f ∈ slices, f.Valid) → Query.compile find slices = .ok q →
        ∃ ρ : Nat → String → String, Query.NamedInClosedForm slices q ρ) ∧
    (∀ (branches : List Fragment) (g : Fragment),
      (∀ f ∈ branches, f.Valid) → disjunction (branches.map .fragment) = .ok g →
        ∃ ρ : Nat → String → String, ArmsInClosedForm branches g ρ) := by
  constructor
  · intro find slices q hValid hCompile
    have hWell : ∀ f ∈ slices, f.WellFormed := fun f hf => f.valid_iff.mp (hValid f hf)
    obtain ⟨a, -, rfl⟩ := Query.exists_of_compile_eq_ok hWell hCompile
    exact ⟨compiledMap slices,
      { slices_eq := rfl
        clauses_eq := rfl
        closed_form := closedForm_renamingOf candidateName_privateBase
          isVariableName_sliceBase _ _ }⟩
  · intro branches g hValid hDisjunction
    have hWell : ∀ f ∈ branches, f.WellFormed := fun f hf => f.valid_iff.mp (hValid f hf)
    rcases disjunction_outcome (forall_fragment_map.mpr hWell) with
      ⟨-, w, hError, -⟩ | ⟨fs, hBranches, -, -, hOutcome⟩
    · rw [hError] at hDisjunction
      cases hDisjunction
    · obtain rfl := eq_of_fragment_map_eq hBranches
      rw [hOutcome, then_eq_ok_iff, bind_eq_ok_iff] at hDisjunction
      obtain ⟨-, names, -, hComposite⟩ := hDisjunction
      obtain rfl := Except.ok.inj hComposite
      exact ⟨armMap branches,
        { clauses_eq := rfl
          closed_form := closedForm_renamingOf candidateName_armBase
            (fun _ _ _ h => isVariableName_armBase h _) _ _ }⟩

/-- Two alternatives for `?x`; the first keeps `?y` to itself, the second the
given variable. -/
def crossed (n : String) : List Fragment :=
  [ { clauses := [.vector [.named "?x", .named ":a", .named "?y"]]
      provide := [Symbol.plain "?x"] }
  , { clauses := [.vector [.named "?x", .named ":b", .named n]]
      provide := [Symbol.plain "?x"] } ]

private theorem orderSlices_crossed (n : String) : orderSlices (crossed n) = crossed n := by
  refine List.mergeSort_of_pairwise ?_
  rw [crossed, List.pairwise_pair]
  rfl

private theorem exists_compile_crossed {n : String} (hValid : ∀ f ∈ crossed n, f.Valid)
    (hSatisfied : checkSatisfied (crossed n) = .ok ())
    (hMustLet : checkMustLet (crossed n) = .ok ())
    (hInfo : ∀ f ∈ crossed n, f.infoFault? = none) :
    ∃ q, Query.compile .null (crossed n) = .ok q := by
  refine Query.exists_compile_of_valid hValid .null hSatisfied hMustLet hInfo fun m => ?_
  rw [crossed, List.pairwise_pair]
  rintro ⟨⟨-, -, hLet⟩, -⟩
  exact absurd hLet List.not_mem_nil

private theorem exists_disjunction_crossed {n : String}
    (hValid : ∀ f ∈ crossed n, f.Valid) (hAdmissible : ∀ f ∈ crossed n, f.Admissible)
    (hInfo : (crossed n).findSome? Fragment.infoFault? = none) :
    ∃ g, disjunction ((crossed n).map .fragment) = .ok g := by
  have hWell : ∀ f ∈ crossed n, f.WellFormed :=
    fun f hf => f.valid_iff.mp (hValid f hf)
  have hNamed : ∀ f ∈ crossed n, f.IsNamed := by
    rw [crossed, List.forall_mem_cons, List.forall_mem_singleton]
    exact ⟨.inl rfl, .inl rfl⟩
  have hMergeable : ¬Unmergeable ((crossed n).map .fragment) :=
    not_unmergeable_iff.mpr ⟨hAdmissible, _, List.mem_cons_self, "?x",
      .inl (by decide), by decide⟩
  obtain ⟨names, h⟩ := exists_disjunction_eq_ok hWell hMergeable hInfo hNamed
  exact ⟨_, h⟩

/-- In both cases the name for `?y` is in use, and the first suffix is free. -/
theorem private_names_closed_form_crossed :
    ((∀ f ∈ crossed "?y__0_0", f.Valid) ∧
      ∃ q, Query.compile .null (crossed "?y__0_0") = .ok q ∧
        ∃ ρ : Nat → String → String, Query.NamedInClosedForm (crossed "?y__0_0") q ρ ∧
          ρ 0 "?y" = "?y__0_0_1") ∧
    ((∀ f ∈ crossed "?y__or0", f.Valid) ∧
      ∃ g, disjunction ((crossed "?y__or0").map .fragment) = .ok g ∧
        ∃ ρ : Nat → String → String, ArmsInClosedForm (crossed "?y__or0") g ρ ∧
          ρ 0 "?y" = "?y__or0_1") := by
  have hFirst : ∀ m : Nat, 0 < m → ¬m < 1 := fun m hPositive hLess => by omega
  constructor
  · have hValid : ∀ f ∈ crossed "?y__0_0", f.Valid := by
      rw [crossed, List.forall_mem_cons, List.forall_mem_singleton]
      exact ⟨rfl, rfl⟩
    obtain ⟨q, hq⟩ := exists_compile_crossed hValid rfl rfl (by
      rw [crossed, List.forall_mem_cons, List.forall_mem_singleton]
      exact ⟨rfl, rfl⟩)
    obtain ⟨ρ, hρ⟩ := private_names_closed_form.1 .null _ q hValid hq
    refine ⟨hValid, q, hq, ρ, hρ, ?_⟩
    have hName := hρ.closed_form.private_name 0 0 _ "?y"
      (congrArg (fun fs => fs[0]?) (orderSlices_crossed "?y__0_0")) rfl
    exact hName.unique (.suffix 1 Nat.one_pos (by decide) (by decide)
      fun m hPositive hLess => absurd hLess (hFirst m hPositive))
  · have hValid : ∀ f ∈ crossed "?y__or0", f.Valid := by
      rw [crossed, List.forall_mem_cons, List.forall_mem_singleton]
      exact ⟨rfl, rfl⟩
    obtain ⟨g, hg⟩ := exists_disjunction_crossed hValid (by
      rw [crossed, List.forall_mem_cons, List.forall_mem_singleton]
      exact ⟨⟨by decide, by decide, by decide, by decide⟩,
        ⟨by decide, by decide, by decide, by decide⟩⟩) rfl
    obtain ⟨ρ, hρ⟩ := private_names_closed_form.2 _ g hValid hg
    refine ⟨hValid, g, hg, ρ, hρ, ?_⟩
    exact (hρ.closed_form.private_name 0 0 _ "?y" rfl rfl).unique
      (.suffix 1 Nat.one_pos (by decide) (by decide)
        fun m hPositive hLess => absurd hLess (hFirst m hPositive))

end DatalogFragments
