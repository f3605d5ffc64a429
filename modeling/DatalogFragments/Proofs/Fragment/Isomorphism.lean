import DatalogFragments.Proofs.Fragment.Renaming
import DatalogFragments.Proofs.Fragment.Roles

/-!
# Renaming is an isomorphism

A fragment whose private variables were given fresh names is the same fragment
under other names.  Every view of it is computed anew, from clauses and bindings
that were rewritten, by taking first occurrences and by tests of names.  The
names of its clauses, declarations and bindings are the images of the former
ones, place by place, and the map is injective on them.  So first occurrences
stay where they are, and a name is in a list iff its image is in the list of
images.

## Main definitions

* `Fragment.MovesTo` — the names of the second fragment are the images of those
  of the first one, place by place;
* `Fragment.IsomorphicTo` — so are all its views, and everything else stays.

## Main results

* `Fragment.isomorphicTo_renamed` — the views follow the names;
* `Fragment.renamePrivate_isomorphism` — the renaming step, with its fault;
* `Fragment.renamePrivate_annotatedByNumber` — the fault does occur.
-/

namespace DatalogFragments

/-! ## Lists of names under a map -/

section Images

variable {ρ : String → String} {l : List String}

/-- Names under a map that is injective on them have their first occurrences at
the same places. -/
private theorem firstsBy_image (h : ∀ m ∈ l, ∀ n ∈ l, ρ m = ρ n → m = n) :
    firstsBy id (l.map ρ) = (firstsBy id l).map ρ := by
  refine firstsBy_map id id ρ l fun m hm n hn => ?_
  rw [Bool.eq_iff_iff, beq_iff_eq, beq_iff_eq]
  exact ⟨h m hm n hn, congrArg ρ⟩

/-- A test that the image passes iff the name does picks the same places. -/
private theorem filter_image {p q : String → Bool} (h : ∀ n ∈ l, p (ρ n) = q n) :
    (l.map ρ).filter p = (l.filter q).map ρ := by
  rw [List.filter_map]
  exact congrArg _ (List.filter_congr h)

end Images

namespace Fragment

/-! ## The views in terms of names -/

/-- The names that nothing but the clauses has. -/
def ownedNames (f : Fragment) : List String := f.ownedSymbols.map Symbol.name

/-- The must-let names without a binding. -/
def unboundNames (f : Fragment) : List String := f.unboundMustLet.map Symbol.name

/-- Every name of the fragment with its role. -/
def nameRoles (f : Fragment) : List (String × Role) :=
  f.roles.map fun p => (p.1.name, p.2)

section Views

variable (f : Fragment)

theorem freeNames_eq :
    f.freeNames = (firstsBy id f.clauseNames).filter isDeclarableName := by
  rw [freeNames, freeSymbols, map_name_filter _ Symbol.isDeclarable_eq, Term.firstSymbols,
    ← distinctNames, map_name_distinctNames, clauseNames]

theorem bindableNames_eq : f.bindableNames =
    (firstsBy id (f.freeNames ++ f.provideNames)).filter (· ∉ f.requireNames) := by
  rw [bindableNames, bindableSymbols, map_name_filter_not_isIn, map_name_distinctNames,
    List.map_append]
  rfl

theorem privateNames_eq : f.privateNames =
    (firstsBy id (f.freeNames ++ f.letNames)).filter fun n =>
      isVariableName n ∧ n ∉ f.provideNames ∧ n ∉ f.requireNames := by
  have hTest : ∀ s : Name, (s.isVariable && !s.isIn f.provide && !s.isIn f.require) =
      decide (isVariableName s.name ∧ s.name ∉ f.provideNames ∧
        s.name ∉ f.requireNames) := by
    intro s
    rw [not_isIn_eq, not_isIn_eq, Bool.and_assoc, Bool.decide_and, Bool.decide_and,
      Bool.decide_eq_true]
    rfl
  rw [privateNames, privateSymbols, map_name_filter (fun n =>
      isVariableName n ∧ n ∉ f.provideNames ∧ n ∉ f.requireNames) hTest,
    map_name_distinctNames, List.map_append]
  rfl

theorem ownedNames_eq : f.ownedNames =
    f.freeNames.filter fun n => f.roleOfName n == .owned := by
  have hTest : ∀ s : Name,
      (f.roleOf s == .owned) = (f.roleOfName s.name == .owned) := fun s => by
    rw [roleOf_eq_roleOfName]
  rw [ownedNames, ownedSymbols,
    map_name_filter (fun n => f.roleOfName n == .owned) hTest, freeNames]

theorem unboundNames_eq : f.unboundNames =
    f.mustLetNames.filter (· ∉ f.letNames) := by
  rw [unboundNames, unboundMustLet, map_name_filter_not_isIn]
  rfl

theorem nameRoles_eq : f.nameRoles =
    (firstsBy id (f.freeNames ++ f.provideNames ++ f.requireNames ++ f.letNames)).map
      fun n => (n, f.roleOfName n) := by
  have hNames : f.freeNames ++ f.provideNames ++ f.requireNames ++ f.letNames =
      (f.freeSymbols ++ f.provide ++ f.require ++ f.letSymbols).map Symbol.name := by
    simp only [List.map_append]
    rfl
  rw [nameRoles, roles, hNames, ← map_name_distinctNames, List.map_map, List.map_map]
  refine List.map_congr_left fun s _ => ?_
  rw [Function.comp_apply, Function.comp_apply, roleOf_eq_roleOfName]

theorem roleOfName_eq (n : String) : f.roleOfName n =
    if n ∈ f.provideNames then .provide
    else if n ∈ f.requireNames then .require
    else if n ∈ f.letNames then .bound
    else .owned := roleOf_eq f (Symbol.plain n)

theorem mem_names_of_free {n : String} (hn : n ∈ f.freeNames) : n ∈ f.names :=
  f.mem_names_of_clause ((mem_freeNames f n).mp hn).1

end Views

/-! ## Names that move together -/

/-- The names of the second fragment are the images of those of the first one,
place by place, under a map that keeps kinds of names and is injective on them. -/
structure MovesTo (f : Fragment) (ρ : String → String) (g : Fragment) : Prop where
  keepsKinds : KeepsKinds ρ
  injOn : ∀ m ∈ f.names, ∀ n ∈ f.names, ρ m = ρ n → m = n
  clauses : g.clauseNames = f.clauseNames.map ρ
  provide : g.provideNames = f.provideNames.map ρ
  require : g.requireNames = f.requireNames.map ρ
  mustLet : g.mustLetNames = f.mustLetNames.map ρ
  lets : g.letNames = f.letNames.map ρ

namespace MovesTo

variable {f g : Fragment} {ρ : String → String} (h : f.MovesTo ρ g)

include h

/-- A name is in a list of names iff its image is in the list of images. -/
private theorem mem_image_iff {l : List String} (hl : ∀ n ∈ l, n ∈ f.names) {n : String}
    (hn : n ∈ f.names) : ρ n ∈ l.map ρ ↔ n ∈ l := by
  refine ⟨fun hMem => ?_, List.mem_map_of_mem⟩
  obtain ⟨m, hm, hEq⟩ := List.mem_map.mp hMem
  exact h.injOn m (hl m hm) n hn hEq ▸ hm

private theorem firstsBy_image {l : List String} (hl : ∀ n ∈ l, n ∈ f.names) :
    firstsBy id (l.map ρ) = (firstsBy id l).map ρ :=
  DatalogFragments.firstsBy_image fun m hm n hn => h.injOn m (hl m hm) n (hl n hn)

private theorem mem_provideNames_iff {n : String} (hn : n ∈ f.names) :
    ρ n ∈ g.provideNames ↔ n ∈ f.provideNames := by
  rw [h.provide]
  exact h.mem_image_iff (fun m hm => f.mem_names_of_exposed (.inl hm)) hn

private theorem mem_requireNames_iff {n : String} (hn : n ∈ f.names) :
    ρ n ∈ g.requireNames ↔ n ∈ f.requireNames := by
  rw [h.require]
  exact h.mem_image_iff (fun m hm => f.mem_names_of_exposed (.inr hm)) hn

private theorem mem_letNames_iff {n : String} (hn : n ∈ f.names) :
    ρ n ∈ g.letNames ↔ n ∈ f.letNames := by
  rw [h.lets]
  exact h.mem_image_iff (fun m hm => f.mem_names_of_let hm) hn

theorem freeNames_eq : g.freeNames = f.freeNames.map ρ := by
  rw [g.freeNames_eq, f.freeNames_eq, h.clauses,
    h.firstsBy_image fun n hn => f.mem_names_of_clause hn]
  refine filter_image fun n _ => ?_
  rw [isDeclarableName, isDeclarableName, h.keepsKinds.isVariableName_eq,
    h.keepsKinds.isSpecialName_eq]

theorem bindableNames_eq : g.bindableNames = f.bindableNames.map ρ := by
  have hNames : ∀ n ∈ f.freeNames ++ f.provideNames, n ∈ f.names :=
    List.forall_mem_append.mpr ⟨fun n hn => f.mem_names_of_free hn,
      fun n hn => f.mem_names_of_exposed (.inl hn)⟩
  rw [g.bindableNames_eq, f.bindableNames_eq, h.freeNames_eq, h.provide,
    ← List.map_append, h.firstsBy_image hNames]
  refine filter_image fun n hn => ?_
  simp only [h.mem_requireNames_iff (hNames n (mem_of_mem_firstsBy hn))]

theorem privateNames_eq : g.privateNames = f.privateNames.map ρ := by
  have hNames : ∀ n ∈ f.freeNames ++ f.letNames, n ∈ f.names :=
    List.forall_mem_append.mpr ⟨fun n hn => f.mem_names_of_free hn,
      fun n hn => f.mem_names_of_let hn⟩
  rw [g.privateNames_eq, f.privateNames_eq, h.freeNames_eq, h.lets,
    ← List.map_append, h.firstsBy_image hNames]
  refine filter_image fun n hn => ?_
  have hName := hNames n (mem_of_mem_firstsBy hn)
  simp only [h.keepsKinds.isVariableName_eq, h.mem_provideNames_iff hName,
    h.mem_requireNames_iff hName]

theorem roleOfName_eq {n : String} (hn : n ∈ f.names) :
    g.roleOfName (ρ n) = f.roleOfName n := by
  rw [g.roleOfName_eq, f.roleOfName_eq]
  simp only [h.mem_provideNames_iff hn, h.mem_requireNames_iff hn, h.mem_letNames_iff hn]

theorem ownedNames_eq : g.ownedNames = f.ownedNames.map ρ := by
  rw [g.ownedNames_eq, f.ownedNames_eq, h.freeNames_eq]
  refine filter_image fun n hn => ?_
  rw [h.roleOfName_eq (f.mem_names_of_free hn)]

theorem unboundNames_eq : g.unboundNames = f.unboundNames.map ρ := by
  rw [g.unboundNames_eq, f.unboundNames_eq, h.mustLet]
  refine filter_image fun n hn => ?_
  simp only [h.mem_letNames_iff (f.mem_names_of_mustLet hn)]

theorem nameRoles_eq : g.nameRoles = f.nameRoles.map fun p => (ρ p.1, p.2) := by
  have hNames : ∀ n ∈ f.freeNames ++ f.provideNames ++ f.requireNames ++ f.letNames,
      n ∈ f.names := by
    simp only [List.forall_mem_append]
    exact ⟨⟨⟨fun n hn => f.mem_names_of_free hn,
      fun n hn => f.mem_names_of_exposed (.inl hn)⟩,
      fun n hn => f.mem_names_of_exposed (.inr hn)⟩, fun n hn => f.mem_names_of_let hn⟩
  rw [g.nameRoles_eq, f.nameRoles_eq, h.freeNames_eq, h.provide, h.require, h.lets,
    ← List.map_append, ← List.map_append, ← List.map_append, h.firstsBy_image hNames,
    List.map_map, List.map_map]
  refine List.map_congr_left fun n hn => ?_
  rw [Function.comp_apply, Function.comp_apply,
    h.roleOfName_eq (hNames n (mem_of_mem_firstsBy hn))]

end MovesTo

/-! ## Isomorphic fragments -/

/-- The second fragment is the first one under other names: every view of it has
the images of the names, place by place, and everything else is the same. -/
structure IsomorphicTo (f : Fragment) (ρ : String → String) (g : Fragment) : Prop where
  free : g.freeNames = f.freeNames.map ρ
  bindable : g.bindableNames = f.bindableNames.map ρ
  bound : g.letNames = f.letNames.map ρ
  owned : g.ownedNames = f.ownedNames.map ρ
  privates : g.privateNames = f.privateNames.map ρ
  mustLet : g.mustLetNames = f.mustLetNames.map ρ
  unbound : g.unboundNames = f.unboundNames.map ρ
  roles : g.nameRoles = f.nameRoles.map fun p => (ρ p.1, p.2)
  implied : Term.impliedSpecials g.clauses = Term.impliedSpecials f.clauses
  name : g.name = f.name
  provide : g.provide = f.provide
  require : g.require = f.require
  selectivity : g.selectivity = f.selectivity
  locked : g.locked = f.locked
  extra : g.extra = f.extra
  arguments : g.lets.map Prod.snd = f.lets.map Prod.snd

/-- A fragment moves to what it is under fresh names for its private variables. -/
theorem movesTo_renamed {f : Fragment} {ρ : String → String} {used : List String}
    (h : f.Freshens ρ used) (hUsed : ∀ n ∈ f.names, n ∈ used) :
    f.MovesTo ρ (f.renamed ρ) where
  keepsKinds := h.keepsKinds
  injOn := fun _ hm _ hn => h.injOn_names hUsed hm hn
  clauses := clauseNames_renamed ρ f
  provide := ((List.map_congr_left fun _ hn => h.provide_fixed hn).trans
    (List.map_id' f.provideNames)).symm
  require := ((List.map_congr_left fun _ hn => h.require_fixed hn).trans
    (List.map_id' f.requireNames)).symm
  mustLet := mustLetNames_renamed ρ f
  lets := letNames_renamed h.keepsKinds f

/-- A fragment is isomorphic to what it is under fresh names for its private
variables. -/
theorem isomorphicTo_renamed {f : Fragment} {ρ : String → String} {used : List String}
    (h : f.Freshens ρ used) (hUsed : ∀ n ∈ f.names, n ∈ used) :
    f.IsomorphicTo ρ (f.renamed ρ) :=
  have hMoves := movesTo_renamed h hUsed
  { free := hMoves.freeNames_eq
    bindable := hMoves.bindableNames_eq
    bound := hMoves.lets
    owned := hMoves.ownedNames_eq
    privates := hMoves.privateNames_eq
    mustLet := hMoves.mustLet
    unbound := hMoves.unboundNames_eq
    roles := hMoves.nameRoles_eq
    implied := congrArg (firstsBy id) (Term.bodySpecials_renamed h.keepsKinds false f.clauses)
    name := rfl
    provide := rfl
    require := rfl
    selectivity := rfl
    locked := rfl
    extra := rfl
    arguments := by
      show (f.lets.map fun p => (p.1.renamed ρ, p.2)).map Prod.snd = f.lets.map Prod.snd
      rw [List.map_map]
      rfl }

/-! ## The renaming step -/

/-- Renaming for a position, where the taken names have those of the fragment,
or are these if none are given.  It stops for no other reason than display
information of a private variable that makes no mapping.  Otherwise the fragment
becomes an isomorphic one, under a map that gives the private variables new
names and keeps all others, and exactly the new names are taken in addition. -/
theorem renamePrivate_isomorphism (f : Fragment) (slice : Int)
    (given : Option (List String)) (hf : f.Valid)
    (hGiven : ∀ taken, given = some taken → ∀ n ∈ f.names, n ∈ taken) :
    let taken := given.getD (usedNames [f])
    let ρ := (f.sliceRenaming slice taken).1.renameText
    ∃ g taken', f.renamePrivate slice taken = okUnless f.infoFault? (g, taken') ∧
      (f.InfoIsMapping → f.infoFault? = none) ∧
      f.Freshens ρ taken ∧ (∀ m ∈ f.names, ∀ n ∈ f.names, ρ m = ρ n → m = n) ∧
      f.IsomorphicTo ρ g ∧ ∀ n, n ∈ taken' ↔ n ∈ taken ∨ n ∈ f.privateNames.map ρ := by
  intro taken ρ
  have hUsed : ∀ n ∈ f.names, n ∈ taken := by
    cases given with
    | none => exact names_subset_usedNames [f] f (List.mem_singleton_self f)
    | some names => exact hGiven names rfl
  have hFreshens : f.Freshens ρ taken := freshens_sliceRenaming f slice taken
  refine ⟨f.renamed ρ, (f.sliceRenaming slice taken).2,
    renamePrivate_eq ((valid_iff f).mp hf) slice hUsed,
    fun h => h.infoFault?_eq_none, hFreshens,
    fun _ hm _ hn => hFreshens.injOn_names hUsed hm hn,
    isomorphicTo_renamed hFreshens hUsed, fun n => ?_⟩
  have hTaken : (f.sliceRenaming slice taken).2 =
      (f.privateNames.map ρ).reverse ++ taken := by
    rw [sliceRenaming, privateRenaming_taken, ← map_privateRenaming]
    rfl
  rw [hTaken, List.mem_append, List.mem_reverse, or_comm]

/-- Two variables of this fragment have to be bound, and only the second one is. -/
def halfBound : Fragment where
  clauses :=
    [ .vector [.named "?e", .literal (.keyword ":age"), .named "?n"]
    , .sequence [.sequence [.named "<", .named "?n", .named "?max"]] ]
  provide := [Symbol.plain "?e"]
  require := [Symbol.plain "$"]
  lets := [(.sym (Symbol.plain "?max"), .int 30)]
  mustLet := [Symbol.plain "?n", Symbol.plain "?max"]

/-- The first new name is taken, so the next one is drawn; the variable is still
the one without a binding. -/
theorem renamePrivate_isomorphism_halfBound :
    halfBound.Valid ∧ ∃ g taken,
      halfBound.renamePrivate 2 ["?n__2_0", "?e", "?n", "<", "?max", "$"] =
        .ok (g, taken) ∧ g.ownedNames = ["?n__2_0_1"] ∧ g.letNames = ["?max__2_1"] ∧
        g.unboundNames = ["?n__2_0_1"] := by
  have hValid : halfBound.Valid := rfl
  have hNames : ∀ n ∈ halfBound.names,
      n ∈ ["?n__2_0", "?e", "?n", "<", "?max", "$"] := by decide
  obtain ⟨g, taken, hOutcome, -, -, -, hSame, -⟩ :=
    renamePrivate_isomorphism halfBound 2 (some _) hValid
      fun _ h => Option.some.inj h ▸ hNames
  have hReadable : halfBound.infoFault? = none := rfl
  rw [hReadable] at hOutcome
  exact ⟨hValid, g, taken, hOutcome, hSame.owned.trans rfl, hSame.bound.trans rfl,
    hSame.unbound.trans rfl⟩

/-- A valid fragment whose only variable is private and has a number for its
display information. -/
def annotatedByNumber : Fragment where
  clauses := [.sym ⟨"?x", some (.int 5)⟩]

/-- Renaming reads that information as a mapping, and stops. -/
theorem renamePrivate_annotatedByNumber :
    annotatedByNumber.Valid ∧
      annotatedByNumber.renamePrivate 0 (usedNames [annotatedByNumber]) =
        .error .wrongShape :=
  ⟨rfl, rfl⟩

end Fragment

end DatalogFragments
