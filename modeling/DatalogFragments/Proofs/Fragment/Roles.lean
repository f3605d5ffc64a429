import DatalogFragments.Proofs.Fragment.Construction
import DatalogFragments.Proofs.Fragment.LifeCycle
import DatalogFragments.Fragment.Renaming
import Mathlib.Data.List.Induction

/-!
# Every symbol of a fragment has one role

The roles of a fragment, its private variables, its owned ones and the
bindable ones are computed apart from each other.  That they agree is due to
construction: a fragment provides nothing that it requires, declares the
specials of its clauses, and binds what it does not require and either has in
its clauses or provides.  Every way to come by a fragment ends in construction
or keeps what construction has checked.

## Main definitions

* `Fragment.HasRole` — the role of a name;
* `Fragment.Constructed` — the ways to come by a fragment.

## Main results

* `Fragment.Constructed.wellFormed` — they all end in a well-formed fragment;
* `Fragment.hasRole_iff` — the role of a name is the first one that applies;
* `Fragment.privateSymbols_eq` — private variables are free ones;
* `Fragment.Classified`, `Fragment.classified_of_constructed` — how the views
  agree.
-/

namespace DatalogFragments

/-- Entries behind a list that repeat its keys are dropped. -/
theorem firstsBy_append_of_subset {α β : Type} [DecidableEq β] (key : α → β)
    (l l' : List α) (h : ∀ x ∈ l', key x ∈ l.map key) :
    firstsBy key (l ++ l') = firstsBy key l := by
  rw [firstsBy_append, List.filter_eq_nil_iff.mpr, List.append_nil]
  intro x hx
  simpa using h x (mem_of_mem_firstsBy hx)

namespace Fragment

/-! ## Ways to come by a fragment -/

/-- A fragment that construction has let through: given part by part, checked as
it is, described, changed by a call, or renamed for a query. -/
inductive Constructed : Fragment → Prop
  | checked {f g : Fragment} (h : f.checked = .ok g) : Constructed g
  | parts {c : Config} {g : Fragment} (h : ofParts c = .ok g) : Constructed g
  | described {c : Config} {g : Fragment} (h : ofConfig c = .ok g) : Constructed g
  | changed {f g : Fragment} {c : Change} (hf : Constructed f)
      (h : f.apply c = .ok g) : Constructed g
  | renamed {f g : Fragment} {slice : Int} {taken taken' : List String}
      (hf : Constructed f) (h : f.renamePrivate slice taken = .ok (g, taken')) :
      Constructed g

theorem wellFormed_of_checked {f g : Fragment} (h : f.checked = .ok g) :
    g.WellFormed :=
  ((checked_eq_ok_iff f g).mp h).2

theorem wellFormed_of_ofParts {c : Config} {f : Fragment}
    (h : ofParts c = .ok f) : f.WellFormed := by
  obtain ⟨p, hChecked⟩ := Config.exists_parts_of_ofParts h
  exact wellFormed_of_checked hChecked

theorem wellFormed_of_ofConfig {c : Config} {f : Fragment}
    (h : ofConfig c = .ok f) : f.WellFormed := by
  obtain ⟨s, rfl⟩ := Config.exists_stages_of_ofConfig h
  exact s.keeps (wellFormed_of_ofParts s.made_eq)
    (fun hf h => (apply_cases (c := .bindAll _) hf h).1)
    fun hf => (apply_cases (c := .lock) hf rfl).1

theorem wellFormed_of_renamePrivate {f g : Fragment} {slice : Int}
    {taken taken' : List String} (hf : f.WellFormed)
    (h : f.renamePrivate slice taken = .ok (g, taken')) : g.WellFormed := by
  rw [renamePrivate] at h
  dsimp only at h
  split at h
  · cases h
    exact hf
  · obtain ⟨moved, -, h⟩ := bind_eq_ok_iff.mp h
    obtain ⟨made, hMade, h⟩ := bind_eq_ok_iff.mp h
    cases h
    exact wellFormed_of_checked hMade

/-- However a fragment came about, it is well formed. -/
theorem Constructed.wellFormed {f : Fragment} (h : f.Constructed) :
    f.WellFormed := by
  induction h with
  | checked h => exact wellFormed_of_checked h
  | parts h => exact wellFormed_of_ofParts h
  | described h => exact wellFormed_of_ofConfig h
  | changed _ h ih => exact (apply_cases ih h).1
  | renamed _ h ih => exact wellFormed_of_renamePrivate ih h

/-! ## Roles -/

/-- The fragment assigns the role to the name. -/
def HasRole (f : Fragment) (n : String) (r : Role) : Prop :=
  ∃ p ∈ f.roles, p.1.name = n ∧ p.2 = r

instance (f : Fragment) (n : String) (r : Role) : Decidable (f.HasRole n r) :=
  inferInstanceAs (Decidable (∃ p ∈ f.roles, p.1.name = n ∧ p.2 = r))

/-- The name occurs in the clauses as a variable or special, is declared, or is
bound. -/
def IsClassified (f : Fragment) (n : String) : Prop :=
  n ∈ f.freeNames ∨ n ∈ f.provideNames ∨ n ∈ f.requireNames ∨ n ∈ f.letNames

theorem map_fst_roles (f : Fragment) : f.roles.map Prod.fst =
    distinctNames (f.freeSymbols ++ f.provide ++ f.require ++ f.letSymbols) := by
  rw [roles, List.map_map]
  exact List.map_id _

theorem isClassified_iff (f : Fragment) (n : String) : f.IsClassified n ↔
    n ∈ (f.roles.map Prod.fst).map Symbol.name := by
  rw [map_fst_roles, mem_names_distinctNames]
  simp only [List.map_append, List.mem_append, or_assoc]
  rfl

/-- The role of a symbol is that of its name, the first one that applies. -/
theorem roleOf_eq (f : Fragment) (s : Name) : f.roleOf s =
    if s.name ∈ f.provideNames then .provide
    else if s.name ∈ f.requireNames then .require
    else if s.name ∈ f.letNames then .bound
    else .owned := by
  rw [roleOf]
  simp only [isIn_iff]
  rfl

/-- The role that a name would have. -/
def roleOfName (f : Fragment) (n : String) : Role := f.roleOf (Symbol.plain n)

theorem roleOf_eq_roleOfName (f : Fragment) (s : Name) :
    f.roleOf s = f.roleOfName s.name := by
  rw [roleOfName, roleOf_eq, roleOf_eq, Symbol.name_plain]

theorem hasRole_iff (f : Fragment) (n : String) (r : Role) :
    f.HasRole n r ↔ f.IsClassified n ∧ f.roleOfName n = r := by
  rw [isClassified_iff, HasRole]
  constructor
  · rintro ⟨p, hp, rfl, rfl⟩
    refine ⟨List.mem_map_of_mem (List.mem_map_of_mem hp), ?_⟩
    obtain ⟨s, -, rfl⟩ := List.mem_map.mp hp
    exact (f.roleOf_eq_roleOfName s).symm
  · rintro ⟨hn, rfl⟩
    obtain ⟨s, hs, rfl⟩ := List.mem_map.mp hn
    rw [map_fst_roles] at hs
    exact ⟨_, List.mem_map_of_mem hs, rfl, f.roleOf_eq_roleOfName s⟩

theorem provide_hasRole_iff (f : Fragment) (n : String) :
    f.HasRole n .provide ↔ n ∈ f.provideNames := by
  rw [hasRole_iff, roleOfName, roleOf_eq, Symbol.name_plain]
  constructor
  · rintro ⟨-, h⟩
    by_contra hNot
    rw [if_neg hNot] at h
    split_ifs at h
  · intro hn
    exact ⟨.inr (.inl hn), if_pos hn⟩

theorem require_hasRole_iff (f : Fragment) (n : String) :
    f.HasRole n .require ↔ n ∈ f.requireNames ∧ n ∉ f.provideNames := by
  rw [hasRole_iff, roleOfName, roleOf_eq, Symbol.name_plain]
  constructor
  · rintro ⟨-, h⟩
    split_ifs at h with hProvide hRequire
    exact ⟨hRequire, hProvide⟩
  · rintro ⟨hRequire, hProvide⟩
    rw [if_neg hProvide, if_pos hRequire]
    exact ⟨.inr (.inr (.inl hRequire)), rfl⟩

theorem bound_hasRole_iff (f : Fragment) (n : String) :
    f.HasRole n .bound ↔
      n ∈ f.letNames ∧ n ∉ f.provideNames ∧ n ∉ f.requireNames := by
  rw [hasRole_iff, roleOfName, roleOf_eq, Symbol.name_plain]
  constructor
  · rintro ⟨-, h⟩
    split_ifs at h with hProvide hRequire hLet
    exact ⟨hLet, hProvide, hRequire⟩
  · rintro ⟨hLet, hProvide, hRequire⟩
    rw [if_neg hProvide, if_neg hRequire, if_pos hLet]
    exact ⟨.inr (.inr (.inr hLet)), rfl⟩

theorem owned_hasRole_iff (f : Fragment) (n : String) :
    f.HasRole n .owned ↔ n ∈ f.freeNames ∧ n ∉ f.letNames ∧
      n ∉ f.provideNames ∧ n ∉ f.requireNames := by
  rw [hasRole_iff, roleOfName, roleOf_eq, Symbol.name_plain]
  constructor
  · rintro ⟨hClassified, h⟩
    split_ifs at h with hProvide hRequire hLet
    rcases hClassified with hFree | hn | hn | hn
    · exact ⟨hFree, hLet, hProvide, hRequire⟩
    · exact absurd hn hProvide
    · exact absurd hn hRequire
    · exact absurd hn hLet
  · rintro ⟨hFree, hLet, hProvide, hRequire⟩
    rw [if_neg hProvide, if_neg hRequire, if_neg hLet]
    exact ⟨.inl hFree, rfl⟩

/-! ## Private and owned variables -/

theorem nodup_freeNames (f : Fragment) : f.freeNames.Nodup :=
  (List.filter_sublist.map Symbol.name).nodup
    (nodup_map_firstsBy Symbol.name (Term.symbolsOf f.clauses))

variable {f : Fragment}

/-- What occurs in the clauses and is not exposed is a variable. -/
theorem variable_of_free (hf : f.WellFormed) {n : String} (hn : n ∈ f.freeNames)
    (hProvide : n ∉ f.provideNames) (hRequire : n ∉ f.requireNames) :
    isVariableName n = true := by
  obtain ⟨hClause, hDeclarable⟩ := (mem_freeNames f n).mp hn
  rw [isDeclarableName, Bool.or_eq_true] at hDeclarable
  rcases hDeclarable with hVariable | hSpecial
  · exact hVariable
  · rcases hf.specials_declared n hClause hSpecial with h | h
    · exact absurd h hRequire
    · exact absurd h hProvide

/-- What is bound and not provided occurs in the clauses. -/
theorem free_of_let (hf : f.WellFormed) {n : String} (hn : n ∈ f.letNames)
    (hProvide : n ∉ f.provideNames) : n ∈ f.freeNames := by
  rcases ((mem_bindableNames f n).mp (hf.let_bindable n hn)).1 with h | h
  · exact h
  · exact absurd h hProvide

/-- Private variables are the free symbols that are not exposed: a private one
that is bound occurs in the clauses as well. -/
theorem privateSymbols_eq (hf : f.WellFormed) : f.privateSymbols =
    f.freeSymbols.filter fun s => !s.isIn f.provide && !s.isIn f.require := by
  let hidden : String → Bool := fun n => isVariableName n &&
    !(Symbol.plain n).isIn f.provide && !(Symbol.plain n).isIn f.require
  have hHidden : ∀ n, hidden n = true ↔ isVariableName n = true ∧
      n ∉ f.provideNames ∧ n ∉ f.requireNames := by
    intro n
    rw [Bool.and_eq_true, Bool.and_eq_true, Bool.not_eq_true', Bool.not_eq_true',
      isIn_eq_false_iff, isIn_eq_false_iff, and_assoc]
    rfl
  have hPrivate : f.privateSymbols =
      (distinctNames (f.freeSymbols ++ f.letSymbols)).filter fun s =>
        hidden s.name := rfl
  rw [hPrivate, distinctNames, ← firstsBy_filter, List.filter_append,
    firstsBy_append_of_subset, firstsBy_eq_self]
  · refine List.filter_congr fun s hs => ?_
    have hFree : s.name ∈ f.freeNames := List.mem_map_of_mem hs
    rw [Bool.eq_iff_iff, hHidden, Bool.and_eq_true, Bool.not_eq_true',
      Bool.not_eq_true', isIn_eq_false_iff, isIn_eq_false_iff]
    exact and_iff_right_of_imp fun h => variable_of_free hf hFree h.1 h.2
  · exact (List.filter_sublist.map Symbol.name).nodup f.nodup_freeNames
  · intro s hs
    obtain ⟨hLet, hTest⟩ := List.mem_filter.mp hs
    have hFree := free_of_let hf (List.mem_map_of_mem hLet)
      ((hHidden s.name).mp hTest).2.1
    obtain ⟨t, ht, hName⟩ := List.mem_map.mp hFree
    rw [← hName] at hTest ⊢
    exact List.mem_map_of_mem (List.mem_filter.mpr ⟨ht, hTest⟩)

/-- A symbol that is owned, or bound without being provided, is a variable of
the clauses. -/
theorem variable_of_hidden (hf : f.WellFormed) {n : String}
    (h : f.HasRole n .owned ∨ f.HasRole n .bound) :
    n ∈ f.freeNames ∧ isVariableName n = true := by
  rw [owned_hasRole_iff, bound_hasRole_iff] at h
  rcases h with ⟨hFree, -, hProvide, hRequire⟩ | ⟨hLet, hProvide, hRequire⟩
  · exact ⟨hFree, variable_of_free hf hFree hProvide hRequire⟩
  · have hFree := free_of_let hf hLet hProvide
    exact ⟨hFree, variable_of_free hf hFree hProvide hRequire⟩

theorem privateSymbols_eq_filter_roles (hf : f.WellFormed) :
    f.privateSymbols = f.freeSymbols.filter fun s =>
      f.HasRole s.name .owned ∨ f.HasRole s.name .bound := by
  rw [privateSymbols_eq hf]
  refine List.filter_congr fun s hs => ?_
  have hFree : s.name ∈ f.freeNames := List.mem_map_of_mem hs
  rw [Bool.eq_iff_iff, Bool.and_eq_true, Bool.not_eq_true', Bool.not_eq_true',
    isIn_eq_false_iff, isIn_eq_false_iff, decide_eq_true_eq, owned_hasRole_iff,
    bound_hasRole_iff, ← provideNames, ← requireNames]
  -- Bound or not, what counts is that the symbol is not exposed.
  by_cases hLet : s.name ∈ f.letNames
  · simp [hLet]
  · simp [hLet, hFree]

theorem ownedSymbols_eq_filter_roles (f : Fragment) :
    f.ownedSymbols = f.freeSymbols.filter fun s => f.HasRole s.name .owned := by
  refine List.filter_congr fun s hs => ?_
  have hFree : s.name ∈ f.freeNames := List.mem_map_of_mem hs
  rw [Bool.eq_iff_iff, beq_iff_eq, decide_eq_true_eq, hasRole_iff,
    roleOf_eq_roleOfName]
  exact (and_iff_right (Or.inl hFree)).symm

/-! ## The whole -/

/-- The views of a fragment on its symbols agree. -/
structure Classified (f : Fragment) : Prop where
  listed_once : ((f.roles.map Prod.fst).map Symbol.name).Nodup
  one_role : ∀ n, f.IsClassified n → ∃! r, f.HasRole n r
  no_other : ∀ n r, f.HasRole n r → f.IsClassified n
  provide_iff : ∀ n, f.HasRole n .provide ↔ n ∈ f.provideNames
  require_iff : ∀ n, f.HasRole n .require ↔ n ∈ f.requireNames
  special_exposed : ∀ n, isSpecialName n = true →
    ¬f.HasRole n .bound ∧ ¬f.HasRole n .owned
  bound_iff : ∀ n, f.HasRole n .bound ↔ n ∈ f.letNames ∧ n ∉ f.provideNames
  bound_occurs : ∀ n, f.HasRole n .bound → n ∈ f.clauseNames
  let_nodup : f.letNames.Nodup
  let_not_required : ∀ n ∈ f.letNames, n ∉ f.requireNames
  /-- Private are the free symbols that are owned or bound, in their order. -/
  private_eq : f.privateSymbols = f.freeSymbols.filter fun s =>
    f.HasRole s.name .owned ∨ f.HasRole s.name .bound
  owned_eq : f.ownedSymbols = f.freeSymbols.filter fun s =>
    f.HasRole s.name .owned
  private_variable : ∀ s ∈ f.privateSymbols, s.isVariable = true
  owned_variable : ∀ s ∈ f.ownedSymbols, s.isVariable = true

/-- Every fragment is classified, however it came about. -/
theorem classified_of_constructed (f : Fragment) (h : f.Constructed) :
    f.Classified := by
  have hf := h.wellFormed
  exact
    { listed_once := by
        rw [map_fst_roles]
        exact nodup_names_distinctNames _
      one_role := fun n hn => ⟨f.roleOfName n, (hasRole_iff f n _).mpr ⟨hn, rfl⟩,
        fun r hr => ((hasRole_iff f n r).mp hr).2.symm⟩
      no_other := fun n r hr => ((hasRole_iff f n r).mp hr).1
      provide_iff := f.provide_hasRole_iff
      require_iff := by
        intro n
        rw [require_hasRole_iff]
        exact and_iff_left_of_imp fun hRequire hProvide =>
          hf.disjoint n hProvide hRequire
      special_exposed := by
        intro n hSpecial
        have hNot := isVariableName_eq_false_of_special hSpecial
        rw [← not_or]
        intro hRole
        rw [(variable_of_hidden hf hRole.symm).2] at hNot
        cases hNot
      bound_iff := by
        intro n
        rw [bound_hasRole_iff, ← and_assoc]
        exact and_iff_left_of_imp fun hBound => hf.let_not_required hBound.1
      bound_occurs := fun n hn =>
        ((mem_freeNames f n).mp (variable_of_hidden hf (.inr hn)).1).1
      let_nodup := hf.let_nodup
      let_not_required := fun _ => hf.let_not_required
      private_eq := privateSymbols_eq_filter_roles hf
      owned_eq := f.ownedSymbols_eq_filter_roles
      private_variable := fun _ hs =>
        isVariableName_of_private (List.mem_map_of_mem hs)
      owned_variable := by
        intro s hs
        rw [ownedSymbols_eq_filter_roles, List.mem_filter, decide_eq_true_eq] at hs
        exact (variable_of_hidden hf (.inl hs.2)).2 }

/-- A fragment with a symbol of every role: `?x` is provided, the datasource
required, `?y` bound and `?z` owned. -/
def mixed : Fragment where
  clauses := [.vector [.named "$", .named "?x", .literal (.keyword ":a"),
    .named "?y", .named "?z"]]
  provide := [Symbol.plain "?x"]
  require := [Symbol.plain "$"]
  lets := [(.coll (.sym (Symbol.plain "?y")), .list [.int 1])]

theorem classified_of_constructed_mixed : mixed.Constructed ∧
    (mixed.HasRole "?x" .provide ∧ mixed.HasRole "$" .require ∧
      mixed.HasRole "?y" .bound ∧ mixed.HasRole "?z" .owned) ∧
    mixed.Classified := by
  have hMade : mixed.Constructed := .checked (f := mixed) rfl
  exact ⟨hMade, by decide, classified_of_constructed mixed hMade⟩

end Fragment

end DatalogFragments
