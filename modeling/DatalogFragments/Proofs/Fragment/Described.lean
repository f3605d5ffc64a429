import DatalogFragments.Proofs.Fragment.Construction
import DatalogFragments.Proofs.Fragment.Inference

/-!
# Fragments that come from descriptions

A fragment made from a description requires every special that its clauses
imply, unless it provides it.  Changes of a fragment, rebinding included, touch
neither its clauses nor its interface, so this stays so however often the
fragment is changed.  A fragment whose parts are given as they are carries no
such guarantee.

## Main results

* `Fragment.interface_of_ofParts`, `Fragment.declaresImplied_of_ofConfig` —
  what a description turns into;
* `Fragment.Described` — fragments made from descriptions, and changed ones;
* `Fragment.Described.declaresImplied` — they declare what they imply.
-/

namespace DatalogFragments

/-! ## Symbols among declared values -/

private theorem eq_sym_of_same {v : Value} {s : Name}
    (h : v.same (.term (.sym s)) = true) :
    ∃ t : Name, v = .term (.sym t) ∧ t.name = s.name := by
  cases v with
  | term t =>
      rw [Value.same] at h
      cases t with
      | sym t =>
          rw [Value.sameTerm] at h
          exact ⟨t, rfl, eq_of_beq h⟩
      | _ => simp [Value.sameTerm] at h
  | _ => simp [Value.same, Value.sameNumbers, Value.number?] at h

namespace Fragment

theorem mem_namesOf {vs : List Value} {n : String} :
    n ∈ namesOf vs ↔ ∃ s : Name, .term (.sym s) ∈ vs ∧ s.name = n := by
  rw [namesOf, List.mem_filterMap]
  constructor
  · rintro ⟨v, hv, h⟩
    split at h
    · rename_i s
      exact ⟨s, hv, Option.some.inj h⟩
    · cases h
  · rintro ⟨s, hs, rfl⟩
    exact ⟨_, hs, rfl⟩

/-- No name gets lost when repeated values are dropped. -/
theorem mem_namesOf_firstsBy {vs : List Value} {n : String}
    (h : n ∈ namesOf vs) : n ∈ namesOf (firstsBy id vs) := by
  induction vs with
  | nil => exact h
  | cons v vs ih =>
      obtain ⟨s, hs, rfl⟩ := mem_namesOf.mp h
      rw [firstsBy_cons]
      rcases List.mem_cons.mp hs with rfl | hs
      · exact mem_namesOf.mpr ⟨s, List.mem_cons_self, rfl⟩
      · obtain ⟨t, ht, hName⟩ := mem_namesOf.mp (ih (mem_namesOf.mpr ⟨s, hs, rfl⟩))
        -- The value in front is kept; it stands in for what equals it.
        cases hSame : v.same (.term (.sym t)) with
        | true =>
            obtain ⟨u, rfl, hu⟩ := eq_sym_of_same hSame
            exact mem_namesOf.mpr ⟨u, List.mem_cons_self, hu.trans hName⟩
        | false =>
            refine mem_namesOf.mpr ⟨t, List.mem_cons_of_mem _ ?_, hName⟩
            exact List.mem_filter.mpr ⟨ht, by simp [hSame]⟩

end Fragment

theorem Value.asKeys_eq_ok {vs ws : List Value} (h : asKeys vs = .ok ws) :
    ws = firstsBy id vs := by
  rw [asKeys] at h
  split at h
  · exact (Except.ok.inj h).symm
  · cases h

namespace Config

/-- Declared symbols are read as they are. -/
theorem eq_map_of_asDeclared {c : Config} {declaration : String}
    {vs : List Value} {names : List Name}
    (h : c.asDeclared declaration vs = .ok names) :
    vs = names.map Value.ofName := by
  induction vs generalizing names with
  | nil =>
      cases h
      rfl
  | cons v vs ih =>
      rw [asDeclared.eq_def] at h
      dsimp only at h
      split at h
      · cases h
      · split at h
        · obtain ⟨rest, hRest, hEq⟩ := bind_eq_ok_iff.mp h
          cases hEq
          rw [List.map_cons, ← ih hRest]
          rfl
        · cases h
      · cases h

private theorem ofValue_toValue_of_isTerm {t : Clause}
    (h : t.toValue.isTerm = true) : Term.ofValue t.toValue = t := by
  cases t with
  | stray v =>
      cases v with
      | misnamed n i => rfl
      | _ => simp [Term.toValue, Value.isTerm] at h
  | _ => rfl

/-- Clauses that are accepted stay as they are. -/
theorem eq_of_asClauses {c : Config} {clauses clauses' : List Clause}
    (hClauses : c.clauses = clauses.map Term.toValue)
    (h : c.asClauses = .ok clauses') : clauses' = clauses := by
  rw [asClauses] at h
  cases hFound : c.clauses.find? fun v => !v.isTerm with
  | some v =>
      rw [hFound] at h
      cases h
  | none =>
      rw [hFound] at h
      rw [← Except.ok.inj h, hClauses, List.map_map]
      refine (List.map_congr_left fun t ht => ?_).trans (List.map_id' _)
      refine ofValue_toValue_of_isTerm ?_
      have hMem : t.toValue ∈ c.clauses := by
        rw [hClauses]
        exact List.mem_map_of_mem ht
      simpa using List.find?_eq_none.mp hFound _ hMem

end Config

namespace Fragment

/-! ## What a description turns into -/

/-- The fragment has the given clauses and declares at least the given names. -/
structure HasInterface (f : Fragment) (clauses : List Clause)
    (provide require : List String) : Prop where
  clauses_eq : f.clauses = clauses
  provides : ∀ n ∈ provide, n ∈ f.provideNames
  requires : ∀ n ∈ require, n ∈ f.requireNames

theorem HasInterface.of_checked {f g : Fragment} {clauses : List Clause}
    {provide require : List String} (h : f.HasInterface clauses provide require)
    (hg : f.checked = .ok g) : g.HasInterface clauses provide require := by
  obtain ⟨rfl, -⟩ := (checked_eq_ok_iff f g).mp hg
  exact
    { clauses_eq := h.clauses_eq
      provides := fun n hn => (mem_names_distinctNames _ n).mpr (h.provides n hn)
      requires := fun n hn => (mem_names_distinctNames _ n).mpr (h.requires n hn) }

theorem mem_names_of_asDeclared {c : Config} {declaration : String}
    {vs ws : List Value} {names : List Name} (hKeys : Value.asKeys vs = .ok ws)
    (hNames : c.asDeclared declaration ws = .ok names) :
    ∀ n ∈ namesOf vs, n ∈ names.map Symbol.name := by
  intro n hn
  rw [← namesOf_ofName, ← Config.eq_map_of_asDeclared hNames,
    Value.asKeys_eq_ok hKeys]
  exact mem_namesOf_firstsBy hn

/-- Construction from parts keeps clauses and declares what is to be declared. -/
theorem interface_of_ofParts {c : Config} {f : Fragment}
    {clauses : List Clause} (hClauses : c.clauses = clauses.map Term.toValue)
    (h : ofParts c = .ok f) :
    f.HasInterface clauses (namesOf c.provide) (namesOf c.require) := by
  obtain ⟨p, hChecked⟩ := Config.exists_parts_of_ofParts h
  refine HasInterface.of_checked ?_ hChecked
  exact
    { clauses_eq := Config.eq_of_asClauses (by exact hClauses) p.clauses_eq
      provides := mem_names_of_asDeclared p.provideKeys_eq p.provide_eq
      requires := mem_names_of_asDeclared p.requireKeys_eq p.require_eq }

/-- Every special that the clauses imply is declared. -/
def DeclaresImplied (f : Fragment) : Prop :=
  ∀ n ∈ Term.impliedSpecials f.clauses, n ∈ f.requireNames ∨ n ∈ f.provideNames

/-- A change of bindings leaves clauses and declarations alone. -/
theorem HasInterface.of_bindAll {f g : Fragment} {clauses : List Clause}
    {provide require : List String} {pairs : List (Value × Value)}
    (h : f.HasInterface clauses provide require) (hg : f.bindAll pairs = .ok g) :
    g.HasInterface clauses provide require := by
  rw [bindAll] at hg
  split at hg
  · cases hg
  · obtain ⟨lets, -, hg⟩ := bind_eq_ok_iff.mp hg
    refine HasInterface.of_checked ?_ hg
    exact ⟨h.clauses_eq, h.provides, h.requires⟩

theorem HasInterface.lock {f : Fragment} {clauses : List Clause}
    {provide require : List String}
    (h : f.HasInterface clauses provide require) :
    f.lock.HasInterface clauses provide require := by
  rw [Fragment.lock]
  split
  · exact h
  · exact ⟨h.clauses_eq, h.provides, h.requires⟩

/-- A special that is found is provided, or required with those that are implied. -/
theorem mem_namesOf_of_found {clauses : List Clause} {provide explicit : List Value}
    {n : String} (h : n ∈ (foundSpecials clauses).map Symbol.name) :
    n ∈ namesOf (explicit ++ ((foundSpecials clauses).filter fun s =>
        !(namesOf provide ++ namesOf explicit).contains s.name).map .ofName) ∨
      n ∈ namesOf provide := by
  obtain ⟨s, hs, rfl⟩ := List.mem_map.mp h
  -- A declared special is declared by name; any other one is in the rest.
  by_cases hProvide : s.name ∈ namesOf provide
  · exact .inr hProvide
  · left
    rw [namesOf, List.filterMap_append, List.mem_append]
    by_cases hExplicit : s.name ∈ namesOf explicit
    · exact .inl hExplicit
    · right
      rw [← namesOf, namesOf_ofName]
      refine List.mem_map_of_mem (List.mem_filter.mpr ⟨hs, ?_⟩)
      simp [hProvide, hExplicit]

/-- A description makes a fragment that declares what its clauses imply. -/
theorem declaresImplied_of_ofConfig {c : Config} {f : Fragment}
    (h : ofConfig c = .ok f) : f.DeclaresImplied := by
  obtain ⟨s, rfl⟩ := Config.exists_stages_of_ofConfig h
  let clauses := c.clauses.map Value.toTerm
  let implied := (foundSpecials clauses).filter fun x =>
    !(namesOf s.provide ++ namesOf s.explicit).contains x.name
  let P (g : Fragment) : Prop := g.HasInterface clauses (namesOf s.provide)
    (namesOf (s.explicit ++ implied.map .ofName))
  have hMade : P s.made := interface_of_ofParts rfl s.made_eq
  have hInterface : P s.fragment :=
    s.keeps hMade HasInterface.of_bindAll HasInterface.lock
  intro n hn
  rw [hInterface.clauses_eq, Term.mem_impliedSpecials] at hn
  exact (mem_namesOf_of_found ((mem_foundSpecials clauses n).mpr (.inl hn))).imp
    (hInterface.requires n) (hInterface.provides n)

/-! ## Changes -/

/-- A fragment that was made from a description, and possibly bound anew or
changed in what is neither a clause nor a declaration. -/
inductive Described : Fragment → Prop
  | made {c : Config} {f : Fragment} (h : ofConfig c = .ok f) : Described f
  | bound {f g : Fragment} {pairs : List (Value × Value)} (hf : Described f)
      (h : f.bindAll pairs = .ok g) : Described g
  | locked {f : Fragment} (hf : Described f) : Described f.lock
  | weighed {f g : Fragment} {selectivity : Value} (hf : Described f)
      (h : f.withSelectivity selectivity = .ok g) : Described g
  | named {f : Fragment} (name : Value) (hf : Described f) :
      Described (f.withName name)
  | noted {f : Fragment} (entries : Entries) (hf : Described f) :
      Described (f.withExtra entries)

private theorem DeclaresImplied.of_hasInterface {f g : Fragment}
    (h : f.DeclaresImplied)
    (hg : g.HasInterface f.clauses f.provideNames f.requireNames) :
    g.DeclaresImplied := by
  intro n hn
  rw [hg.clauses_eq] at hn
  exact (h n hn).imp (hg.requires n) (hg.provides n)

private theorem hasInterface_self (f : Fragment) :
    f.HasInterface f.clauses f.provideNames f.requireNames :=
  ⟨rfl, fun _ hn => hn, fun _ hn => hn⟩

/-- However a described fragment was changed, it declares what it implies. -/
theorem Described.declaresImplied {f : Fragment} (h : f.Described) :
    f.DeclaresImplied := by
  induction h with
  | made h => exact declaresImplied_of_ofConfig h
  | @bound f g pairs _ h ih =>
      exact ih.of_hasInterface ((hasInterface_self f).of_bindAll h)
  | @locked f _ ih => exact ih.of_hasInterface (hasInterface_self f).lock
  | @weighed f g selectivity _ h ih =>
      cases selectivity with
      | int i =>
          cases h
          exact ih
      | _ => cases h
  | named name _ ih => exact ih
  | noted entries _ ih => exact ih

end Fragment

end DatalogFragments
