import DatalogFragments.Disjunction
import DatalogFragments.Proofs.Fragment.Described
import DatalogFragments.Proofs.Fragment.Renaming
import DatalogFragments.Proofs.Fragment.Roles

/-!
# Fragments that inference leaves alone

A description makes a fragment in three steps: the parts are checked with the
specials that the clauses imply added to the required ones, then the bindings
are made, then the lock is set.  A fragment that comes from a description, be
it that of a disjunction, declares what it implies, and stays so when it is
changed and when its private variables are renamed.  So its own description
makes it again, with nothing to infer: required symbols stay in their order.

## Main definitions

* `Config.Makes` — what a description hands on to its fragment;
* `Fragment.Produced` — the ways from descriptions to fragments.

## Main results

* `Config.makes_of_ofConfig` — construction keeps to it;
* `Fragment.Produced.declaresImplied`, `Fragment.Produced.isBool_locked` — what
  produced fragments have in common;
* `Fragment.ofConfig_describe_self` — describing and making again.
-/

namespace DatalogFragments

/-! ## What a description hands on -/

namespace Config

/-- The fragment has the clauses, the forms, the arguments and the bookkeeping of
the description. -/
structure Makes (c : Config) (f : Fragment) : Prop where
  clauses : f.clauses = c.clauses.map Value.toTerm
  name : f.name = c.name
  selectivity : c.selectivity = .int f.selectivity
  lets : Fragment.readForms c.lets = .ok f.lets
  locked : f.locked = .bool c.locked.isTruthy
  extra : c.extra.asEntries = .ok f.extra

private theorem eq_of_asSelectivity {c : Config} {i : Int}
    (h : c.asSelectivity = .ok i) : c.selectivity = .int i := by
  rw [asSelectivity] at h
  split at h
  · rename_i j hj
    rw [hj, Except.ok.inj h]
  · cases h

/-- Construction from parts without bindings keeps clauses and bookkeeping. -/
private theorem makes_of_ofParts {c : Config} {f : Fragment} (data : List Value)
    (hClauses : c.clauses = (data.map Value.toTerm).map Term.toValue)
    (hLets : c.lets = []) (hLocked : c.locked = .bool false)
    (h : Fragment.ofParts c = .ok f) :
    ({ c with clauses := data } : Config).Makes f := by
  obtain ⟨p, hChecked⟩ := exists_parts_of_ofParts h
  obtain ⟨rfl, -⟩ := (Fragment.checked_eq_ok_iff _ f).mp hChecked
  have hSelectivity := eq_of_asSelectivity p.selectivity_eq
  exact
    { clauses := eq_of_asClauses (by exact hClauses) p.clauses_eq
      name := rfl
      selectivity := hSelectivity
      lets := by
        dsimp only [Fragment.distinct, Parts.fragment]
        rw [hLets]
        rfl
      locked := by
        dsimp only [Fragment.distinct, Parts.fragment]
        rw [hLocked]
        rfl
      extra := p.extra_eq }

/-- What construction returns has the parts of the description. -/
theorem makes_of_ofConfig {c : Config} {f : Fragment}
    (h : Fragment.ofConfig c = .ok f) : c.Makes f := by
  obtain ⟨s, rfl⟩ := exists_stages_of_ofConfig h
  have hMakes := makes_of_ofParts c.clauses rfl rfl rfl s.made_eq
  have hWell := Fragment.wellFormed_of_ofParts s.made_eq
  -- Bindings, if there are any, are made before the lock is set.
  obtain ⟨lets, hLets, hBound⟩ : ∃ lets, Fragment.readForms c.lets = .ok lets ∧
      s.bound = { s.made with lets } := by
    rcases s.bound_eq with ⟨hEmpty, hSame⟩ | hBound
    · have hNone : s.made.lets = [] := (Except.ok.inj hMakes.lets).symm
      exact ⟨s.made.lets, by rw [hEmpty, hNone]; rfl, hSame⟩
    · obtain ⟨-, lets, hRead, hEq, -⟩ := Fragment.bindAll_eq_ok hWell hBound
      exact ⟨lets, hRead, hEq⟩
  have hOpen : s.made.locked = .bool false := hMakes.locked
  have hEq : s.fragment = { s.made with lets, locked := .bool c.locked.isTruthy } := by
    rw [Stages.fragment, hBound, Fragment.lock, Fragment.isLocked, hOpen]
    cases c.locked.isTruthy
    · rw [if_neg Bool.false_ne_true, ← hOpen]
    · rw [if_pos rfl, Value.isTruthy, if_neg Bool.false_ne_true]
  rw [hEq]
  exact ⟨hMakes.clauses, hMakes.name, hMakes.selectivity, hLets, rfl, hMakes.extra⟩

end Config

namespace Fragment

/-! ## Ways to come by a fragment -/

/-- A fragment that comes from a description or a disjunction, possibly changed
by calls, and renamed away from its own names. -/
inductive Produced : Fragment → Prop
  | made {c : Config} {f : Fragment} (h : ofConfig c = .ok f) : Produced f
  | merged {branches : List Branch} {f : Fragment}
      (h : disjunction branches = .ok f) : Produced f
  | changed {f g : Fragment} {c : Change} (hf : Produced f)
      (h : f.apply c = .ok g) : Produced g
  | renamed {f g : Fragment} {slice : Int} {taken : List String}
      (hf : Produced f) (h : f.renamePrivate slice (usedNames [f]) = .ok (g, taken)) :
      Produced g

/-- A disjunction ends in a description. -/
theorem exists_ofConfig_of_disjunction {branches : List Branch} {f : Fragment}
    (h : disjunction branches = .ok f) : ∃ c, ofConfig c = .ok f := by
  rw [disjunction] at h
  split at h
  · cases h
  · obtain ⟨fragments, -, h⟩ := bind_eq_ok_iff.mp h
    dsimp only at h
    split at h
    · cases h
    · obtain ⟨arms, -, h⟩ := bind_eq_ok_iff.mp h
      obtain ⟨names, -, h⟩ := bind_eq_ok_iff.mp h
      exact ⟨_, h⟩

theorem Produced.constructed {f : Fragment} (h : f.Produced) : f.Constructed := by
  induction h with
  | made h => exact .described h
  | merged h =>
      obtain ⟨c, hc⟩ := exists_ofConfig_of_disjunction h
      exact .described hc
  | changed _ h ih => exact .changed ih h
  | renamed _ h ih => exact .renamed ih h

/-- Renaming away from its own names moves a fragment along a map of names. -/
private theorem exists_renamed_of_renamePrivate {f g : Fragment} {slice : Int}
    {taken : List String} (hf : f.WellFormed)
    (h : f.renamePrivate slice (usedNames [f]) = .ok (g, taken)) :
    ∃ ρ, KeepsKinds ρ ∧ g = f.renamed ρ := by
  have hUsed := names_subset_usedNames [f] f (List.mem_singleton_self f)
  rw [renamePrivate_eq hf slice hUsed] at h
  obtain ⟨-, hEq⟩ := okUnless_eq_ok_iff.mp h
  obtain ⟨rfl, -⟩ := Prod.mk.inj hEq
  exact ⟨_, (freshens_sliceRenaming f slice _).keepsKinds, rfl⟩

/-- A fragment under a map of names that keeps their kinds implies the same. -/
private theorem DeclaresImplied.renamed {f : Fragment} {ρ : String → String}
    (hf : f.DeclaresImplied) (hρ : KeepsKinds ρ) : (f.renamed ρ).DeclaresImplied := by
  intro n hn
  rw [Term.mem_impliedSpecials] at hn
  have hBody : Term.bodySpecials false (f.renamed ρ).clauses =
      Term.bodySpecials false f.clauses :=
    Term.bodySpecials_renamed hρ false f.clauses
  rw [hBody, ← Term.mem_impliedSpecials] at hn
  exact hf n hn

/-- A change touches neither clauses nor declarations. -/
private theorem DeclaresImplied.of_sameBody {f g : Fragment}
    (hf : f.DeclaresImplied) (h : g.SameBody f) : g.DeclaresImplied := by
  rw [DeclaresImplied, h.clauses, requireNames, h.require, provideNames, h.provide]
  exact hf

/-- A produced fragment declares every special that its clauses imply. -/
theorem Produced.declaresImplied {f : Fragment} (h : f.Produced) :
    f.DeclaresImplied := by
  induction h with
  | made h => exact declaresImplied_of_ofConfig h
  | merged h =>
      obtain ⟨c, hc⟩ := exists_ofConfig_of_disjunction h
      exact declaresImplied_of_ofConfig hc
  | changed hf h ih =>
      exact ih.of_sameBody (apply_cases hf.constructed.wellFormed h).2.1
  | renamed hf h ih =>
      obtain ⟨ρ, hρ, rfl⟩ := exists_renamed_of_renamePrivate hf.constructed.wellFormed h
      exact ih.renamed hρ

private theorem isBool_of_apply {f g : Fragment} {c : Change} (hf : f.WellFormed)
    (hLocked : ∃ b, f.locked = .bool b) (h : f.apply c = .ok g) :
    ∃ b, g.locked = .bool b := by
  cases hPairs : c.pairs? with
  | some pairs =>
      rw [apply_eq_bindAll hPairs] at h
      obtain ⟨-, lets, -, rfl, -⟩ := bindAll_eq_ok hf h
      exact hLocked
  | none =>
      obtain ⟨-, -, hSame | hTrue⟩ := apply_of_pairs?_eq_none h hPairs
      · rw [hSame]
        exact hLocked
      · exact ⟨true, hTrue⟩

/-- The lock of a produced fragment is a boolean. -/
theorem Produced.isBool_locked {f : Fragment} (h : f.Produced) :
    ∃ b, f.locked = .bool b := by
  induction h with
  | made h => exact ⟨_, (Config.makes_of_ofConfig h).locked⟩
  | merged h =>
      obtain ⟨c, hc⟩ := exists_ofConfig_of_disjunction h
      exact ⟨_, (Config.makes_of_ofConfig hc).locked⟩
  | changed hf h ih => exact isBool_of_apply hf.constructed.wellFormed ih h
  | renamed hf h ih =>
      obtain ⟨ρ, -, rfl⟩ := exists_renamed_of_renamePrivate hf.constructed.wellFormed h
      exact ih

/-! ## Describing and making again -/

/-- Where what is implied is declared, inference has nothing to add. -/
theorem impliedBy_eq_nil {f : Fragment} (hf : f.WellFormed)
    (hImplied : f.DeclaresImplied) :
    impliedBy f.clauses (f.provide ++ f.require) = [] := by
  rw [← List.map_eq_nil_iff (f := Symbol.name), List.eq_nil_iff_forall_not_mem]
  intro n hn
  obtain ⟨hFound, hNot⟩ := (mem_impliedBy _ _ n).mp hn
  rw [List.map_append, List.mem_append, not_or] at hNot
  have hDeclared : n ∈ f.requireNames ∨ n ∈ f.provideNames := by
    rcases (mem_foundSpecials f.clauses n).mp hFound with h | ⟨h, hSpecial⟩
    · exact hImplied n ((Term.mem_impliedSpecials _ n).mpr h)
    · exact hf.specials_declared n h hSpecial
  exact hDeclared.elim hNot.2 hNot.1

/-- The description of a fragment makes it again. -/
theorem ofConfig_describe_self {f : Fragment}
    (hTerms : ∀ t ∈ f.clauses, ∀ v, t ≠ .stray v) (hf : f.WellFormed)
    (hImplied : f.DeclaresImplied) (hLocked : ∃ b, f.locked = .bool b) :
    ofConfig f.describe = .ok f := by
  obtain ⟨b, hb⟩ := hLocked
  refine ofConfig_describe f.require f.locked hTerms hf
    hf.require_nodup ?_ ?_
  · rw [impliedBy_eq_nil hf hImplied, List.append_nil]
  · rw [hb, Value.isTruthy]

end Fragment

end DatalogFragments
