import DatalogFragments.Fragment.Construction
import DatalogFragments.Proofs.Attempt

/-!
# How construction goes

Construction reads a description part by part and stops at the first part that
it cannot read.  What it has read by the time it returns a fragment is recorded
here, step by step, so that a property of the fragment can be traced back to the
description without going through construction again.

## Main definitions

* `Config.Parts` — what construction from parts has read;
* `Config.Stages` — the fragments that a description passes through.

## Main results

* `Config.exists_parts_of_ofParts`, `Config.exists_stages_of_ofConfig` — every
  fragment comes about in this way;
* `Config.Stages.keeps` — what bindings and the lock keep.
-/

namespace DatalogFragments.Config

variable {c : Config} {f : Fragment}

/-! ## Parts -/

/-- A description with other lists of declarations. -/
def withKeys (c : Config) (provide require mustLet : List Value) : Config :=
  { c with provide, require, mustLet }

/-- The parts of a description as construction reads them: the keys of its lists,
and then what the keys and the other parts stand for. -/
structure Parts (c : Config) where
  provideKeys : List Value
  requireKeys : List Value
  mustLetKeys : List Value
  extra : Entries
  clauses : List Clause
  selectivity : Int
  provide : List Name
  require : List Name
  mustLet : List Name
  provideKeys_eq : Value.asKeys c.provide = .ok provideKeys
  requireKeys_eq : Value.asKeys c.require = .ok requireKeys
  mustLetKeys_eq : Value.asKeys c.mustLet = .ok mustLetKeys
  extra_eq : c.extra.asEntries = .ok extra
  clauses_eq : (c.withKeys provideKeys requireKeys mustLetKeys).asClauses = .ok clauses
  selectivity_eq :
    (c.withKeys provideKeys requireKeys mustLetKeys).asSelectivity = .ok selectivity
  provide_eq : (c.withKeys provideKeys requireKeys mustLetKeys).asDeclared "provide"
    provideKeys = .ok provide
  require_eq : (c.withKeys provideKeys requireKeys mustLetKeys).asDeclared "require"
    requireKeys = .ok require
  mustLet_eq : (c.withKeys provideKeys requireKeys mustLetKeys).asDeclared "must-let"
    mustLetKeys = .ok mustLet

/-- The fragment that construction checks in the end. -/
def Parts.fragment (p : c.Parts) : Fragment where
  name := c.name
  clauses := p.clauses
  provide := p.provide
  require := p.require
  lets := c.lets.map fun pair => (Form.ofValue pair.1, pair.2)
  mustLet := p.mustLet
  selectivity := p.selectivity
  locked := c.locked
  extra := p.extra

theorem exists_parts_of_ofParts (h : Fragment.ofParts c = .ok f) :
    ∃ p : c.Parts, p.fragment.checked = .ok f := by
  rw [Fragment.ofParts] at h
  obtain ⟨provideKeys, hProvideKeys, h⟩ := bind_eq_ok_iff.mp h
  obtain ⟨requireKeys, hRequireKeys, h⟩ := bind_eq_ok_iff.mp h
  obtain ⟨mustLetKeys, hMustLetKeys, h⟩ := bind_eq_ok_iff.mp h
  obtain ⟨extra, hExtra, h⟩ := bind_eq_ok_iff.mp h
  obtain ⟨clauses, hClauses, h⟩ := bind_eq_ok_iff.mp h
  obtain ⟨selectivity, hSelectivity, h⟩ := bind_eq_ok_iff.mp h
  obtain ⟨provide, hProvide, h⟩ := bind_eq_ok_iff.mp h
  obtain ⟨require, hRequire, h⟩ := bind_eq_ok_iff.mp h
  obtain ⟨mustLet, hMustLet, h⟩ := bind_eq_ok_iff.mp h
  exact ⟨⟨provideKeys, requireKeys, mustLetKeys, extra, clauses, selectivity, provide,
    require, mustLet, hProvideKeys, hRequireKeys, hMustLetKeys, hExtra, hClauses,
    hSelectivity, hProvide, hRequire, hMustLet⟩, h⟩

/-! ## Descriptions -/

/-- The parts that a description comes to once its declarations are read: the
specials that its clauses imply or mention are required as well. -/
def completed (c : Config) (provide explicit mustLet : List Value) : Config where
  clauses := (c.clauses.map Value.toTerm).map Term.toValue
  name := c.name
  provide := provide
  require := explicit ++ ((Fragment.foundSpecials (c.clauses.map Value.toTerm)).filter
    fun s => !(Fragment.namesOf provide ++ Fragment.namesOf explicit).contains s.name).map
      .ofName
  mustLet := mustLet
  selectivity := c.selectivity
  extra := c.extra

/-- The fragments that a description passes through: made of its parts, then
bound, unless it has no bindings. -/
structure Stages (c : Config) where
  provide : List Value
  explicit : List Value
  mustLet : List Value
  made : Fragment
  bound : Fragment
  provide_eq : asSymbols c.provide = .ok provide
  explicit_eq : asSymbols c.require = .ok explicit
  mustLet_eq : c.mustLet.mapM asSymbol = .ok mustLet
  made_eq : Fragment.ofParts (c.completed provide explicit mustLet) = .ok made
  bound_eq : c.lets = [] ∧ bound = made ∨ made.bindAll c.lets = .ok bound

namespace Stages

/-- The fragment that construction returns; the lock comes last. -/
def fragment (s : c.Stages) : Fragment :=
  if c.locked.isTruthy then s.bound.lock else s.bound

/-- What holds of the fragment made of the parts holds in the end if bindings and
the lock keep it. -/
theorem keeps {P : Fragment → Prop} (s : c.Stages) (hMade : P s.made)
    (hBind : ∀ {f g pairs}, P f → f.bindAll pairs = .ok g → P g)
    (hLock : ∀ {f}, P f → P f.lock) : P s.fragment := by
  have hBound : P s.bound := by
    rcases s.bound_eq with ⟨-, hSame⟩ | hBound
    · rw [hSame]
      exact hMade
    · exact hBind hMade hBound
  rw [fragment]
  split
  · exact hLock hBound
  · exact hBound

end Stages

theorem exists_stages_of_ofConfig (h : Fragment.ofConfig c = .ok f) :
    ∃ s : c.Stages, s.fragment = f := by
  rw [Fragment.ofConfig] at h
  obtain ⟨provide, hProvide, h⟩ := bind_eq_ok_iff.mp h
  obtain ⟨explicit, hExplicit, h⟩ := bind_eq_ok_iff.mp h
  obtain ⟨-, h⟩ := then_eq_ok_iff.mp h
  obtain ⟨mustLet, hMustLet, h⟩ := bind_eq_ok_iff.mp h
  obtain ⟨made, hMade, h⟩ := bind_eq_ok_iff.mp h
  dsimp only at h
  split at h
  · rename_i hNone
    exact ⟨⟨provide, explicit, mustLet, made, made, hProvide, hExplicit, hMustLet, hMade,
      .inl ⟨List.isEmpty_iff.mp hNone, rfl⟩⟩, Except.ok.inj h⟩
  · obtain ⟨bound, hBound, h⟩ := bind_eq_ok_iff.mp h
    exact ⟨⟨provide, explicit, mustLet, made, bound, hProvide, hExplicit, hMustLet, hMade,
      .inr hBound⟩, Except.ok.inj h⟩

end DatalogFragments.Config
