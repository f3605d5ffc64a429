import DatalogFragments.Proofs.Fragment.Renaming
import Mathlib.Logic.Function.Basic

/-!
# Other names for private variables

What a fragment keeps to itself could just as well be called something else.
`Fragment.relabelled σ` is the fragment with other names for its private
variables, all display information left in place.  The names need not be new:
they only have to differ from the other names of the fragment.  Such a fragment
is as valid as the one it came from, exposes and exports the same, and after
both were given fresh names they differ in those only.

## Main results

* `Fragment.Relabels` — other names for private variables;
* `Fragment.Relabels.respects` — they respect the fragment;
* `Fragment.Relabels.wellFormed`, `Fragment.Relabels.mustLet_bound_iff`,
  `Fragment.Relabels.infoFault?_eq` — what stays;
* `Fragment.renamed_relabelled` — relabelling and renaming commute.
-/

namespace DatalogFragments

/-- A symbol under another name.  Its display information stays. -/
def Symbol.relabelled (σ : String → String) (s : Name) : Name :=
  { s with name := σ s.name }

theorem Symbol.name_relabelled (σ : String → String) (s : Name) :
    (s.relabelled σ).name = σ s.name := rfl

theorem Symbol.relabelled_of_fixed {σ : String → String} {s : Name}
    (h : σ s.name = s.name) : s.relabelled σ = s := by
  rw [relabelled, h]

/-- At a name, to draw a new one for its relabelled name is to relabel the new
one, and both are new or none is. -/
def CommuteAt (σ ρ ρ' β : String → String) (n : String) : Prop :=
  β (ρ n) = ρ' (σ n) ∧ (ρ n = n ↔ ρ' (σ n) = σ n)

namespace Symbol

variable {σ ρ ρ' β : String → String} {s : Name}

theorem renamed_relabelled (h : CommuteAt σ ρ ρ' β s.name) :
    (s.relabelled σ).renamed ρ' = (s.renamed ρ).relabelled β := by
  obtain ⟨hImage, hFixed⟩ := h
  rw [renamed, renamed, name_relabelled]
  by_cases hs : ρ s.name = s.name
  · rw [if_pos hs, if_pos (hFixed.mp hs), relabelled, relabelled, ← hFixed.mp hs,
      ← hImage, hs]
  · rw [if_neg hs, if_neg (mt hFixed.mpr hs), relabelled, relabelled, hImage]

theorem replaced_relabelled (h : CommuteAt σ ρ ρ' β s.name) :
    (s.relabelled σ).replaced ρ' = (s.replaced ρ).relabelled β := by
  obtain ⟨hImage, hFixed⟩ := h
  rw [replaced, replaced, name_relabelled]
  by_cases hs : ρ s.name = s.name
  · rw [if_pos hs, if_pos (hFixed.mp hs), relabelled, relabelled, ← hFixed.mp hs,
      ← hImage, hs]
  · rw [if_neg hs, if_neg (mt hFixed.mpr hs), relabelled, plain, ← hImage]
    rfl

end Symbol

/-- A clause with other names for its symbols. -/
def Term.relabelled (σ : String → String) (t : Clause) : Clause :=
  t.mapSymbols (Symbol.relabelled σ)

/-- A form with other names for its symbols. -/
def Form.relabelled (σ : String → String) (f : Form) : Form :=
  f.mapSymbols (Symbol.relabelled σ)

namespace Fragment

/-- A fragment with other names for what it does not expose. -/
def relabelled (σ : String → String) (f : Fragment) : Fragment :=
  f.mapSymbols (Symbol.relabelled σ) (Symbol.relabelled σ)

/-- `σ` gives the private variables of `f` pairwise different variables as names,
which differ from all other names of `f`, and keeps every other name. -/
structure Relabels (f : Fragment) (σ : String → String) : Prop where
  keeps : ∀ n, n ∉ f.privateNames → σ n = n
  isVariable : ∀ n ∈ f.privateNames, isVariableName (σ n) = true
  avoids : ∀ n ∈ f.privateNames, ∀ m ∈ f.names, m ∉ f.privateNames → σ n ≠ m
  injective : ∀ m ∈ f.privateNames, ∀ n ∈ f.privateNames, σ m = σ n → m = n

/-- The second fragment is the first one with other names for its private
variables. -/
def Relabelled (f g : Fragment) : Prop := ∃ σ, f.Relabels σ ∧ g = f.relabelled σ

namespace Relabels

variable {f : Fragment} {σ : String → String}

theorem keepsKinds (h : f.Relabels σ) : KeepsKinds σ := by
  intro n
  by_cases hn : n ∈ f.privateNames
  · exact .inr ⟨isVariableName_of_private hn, h.isVariable n hn⟩
  · exact .inl (h.keeps n hn)

theorem respects (h : f.Relabels σ) : f.Respects σ where
  keepsKinds := h.keepsKinds
  exposed_fixed := by
    intro n hn
    refine h.keeps n fun hPrivate => ?_
    obtain ⟨-, -, hProvide, hRequire⟩ := (mem_privateNames f n).mp hPrivate
    exact hn.elim hProvide hRequire
  injOn := by
    intro m hm n hn heq
    by_cases hmPrivate : m ∈ f.privateNames
    · by_cases hnPrivate : n ∈ f.privateNames
      · exact h.injective m hmPrivate n hnPrivate heq
      · rw [h.keeps n hnPrivate] at heq
        exact absurd heq (h.avoids m hmPrivate n hn hnPrivate)
    · by_cases hnPrivate : n ∈ f.privateNames
      · rw [h.keeps m hmPrivate] at heq
        exact absurd heq.symm (h.avoids n hnPrivate m hm hmPrivate)
      · rwa [h.keeps m hmPrivate, h.keeps n hnPrivate] at heq

/-! ## What relabelling keeps -/

theorem names_eq (h : f.Relabels σ) : (f.relabelled σ).names = f.names.map σ :=
  names_mapSymbols h.keepsKinds h.respects.exposed_fixed
    (Symbol.name_relabelled σ) (Symbol.name_relabelled σ)

theorem mem_privateNames_iff (h : f.Relabels σ) {n : String} :
    n ∈ (f.relabelled σ).privateNames ↔ ∃ m ∈ f.privateNames, σ m = n :=
  mem_privateNames_mapSymbols h.respects (Symbol.name_relabelled σ)
    (Symbol.name_relabelled σ)

/-- A name of the fragment is private iff its image is. -/
theorem image_mem_privateNames_iff (h : f.Relabels σ) {n : String}
    (hn : n ∈ f.names) :
    σ n ∈ (f.relabelled σ).privateNames ↔ n ∈ f.privateNames := by
  rw [h.mem_privateNames_iff]
  constructor
  · rintro ⟨m, hm, heq⟩
    rwa [← h.respects.injOn m (mem_names_of_private hm) n hn heq]
  · exact fun hPrivate => ⟨n, hPrivate, rfl⟩

theorem wellFormed (h : f.Relabels σ) (hf : f.WellFormed) :
    (f.relabelled σ).WellFormed :=
  hf.mapSymbols h.respects (Symbol.name_relabelled σ) (Symbol.name_relabelled σ)

theorem letNames_eq (h : f.Relabels σ) :
    (f.relabelled σ).letNames = f.letNames.map σ :=
  letNames_mapSymbols h.keepsKinds (Symbol.name_relabelled σ) f

/-- The must-let variables are bound iff they were. -/
theorem mustLet_bound_iff (h : f.Relabels σ) :
    (∀ n ∈ (f.relabelled σ).mustLetNames, n ∈ (f.relabelled σ).letNames) ↔
      ∀ n ∈ f.mustLetNames, n ∈ f.letNames := by
  rw [h.letNames_eq, relabelled, mustLetNames_mapSymbols (Symbol.name_relabelled σ),
    List.forall_mem_map]
  refine forall₂_congr fun n hn => ?_
  rw [List.mem_map]
  constructor
  · rintro ⟨m, hm, heq⟩
    rwa [← h.respects.injOn m (f.mem_names_of_let hm) n
      (f.mem_names_of_mustLet hn) heq]
  · exact fun hLet => ⟨n, hLet, rfl⟩

/-- Display information is read, or not, as before. -/
theorem infoFault?_eq (h : f.Relabels σ) :
    (f.relabelled σ).infoFault? = f.infoFault? := by
  have hSymbols : Term.symbolsOf (f.relabelled σ).clauses =
      (Term.symbolsOf f.clauses).map (Symbol.relabelled σ) :=
    Term.symbolsOf_mapSymbols _ f.clauses
  rw [infoFault?, hSymbols, List.findSome?_map, infoFault?,
    ← List.head?_filterMap, ← List.head?_filterMap]
  refine congrArg List.head? (List.filterMap_congr fun s hs => ?_)
  have hName := f.mem_names_of_clause (List.mem_map_of_mem hs)
  simp only [Function.comp_apply, Symbol.name_relabelled,
    h.image_mem_privateNames_iff hName]
  rfl

end Relabels

/-- One private variable under a name that the fragment does not use. -/
theorem relabels_update {f : Fragment} {m n : String} (hm : m ∈ f.privateNames)
    (hn : isVariableName n = true) (hUnused : n ∉ f.names) :
    f.Relabels (Function.update id m n) := by
  have hOther : ∀ k, k ≠ m → Function.update id m n k = k :=
    fun k hk => Function.update_of_ne hk n id
  have hSelf : Function.update id m n m = n := Function.update_self m n id
  refine ⟨?_, ?_, ?_, ?_⟩
  · exact fun k hk => hOther k fun heq => hk (heq ▸ hm)
  · intro k hk
    by_cases hkm : k = m
    · rwa [hkm, hSelf]
    · rw [hOther k hkm]
      exact isVariableName_of_private hk
  · intro k hk j hj hPublic
    by_cases hkm : k = m
    · rw [hkm, hSelf]
      rintro rfl
      exact hUnused hj
    · rw [hOther k hkm]
      rintro rfl
      exact hPublic hk
  · intro j hj k hk heq
    by_cases hjm : j = m <;> by_cases hkm : k = m
    · exact hjm.trans hkm.symm
    · rw [hjm, hSelf, hOther k hkm] at heq
      exact absurd (heq ▸ mem_names_of_private hk) hUnused
    · rw [hkm, hSelf, hOther j hjm] at heq
      exact absurd (heq ▸ mem_names_of_private hj) hUnused
    · rwa [hOther j hjm, hOther k hkm] at heq

/-! ## Fresh names after relabelling -/

/-- Relabelling and renaming commute: to give the relabelled fragment new names
is to relabel the new names. -/
theorem renamed_relabelled {f : Fragment} {σ ρ ρ' β : String → String}
    (hNames : ∀ n ∈ f.names, CommuteAt σ ρ ρ' β n)
    (hOthers : ∀ n, isVariableName n = false → CommuteAt σ ρ ρ' β n) :
    (f.relabelled σ).renamed ρ' = (f.renamed ρ).relabelled β := by
  rw [renamed_eq_mapSymbols, renamed_eq_mapSymbols, relabelled, relabelled,
    mapSymbols_mapSymbols, mapSymbols_mapSymbols]
  refine mapSymbols_congr ?_ ?_ ?_
  · intro s hs
    exact Symbol.renamed_relabelled
      (hNames _ (f.mem_names_of_clause (List.mem_map_of_mem hs)))
  · intro s hs
    refine Symbol.replaced_relabelled (hNames _ ?_)
    rcases List.mem_append.mp hs with hs | hs
    · exact f.mem_names_of_let (List.mem_map_of_mem hs)
    · exact f.mem_names_of_mustLet (List.mem_map_of_mem hs)
  · intro s hs
    refine Symbol.replaced_relabelled (hOthers _ ?_)
    rw [hs]
    decide

end Fragment

end DatalogFragments
