import DatalogFragments.Proofs.Fragment.Alike
import DatalogFragments.Proofs.Fragment.Produced
import DatalogFragments.Proofs.Fragment.Refusals

/-!
# Which descriptions are accepted

A description is read in two steps: its entries become symbols, and the
fragment that declares these symbols, with the specials found in the clauses, is
checked.  Repeated entries are dropped by comparing values, so an accepted list
consists of symbols with names as soon as its first occurrences do.  Hence
whatever is accepted stands for symbols, and the conditions of the check are
conditions on the names of the entries and of the clauses.

## Main definitions

* `Config.nameOf?`, `Config.entryNames` — the names that entries stand for;
* `Config.StandsFor` — entries and the symbols that they become;
* `Config.requiredNames` — what is required in the end;
* `Config.Acceptable`, `Config.Settles` — the conditions, and the outcome.

## Main results

* `Fragment.acceptable_of_ofConfig` — what is accepted meets the conditions;
* `Fragment.exists_ofConfig_of_acceptable` — what meets them is accepted;
* `Fragment.ofConfig_settles` — both, and what is never complained about;
* `Fragment.ofConfig_numbered` — a symbol whose name is no text.
-/

namespace DatalogFragments

/-! ## Entries of declaration lists -/

/-- What holds of the first occurrences and passes to whatever equals one of
them holds of all entries. -/
private theorem forall_of_forall_firstsBy {P : Value → Prop} {vs : List Value}
    (hSame : ∀ v w, P v → v.same w = true → P w)
    (h : ∀ v ∈ firstsBy id vs, P v) : ∀ v ∈ vs, P v := by
  induction vs with
  | nil => exact fun v hv => absurd hv List.not_mem_nil
  | cons x vs ih =>
      rw [firstsBy_cons, List.forall_mem_cons] at h
      refine List.forall_mem_cons.mpr ⟨h.1, ih fun v hv => ?_⟩
      cases hx : x.same v with
      | true => exact hSame x v h.1 hx
      | false => exact h.2 v (List.mem_filter.mpr ⟨hv, by simp [hx]⟩)

/-- The value is a symbol with a name. -/
def Value.IsName (v : Value) : Prop := ∃ s : Name, v = .ofName s

private theorem isName_of_same (v w : Value) (hv : v.IsName) (h : v.same w = true) :
    w.IsName := by
  obtain ⟨s, rfl⟩ := hv
  rw [Value.ofName, Value.same.eq_def] at h
  cases w with
  | term t =>
      dsimp only at h
      rw [Value.sameTerm.eq_def] at h
      cases t with
      | sym t => exact ⟨t, rfl⟩
      | _ => cases h
  | _ => cases h

private theorem exists_names_of_isName {vs : List Value} (h : ∀ v ∈ vs, v.IsName) :
    ∃ l : List Name, vs = l.map Value.ofName := by
  induction vs with
  | nil => exact ⟨[], rfl⟩
  | cons v vs ih =>
      obtain ⟨⟨s, hs⟩, hRest⟩ := List.forall_mem_cons.mp h
      obtain ⟨l, hl⟩ := ih hRest
      exact ⟨s :: l, by rw [List.map_cons, hs, hl]⟩

private theorem ofName_injective : Function.Injective Value.ofName := by
  intro s t h
  exact Term.sym.inj (Value.term.inj h)

/-- Values whose first occurrences are symbols are symbols, and their first
occurrences those by name. -/
private theorem exists_names_of_firstsBy {vs : List Value} {l : List Name}
    (h : firstsBy id vs = l.map Value.ofName) :
    ∃ l', vs = l'.map Value.ofName ∧ l = distinctNames l' := by
  have hAll : ∀ v ∈ vs, v.IsName := by
    refine forall_of_forall_firstsBy isName_of_same fun v hv => ?_
    rw [h] at hv
    obtain ⟨s, -, rfl⟩ := List.mem_map.mp hv
    exact ⟨s, rfl⟩
  obtain ⟨l', rfl⟩ := exists_names_of_isName hAll
  refine ⟨l', rfl, ?_⟩
  rw [firstsBy_ofName] at h
  exact (List.map_injective_iff.mpr ofName_injective h).symm

namespace Config

/-- The name that an entry of a declaration list stands for. -/
def nameOf? : Value → Option String
  | .text s => some s
  | .term (.sym s) => some s.name
  | _ => none

/-- The names that the entries of a declaration list stand for, each once. -/
def entryNames (entries : List Value) : List String :=
  firstsBy id (entries.filterMap nameOf?)

/-- The entries stand for the symbols, one for one. -/
def StandsFor (entries : List Value) (l : List Name) : Prop :=
  List.Forall₂ (fun v s => asSymbol v = .ok (.ofName s)) entries l

/-- Symbols stand for themselves. -/
theorem standsFor_ofName (l : List Name) : StandsFor (l.map Value.ofName) l :=
  List.forall₂_map_left_iff.mpr (List.forall₂_same.mpr fun _ _ => rfl)

private theorem nameOf?_of_asSymbol {v : Value} {s : Name}
    (h : asSymbol v = .ok (.ofName s)) : nameOf? v = some s.name := by
  cases v with
  | text t =>
      have hEq := ofName_injective (Except.ok.inj h)
      rw [nameOf?, ← hEq]
      rfl
  | term t =>
      cases t with
      | sym t =>
          have hEq := ofName_injective (Except.ok.inj h)
          rw [nameOf?, hEq]
      | _ => cases h
  | misnamed n i => cases h
  | _ => cases h

private theorem exists_asSymbol {v : Value} {n : String} (h : nameOf? v = some n) :
    ∃ s : Name, asSymbol v = .ok (.ofName s) := by
  cases v with
  | text t => exact ⟨Symbol.plain t, rfl⟩
  | term t =>
      cases t with
      | sym s => exact ⟨s, rfl⟩
      | _ => cases h
  | _ => cases h

/-- Entries that all have names stand for symbols. -/
theorem exists_standsFor {entries : List Value}
    (h : ∀ v ∈ entries, ∃ n, nameOf? v = some n) : ∃ l, StandsFor entries l :=
  exists_forall₂_of_mem fun v hv => (h v hv).elim fun _ hn => exists_asSymbol hn

section StandsFor

variable {entries : List Value} {l : List Name} (h : StandsFor entries l)

include h

theorem StandsFor.filterMap_eq : entries.filterMap nameOf? = l.map Symbol.name := by
  induction h with
  | nil => rfl
  | cons hs _ ih => rw [List.filterMap_cons, nameOf?_of_asSymbol hs, List.map_cons, ih]

theorem StandsFor.entryNames_eq :
    entryNames entries = (distinctNames l).map Symbol.name := by
  rw [entryNames, h.filterMap_eq, map_name_distinctNames]

theorem StandsFor.mem_entryNames (n : String) :
    n ∈ entryNames entries ↔ n ∈ l.map Symbol.name := by
  rw [h.entryNames_eq, mem_names_distinctNames]

/-- Every entry has an admissible name iff every symbol has. -/
theorem StandsFor.forall_iff {P : String → Prop} :
    (∀ v ∈ entries, ∃ n, nameOf? v = some n ∧ P n) ↔ ∀ n ∈ l.map Symbol.name, P n := by
  rw [← h.filterMap_eq]
  simp only [List.mem_filterMap, forall_exists_index, and_imp]
  constructor
  · intro hEach n v hv hn
    obtain ⟨m, hm, hP⟩ := hEach v hv
    exact Option.some.inj (hm.symm.trans hn) ▸ hP
  · intro hEach v hv
    obtain ⟨s, -, hs⟩ := exists_of_forall₂_right h.flip hv
    exact ⟨s.name, nameOf?_of_asSymbol hs, hEach _ v hv (nameOf?_of_asSymbol hs)⟩

theorem StandsFor.mapM_asSymbol :
    entries.mapM asSymbol = .ok (l.map Value.ofName) :=
  mapM_eq_ok_iff.mpr (List.forall₂_map_right_iff.mpr h)

theorem StandsFor.asSymbols_eq :
    asSymbols entries = .ok ((distinctNames l).map Value.ofName) := by
  have hEach : entries.mapM (fun v => do
      let s ← asSymbol v
      if s.isKey then return s else throw .wrongShape) =
        (Except.ok (l.map Value.ofName) : Except Fault _) := by
    refine mapM_eq_ok_iff.mpr (List.forall₂_map_right_iff.mpr (h.imp fun v s hs => ?_))
    rw [hs, ok_bind, isKey_ofName, if_pos rfl]
    rfl
  rw [asSymbols, hEach, ok_bind, firstsBy_ofName]
  rfl

end StandsFor

/-- Entries that become symbols with names stand for symbols. -/
theorem standsFor_of_mapM {entries : List Value} {l : List Name}
    (h : entries.mapM asSymbol = .ok (l.map Value.ofName)) : StandsFor entries l := by
  rwa [mapM_eq_ok_iff, List.forall₂_map_right_iff] at h

/-- Distinct entries that become symbols with names stand for symbols. -/
theorem exists_standsFor_of_asSymbols {entries : List Value} {l : List Name}
    (h : asSymbols entries = .ok (l.map Value.ofName)) :
    ∃ l', StandsFor entries l' ∧ l = distinctNames l' := by
  rw [asSymbols] at h
  obtain ⟨symbols, hSymbols, h⟩ := bind_eq_ok_iff.mp h
  obtain ⟨l', rfl, hEq⟩ := exists_names_of_firstsBy (Except.ok.inj h)
  rw [mapM_eq_ok_iff, List.forall₂_map_right_iff] at hSymbols
  refine ⟨l', hSymbols.imp fun v s hs => ?_, hEq⟩
  obtain ⟨w, hw, hKey⟩ := bind_eq_ok_iff.mp hs
  split at hKey
  · rw [hw, Except.ok.inj hKey]
  · cases hKey

end Config

namespace Fragment

/-! ## What is required in the end -/

/-- The specials found in clauses, each once: first those that the shapes of the
clauses imply, then those that occur in them. -/
def foundNames (clauses : List Clause) : List String :=
  firstsBy id (Term.impliedSpecials clauses ++
    (firstsBy id ((Term.symbolsOf clauses).map Symbol.name)).filter isSpecialName)

theorem map_name_foundSpecials (clauses : List Clause) :
    (foundSpecials clauses).map Symbol.name = foundNames clauses := by
  have hPlain : (Term.impliedSpecials clauses).map
      (Symbol.name ∘ (Symbol.plain : String → Name)) =
      Term.impliedSpecials clauses := List.map_id' _
  rw [foundSpecials, map_name_distinctNames, List.map_append, List.map_map, hPlain,
    map_name_filter (p := Symbol.isSpecial) isSpecialName fun _ => rfl, Term.firstSymbols,
    ← distinctNames, map_name_distinctNames, foundNames]

theorem map_name_impliedBy (clauses : List Clause) (declared : List Name) :
    (impliedBy clauses declared).map Symbol.name =
      (foundNames clauses).filter fun n => n ∉ declared.map Symbol.name := by
  rw [impliedBy, map_name_filter_not_isIn, map_name_foundSpecials]

end Fragment

namespace Config

/-- What a description requires in the end: its own entries, and the specials
found in its clauses that are neither provided nor required by them. -/
def requiredNames (c : Config) : List String :=
  entryNames c.require ++
    (Fragment.foundNames (c.clauses.map Value.toTerm)).filter fun n =>
      n ∉ entryNames c.provide ++ entryNames c.require

/-- The conditions on a description: all symbols of its clauses have names, its
entries name variables or specials, nothing is provided and required, and what
has to be bound can be bound. -/
structure Acceptable (c : Config) : Prop where
  wellNamed : Term.misnamedNamesOf (c.clauses.map Value.toTerm) = []
  provide_declarable :
    ∀ v ∈ c.provide, ∃ n, nameOf? v = some n ∧ isDeclarableName n = true
  require_declarable :
    ∀ v ∈ c.require, ∃ n, nameOf? v = some n ∧ isDeclarableName n = true
  mustLet_declarable :
    ∀ v ∈ c.mustLet, ∃ n, nameOf? v = some n ∧ isDeclarableName n = true
  disjoint : ∀ n ∈ entryNames c.provide, n ∉ entryNames c.require
  mustLet_bindable : ∀ n ∈ entryNames c.mustLet,
    (n ∈ (Term.symbolsOf (c.clauses.map Value.toTerm)).map Symbol.name ∧
        isDeclarableName n = true ∨ n ∈ entryNames c.provide) ∧
      n ∉ c.requiredNames

/-- The fragment has the clauses of the description and declares its entries; it
requires the specials found in them unless it provides them. -/
structure Settles (c : Config) (f : Fragment) : Prop where
  clauses : f.clauses = c.clauses.map Value.toTerm
  provide : f.provideNames = entryNames c.provide
  require : f.requireNames = c.requiredNames
  mustLet : f.mustLetNames = entryNames c.mustLet
  found : ∀ n ∈ Fragment.foundNames f.clauses,
    n ∈ f.provideNames ∧ n ∉ f.requireNames ∨ n ∈ f.requireNames ∧ n ∉ f.provideNames

end Config

namespace Fragment

/-! ## What construction does with entries -/

/-- Entries that are accepted are symbols with names, and stay in their order. -/
private theorem exists_names_of_asDeclared {c : Config} {declaration : String}
    {vs ks : List Value} {l : List Name} (hKeys : Value.asKeys vs = .ok ks)
    (h : c.asDeclared declaration ks = .ok l) :
    ∃ l', vs = l'.map Value.ofName ∧ l = distinctNames l' := by
  rw [Value.asKeys_eq_ok hKeys] at h
  exact exists_names_of_firstsBy (Config.eq_map_of_asDeclared h)

/-- Parts that are accepted declare symbols with names. -/
private theorem exists_names_of_ofParts {c : Config} {f : Fragment}
    (h : ofParts c = .ok f) : ∃ provide require mustLet : List Name,
      (c.provide = provide.map Value.ofName ∧ f.provide = distinctNames provide) ∧
      (c.require = require.map Value.ofName ∧ f.require = distinctNames require) ∧
      c.mustLet = mustLet.map Value.ofName ∧ f.mustLet = distinctNames mustLet := by
  obtain ⟨p, hChecked⟩ := Config.exists_parts_of_ofParts h
  obtain ⟨rfl, -⟩ := (checked_eq_ok_iff _ f).mp hChecked
  obtain ⟨lp, hp, hProvide⟩ := exists_names_of_asDeclared p.provideKeys_eq p.provide_eq
  obtain ⟨lr, hr, hRequire⟩ := exists_names_of_asDeclared p.requireKeys_eq p.require_eq
  obtain ⟨lm, hm, hMustLet⟩ := exists_names_of_asDeclared p.mustLetKeys_eq p.mustLet_eq
  have hTwice : ∀ {l l' : List Name}, l = distinctNames l' → distinctNames l = l := by
    rintro l l' rfl
    exact distinctNames_twice l'
  exact ⟨lp, lr, lm, ⟨hp, (hTwice hProvide).trans hProvide⟩,
    ⟨hr, (hTwice hRequire).trans hRequire⟩, hm, (hTwice hMustLet).trans hMustLet⟩

/-- Bindings and lock, which come last, leave declarations alone. -/
private theorem sameBody_made {c : Config} (s : c.Stages) :
    s.fragment.SameBody s.made := by
  let P (g : Fragment) : Prop := g.WellFormed ∧ g.SameBody s.made
  have hApply : ∀ {f g : Fragment} (change : Change), P f → f.apply change = .ok g →
      P g := by
    intro f g change hf h
    obtain ⟨hWell, hBody, -⟩ := apply_cases hf.1 h
    exact ⟨hWell, hBody.trans hf.2⟩
  have hMade : P s.made := ⟨wellFormed_of_ofParts s.made_eq, .refl s.made⟩
  exact (s.keeps hMade (fun {_ _ pairs} => hApply (.bindAll pairs))
    fun hf => hApply .lock hf rfl).2

/-- A description that is accepted stands for symbols, and the fragment declares
these and the specials that it implies. -/
private theorem exists_standsFor_of_ofConfig {c : Config} {f : Fragment}
    (h : ofConfig c = .ok f) : ∃ provide require mustLet : List Name,
      Config.StandsFor c.provide provide ∧ Config.StandsFor c.require require ∧
      Config.StandsFor c.mustLet mustLet ∧
      f.provide = distinctNames provide ∧
      f.require = distinctNames require ++ impliedBy (c.clauses.map Value.toTerm)
        (distinctNames provide ++ distinctNames require) ∧
      f.mustLet = distinctNames mustLet := by
  obtain ⟨s, rfl⟩ := Config.exists_stages_of_ofConfig h
  have hBody := sameBody_made s
  obtain ⟨lp, lr, lm, ⟨hp, hMadeProvide⟩, ⟨hr, hMadeRequire⟩, hm, hMadeMustLet⟩ :=
    exists_names_of_ofParts s.made_eq
  dsimp only [Config.completed] at hp hr hm
  have hAll : ∀ v ∈ s.explicit, v.IsName := by
    intro v hv
    have hMem : v ∈ lr.map Value.ofName := hr ▸ List.mem_append_left _ hv
    obtain ⟨n, -, rfl⟩ := List.mem_map.mp hMem
    exact ⟨n, rfl⟩
  obtain ⟨le, he⟩ := exists_names_of_isName hAll
  obtain ⟨provide, hStandsProvide, rfl⟩ := Config.exists_standsFor_of_asSymbols
    (s.provide_eq.trans (congrArg Except.ok hp))
  obtain ⟨require, hStandsRequire, rfl⟩ := Config.exists_standsFor_of_asSymbols
    (s.explicit_eq.trans (congrArg Except.ok he))
  have hStandsMustLet := Config.standsFor_of_mapM
    (s.mustLet_eq.trans (congrArg Except.ok hm))
  rw [hp, he, implied_eq, ← List.map_append] at hr
  obtain rfl := List.map_injective_iff.mpr ofName_injective hr
  have hNodup := nodup_append_impliedBy (c.clauses.map Value.toTerm)
    (distinctNames provide) (nodup_names_distinctNames require)
  refine ⟨provide, require, lm, hStandsProvide, hStandsRequire, hStandsMustLet, ?_, ?_, ?_⟩
  · rw [hBody.provide, hMadeProvide, distinctNames_twice]
  · rw [hBody.require, hMadeRequire, (distinctNames_eq_self_iff _).mpr hNodup]
  · rw [hBody.mustLet, hMadeMustLet]

/-- The names that are required in the end. -/
private theorem map_name_required {c : Config} {provide require : List Name}
    (hProvide : Config.StandsFor c.provide provide)
    (hRequire : Config.StandsFor c.require require) :
    (distinctNames require ++ impliedBy (c.clauses.map Value.toTerm)
      (distinctNames provide ++ distinctNames require)).map Symbol.name =
      c.requiredNames := by
  rw [List.map_append, map_name_impliedBy, List.map_append, ← hProvide.entryNames_eq,
    ← hRequire.entryNames_eq, Config.requiredNames]

/-- A name is bindable if it occurs or is provided, and is not required. -/
private theorem mem_bindableNames_iff {f : Fragment} {n : String} :
    n ∈ f.bindableNames ↔
      (n ∈ (Term.symbolsOf f.clauses).map Symbol.name ∧ isDeclarableName n = true ∨
        n ∈ f.provideNames) ∧ n ∉ f.requireNames := by
  rw [mem_bindableNames, mem_freeNames, clauseNames]

/-- What is accepted meets the conditions, and the fragment declares what the
description and its clauses ask for. -/
theorem acceptable_of_ofConfig {c : Config} {f : Fragment} (h : ofConfig c = .ok f) :
    c.Acceptable ∧ c.Settles f := by
  have hWell := wellFormed_of_ofConfig h
  have hClauses := (Config.makes_of_ofConfig h).clauses
  obtain ⟨provide, require, mustLet, hStandsProvide, hStandsRequire, hStandsMustLet,
    hProvide, hRequire, hMustLet⟩ := exists_standsFor_of_ofConfig h
  have hProvideNames : f.provideNames = Config.entryNames c.provide := by
    rw [provideNames, hProvide, hStandsProvide.entryNames_eq]
  have hRequireNames : f.requireNames = c.requiredNames := by
    rw [requireNames, hRequire, map_name_required hStandsProvide hStandsRequire]
  have hMustLetNames : f.mustLetNames = Config.entryNames c.mustLet := by
    rw [mustLetNames, hMustLet, hStandsMustLet.entryNames_eq]
  have hExplicit : ∀ n ∈ Config.entryNames c.require, n ∈ c.requiredNames :=
    fun n hn => List.mem_append_left _ hn
  have hFound : ∀ n ∈ foundNames f.clauses,
      n ∈ f.provideNames ∧ n ∉ f.requireNames ∨
        n ∈ f.requireNames ∧ n ∉ f.provideNames := by
    intro n hn
    by_cases hp : n ∈ f.provideNames
    · exact .inl ⟨hp, hWell.disjoint n hp⟩
    · refine .inr ⟨?_, hp⟩
      rw [hRequireNames]
      by_cases hr : n ∈ Config.entryNames c.require
      · exact hExplicit n hr
      · refine List.mem_append_right _ (List.mem_filter.mpr ⟨hClauses ▸ hn, ?_⟩)
        rw [decide_eq_true_eq, List.mem_append, not_or, ← hProvideNames]
        exact ⟨hp, hr⟩
  refine ⟨?_, ⟨hClauses, hProvideNames, hRequireNames, hMustLetNames, hFound⟩⟩
  exact
    { wellNamed := hClauses ▸ hWell.wellNamed
      provide_declarable := hStandsProvide.forall_iff.mpr fun n hn =>
        hWell.provide_declarable n
          (hProvideNames ▸ (hStandsProvide.mem_entryNames n).mpr hn)
      require_declarable := hStandsRequire.forall_iff.mpr fun n hn =>
        hWell.require_declarable n
          (hRequireNames ▸ hExplicit n ((hStandsRequire.mem_entryNames n).mpr hn))
      mustLet_declarable := hStandsMustLet.forall_iff.mpr fun n hn =>
        hWell.mustLet_declarable n
          (hMustLetNames ▸ (hStandsMustLet.mem_entryNames n).mpr hn)
      disjoint := fun n hp hr =>
        hWell.disjoint n (hProvideNames ▸ hp) (hRequireNames ▸ hExplicit n hr)
      mustLet_bindable := fun n hn => by
        have hBindable := hWell.mustLet_bindable n (hMustLetNames ▸ hn)
        rw [mem_bindableNames_iff, hClauses, hProvideNames, hRequireNames] at hBindable
        exact hBindable }

/-! ## Descriptions that meet the conditions -/

/-- Construction looks at declaration lists through the symbols that they stand
for. -/
private theorem ofConfig_congr {c c' : Config} {mustLet mustLet' : List Value}
    (hClauses : c.clauses = c'.clauses) (hName : c.name = c'.name)
    (hProvide : Config.asSymbols c.provide = Config.asSymbols c'.provide)
    (hRequire : Config.asSymbols c.require = Config.asSymbols c'.require)
    (hMustLet : c.mustLet.mapM Config.asSymbol = .ok mustLet)
    (hMustLet' : c'.mustLet.mapM Config.asSymbol = .ok mustLet')
    (hKeys : Value.asKeys mustLet = Value.asKeys mustLet')
    (hSelectivity : c.selectivity = c'.selectivity) (hExtra : c.extra = c'.extra)
    (hLets : c.lets = c'.lets) (hLocked : c.locked = c'.locked) :
    ofConfig c = ofConfig c' := by
  have hParts : ∀ clauses name provide require selectivity extra,
      ofParts { clauses, name, provide, require, mustLet, selectivity, extra } =
        ofParts
          { clauses, name, provide, require, mustLet := mustLet', selectivity, extra } := by
    intro clauses name provide require selectivity extra
    rw [ofParts, ofParts, hKeys]
  rw [ofConfig, ofConfig, hClauses, hName, hProvide, hRequire, hMustLet, hMustLet',
    hSelectivity, hExtra, hLets, hLocked]
  refine bind_congr fun provide => bind_congr fun explicit => bind_congr fun _ => ?_
  simp only [ok_bind]
  rw [hParts]

/-- A term without nameless symbols stands for itself as a clause. -/
private theorem toValue_toTerm {v : Value} (h : v.isTerm = true)
    (hNamed : Term.misnamedNames v.toTerm = []) :
    v.toTerm.toValue = v ∧ ∀ u, v.toTerm ≠ .stray u := by
  cases v with
  | term t =>
      rw [Value.toTerm]
      cases t with
      | stray u => cases h
      | _ => exact ⟨rfl, fun u hu => by cases hu⟩
  | misnamed n i => simp [Value.toTerm, Term.misnamedNames] at hNamed
  | _ => cases h

/-- The fragment that a description asks for whose entries stand for the
symbols. -/
def declared (c : Config) (provide require mustLet : List Name) (selectivity : Int)
    (extra : Entries) : Fragment where
  name := c.name
  clauses := c.clauses.map Value.toTerm
  provide := distinctNames provide
  require := distinctNames require ++ impliedBy (c.clauses.map Value.toTerm)
    (distinctNames provide ++ distinctNames require)
  mustLet := distinctNames mustLet
  selectivity := selectivity
  locked := .bool c.locked.isTruthy
  extra := extra

private theorem wellFormed_declared {c : Config} {provide require mustLet : List Name}
    (hProvide : Config.StandsFor c.provide provide)
    (hRequire : Config.StandsFor c.require require)
    (hMustLet : Config.StandsFor c.mustLet mustLet) (h : c.Acceptable)
    (selectivity : Int) (extra : Entries) :
    (declared c provide require mustLet selectivity extra).WellFormed := by
  have hInferred : (inferred c.name (c.clauses.map Value.toTerm) (distinctNames provide)
      (distinctNames require)).WellFormed := by
    refine wellFormed_inferred h.wellNamed (nodup_names_distinctNames _)
      (nodup_names_distinctNames _) (fun n hn => ?_) (fun n hn => ?_) fun n hp hr => ?_
    · rw [mem_names_distinctNames] at hn
      exact hProvide.forall_iff.mp h.provide_declarable n hn
    · rw [mem_names_distinctNames] at hn
      exact hRequire.forall_iff.mp h.require_declarable n hn
    · rw [← hProvide.entryNames_eq] at hp
      rw [← hRequire.entryNames_eq] at hr
      exact h.disjoint n hp hr
  have hProvideNames : (declared c provide require mustLet selectivity extra).provideNames =
      Config.entryNames c.provide := hProvide.entryNames_eq.symm
  have hRequireNames : (declared c provide require mustLet selectivity extra).requireNames =
      c.requiredNames := map_name_required hProvide hRequire
  exact
    { hInferred with
      mustLet_nodup := nodup_names_distinctNames _
      mustLet_declarable := fun n hn =>
        hMustLet.forall_iff.mp h.mustLet_declarable n
          ((mem_names_distinctNames mustLet n).mp hn)
      mustLet_bindable := fun n hn => by
        rw [mem_bindableNames_iff, hProvideNames, hRequireNames]
        exact h.mustLet_bindable n (hMustLet.entryNames_eq ▸ hn) }

/-- A description that meets the conditions is accepted. -/
theorem exists_ofConfig_of_acceptable {c : Config}
    (hTerms : ∀ v ∈ c.clauses, v.isTerm = true)
    (hSelectivity : ∃ i, c.selectivity = .int i) (hExtra : ∃ es, c.extra = .mapping es)
    (hLets : c.lets = []) (h : c.Acceptable) : ∃ f, ofConfig c = .ok f := by
  obtain ⟨i, hInt⟩ := hSelectivity
  obtain ⟨es, hEntries⟩ := hExtra
  have hNames : ∀ {entries : List Value},
      (∀ v ∈ entries, ∃ n, Config.nameOf? v = some n ∧ isDeclarableName n = true) →
      ∃ l, Config.StandsFor entries l := fun hEach =>
    Config.exists_standsFor fun v hv => (hEach v hv).imp fun _ => And.left
  obtain ⟨provide, hProvide⟩ := hNames h.provide_declarable
  obtain ⟨require, hRequire⟩ := hNames h.require_declarable
  obtain ⟨mustLet, hMustLet⟩ := hNames h.mustLet_declarable
  let f := declared c provide require mustLet i es
  have hClauses : ∀ v ∈ c.clauses,
      v.toTerm.toValue = v ∧ ∀ u, v.toTerm ≠ .stray u := by
    intro v hv
    have hNamed := h.wellNamed
    rw [Term.misnamedNamesOf_eq_flatMap, List.flatMap_eq_nil_iff] at hNamed
    exact toValue_toTerm (hTerms v hv) (hNamed _ (List.mem_map_of_mem hv))
  have hMade := ofConfig_describe (f := f) (distinctNames require) c.locked
    (List.forall_mem_map.mpr fun v hv => (hClauses v hv).2)
    (wellFormed_declared hProvide hRequire hMustLet h i es)
    (nodup_names_distinctNames _) rfl rfl
  -- The description of that fragment has the same symbols, each once.
  let once : Config :=
    { f.describe with require := (distinctNames require).map .ofName, locked := c.locked }
  have hSymbols : ∀ {entries : List Value} {l : List Name}, Config.StandsFor entries l →
      Config.asSymbols entries = Config.asSymbols ((distinctNames l).map Value.ofName) := by
    intro entries l hl
    rw [hl.asSymbols_eq, (Config.standsFor_ofName _).asSymbols_eq, distinctNames_twice]
  have hSame : ofConfig c = ofConfig once := by
    refine ofConfig_congr ?_ rfl ?_ ?_ hMustLet.mapM_asSymbol
      (Config.standsFor_ofName (distinctNames mustLet)).mapM_asSymbol ?_ hInt hEntries hLets rfl
    · show c.clauses = (c.clauses.map Value.toTerm).map Term.toValue
      rw [List.map_map]
      exact ((List.map_congr_left fun v hv => (hClauses v hv).1).trans
        (List.map_id' _)).symm
    · exact hSymbols hProvide
    · exact hSymbols hRequire
    · rw [Config.asKeys_ofName, Config.asKeys_ofName, distinctNames_twice]
  exact ⟨f, hSame.trans hMade⟩

/-! ## The outcome of construction -/

/-- Construction from a description of terms, without bindings: it goes through
iff the description meets the conditions, the fragment declares what the
description and its clauses ask for, and undeclared specials are no reason to
refuse. -/
theorem ofConfig_settles (c : Config) (hTerms : ∀ v ∈ c.clauses, v.isTerm = true)
    (hSelectivity : ∃ i, c.selectivity = .int i)
    (hExtra : ∃ es, c.extra = .mapping es) (hLets : c.lets = []) :
    ((∃ f, ofConfig c = .ok f) ↔ c.Acceptable) ∧
      (∀ f, ofConfig c = .ok f → c.Settles f) ∧
      ∀ w, ofConfig c = .error w → w.blamesSpecials = false := by
  refine ⟨⟨?_, exists_ofConfig_of_acceptable hTerms hSelectivity hExtra hLets⟩,
    fun f hf => (acceptable_of_ofConfig hf).2, spares_ofConfig c⟩
  rintro ⟨f, hf⟩
  exact (acceptable_of_ofConfig hf).1

/-- A pattern below a negation and a rule call with a datasource of its own; the
default datasource is provided, and a variable has to be bound. -/
def negated : Config where
  clauses :=
    [ .term (.sequence [.named "not",
        .vector [.named "?e", .literal (.keyword ":age"), .named "?n"]]),
      .term (.sequence [.named "$old", .named "older", .named "?e"]) ]
  provide := [.text "?e", .text "$"]
  require := [.text "?n", .text "?n"]
  mustLet := [.text "?e"]

/-- The description is accepted, and requires the ruleset and the other
datasource besides its own entry. -/
theorem ofConfig_settles_negated :
    (∀ v ∈ negated.clauses, v.isTerm = true) ∧
      ∃ f, ofConfig negated = .ok f ∧ f.provideNames = ["?e", "$"] ∧
        f.requireNames = ["?n", "%", "$old"] ∧ f.mustLetNames = ["?e"] := by
  have hTerms : ∀ v ∈ negated.clauses, v.isTerm = true := by decide
  obtain ⟨hAccepts, hSettles, -⟩ :=
    ofConfig_settles negated hTerms ⟨0, rfl⟩ ⟨[], rfl⟩ rfl
  have hAcceptable : negated.Acceptable :=
    { wellNamed := rfl
      provide_declarable := List.forall_mem_cons.mpr
        ⟨⟨"?e", rfl, rfl⟩, List.forall_mem_singleton.mpr ⟨"$", rfl, rfl⟩⟩
      require_declarable := List.forall_mem_cons.mpr
        ⟨⟨"?n", rfl, rfl⟩, List.forall_mem_singleton.mpr ⟨"?n", rfl, rfl⟩⟩
      mustLet_declarable := List.forall_mem_singleton.mpr ⟨"?e", rfl, rfl⟩
      disjoint := by decide
      mustLet_bindable := by decide }
  obtain ⟨f, hf⟩ := hAccepts.mpr hAcceptable
  have h := hSettles f hf
  exact ⟨hTerms, f, hf, h.provide, h.require, h.mustLet⟩

/-- A description whose only clause is a symbol with a number for its name. -/
def numbered : Config where
  clauses := [.misnamed (.int 5) none]

/-- A symbol whose name is no text stops construction, although everything that
is declared can be. -/
theorem ofConfig_numbered :
    (∀ v ∈ numbered.clauses, v.isTerm = true) ∧
      numbered.provide = [] ∧ numbered.require = [] ∧ numbered.mustLet = [] ∧
      numbered.selectivity = .int 0 ∧ numbered.extra = .mapping [] ∧
      numbered.lets = [] ∧ ofConfig numbered = .error .nameNotText :=
  ⟨by decide, rfl, rfl, rfl, rfl, rfl, rfl, rfl⟩

end Fragment

end DatalogFragments
