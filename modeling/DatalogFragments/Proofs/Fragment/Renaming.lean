import DatalogFragments.Proofs.Form.Renaming
import DatalogFragments.Proofs.Fragment.WellFormed
import DatalogFragments.Proofs.FreshName

/-!
# Private variables under fresh names

A map of names that keeps the interface of a fragment and is injective on its
names keeps everything that construction has checked.  A renaming that gives
the private variables new, pairwise different names and keeps every other name
is such a map, and the names that the library draws make such a renaming.

## Main results

* `Fragment.Respects` — maps that construction does not tell apart;
* `Fragment.WellFormed.mapSymbols` — they keep a fragment well formed;
* `Fragment.mem_privateNames_mapSymbols` — and move its private variables;
* `Fragment.Freshens` — maps to new names, with `Fragment.Freshens.respects`;
* `Fragment.freshens_privateRenaming` — drawing fresh names yields one;
* `Fragment.renamePrivate_eq` — what the renaming step does, faults included.
-/

namespace DatalogFragments

namespace Fragment

/-- A fragment whose clauses, bindings and must-let symbols move along a map
of names; its interface stays. -/
def renamed (ρ : String → String) (f : Fragment) : Fragment :=
  { f with
    clauses := f.clauses.map (Term.renamed ρ)
    lets := f.lets.map fun p => (p.1.renamed ρ, p.2)
    mustLet := f.mustLet.map (Symbol.replaced ρ) }

/-- A fragment with a map applied to the symbols of its clauses, and another one
to those of its bindings and its must-let symbols; its interface stays. -/
def mapSymbols (c d : Name → Name) (f : Fragment) : Fragment :=
  { f with
    clauses := f.clauses.map (Term.mapSymbols c)
    lets := f.lets.map fun p => (p.1.mapSymbols d, p.2)
    mustLet := f.mustLet.map d }

theorem renamed_eq_mapSymbols (ρ : String → String) (f : Fragment) :
    f.renamed ρ = f.mapSymbols (Symbol.renamed ρ) (Symbol.replaced ρ) := by
  have hLets : (f.lets.map fun p => (p.1.renamed ρ, p.2)) =
      f.lets.map fun p => (p.1.mapSymbols (Symbol.replaced ρ), p.2) :=
    List.map_congr_left fun p _ => by rw [Form.renamed_eq_mapSymbols]
  rw [renamed, mapSymbols, Term.map_renamed_eq, hLets]

/-- `ρ` moves variables to variables, keeps what `f` exposes and is injective on
its names. -/
structure Respects (f : Fragment) (ρ : String → String) : Prop where
  keepsKinds : KeepsKinds ρ
  exposed_fixed : ∀ n, n ∈ f.provideNames ∨ n ∈ f.requireNames → ρ n = n
  injOn : ∀ m ∈ f.names, ∀ n ∈ f.names, ρ m = ρ n → m = n

/-- `ρ` gives the private variables of `f` pairwise different new names, which
are variables outside `used`, and keeps every other name. -/
structure Freshens (f : Fragment) (ρ : String → String) (used : List String) :
    Prop where
  keeps : ∀ n, n ∉ f.privateNames → ρ n = n
  isVariable : ∀ n ∈ f.privateNames, isVariableName (ρ n) = true
  fresh : ∀ n ∈ f.privateNames, ρ n ∉ used
  injective : ∀ m ∈ f.privateNames, ∀ n ∈ f.privateNames, ρ m = ρ n → m = n

namespace Freshens

variable {f : Fragment} {ρ : String → String} {used : List String}

theorem mono {used' : List String} (h : f.Freshens ρ used)
    (hSubset : ∀ n ∈ used', n ∈ used) : f.Freshens ρ used' :=
  { h with fresh := fun n hn hMem => h.fresh n hn (hSubset _ hMem) }

theorem keepsKinds (h : f.Freshens ρ used) : KeepsKinds ρ := by
  intro n
  by_cases hn : n ∈ f.privateNames
  · exact .inr ⟨isVariableName_of_private hn, h.isVariable n hn⟩
  · exact .inl (h.keeps n hn)

/-- The map is injective on the names of the fragment. -/
theorem injOn_names (h : f.Freshens ρ used) (hUsed : ∀ n ∈ f.names, n ∈ used)
    {m n : String} (hm : m ∈ f.names) (hn : n ∈ f.names) (heq : ρ m = ρ n) :
    m = n := by
  by_cases hmPrivate : m ∈ f.privateNames
  · by_cases hnPrivate : n ∈ f.privateNames
    · exact h.injective m hmPrivate n hnPrivate heq
    · rw [h.keeps n hnPrivate] at heq
      exact absurd (heq ▸ hUsed n hn) (h.fresh m hmPrivate)
  · by_cases hnPrivate : n ∈ f.privateNames
    · rw [h.keeps m hmPrivate] at heq
      exact absurd (heq ▸ hUsed m hm) (h.fresh n hnPrivate)
    · rw [h.keeps m hmPrivate, h.keeps n hnPrivate] at heq
      exact heq

theorem provide_fixed (h : f.Freshens ρ used) {n : String}
    (hn : n ∈ f.provideNames) : ρ n = n :=
  h.keeps n fun hPrivate => ((mem_privateNames f n).mp hPrivate).2.2.1 hn

theorem require_fixed (h : f.Freshens ρ used) {n : String}
    (hn : n ∈ f.requireNames) : ρ n = n :=
  h.keeps n fun hPrivate => ((mem_privateNames f n).mp hPrivate).2.2.2 hn

theorem exposed_fixed (h : f.Freshens ρ used) :
    ∀ n, n ∈ f.provideNames ∨ n ∈ f.requireNames → ρ n = n :=
  fun _ hn => hn.elim h.provide_fixed h.require_fixed

theorem respects (h : f.Freshens ρ used) (hUsed : ∀ n ∈ f.names, n ∈ used) :
    f.Respects ρ where
  keepsKinds := h.keepsKinds
  exposed_fixed := h.exposed_fixed
  injOn := fun _ hm _ hn => h.injOn_names hUsed hm hn

end Freshens

/-! ## Maps of symbols -/

section MapSymbols

variable {f : Fragment} {ρ : String → String} {c c' d d' : Name → Name}

theorem mapSymbols_mapSymbols (c c' d d' : Name → Name) (f : Fragment) :
    (f.mapSymbols c d).mapSymbols c' d' = f.mapSymbols (c' ∘ c) (d' ∘ d) := by
  have hClauses : (f.clauses.map (Term.mapSymbols c)).map (Term.mapSymbols c') =
      f.clauses.map (Term.mapSymbols (c' ∘ c)) := by
    rw [List.map_map]
    exact List.map_congr_left fun t _ => Term.mapSymbols_mapSymbols c c' t
  have hLets : (f.lets.map fun p => (p.1.mapSymbols d, p.2)).map
        (fun p => (p.1.mapSymbols d', p.2)) =
      f.lets.map fun p => (p.1.mapSymbols (d' ∘ d), p.2) := by
    rw [List.map_map]
    refine List.map_congr_left fun p _ => ?_
    rw [Function.comp_apply, Form.mapSymbols_mapSymbols]
  rw [mapSymbols, mapSymbols, mapSymbols, hClauses, hLets, List.map_map]

/-- Only the symbols of the fragment and placeholders count. -/
theorem mapSymbols_congr (hc : ∀ s ∈ Term.symbolsOf f.clauses, c s = c' s)
    (hd : ∀ s ∈ f.letSymbols ++ f.mustLet, d s = d' s)
    (hSkip : ∀ s : Name, s.name = placeholderName → d s = d' s) :
    f.mapSymbols c d = f.mapSymbols c' d' := by
  obtain ⟨hLet, hMustLet⟩ := List.forall_mem_append.mp hd
  have hClauses : f.clauses.map (Term.mapSymbols c) =
      f.clauses.map (Term.mapSymbols c') :=
    List.map_congr_left fun t ht => Term.mapSymbols_congr fun s hs =>
      hc s (Term.mem_symbolsOf.mpr ⟨t, ht, hs⟩)
  have hLets : (f.lets.map fun p => (p.1.mapSymbols d, p.2)) =
      f.lets.map fun p => (p.1.mapSymbols d', p.2) := by
    refine List.map_congr_left fun p hp => ?_
    rw [Form.mapSymbols_congr (fun s hs =>
      hLet s (List.mem_flatMap.mpr ⟨p, hp, hs⟩)) hSkip]
  rw [mapSymbols, mapSymbols, hClauses, hLets, List.map_congr_left hMustLet]

/-! ## Names of a mapped fragment -/

private theorem map_name_map {g : Name → Name} (hg : ∀ s, (g s).name = ρ s.name)
    (l : List Name) :
    (l.map g).map Symbol.name = (l.map Symbol.name).map ρ := by
  rw [List.map_map, List.map_map]
  exact List.map_congr_left fun s _ => hg s

theorem clauseNames_mapSymbols (hc : ∀ s, (c s).name = ρ s.name)
    (f : Fragment) : (f.mapSymbols c d).clauseNames = f.clauseNames.map ρ := by
  rw [clauseNames, mapSymbols, Term.symbolsOf_mapSymbols, map_name_map hc,
    clauseNames]

theorem letNames_mapSymbols (h : KeepsKinds ρ) (hd : ∀ s, (d s).name = ρ s.name)
    (f : Fragment) : (f.mapSymbols c d).letNames = f.letNames.map ρ := by
  have hSymbols : (f.mapSymbols c d).letSymbols = f.letSymbols.map d := by
    rw [letSymbols, letSymbols, mapSymbols, List.flatMap_map, List.map_flatMap]
    exact List.flatMap_congr fun p _ => Form.symbols_mapSymbols h hd p.1
  rw [letNames, hSymbols, map_name_map hd, letNames]

theorem mustLetNames_mapSymbols (hd : ∀ s, (d s).name = ρ s.name)
    (f : Fragment) : (f.mapSymbols c d).mustLetNames = f.mustLetNames.map ρ := by
  rw [mustLetNames, mapSymbols, map_name_map hd, mustLetNames]

/-- Every name of the mapped fragment is the image of a name, in place. -/
theorem names_mapSymbols (h : KeepsKinds ρ)
    (hExposed : ∀ n, n ∈ f.provideNames ∨ n ∈ f.requireNames → ρ n = n)
    (hc : ∀ s, (c s).name = ρ s.name) (hd : ∀ s, (d s).name = ρ s.name) :
    (f.mapSymbols c d).names = f.names.map ρ := by
  have hProvide : f.provideNames.map ρ = f.provideNames :=
    (List.map_congr_left fun n hn => hExposed n (.inl hn)).trans (List.map_id _)
  have hRequire : f.requireNames.map ρ = f.requireNames :=
    (List.map_congr_left fun n hn => hExposed n (.inr hn)).trans (List.map_id _)
  rw [names_eq_append, names_eq_append, clauseNames_mapSymbols hc,
    letNames_mapSymbols h hd, mustLetNames_mapSymbols hd]
  simp only [List.map_append, hProvide, hRequire]
  rfl

/-- A name of the fragment whose image is exposed is exposed itself. -/
theorem Respects.eq_of_exposed (h : f.Respects ρ) {n : String}
    (hn : n ∈ f.names)
    (hExposed : ρ n ∈ f.provideNames ∨ ρ n ∈ f.requireNames) : ρ n = n :=
  h.injOn _ (f.mem_names_of_exposed hExposed) n hn (h.exposed_fixed _ hExposed)

/-- The private variables of the mapped fragment are the images of those of the
fragment. -/
theorem mem_privateNames_mapSymbols (h : f.Respects ρ)
    (hc : ∀ s, (c s).name = ρ s.name) (hd : ∀ s, (d s).name = ρ s.name)
    {n : String} : n ∈ (f.mapSymbols c d).privateNames ↔
      ∃ m ∈ f.privateNames, ρ m = n := by
  rw [mem_privateNames, clauseNames_mapSymbols hc,
    letNames_mapSymbols h.keepsKinds hd, ← List.mem_append, ← List.map_append,
    List.mem_map]
  constructor
  · rintro ⟨⟨m, hm, rfl⟩, hVariable, hProvide, hRequire⟩
    rw [h.keepsKinds.isVariableName_eq] at hVariable
    refine ⟨m, (mem_privateNames f m).mpr
      ⟨List.mem_append.mp hm, hVariable, ?_, ?_⟩, rfl⟩
    · intro hMem
      rw [h.exposed_fixed m (.inl hMem)] at hProvide
      exact hProvide hMem
    · intro hMem
      rw [h.exposed_fixed m (.inr hMem)] at hRequire
      exact hRequire hMem
  · rintro ⟨m, hm, rfl⟩
    have hName := mem_names_of_private hm
    obtain ⟨hOccurs, hVariable, hProvide, hRequire⟩ := (mem_privateNames f m).mp hm
    refine ⟨⟨m, List.mem_append.mpr hOccurs, rfl⟩, ?_, ?_, ?_⟩
    · rw [h.keepsKinds.isVariableName_eq]
      exact hVariable
    · intro hMem
      have hMem' : ρ m ∈ f.provideNames := hMem
      rw [h.eq_of_exposed hName (.inl hMem')] at hMem'
      exact hProvide hMem'
    · intro hMem
      have hMem' : ρ m ∈ f.requireNames := hMem
      rw [h.eq_of_exposed hName (.inr hMem')] at hMem'
      exact hRequire hMem'

/-! ## What construction has checked -/

private theorem declarable_image (h : KeepsKinds ρ) (n : String) :
    isDeclarableName (ρ n) = isDeclarableName n := by
  rw [isDeclarableName, h.isVariableName_eq, h.isSpecialName_eq,
    isDeclarableName]

/-- The image of a name that can be bound can be bound in the mapped fragment. -/
private theorem bindable_image (h : f.Respects ρ)
    (hc : ∀ s, (c s).name = ρ s.name) {n : String} (hn : n ∈ f.bindableNames)
    (hName : n ∈ f.names) : ρ n ∈ (f.mapSymbols c d).bindableNames := by
  obtain ⟨hOccurs, hRequire⟩ := (mem_bindableNames f n).mp hn
  refine (mem_bindableNames _ _).mpr ⟨?_, ?_⟩
  · rcases hOccurs with hFree | hProvide
    · obtain ⟨hClause, hDeclarable⟩ := (mem_freeNames f n).mp hFree
      refine .inl ((mem_freeNames _ _).mpr ⟨?_, ?_⟩)
      · rw [clauseNames_mapSymbols hc]
        exact List.mem_map_of_mem hClause
      · rw [declarable_image h.keepsKinds]
        exact hDeclarable
    · rw [h.exposed_fixed n (.inl hProvide)]
      exact .inr hProvide
  · intro hMem
    have hMem' : ρ n ∈ f.requireNames := hMem
    rw [h.eq_of_exposed hName (.inr hMem')] at hMem'
    exact hRequire hMem'

private theorem nodup_image (h : f.Respects ρ) {l : List String}
    (hSubset : ∀ n ∈ l, n ∈ f.names) (hNodup : l.Nodup) : (l.map ρ).Nodup :=
  hNodup.map_on fun _ hm _ hn => h.injOn _ (hSubset _ hm) _ (hSubset _ hn)

/-- A fragment moved along a map that respects it stays well formed. -/
theorem WellFormed.mapSymbols (hf : f.WellFormed) (h : f.Respects ρ)
    (hc : ∀ s, (c s).name = ρ s.name) (hd : ∀ s, (d s).name = ρ s.name) :
    (f.mapSymbols c d).WellFormed where
  provide_nodup := hf.provide_nodup
  require_nodup := hf.require_nodup
  mustLet_nodup := by
    rw [mustLetNames_mapSymbols hd]
    exact nodup_image h (fun _ => f.mem_names_of_mustLet) hf.mustLet_nodup
  provide_declarable := hf.provide_declarable
  require_declarable := hf.require_declarable
  mustLet_declarable := by
    rw [mustLetNames_mapSymbols hd, List.forall_mem_map]
    intro n hn
    rw [declarable_image h.keepsKinds]
    exact hf.mustLet_declarable n hn
  disjoint := hf.disjoint
  wellNamed := (Term.misnamedNamesOf_mapSymbols c f.clauses).trans hf.wellNamed
  specials_declared := by
    rw [clauseNames_mapSymbols hc, List.forall_mem_map]
    intro n hn hSpecial
    rw [h.keepsKinds.isSpecialName_eq] at hSpecial
    rw [h.keepsKinds.eq_of_not_variable
      (isVariableName_eq_false_of_special hSpecial)]
    exact hf.specials_declared n hn hSpecial
  mustLet_bindable := by
    rw [mustLetNames_mapSymbols hd, List.forall_mem_map]
    exact fun n hn => bindable_image h hc (hf.mustLet_bindable n hn)
      (f.mem_names_of_mustLet hn)
  forms_whole := by
    intro p hp
    obtain ⟨q, hq, rfl⟩ := List.mem_map.mp hp
    exact (hf.forms_whole q hq).mapSymbols h.keepsKinds hd
  arguments_fit := by
    intro p hp
    obtain ⟨q, hq, rfl⟩ := List.mem_map.mp hp
    exact (Form.checkArgument_mapSymbols_iff d q.1 q.2).mpr
      (hf.arguments_fit q hq)
  let_bindable := by
    rw [letNames_mapSymbols h.keepsKinds hd, List.forall_mem_map]
    exact fun n hn => bindable_image h hc (hf.let_bindable n hn)
      (f.mem_names_of_let hn)
  let_nodup := by
    rw [letNames_mapSymbols h.keepsKinds hd]
    exact nodup_image h (fun _ => f.mem_names_of_let) hf.let_nodup

end MapSymbols

/-! ## Renamed fragments -/

section Renamed

variable {f : Fragment} {ρ : String → String} {used : List String}

theorem clauseNames_renamed (ρ : String → String) (f : Fragment) :
    (f.renamed ρ).clauseNames = f.clauseNames.map ρ := by
  rw [renamed_eq_mapSymbols, clauseNames_mapSymbols (Symbol.name_renamed ρ)]

theorem letNames_renamed (h : KeepsKinds ρ) (f : Fragment) :
    (f.renamed ρ).letNames = f.letNames.map ρ := by
  rw [renamed_eq_mapSymbols, letNames_mapSymbols h (Symbol.name_replaced ρ)]

theorem mustLetNames_renamed (ρ : String → String) (f : Fragment) :
    (f.renamed ρ).mustLetNames = f.mustLetNames.map ρ := by
  rw [renamed_eq_mapSymbols, mustLetNames_mapSymbols (Symbol.name_replaced ρ)]

/-- Every name of the renamed fragment is the image of a name, in place. -/
theorem names_renamed (h : f.Freshens ρ used) :
    (f.renamed ρ).names = f.names.map ρ := by
  rw [renamed_eq_mapSymbols, names_mapSymbols h.keepsKinds h.exposed_fixed
    (Symbol.name_renamed ρ) (Symbol.name_replaced ρ)]

theorem mem_privateNames_renamed (h : f.Freshens ρ used)
    (hUsed : ∀ n ∈ f.names, n ∈ used) {n : String} :
    n ∈ (f.renamed ρ).privateNames ↔ ∃ m ∈ f.privateNames, ρ m = n := by
  rw [renamed_eq_mapSymbols, mem_privateNames_mapSymbols (h.respects hUsed)
    (Symbol.name_renamed ρ) (Symbol.name_replaced ρ)]

/-- A fragment with freshly renamed private variables is well formed. -/
theorem WellFormed.renamed (hf : f.WellFormed) (h : f.Freshens ρ used)
    (hUsed : ∀ n ∈ f.names, n ∈ used) : (f.renamed ρ).WellFormed := by
  rw [renamed_eq_mapSymbols]
  exact hf.mapSymbols (h.respects hUsed) (Symbol.name_renamed ρ)
    (Symbol.name_replaced ρ)

end Renamed

/-! ## Drawing fresh names -/

private theorem lookup_zip_eq_none_iff {keys new : List String} {n : String}
    (hLength : new.length = keys.length) :
    (keys.zip new).lookup n = none ↔ n ∉ keys := by
  have hKeys : (keys.zip new).map Prod.fst = keys :=
    List.map_fst_zip (Nat.le_of_eq hLength.symm)
  rw [List.lookup_eq_none_iff]
  constructor
  · intro hAll hn
    rw [← hKeys] at hn
    obtain ⟨p, hp, rfl⟩ := List.mem_map.mp hn
    exact absurd (hAll p hp) (by simp)
  · intro hn p hp
    have hKey := (List.of_mem_zip (a := p.1) (b := p.2) hp).1
    simp only [bne_iff_ne, ne_eq]
    rintro rfl
    exact hn hKey

private theorem map_lookup_zip {keys new : List String} (hKeys : keys.Nodup)
    (hLength : new.length = keys.length) :
    keys.map (Renaming.renameText (keys.zip new)) = new := by
  induction keys generalizing new with
  | nil => exact (List.eq_nil_of_length_eq_zero hLength).symm
  | cons k keys ih =>
      cases new with
      | nil => exact absurd hLength (by simp)
      | cons m new =>
          rw [List.nodup_cons] at hKeys
          rw [List.zip_cons_cons, List.map_cons]
          congr 1
          · simp [Renaming.renameText]
          · refine Eq.trans (List.map_congr_left ?_)
              (ih hKeys.2 (by simpa using hLength))
            intro n hn
            have hne : n ≠ k := fun heq => hKeys.1 (heq ▸ hn)
            have hBeq : (n == k) = false := by simpa using hne
            simp [Renaming.renameText, List.lookup_cons, hBeq]

section Drawing

variable (f : Fragment) (base : Nat → String → String) (taken : List String)

/-- The private variables, in order, are given the fresh names for their
bases. -/
theorem map_privateRenaming :
    f.privateNames.map (f.privateRenaming base taken).1.renameText =
      (freshNames (f.privateNames.mapIdx base) taken).1 := by
  refine map_lookup_zip (nodup_privateNames f) ?_
  rw [length_freshNames, List.length_mapIdx]

theorem privateRenaming_taken :
    (f.privateRenaming base taken).2 =
      (freshNames (f.privateNames.mapIdx base) taken).1.reverse ++ taken :=
  freshNames_taken _ taken

theorem privateRenaming_lookup_eq_none_iff (n : String) :
    (f.privateRenaming base taken).1.lookup n = none ↔ n ∉ f.privateNames := by
  refine lookup_zip_eq_none_iff ?_
  rw [length_freshNames, List.length_mapIdx]

variable {f base taken}

/-- Fresh names for the private variables make a renaming as asked. -/
theorem freshens_privateRenaming
    (hBase : ∀ i n, isVariableName n = true → isVariableName (base i n) = true) :
    f.Freshens (f.privateRenaming base taken).1.renameText taken := by
  let bases := f.privateNames.mapIdx base
  have hMap : f.privateNames.map (f.privateRenaming base taken).1.renameText =
      (freshNames bases taken).1 := map_privateRenaming f base taken
  have hDrawn : ∀ n ∈ f.privateNames,
      (f.privateRenaming base taken).1.renameText n ∈ (freshNames bases taken).1 := by
    intro n hn
    rw [← hMap]
    exact List.mem_map_of_mem hn
  refine ⟨?_, ?_, ?_, ?_⟩
  · intro n hn
    exact Renaming.renameText_of_lookup_none
      ((privateRenaming_lookup_eq_none_iff f base taken n).mpr hn)
  · intro n hn
    refine isVariableName_of_mem_freshNames ?_ taken _ (hDrawn n hn)
    intro b hb
    obtain ⟨i, hi, rfl⟩ := List.mem_mapIdx.mp hb
    exact hBase i _ (isVariableName_of_private (List.getElem_mem hi))
  · intro n hn
    exact freshNames_not_mem bases taken _ (hDrawn n hn)
  · intro m hm n hn heq
    have hNodup : (f.privateNames.map
        (f.privateRenaming base taken).1.renameText).Nodup := by
      rw [hMap]
      exact nodup_freshNames bases taken
    exact List.inj_on_of_nodup_map hNodup hm hn heq

/-- No private variable keeps its name. -/
theorem moves_privateRenaming (hUsed : ∀ n ∈ f.names, n ∈ taken) :
    (f.privateRenaming base taken).1.Moves := by
  rintro n m hLookup rfl
  have hPrivate : m ∈ f.privateNames := by
    by_contra hNot
    rw [(privateRenaming_lookup_eq_none_iff f base taken m).mpr hNot] at hLookup
    cases hLookup
  have hDrawn : m ∈ (freshNames (f.privateNames.mapIdx base) taken).1 := by
    rw [← map_privateRenaming f base taken]
    exact List.mem_map.mpr
      ⟨m, hPrivate, Renaming.renameText_of_lookup hLookup⟩
  exact freshNames_not_mem _ _ _ hDrawn
    (hUsed m (mem_names_of_private hPrivate))

/-- Moving a fragment along a renaming is moving it along a map of names. -/
theorem underRenaming_eq {r : Renaming} (h : r.Moves) :
    f.underRenaming r = okUnless ((Term.symbolsOf f.clauses).findSome? r.infoFault?)
      (f.renamed r.renameText) := by
  have hLets : r.renameLets f.lets =
      f.lets.map fun p => (p.1.renamed r.renameText, p.2) :=
    List.map_congr_left fun p _ => by rw [Form.substitute_formMap h]
  have hMustLet : f.mustLet.map r.rename =
      f.mustLet.map (Symbol.replaced r.renameText) :=
    List.map_congr_left fun s _ => Renaming.rename_eq_replaced h s
  rw [underRenaming, renamed, Term.renameClauses_eq h, hLets, hMustLet]
  cases (Term.symbolsOf f.clauses).findSome? r.infoFault? <;> rfl

end Drawing

/-! ## The renaming step -/

theorem renamed_of_fixed {ρ : String → String} (h : ∀ n, ρ n = n)
    (f : Fragment) : f.renamed ρ = f := by
  have hClauses : f.clauses.map (Term.renamed ρ) = f.clauses :=
    (List.map_congr_left fun t _ => Term.renamed_of_fixed h t).trans
      (List.map_id' _)
  have hLets : (f.lets.map fun p => (p.1.renamed ρ, p.2)) = f.lets :=
    (List.map_congr_left fun p _ => by rw [Form.renamed_of_fixed h]).trans
      (List.map_id' _)
  have hMustLet : f.mustLet.map (Symbol.replaced ρ) = f.mustLet :=
    (List.map_congr_left fun s _ => by rw [Symbol.replaced, if_pos (h _)]).trans
      (List.map_id' _)
  rw [renamed, hClauses, hLets, hMustLet]

/-- The fault of the first private variable in the clauses whose display
information is no mapping. -/
def infoFault? (f : Fragment) : Option Fault :=
  (Term.symbolsOf f.clauses).findSome? fun s =>
    if s.name ∈ f.privateNames then s.info.bind fun i => faultOf? i.asEntries
    else none

/-- All display information in the clauses is a mapping, as it is meant to
be. -/
def InfoIsMapping (f : Fragment) : Prop :=
  ∀ s ∈ Term.symbolsOf f.clauses, ∀ i, s.info = some i → ∃ m, i = .mapping m

theorem InfoIsMapping.infoFault?_eq_none {f : Fragment}
    (h : f.InfoIsMapping) : f.infoFault? = none := by
  rw [infoFault?, List.findSome?_eq_none_iff]
  intro s hs
  split
  · cases hInfo : s.info with
    | none => rfl
    | some i =>
        obtain ⟨m, rfl⟩ := h s hs i hInfo
        rfl
  · rfl

theorem findSome?_infoFault?_eq_none {fs : List Fragment}
    (h : ∀ f ∈ fs, f.InfoIsMapping) : fs.findSome? infoFault? = none := by
  rw [List.findSome?_eq_none_iff]
  exact fun f hf => (h f hf).infoFault?_eq_none

/-- The private variables are the ones that are renamed. -/
theorem findSome?_infoFault?_privateRenaming (f : Fragment)
    (base : Nat → String → String) (taken : List String) :
    (Term.symbolsOf f.clauses).findSome? (f.privateRenaming base taken).1.infoFault? =
      f.infoFault? := by
  refine congrArg (List.findSome? · _) (funext fun s => ?_)
  have hNone := privateRenaming_lookup_eq_none_iff f base taken s.name
  rw [Renaming.infoFault?]
  refine if_congr ?_ rfl rfl
  rw [← not_iff_not, ← hNone, Bool.not_eq_true, Option.isSome_eq_false_iff,
    Option.isNone_iff_eq_none]

theorem freshens_sliceRenaming (f : Fragment) (slice : Int)
    (taken : List String) :
    f.Freshens (f.sliceRenaming slice taken).1.renameText taken :=
  freshens_privateRenaming fun _ _ h => isVariableName_privateBase h _ _

/-- Renaming for a position moves a well-formed fragment along a map of names,
unless a private variable carries display information that is no mapping. -/
theorem renamePrivate_eq {f : Fragment} (hf : f.WellFormed) (slice : Int)
    {taken : List String} (hUsed : ∀ n ∈ f.names, n ∈ taken) :
    f.renamePrivate slice taken = okUnless f.infoFault?
      (f.renamed (f.sliceRenaming slice taken).1.renameText,
        (f.sliceRenaming slice taken).2) := by
  have hInfo : (Term.symbolsOf f.clauses).findSome?
      (f.sliceRenaming slice taken).1.infoFault? = f.infoFault? :=
    findSome?_infoFault?_privateRenaming f _ taken
  have hMoves : (f.sliceRenaming slice taken).1.Moves :=
    moves_privateRenaming hUsed
  have hRenamed := hf.renamed (freshens_sliceRenaming f slice taken) hUsed
  rw [renamePrivate]
  revert hInfo hMoves hRenamed
  obtain ⟨r, taken'⟩ := f.sliceRenaming slice taken
  intro hInfo hMoves hRenamed
  dsimp only at hInfo hMoves hRenamed ⊢
  cases hEmpty : r.isEmpty with
  | true =>
      -- No symbol is looked at, and the fragment stays as it is.
      obtain rfl := List.isEmpty_iff.mp hEmpty
      have hPassed : (Term.symbolsOf f.clauses).findSome? (Renaming.infoFault? []) = none :=
        List.findSome?_eq_none_iff.mpr fun _ _ => rfl
      rw [← hInfo, hPassed, okUnless_none,
        renamed_of_fixed (ρ := Renaming.renameText []) fun _ => rfl]
      rfl
  | false =>
      rw [if_neg (by simp), underRenaming_eq hMoves, hInfo]
      cases f.infoFault? with
      | some e => rfl
      | none => rw [okUnless_none, ok_bind, hRenamed.checked_eq]; rfl

end Fragment

end DatalogFragments
