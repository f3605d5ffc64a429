import DatalogFragments.Proofs.Form.Validity
import DatalogFragments.Proofs.Term.Renaming

/-!
# Binding forms under a map of names

`Form.renamed ρ` moves every symbol of a form along a map of names.  A map
that keeps kinds of names keeps the form valid, moves what it binds, and takes
the same arguments.  As for clauses, what does not depend on how display
information moves is stated of `Form.mapSymbols`.

## Main results

* `Form.mapSymbols_congr`, `Form.mapSymbols_mapSymbols` — maps of symbols;
* `Form.Whole.mapSymbols` — validity is kept;
* `Form.symbols_mapSymbols` — what a mapped form binds;
* `Form.checkArgument_mapSymbols_iff` — a mapped form fits the same arguments;
* `Form.render_mapSymbols` — its declaration;
* `Form.substitute_formMap` — replacing symbols by a renaming is
  `Form.renamed`;
* `Form.mem_names_render` — what a declaration mentions.
-/

namespace DatalogFragments

namespace Form

/-! ## Maps of symbols -/

mutual

/-- A form with a map applied to every symbol, placeholders included. -/
def mapSymbols (g : Name → Name) : Form → Form
  | .sym s => .sym (g s)
  | .coll f => .coll (mapSymbols g f)
  | .tup fs => .tup (mapSymbolsAll g fs)
  | .stray v => .stray v

/-- Every form with a map applied to its symbols. -/
def mapSymbolsAll (g : Name → Name) : List Form → List Form
  | [] => []
  | f :: fs => mapSymbols g f :: mapSymbolsAll g fs

end

theorem mapSymbolsAll_eq_map (g : Name → Name) (fs : List Form) :
    mapSymbolsAll g fs = fs.map (mapSymbols g) := by
  induction fs with
  | nil => rfl
  | cons f fs ih => rw [mapSymbolsAll, ih, List.map_cons]

section MapSymbols

variable {g g' : Name → Name}

@[simp] theorem mapSymbols_sym (g : Name → Name) (s : Name) :
    (Form.sym s).mapSymbols g = .sym (g s) := by rw [mapSymbols]

@[simp] theorem mapSymbols_coll (g : Name → Name) (f : Form) :
    (Form.coll f).mapSymbols g = .coll (f.mapSymbols g) := by rw [mapSymbols]

@[simp] theorem mapSymbols_tup (g : Name → Name) (fs : List Form) :
    (Form.tup fs).mapSymbols g = .tup (fs.map (mapSymbols g)) := by
  rw [mapSymbols, mapSymbolsAll_eq_map]

@[simp] theorem mapSymbols_stray (g : Name → Name) (v : Value) :
    (Form.stray v).mapSymbols g = .stray v := by rw [mapSymbols]

/-- Only what the form binds and its placeholders count. -/
theorem mapSymbols_congr {f : Form} (h : ∀ s ∈ f.symbols, g s = g' s)
    (hSkip : ∀ s : Name, s.name = placeholderName → g s = g' s) :
    f.mapSymbols g = f.mapSymbols g' := by
  induction f using Form.induct with
  | hSym s =>
      rw [mapSymbols_sym, mapSymbols_sym]
      by_cases hs : s.name = placeholderName
      · rw [hSkip s hs]
      · rw [h s (by rw [symbols, if_neg hs]; exact List.mem_singleton_self s)]
  | hColl f ih => rw [mapSymbols_coll, mapSymbols_coll, ih h]
  | hTup fs ih =>
      rw [mapSymbols_tup, mapSymbols_tup]
      exact congrArg Form.tup (List.map_congr_left fun f hf =>
        ih f hf fun s hs => h s (mem_symbolsOf.mpr ⟨f, hf, hs⟩))
  | hStray v => rw [mapSymbols_stray, mapSymbols_stray]

theorem mapSymbols_mapSymbols (g g' : Name → Name) (f : Form) :
    (f.mapSymbols g).mapSymbols g' = f.mapSymbols (g' ∘ g) := by
  induction f using Form.induct with
  | hSym s => simp only [mapSymbols_sym, Function.comp_apply]
  | hColl f ih => simp only [mapSymbols_coll, ih]
  | hTup fs ih =>
      simp only [mapSymbols_tup, List.map_map]
      exact congrArg Form.tup (List.map_congr_left ih)
  | hStray v => simp only [mapSymbols_stray]

private theorem isTuple_mapSymbols (g : Name → Name) (f : Form) :
    (f.mapSymbols g).isTuple = f.isTuple := by
  cases f with
  | sym s => rw [mapSymbols_sym]; rfl
  | coll f => rw [mapSymbols_coll]; rfl
  | tup fs => rw [mapSymbols_tup]; rfl
  | stray v => rw [mapSymbols_stray]

private theorem isSymbol_mapSymbols (g : Name → Name) (f : Form) :
    (f.mapSymbols g).isSymbol = f.isSymbol := by
  cases f with
  | sym s => rw [mapSymbols_sym]; rfl
  | coll f => rw [mapSymbols_coll]; rfl
  | tup fs => rw [mapSymbols_tup]; rfl
  | stray v => rw [mapSymbols_stray]

/-- The declaration of a mapped form is the mapped declaration, if the map
keeps the mark of a collection. -/
theorem render_mapSymbols (hMark : g (Symbol.plain ellipsisName) =
    Symbol.plain ellipsisName) (f : Form) :
    (f.mapSymbols g).render = f.render.mapSymbols g := by
  induction f using Form.induct with
  | hSym s => rw [mapSymbols_sym, render, render, Term.mapSymbols_sym]
  | hColl f ih =>
      rw [mapSymbols_coll, render, render, isTuple_mapSymbols, ih]
      split
      · rw [Term.vector, Term.vector, Term.mapSymbols_vec]
        rfl
      · rw [Term.vector, Term.vector, Term.mapSymbols_vec, Term.named,
          List.map_cons, List.map_singleton, Term.mapSymbols_sym, hMark]
  | hTup fs ih =>
      rw [mapSymbols_tup, render, render, renderAll_eq_map, renderAll_eq_map,
        Term.vector, Term.vector, Term.mapSymbols_vec, List.map_map, List.map_map]
      exact congrArg (Term.vec · _) (List.map_congr_left ih)
  | hStray v => rw [mapSymbols_stray, render, Term.mapSymbols_stray]

/-- A mapped form fits the arguments that the form fits. -/
theorem checkArgument_mapSymbols_iff (g : Name → Name) (f : Form) (v : Value) :
    (f.mapSymbols g).checkArgument v = .ok () ↔ f.checkArgument v = .ok () := by
  induction f using Form.induct generalizing v with
  | hSym s => rw [mapSymbols_sym, checkArgument, checkArgument]
  | hColl f ih =>
      rw [mapSymbols_coll, checkArgument_coll_eq_ok_iff, checkArgument_coll_eq_ok_iff,
        isSymbol_mapSymbols]
      exact and_congr_right fun _ => forall_congr' fun _ => forall₂_congr fun x _ => ih x
  | hTup fs ih =>
      rw [mapSymbols_tup, checkArgument_tup_eq_ok_iff, checkArgument_tup_eq_ok_iff,
        List.length_map, checkArguments_eq_ok_iff, checkArguments_eq_ok_iff,
        List.zip_map_left, List.forall_mem_map]
      refine and_congr_right fun _ => and_congr_right fun _ => forall₂_congr fun p hp => ?_
      exact ih p.1 (List.of_mem_zip hp).1 p.2
  | hStray v => rw [mapSymbols_stray]

end MapSymbols

/-! ## Maps that keep kinds of names -/

section KeepsKinds

variable {ρ : String → String} {g : Name → Name}

private theorem flatMap_symbols_mapSymbols {fs : List Form}
    (h : ∀ f ∈ fs, (f.mapSymbols g).symbols = f.symbols.map g) :
    symbolsOf (fs.map (mapSymbols g)) = (symbolsOf fs).map g := by
  rw [symbolsOf_eq_flatMap, symbolsOf_eq_flatMap, List.flatMap_map,
    List.map_flatMap]
  exact List.flatMap_congr h

/-- A mapped form binds the mapped symbols. -/
theorem symbols_mapSymbols (h : KeepsKinds ρ) (hg : ∀ s, (g s).name = ρ s.name)
    (f : Form) : (f.mapSymbols g).symbols = f.symbols.map g := by
  induction f using Form.induct with
  | hSym s =>
      rw [mapSymbols_sym, symbols, symbols, hg]
      by_cases hs : s.name = placeholderName
      · rw [if_pos hs, if_pos ((h.eq_placeholder_iff _).mpr hs), List.map_nil]
      · rw [if_neg hs, if_neg fun hρ => hs ((h.eq_placeholder_iff _).mp hρ),
          List.map_singleton]
  | hColl f ih => rw [mapSymbols_coll, symbols_coll, symbols_coll, ih]
  | hTup fs ih =>
      rw [mapSymbols_tup, symbols_tup, symbols_tup,
        flatMap_symbols_mapSymbols ih]
  | hStray v => rw [mapSymbols_stray]; rfl

theorem Inner.mapSymbols (h : KeepsKinds ρ) (hg : ∀ s, (g s).name = ρ s.name)
    {f : Form} (hf : f.Inner) : (f.mapSymbols g).Inner := by
  induction hf with
  | @scalar s hs =>
      rw [mapSymbols_sym]
      refine .scalar ?_
      rw [Symbol.isVariable, hg, h.isVariableName_eq]
      exact hs
  | @skip s hs =>
      rw [mapSymbols_sym]
      refine .skip ?_
      rw [hg, h.eq_placeholder_iff]
      exact hs
  | coll _ ih =>
      rw [mapSymbols_coll]
      exact .coll ih
  | @tup fs _ hBinds ih =>
      rw [mapSymbols_tup]
      refine .tup ?_ ?_
      · intro f' hf'
        obtain ⟨f, hf, rfl⟩ := List.mem_map.mp hf'
        exact ih f hf
      · rw [flatMap_symbols_mapSymbols fun f _ => symbols_mapSymbols h hg f]
        intro hNil
        exact hBinds (List.map_eq_nil_iff.mp hNil)

/-- A valid form stays valid. -/
theorem Whole.mapSymbols (h : KeepsKinds ρ) (hg : ∀ s, (g s).name = ρ s.name)
    {f : Form} (hf : f.Whole) : (f.mapSymbols g).Whole := by
  cases hf with
  | @symbol s hs =>
      rw [mapSymbols_sym]
      refine .symbol ?_
      rw [Symbol.isDeclarable, Symbol.isVariable, Symbol.isSpecial, hg,
        h.isVariableName_eq, h.isSpecialName_eq]
      exact hs
  | coll hf =>
      rw [mapSymbols_coll]
      exact .coll (hf.mapSymbols h hg)
  | tup hf =>
      have hTup := hf.mapSymbols h hg
      rw [mapSymbols_tup] at hTup ⊢
      exact .tup hTup

end KeepsKinds

/-! ## Renamed forms -/

mutual

/-- A form in which every symbol moves along a map of names. -/
def renamed (ρ : String → String) : Form → Form
  | .sym s => .sym (s.replaced ρ)
  | .coll f => .coll (renamed ρ f)
  | .tup fs => .tup (renamedAll ρ fs)
  | .stray v => .stray v

/-- Every form under a map of names. -/
def renamedAll (ρ : String → String) : List Form → List Form
  | [] => []
  | f :: fs => renamed ρ f :: renamedAll ρ fs

end

theorem renamedAll_eq_map (ρ : String → String) (fs : List Form) :
    renamedAll ρ fs = fs.map (renamed ρ) := by
  induction fs with
  | nil => rfl
  | cons f fs ih => rw [renamedAll, ih, List.map_cons]

@[simp] theorem renamed_sym (ρ : String → String) (s : Name) :
    (Form.sym s).renamed ρ = .sym (s.replaced ρ) := by rw [renamed]

@[simp] theorem renamed_coll (ρ : String → String) (f : Form) :
    (Form.coll f).renamed ρ = .coll (f.renamed ρ) := by rw [renamed]

@[simp] theorem renamed_tup (ρ : String → String) (fs : List Form) :
    (Form.tup fs).renamed ρ = .tup (fs.map (renamed ρ)) := by
  rw [renamed, renamedAll_eq_map]

@[simp] theorem renamed_stray (ρ : String → String) (v : Value) :
    (Form.stray v).renamed ρ = .stray v := by rw [renamed]

theorem renamed_of_fixed {ρ : String → String} (h : ∀ n, ρ n = n) (f : Form) :
    f.renamed ρ = f := by
  induction f using Form.induct with
  | hSym s => rw [renamed_sym, Symbol.replaced, if_pos (h _)]
  | hColl f ih => rw [renamed_coll, ih]
  | hTup fs ih => rw [renamed_tup, List.map_congr_left ih, List.map_id']
  | hStray v => rw [renamed_stray]

theorem renamed_eq_mapSymbols (ρ : String → String) (f : Form) :
    f.renamed ρ = f.mapSymbols (Symbol.replaced ρ) := by
  induction f using Form.induct with
  | hSym s => rw [renamed_sym, mapSymbols_sym]
  | hColl f ih => rw [renamed_coll, mapSymbols_coll, ih]
  | hTup fs ih => rw [renamed_tup, mapSymbols_tup, List.map_congr_left ih]
  | hStray v => rw [renamed_stray, mapSymbols_stray]

/-! ## The replacement that the library runs -/

/-- Replacing symbols by a renaming moves every symbol along it. -/
theorem substitute_formMap {r : Renaming} (h : r.Moves) (f : Form) :
    f.substitute r.formMap = f.renamed r.renameText := by
  induction f using Form.induct with
  | hSym s =>
      rw [substitute, renamed_sym, Renaming.formMap, Symbol.replaced]
      cases hl : r.lookup s.name with
      | none => rw [Renaming.renameText_of_lookup_none hl, if_pos rfl]; rfl
      | some m => rw [Renaming.renameText_of_lookup hl, if_neg (h _ _ hl)]; rfl
  | hColl f ih => rw [substitute, renamed_coll, ih]
  | hTup fs ih =>
      rw [substitute, renamed_tup, substituteAll_eq_map]
      exact congrArg Form.tup (List.map_congr_left ih)
  | hStray v => rw [substitute, renamed_stray]

/-! ## Declarations -/

/-- A declaration mentions what the form binds, besides placeholders and marks
of collections. -/
theorem mem_names_render {n : String} (hPlaceholder : n ≠ placeholderName)
    (hEllipsis : n ≠ ellipsisName) (f : Form) :
    n ∈ f.render.symbols.map Symbol.name ↔ n ∈ f.names := by
  induction f using Form.induct with
  | hSym s =>
      rw [render, Term.symbols_sym, names, symbols]
      split
      · rename_i hs
        simp only [List.map_cons, List.map_nil, List.mem_singleton, hs,
          List.not_mem_nil, iff_false]
        exact hPlaceholder
      · rfl
  | hColl f ih =>
      rw [names, symbols_coll, ← names, ← ih, render]
      split
      · simp [Term.vector]
      · simp [Term.vector, Term.named, hEllipsis]
  | hTup fs ih =>
      rw [render, Term.vector, Term.symbols_vec, renderAll_eq_map,
        Term.symbolsOf_eq_flatMap, names, symbols_tup, symbolsOf_eq_flatMap]
      simp only [List.map_flatMap, List.flatMap_map, List.mem_flatMap]
      exact exists_congr fun f => and_congr_right fun hf => ih f hf
  | hStray v => rw [render, names, symbols, Term.symbols_stray]

end Form

end DatalogFragments
