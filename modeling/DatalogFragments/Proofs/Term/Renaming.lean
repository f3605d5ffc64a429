import DatalogFragments.Fragment.Renaming
import DatalogFragments.Proofs.Attempt
import DatalogFragments.Proofs.NameKind
import Mathlib.Data.List.Basic

/-!
# Clauses under a map of names

The library renames by looking names up in a list and merging display
information.  `Term.renamed ρ` says the same structurally: every symbol leaf
moves along `ρ`, everything else stays.  Whatever the library reads off a
clause — its symbols, the specials it implies — is then read off the renamed
clause through `ρ`.

What does not depend on how display information moves is stated of
`Term.mapSymbols`, which applies any map to the symbol leaves.

## Main results

* `Term.mapSymbols_congr`, `Term.mapSymbols_mapSymbols` — maps of symbols;
* `Term.symbolsOf_mapSymbols` — the symbols of mapped clauses;
* `Term.substitute_eq_okUnless` — a substitution works leaf by leaf;
* `Term.substitute_clauseMap` — replacing symbols by a renaming is
  `Term.renamed`;
* `Term.bodySpecials_renamed` — a map that keeps kinds of names leaves the
  implied specials alone.
-/

namespace DatalogFragments

/-! ## Symbols -/

/-- The entries of display information; a value that makes no mapping has none. -/
def Value.infoEntries (info : Value) : Entries :=
  match info.asEntries with
  | .ok es => es
  | .error _ => []

/-- Information is handed on to a new name as a mapping. -/
theorem Value.inheritInfo_none (i : Value) :
    inheritInfo (some i) none =
      okUnless (faultOf? i.asEntries) (some (.mapping i.infoEntries)) := by
  rw [inheritInfo, infoEntries]
  cases i.asEntries <;> rfl

/-- A symbol under a map of names.  A symbol that keeps its name is left
alone; any other one hands on its display information, as a mapping. -/
def Symbol.renamed (ρ : String → String) (s : Name) : Name :=
  if ρ s.name = s.name then s
  else ⟨ρ s.name, s.info.map fun i => .mapping i.infoEntries⟩

/-- A symbol under a map of names, where a new name comes without display
information. -/
def Symbol.replaced (ρ : String → String) (s : Name) : Name :=
  if ρ s.name = s.name then s else Symbol.plain (ρ s.name)

@[simp] theorem Symbol.name_renamed (ρ : String → String) (s : Name) :
    (s.renamed ρ).name = ρ s.name := by
  unfold Symbol.renamed
  split
  · rename_i h
    exact h.symm
  · rfl

@[simp] theorem Symbol.name_replaced (ρ : String → String) (s : Name) :
    (s.replaced ρ).name = ρ s.name := by
  unfold Symbol.replaced
  split
  · rename_i h
    exact h.symm
  · rfl

namespace Symbol

variable {ρ : String → String}

theorem isDatasource_renamed (h : KeepsKinds ρ) (s : Name) :
    (s.renamed ρ).isDatasource = s.isDatasource := by
  rw [isDatasource, name_renamed, h.isDatasourceName_eq, isDatasource]

theorem isRuleset_renamed (h : KeepsKinds ρ) (s : Name) :
    (s.renamed ρ).isRuleset = s.isRuleset := by
  rw [isRuleset, name_renamed, h.isRulesetName_eq, isRuleset]

end Symbol

/-! ## Renamings as maps of names -/

namespace Renaming

theorem renameText_of_lookup {r : Renaming} {n m : String}
    (h : r.lookup n = some m) : r.renameText n = m := by
  rw [renameText, h, Option.getD_some]

theorem renameText_of_lookup_none {r : Renaming} {n : String}
    (h : r.lookup n = none) : r.renameText n = n := by
  rw [renameText, h, Option.getD_none]

/-- A renaming that leaves no name where it is. -/
def Moves (r : Renaming) : Prop := ∀ n m, r.lookup n = some m → m ≠ n

theorem rename_eq_replaced {r : Renaming} (h : r.Moves) (s : Name) :
    r.rename s = s.replaced r.renameText := by
  unfold rename Symbol.replaced
  cases hl : r.lookup s.name with
  | none => rw [renameText_of_lookup_none hl, if_pos rfl]
  | some m => rw [renameText_of_lookup hl, if_neg (h _ _ hl)]

/-- What stops a renaming at a symbol: display information that has to be handed
on and has no entries. -/
def infoFault? (r : Renaming) (s : Name) : Option Fault :=
  if (r.lookup s.name).isSome then s.info.bind fun i => faultOf? i.asEntries else none

end Renaming

namespace Term

/-! ## Maps of symbols -/

mutual

/-- A clause with a map applied to every symbol leaf. -/
def mapSymbols (g : Name → Name) : Clause → Clause
  | .sym s => .sym (g s)
  | .seq xs i => .seq (mapSymbolsAll g xs) i
  | .vec xs i => .vec (mapSymbolsAll g xs) i
  | .lit v i => .lit v i
  | .stray v => .stray v

/-- Every clause with a map applied to its symbol leaves. -/
def mapSymbolsAll (g : Name → Name) : List Clause → List Clause
  | [] => []
  | t :: ts => mapSymbols g t :: mapSymbolsAll g ts

end

theorem mapSymbolsAll_eq_map (g : Name → Name) (ts : List Clause) :
    mapSymbolsAll g ts = ts.map (mapSymbols g) := by
  induction ts with
  | nil => rfl
  | cons t ts ih => rw [mapSymbolsAll, ih, List.map_cons]

section MapSymbols

variable {g g' : Name → Name}

@[simp] theorem mapSymbols_sym (g : Name → Name) (s : Name) :
    (Term.sym s).mapSymbols g = .sym (g s) := by rw [mapSymbols]

@[simp] theorem mapSymbols_seq (g : Name → Name) (xs : List Clause)
    (i : Option Value) :
    (Term.seq xs i).mapSymbols g = .seq (xs.map (mapSymbols g)) i := by
  rw [mapSymbols, mapSymbolsAll_eq_map]

@[simp] theorem mapSymbols_vec (g : Name → Name) (xs : List Clause)
    (i : Option Value) :
    (Term.vec xs i).mapSymbols g = .vec (xs.map (mapSymbols g)) i := by
  rw [mapSymbols, mapSymbolsAll_eq_map]

@[simp] theorem mapSymbols_lit (g : Name → Name) (v : Value)
    (i : Option Value) : (Term.lit v i).mapSymbols g = .lit v i := by
  rw [mapSymbols]

@[simp] theorem mapSymbols_stray (g : Name → Name) (v : Value) :
    (Term.stray v).mapSymbols g = .stray v := by rw [mapSymbols]

theorem symbolsOf_eq_flatMap {α : Type} (ts : List (Term α)) :
    symbolsOf ts = ts.flatMap symbols := by
  induction ts with
  | nil => rfl
  | cons t ts ih => rw [symbolsOf_cons, ih, List.flatMap_cons]

theorem mem_symbolsOf {s : Name} {ts : List Clause} :
    s ∈ symbolsOf ts ↔ ∃ t ∈ ts, s ∈ t.symbols := by
  rw [symbolsOf_eq_flatMap, List.mem_flatMap]

/-- Only the symbols that occur count. -/
theorem mapSymbols_congr {t : Clause} (h : ∀ s ∈ t.symbols, g s = g' s) :
    t.mapSymbols g = t.mapSymbols g' := by
  induction t using Term.induct with
  | hSym s =>
      rw [mapSymbols_sym, mapSymbols_sym, h s (List.mem_singleton_self s)]
  | hSeq xs i ih =>
      rw [mapSymbols_seq, mapSymbols_seq]
      exact congrArg (Term.seq · i) (List.map_congr_left fun x hx =>
        ih x hx fun s hs => h s (mem_symbolsOf.mpr ⟨x, hx, hs⟩))
  | hVec xs i ih =>
      rw [mapSymbols_vec, mapSymbols_vec]
      exact congrArg (Term.vec · i) (List.map_congr_left fun x hx =>
        ih x hx fun s hs => h s (mem_symbolsOf.mpr ⟨x, hx, hs⟩))
  | hLit v i => rw [mapSymbols_lit, mapSymbols_lit]
  | hStray v => rw [mapSymbols_stray, mapSymbols_stray]

theorem mapSymbols_mapSymbols (g g' : Name → Name) (t : Clause) :
    (t.mapSymbols g).mapSymbols g' = t.mapSymbols (g' ∘ g) := by
  induction t using Term.induct with
  | hSym s => simp only [mapSymbols_sym, Function.comp_apply]
  | hSeq xs i ih =>
      simp only [mapSymbols_seq, List.map_map]
      exact congrArg (Term.seq · i) (List.map_congr_left ih)
  | hVec xs i ih =>
      simp only [mapSymbols_vec, List.map_map]
      exact congrArg (Term.vec · i) (List.map_congr_left ih)
  | hLit v i => simp only [mapSymbols_lit]
  | hStray v => simp only [mapSymbols_stray]

private theorem flatMap_symbols_mapSymbols {ts : List Clause}
    (h : ∀ t ∈ ts, (t.mapSymbols g).symbols = t.symbols.map g) :
    symbolsOf (ts.map (mapSymbols g)) = (symbolsOf ts).map g := by
  rw [symbolsOf_eq_flatMap, symbolsOf_eq_flatMap, List.flatMap_map,
    List.map_flatMap]
  exact List.flatMap_congr h

theorem symbols_mapSymbols (g : Name → Name) (t : Clause) :
    (t.mapSymbols g).symbols = t.symbols.map g := by
  induction t using Term.induct with
  | hSym s => rw [mapSymbols_sym, symbols_sym, symbols_sym]; rfl
  | hSeq xs i ih =>
      rw [mapSymbols_seq, symbols_seq, symbols_seq,
        flatMap_symbols_mapSymbols ih]
  | hVec xs i ih =>
      rw [mapSymbols_vec, symbols_vec, symbols_vec,
        flatMap_symbols_mapSymbols ih]
  | hLit v i => rw [mapSymbols_lit]; rfl
  | hStray v => rw [mapSymbols_stray]; rfl

/-- The symbols of mapped clauses are the mapped symbols of the clauses. -/
theorem symbolsOf_mapSymbols (g : Name → Name) (ts : List Clause) :
    symbolsOf (ts.map (mapSymbols g)) = (symbolsOf ts).map g :=
  flatMap_symbols_mapSymbols fun t _ => symbols_mapSymbols g t

theorem misnamedNamesOf_eq_flatMap (ts : List Clause) :
    misnamedNamesOf ts = ts.flatMap misnamedNames := by
  induction ts with
  | nil => rfl
  | cons t ts ih => rw [misnamedNamesOf, ih, List.flatMap_cons]

private theorem flatMap_misnamedNames_mapSymbols {ts : List Clause}
    (h : ∀ t ∈ ts, misnamedNames (t.mapSymbols g) = misnamedNames t) :
    misnamedNamesOf (ts.map (mapSymbols g)) = misnamedNamesOf ts := by
  rw [misnamedNamesOf_eq_flatMap, misnamedNamesOf_eq_flatMap, List.flatMap_map]
  exact List.flatMap_congr h

theorem misnamedNames_mapSymbols (g : Name → Name) (t : Clause) :
    misnamedNames (t.mapSymbols g) = misnamedNames t := by
  induction t using Term.induct with
  | hSym s => rw [mapSymbols_sym, misnamedNames, misnamedNames]
  | hSeq xs i ih =>
      rw [mapSymbols_seq, misnamedNames, misnamedNames,
        flatMap_misnamedNames_mapSymbols ih]
  | hVec xs i ih =>
      rw [mapSymbols_vec, misnamedNames, misnamedNames,
        flatMap_misnamedNames_mapSymbols ih]
  | hLit v i => rw [mapSymbols_lit]
  | hStray v => rw [mapSymbols_stray]

/-- A map of symbols touches no symbol whose name is no text. -/
theorem misnamedNamesOf_mapSymbols (g : Name → Name) (ts : List Clause) :
    misnamedNamesOf (ts.map (mapSymbols g)) = misnamedNamesOf ts :=
  flatMap_misnamedNames_mapSymbols fun t _ => misnamedNames_mapSymbols g t

end MapSymbols

/-! ## Clauses -/

mutual

/-- A clause in which every symbol leaf moves along a map of names. -/
def renamed (ρ : String → String) : Clause → Clause
  | .sym s => .sym (s.renamed ρ)
  | .seq xs i => .seq (renamedAll ρ xs) i
  | .vec xs i => .vec (renamedAll ρ xs) i
  | .lit v i => .lit v i
  | .stray v => .stray v

/-- Every clause under a map of names. -/
def renamedAll (ρ : String → String) : List Clause → List Clause
  | [] => []
  | t :: ts => renamed ρ t :: renamedAll ρ ts

end

theorem renamedAll_eq_map (ρ : String → String) (ts : List Clause) :
    renamedAll ρ ts = ts.map (renamed ρ) := by
  induction ts with
  | nil => rfl
  | cons t ts ih => rw [renamedAll, ih, List.map_cons]

@[simp] theorem renamed_sym (ρ : String → String) (s : Name) :
    (Term.sym s).renamed ρ = .sym (s.renamed ρ) := by rw [renamed]

@[simp] theorem renamed_seq (ρ : String → String) (xs : List Clause)
    (i : Option Value) :
    (Term.seq xs i).renamed ρ = .seq (xs.map (renamed ρ)) i := by
  rw [renamed, renamedAll_eq_map]

@[simp] theorem renamed_vec (ρ : String → String) (xs : List Clause)
    (i : Option Value) :
    (Term.vec xs i).renamed ρ = .vec (xs.map (renamed ρ)) i := by
  rw [renamed, renamedAll_eq_map]

@[simp] theorem renamed_lit (ρ : String → String) (v : Value)
    (i : Option Value) : (Term.lit v i).renamed ρ = .lit v i := by rw [renamed]

@[simp] theorem renamed_stray (ρ : String → String) (v : Value) :
    (Term.stray v).renamed ρ = .stray v := by rw [renamed]

theorem renamed_eq_mapSymbols (ρ : String → String) (t : Clause) :
    t.renamed ρ = t.mapSymbols (Symbol.renamed ρ) := by
  induction t using Term.induct with
  | hSym s => rw [renamed_sym, mapSymbols_sym]
  | hSeq xs i ih => rw [renamed_seq, mapSymbols_seq, List.map_congr_left ih]
  | hVec xs i ih => rw [renamed_vec, mapSymbols_vec, List.map_congr_left ih]
  | hLit v i => rw [renamed_lit, mapSymbols_lit]
  | hStray v => rw [renamed_stray, mapSymbols_stray]

theorem map_renamed_eq (ρ : String → String) (ts : List Clause) :
    ts.map (renamed ρ) = ts.map (mapSymbols (Symbol.renamed ρ)) :=
  List.map_congr_left fun t _ => renamed_eq_mapSymbols ρ t

theorem renamed_of_fixed {ρ : String → String} (h : ∀ n, ρ n = n) (t : Clause) :
    t.renamed ρ = t := by
  induction t using Term.induct with
  | hSym s => rw [renamed_sym, Symbol.renamed, if_pos (h _)]
  | hSeq xs i ih =>
      rw [renamed_seq, List.map_congr_left ih, List.map_id']
  | hVec xs i ih =>
      rw [renamed_vec, List.map_congr_left ih, List.map_id']
  | hLit v i => rw [renamed_lit]
  | hStray v => rw [renamed_stray]

/-! ## The replacement that the library runs -/

private theorem findSome?_symbolsOf (fault : Name → Option Fault) (ts : List Clause) :
    (symbolsOf ts).findSome? fault = ts.findSome? fun t => t.symbols.findSome? fault := by
  induction ts with
  | nil => rfl
  | cons t ts ih =>
      rw [symbolsOf_cons, List.findSome?_append, ih, List.findSome?_cons]
      cases t.symbols.findSome? fault <;> rfl

/-- What happens at a symbol leaf happens leaf by leaf, and the first fault stops
it. -/
theorem substitute_eq_okUnless {m : String → Option Clause} {fault : Name → Option Fault}
    {g : Name → Name}
    (hLeaf : ∀ s, substitute m (.sym s) = okUnless (fault s) (.sym (g s))) (t : Clause) :
    t.substitute m = okUnless (t.symbols.findSome? fault) (t.mapSymbols g) := by
  induction t using Term.induct with
  | hSym s =>
      rw [hLeaf, symbols_sym, mapSymbols_sym, List.findSome?_cons]
      cases fault s <;> rfl
  | hSeq xs i ih =>
      rw [substitute, substituteAll_eq_mapM, mapM_eq_okUnless ih, symbols_seq,
        findSome?_symbolsOf, mapSymbols_seq]
      cases xs.findSome? fun x => x.symbols.findSome? fault <;> rfl
  | hVec xs i ih =>
      rw [substitute, substituteAll_eq_mapM, mapM_eq_okUnless ih, symbols_vec,
        findSome?_symbolsOf, mapSymbols_vec]
      cases xs.findSome? fun x => x.symbols.findSome? fault <;> rfl
  | hLit v i => rw [substitute, mapSymbols_lit]; rfl
  | hStray v => rw [substitute, mapSymbols_stray]; rfl

private theorem substitute_sym {r : Renaming} (h : r.Moves) (s : Name) :
    substitute r.clauseMap (.sym s) =
      okUnless (r.infoFault? s) (.sym (s.renamed r.renameText)) := by
  rw [substitute, Renaming.clauseMap, Renaming.infoFault?]
  cases hl : r.lookup s.name with
  | none =>
      rw [Option.map_none, Symbol.renamed, Renaming.renameText_of_lookup_none hl,
        if_pos rfl]
      rfl
  | some m =>
      rw [Option.map_some, Symbol.renamed, Renaming.renameText_of_lookup hl,
        if_neg (h _ _ hl), Option.isSome_some, if_pos rfl]
      dsimp only
      rw [named, inherit_sym, Symbol.plain]
      cases s.info with
      | none => rfl
      | some i =>
          rw [Value.inheritInfo_none, Option.bind_some]
          cases faultOf? i.asEntries <;> rfl

/-- Replacing symbols by a renaming moves every symbol leaf along it. -/
theorem substitute_clauseMap {r : Renaming} (h : r.Moves) (t : Clause) :
    t.substitute r.clauseMap =
      okUnless (t.symbols.findSome? r.infoFault?) (t.renamed r.renameText) := by
  rw [renamed_eq_mapSymbols]
  exact substitute_eq_okUnless (substitute_sym h) t

theorem renameClauses_eq {r : Renaming} (h : r.Moves) (ts : List Clause) :
    r.renameClauses ts = okUnless ((symbolsOf ts).findSome? r.infoFault?)
      (ts.map (renamed r.renameText)) := by
  rw [findSome?_symbolsOf]
  exact mapM_eq_okUnless fun t _ => substitute_clauseMap h t

/-! ## Implied specials -/

private theorem patternSpecials_renamed {ρ : String → String}
    (h : KeepsKinds ρ) (b : Bool) (xs : List Clause) :
    patternSpecials b (xs.map (renamed ρ)) = patternSpecials b xs := by
  cases xs with
  | nil => rfl
  | cons x xs =>
      cases x with
      | sym s =>
          rw [List.map_cons, renamed_sym, patternSpecials, patternSpecials,
            Symbol.isDatasource_renamed h]
      | seq ys i => simp only [List.map_cons, renamed_seq, patternSpecials]
      | vec ys i => simp only [List.map_cons, renamed_vec, patternSpecials]
      | lit v i => simp only [List.map_cons, renamed_lit, patternSpecials]
      | stray v => cases v <;> simp only [List.map_cons, renamed_stray, patternSpecials]

mutual

theorem clauseSpecials_renamed {ρ : String → String} (h : KeepsKinds ρ)
    (b : Bool) : ∀ t : Clause, clauseSpecials b (renamed ρ t) = clauseSpecials b t
  | .sym s => by rw [renamed_sym]; rfl
  | .seq xs i => by
      rw [renamed_seq, clauseSpecials, clauseSpecials]
      exact callSpecials_renamed h b true xs
  | .vec xs i => by
      rw [renamed_vec, clauseSpecials, clauseSpecials]
      exact patternSpecials_renamed h b xs
  | .lit v i => by rw [renamed_lit]
  | .stray v => by rw [renamed_stray]

theorem callSpecials_renamed {ρ : String → String} (h : KeepsKinds ρ)
    (b start : Bool) : ∀ xs : List Clause,
    callSpecials b start (xs.map (renamed ρ)) = callSpecials b start xs
  | [] => rfl
  | .sym s :: rest => by
      rw [List.map_cons, renamed_sym, callSpecials, callSpecials,
        Symbol.isDatasource_renamed h, Symbol.isRuleset_renamed h,
        Symbol.name_renamed, h.nestedForms_contains_eq, h.joinForms_contains_eq,
        callSpecials_renamed h true false rest, bodySpecials_renamed h b rest,
        joinSpecials_renamed h b rest]
  | .seq xs i :: rest => by simp only [List.map_cons, renamed_seq, callSpecials]
  | .vec xs i :: rest => by simp only [List.map_cons, renamed_vec, callSpecials]
  | .lit v i :: rest => by simp only [List.map_cons, renamed_lit, callSpecials]
  | .stray v :: rest => by simp only [List.map_cons, renamed_stray, callSpecials]

theorem joinSpecials_renamed {ρ : String → String} (h : KeepsKinds ρ)
    (b : Bool) : ∀ xs : List Clause,
    joinSpecials b (xs.map (renamed ρ)) = joinSpecials b xs
  | [] => rfl
  | _ :: body => by
      rw [List.map_cons, joinSpecials, joinSpecials]
      exact bodySpecials_renamed h b body

theorem bodySpecials_renamed {ρ : String → String} (h : KeepsKinds ρ)
    (b : Bool) : ∀ xs : List Clause,
    bodySpecials b (xs.map (renamed ρ)) = bodySpecials b xs
  | [] => rfl
  | t :: ts => by
      rw [List.map_cons, bodySpecials, bodySpecials, clauseSpecials_renamed h b t,
        bodySpecials_renamed h b ts]

end

end Term

end DatalogFragments
