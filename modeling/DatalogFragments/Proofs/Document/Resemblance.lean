import DatalogFragments.Proofs.Document.Clauses
import DatalogFragments.Proofs.Fragment.LifeCycle
import DatalogFragments.Proofs.Fragment.Described

/-!
# Fragments that are read back

The checks of construction look at names and at the shapes of clauses, forms and
arguments, and so does the search for implied specials.  A fragment that is read
back agrees with the written one in all of these.  So it passes the checks, and
inference finds no special in it that is not declared.

## Main results

* `Term.bodySpecials_rereads` — clauses that are read back imply the same;
* `Fragment.Rereads` — a fragment as it is read back;
* `Fragment.Rereads.wellFormed`, `Fragment.Rereads.declaresImplied` — what it
  inherits.
-/

namespace DatalogFragments

/-! ## Clauses -/

namespace Term

variable {E R : Value → Value → Prop}

/-- All symbols of a clause that is read back have names. -/
theorem Rereads.misnamedNames_eq_nil {t u : Clause} (h : Rereads E R t u) :
    misnamedNames u = [] := by
  have hItems : ∀ {xs ys : List Clause}, List.Forall₂ (Rereads E R) xs ys →
      (∀ x ∈ xs, ∀ {y}, Rereads E R x y → misnamedNames y = []) →
      misnamedNamesOf ys = [] := by
    intro xs ys hxy hEach
    rw [misnamedNamesOf_eq_flatMap, List.flatMap_eq_nil_iff]
    intro y hy
    obtain ⟨x, hx, hxy⟩ := exists_of_forall₂_right hxy hy
    exact hEach x hx hxy
  induction t using Term.induct generalizing u with
  | hSym s =>
      cases h with
      | sym hName hInfo => rfl
  | hSeq xs i ih =>
      cases h with
      | seq h hInfo => exact hItems h ih
  | hVec xs i ih =>
      cases h with
      | vec h hInfo => exact hItems h ih
  | hLit v i =>
      cases h with
      | lit h hInfo => rfl
  | hStray v => cases h

private theorem patternSpecials_rereads (b : Bool) {xs ys : List Clause}
    (h : List.Forall₂ (Rereads E R) xs ys) :
    patternSpecials b ys = patternSpecials b xs := by
  cases h with
  | nil => rfl
  | cons hx _ =>
      cases hx with
      | sym hName hInfo =>
          rw [patternSpecials, patternSpecials, Symbol.isDatasource,
            Symbol.isDatasource, hName]
      | seq h hInfo => rfl
      | vec h hInfo => rfl
      | lit h hInfo => rfl

mutual

private theorem clauseSpecials_rereads (b : Bool) : ∀ t : Clause, ∀ u : Clause,
    Rereads E R t u → clauseSpecials b u = clauseSpecials b t
  | .sym s => by
      intro u h
      cases h with
      | sym hName hInfo => rfl
  | .seq xs i => by
      intro u h
      cases h with
      | seq h hInfo =>
          rw [clauseSpecials, clauseSpecials]
          exact callSpecials_rereads b true xs _ h
  | .vec xs i => by
      intro u h
      cases h with
      | vec h hInfo =>
          rw [clauseSpecials, clauseSpecials]
          exact patternSpecials_rereads b h
  | .lit v i => by
      intro u h
      cases h with
      | lit h hInfo => rfl
  | .stray v => by
      intro u h
      cases h

private theorem callSpecials_rereads (b start : Bool) : ∀ xs : List Clause,
    ∀ ys : List Clause, List.Forall₂ (Rereads E R) xs ys →
      callSpecials b start ys = callSpecials b start xs
  | [] => by
      intro ys h
      cases h
      rfl
  | .sym s :: rest => by
      intro ys h
      cases h with
      | cons hs h =>
          cases hs with
          | sym hName hInfo =>
              rw [callSpecials, callSpecials, Symbol.isDatasource,
                Symbol.isDatasource, Symbol.isRuleset, Symbol.isRuleset, hName,
                callSpecials_rereads true false rest _ h,
                bodySpecials_rereads b rest _ h, joinSpecials_rereads b rest _ h]
  | .seq xs i :: rest => by
      intro ys h
      cases h with
      | cons ht h =>
          cases ht
          simp only [callSpecials]
  | .vec xs i :: rest => by
      intro ys h
      cases h with
      | cons ht h =>
          cases ht
          simp only [callSpecials]
  | .lit v i :: rest => by
      intro ys h
      cases h with
      | cons ht h =>
          cases ht
          simp only [callSpecials]
  | .stray v :: rest => by
      intro ys h
      cases h with
      | cons ht h => cases ht

private theorem joinSpecials_rereads (b : Bool) : ∀ xs : List Clause,
    ∀ ys : List Clause, List.Forall₂ (Rereads E R) xs ys →
      joinSpecials b ys = joinSpecials b xs
  | [] => by
      intro ys h
      cases h
      rfl
  | _ :: body => by
      intro ys h
      cases h with
      | cons ht h =>
          rw [joinSpecials, joinSpecials]
          exact bodySpecials_rereads b body _ h

/-- Clauses that are read back imply the same specials. -/
theorem bodySpecials_rereads (b : Bool) : ∀ xs : List Clause,
    ∀ ys : List Clause, List.Forall₂ (Rereads E R) xs ys →
      bodySpecials b ys = bodySpecials b xs
  | [] => by
      intro ys h
      cases h
      rfl
  | t :: ts => by
      intro ys h
      cases h with
      | cons ht h =>
          rw [bodySpecials, bodySpecials, clauseSpecials_rereads b t _ ht,
            bodySpecials_rereads b ts _ h]

end

end Term

/-! ## Forms -/

namespace Form

theorem Alike.isSymbol_eq {f g : Form} (h : f.Alike g) :
    f.isSymbol = g.isSymbol := by
  cases h <;> rfl

private theorem symbolsOf_eq_nil_iff_of_alike {fs gs : List Form}
    (h : List.Forall₂ Alike fs gs) : symbolsOf fs = [] ↔ symbolsOf gs = [] := by
  have hNames := (Alike.tup h).names_eq
  rw [names, names, symbols_tup, symbols_tup] at hNames
  rw [← List.map_eq_nil_iff (f := Symbol.name), hNames, List.map_eq_nil_iff]

theorem Alike.symm {f g : Form} (h : f.Alike g) : g.Alike f := by
  induction f using Form.induct generalizing g with
  | hSym s =>
      cases h with
      | sym h => exact .sym h.symm
  | hColl f ih =>
      cases h with
      | coll h => exact .coll (ih h)
  | hTup fs ih =>
      cases h with
      | tup h => exact .tup (forall₂_imp_of_mem h fun f hf g _ => ih f hf).flip
  | hStray v => cases h

/-- A form like a valid one is valid. -/
theorem Alike.inner {f g : Form} (h : f.Alike g) (hf : f.Inner) : g.Inner := by
  induction hf generalizing g with
  | scalar hVariable =>
      cases h with
      | sym h =>
          rw [Symbol.isVariable, h] at hVariable
          exact .scalar hVariable
  | skip hName =>
      cases h with
      | sym h => exact .skip (h.symm.trans hName)
  | coll _ ih =>
      cases h with
      | coll h => exact .coll (ih h)
  | tup hfs hBinds ih =>
      cases h with
      | tup h =>
          refine .tup (fun g hg => ?_)
            fun hNil => hBinds ((symbolsOf_eq_nil_iff_of_alike h).mpr hNil)
          obtain ⟨f, hf, hfg⟩ := exists_of_forall₂_right h hg
          exact ih f hf hfg

theorem Alike.whole {f g : Form} (h : f.Alike g) (hf : f.Whole) : g.Whole := by
  cases hf with
  | symbol hDeclarable =>
      cases h with
      | sym h =>
          rw [Symbol.isDeclarable_eq, h, ← Symbol.isDeclarable_eq] at hDeclarable
          exact .symbol hDeclarable
  | coll hf =>
      cases h with
      | coll h => exact .coll (h.inner hf)
  | tup hf =>
      have hInner := h.inner hf
      cases h with
      | tup h => exact .tup hInner

private theorem checkArguments_of_alike {fs gs : List Form}
    (h : List.Forall₂ Alike fs gs)
    (hEach : ∀ f ∈ fs, ∀ {g : Form}, f.Alike g → ∀ {v : Value},
      f.checkArgument v = .ok () → g.checkArgument v = .ok ()) {vs : List Value}
    (hvs : checkArguments fs vs = .ok ()) : checkArguments gs vs = .ok () := by
  induction h generalizing vs with
  | nil => rw [checkArguments]
  | cons hfg _ ih =>
      obtain ⟨hHead, hTail⟩ := List.forall_mem_cons.mp hEach
      cases vs with
      | nil => rw [checkArguments]
      | cons v vs =>
          rw [checkArguments, then_eq_ok_iff] at hvs ⊢
          exact ⟨hHead hfg hvs.1, ih hTail hvs.2⟩

/-- Like forms take the same arguments. -/
theorem Alike.checkArgument {f g : Form} (h : f.Alike g) {v : Value}
    (hv : f.checkArgument v = .ok ()) : g.checkArgument v = .ok () := by
  induction f using Form.induct generalizing g v with
  | hSym s =>
      cases h with
      | sym h => rw [Form.checkArgument]
  | hColl f ih =>
      cases h with
      | coll h =>
          rw [checkArgument_coll_eq_ok_iff] at hv ⊢
          obtain ⟨hCollection, hEach⟩ := hv
          refine ⟨hCollection, fun hSymbol x hx => ih h (hEach ?_ x hx)⟩
          rw [h.isSymbol_eq]
          exact hSymbol
  | hTup fs ih =>
      cases h with
      | @tup _ gs h =>
          rw [checkArgument_tup_eq_ok_iff] at hv ⊢
          obtain ⟨hCollection, hArity, hEach⟩ := hv
          rw [← h.length_eq]
          exact ⟨hCollection, hArity, checkArguments_of_alike h ih hEach⟩
  | hStray v => cases h

end Form

/-! ## Fragments -/

namespace Fragment

/-- A fragment as it is read back from its document. -/
structure Rereads (E R : Value → Value → Prop) (f g : Fragment) : Prop where
  name : E f.name g.name
  clauses : List.Forall₂ (Term.Rereads E R) f.clauses g.clauses
  provide : g.provideNames = f.provideNames
  require : g.requireNames = f.requireNames
  lets : List.Forall₂ (fun p q => p.1.Alike q.1 ∧ R q.2 p.2) f.lets g.lets
  mustLet : g.mustLetNames = f.mustLetNames
  selectivity : g.selectivity = f.selectivity
  locked : g.locked = f.locked
  extra : E (.mapping f.extra) (.mapping g.extra)

namespace Rereads

variable {E R : Value → Value → Prop} {f g : Fragment}

theorem alike {S : Value → Value → Prop} (hS : ∀ w v, R w v → S w v)
    (h : f.Rereads E R g) : g.Alike S f where
  clauses := (h.clauses.imp fun _ _ htu => htu.alike hS).flip
  provide := h.provide
  require := h.require
  lets := (h.lets.imp fun _ _ hpq => ⟨hpq.1.symm, hS _ _ hpq.2⟩).flip
  mustLet := h.mustLet
  selectivity := h.selectivity

private theorem alike_self (h : f.Rereads E R g) : g.Alike R f :=
  h.alike fun _ _ => id

private theorem mem_bindableNames_iff (h : f.Rereads E R g) (n : String) :
    n ∈ g.bindableNames ↔ n ∈ f.bindableNames := by
  rw [mem_bindableNames, mem_bindableNames, mem_freeNames, mem_freeNames,
    h.alike_self.clauseNames_eq, h.provide, h.require]

/-- What is read back of a well-formed fragment is well formed. -/
theorem wellFormed (hf : f.WellFormed) (h : f.Rereads E R g)
    (hR : ∀ w v, R w v → w.FitsLike v) : g.WellFormed where
  provide_nodup := h.provide ▸ hf.provide_nodup
  require_nodup := h.require ▸ hf.require_nodup
  mustLet_nodup := h.mustLet ▸ hf.mustLet_nodup
  provide_declarable := h.provide ▸ hf.provide_declarable
  require_declarable := h.require ▸ hf.require_declarable
  mustLet_declarable := h.mustLet ▸ hf.mustLet_declarable
  disjoint := h.provide ▸ h.require ▸ hf.disjoint
  wellNamed := by
    rw [Term.misnamedNamesOf_eq_flatMap, List.flatMap_eq_nil_iff]
    intro u hu
    obtain ⟨t, -, htu⟩ := exists_of_forall₂_right h.clauses hu
    exact htu.misnamedNames_eq_nil
  specials_declared := by
    rw [h.alike_self.clauseNames_eq, h.provide, h.require]
    exact hf.specials_declared
  mustLet_bindable := by
    rw [h.mustLet]
    exact fun n hn => (h.mem_bindableNames_iff n).mpr (hf.mustLet_bindable n hn)
  forms_whole := by
    intro q hq
    obtain ⟨p, hp, hForm, -⟩ := exists_of_forall₂_right h.lets hq
    exact hForm.whole (hf.forms_whole p hp)
  arguments_fit := by
    intro q hq
    obtain ⟨p, hp, hForm, hValue⟩ := exists_of_forall₂_right h.lets hq
    exact hForm.checkArgument (hR _ _ hValue p.1 (hf.arguments_fit p hp))
  let_bindable := by
    rw [h.alike_self.letNames_eq]
    exact fun n hn => (h.mem_bindableNames_iff n).mpr (hf.let_bindable n hn)
  let_nodup := h.alike_self.letNames_eq ▸ hf.let_nodup

/-- It declares what its clauses imply if the written fragment does. -/
theorem declaresImplied (hf : f.DeclaresImplied) (h : f.Rereads E R g) :
    g.DeclaresImplied := by
  have hImplied : Term.impliedSpecials g.clauses = Term.impliedSpecials f.clauses := by
    rw [Term.impliedSpecials, Term.impliedSpecials,
      Term.bodySpecials_rereads false f.clauses g.clauses h.clauses]
  intro n hn
  rw [h.require, h.provide]
  exact hf n (hImplied ▸ hn)

/-- Its clauses are terms. -/
theorem ne_stray (h : f.Rereads E R g) : ∀ t ∈ g.clauses, ∀ v, t ≠ .stray v := by
  rintro t ht v rfl
  obtain ⟨u, -, hut⟩ := exists_of_forall₂_right h.clauses ht
  cases hut

end Rereads

end Fragment

end DatalogFragments
