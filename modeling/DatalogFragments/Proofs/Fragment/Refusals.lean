import DatalogFragments.Proofs.Fragment.Described
import DatalogFragments.Proofs.Fragment.Roles

/-!
# What construction never complains about

Construction from a description requires whatever specials it finds in the
clauses.  So the check for undeclared specials, which fragments put together
from parts can fail, never stops it, and none of the other steps has that
complaint.

## Main definitions

* `Fault.blamesSpecials` — the complaint about undeclared specials;
* `Spares` — a computation that never stops with it.

## Main results

* `Fragment.spares_checked` — the check of a fragment that declares its specials;
* `Fragment.spares_ofConfig` — construction from a description.
-/

namespace DatalogFragments

/-- The fault says that specials are neither provided nor required. -/
def Fault.blamesSpecials : Fault → Bool
  | .failure { cause := .specialsUndeclared _, .. } => true
  | _ => false

/-- The computation does not stop over undeclared specials. -/
def Spares {α : Type} (x : Except Fault α) : Prop :=
  ∀ w, x = .error w → w.blamesSpecials = false

namespace Spares

variable {α β : Type}

theorem ok (a : α) : Spares (.ok a) := fun _ h => nomatch h

theorem error {w : Fault} (h : w.blamesSpecials = false) :
    Spares (.error w : Except Fault α) := fun _ hw => Except.error.inj hw ▸ h

theorem bind {x : Except Fault α} {f : α → Except Fault β} (hx : Spares x)
    (hf : ∀ a, x = .ok a → Spares (f a)) : Spares (x >>= f) := by
  cases x with
  | error w => exact .error (hx w rfl)
  | ok a => exact hf a rfl

theorem forM {l : List α} {f : α → Except Fault PUnit} (h : ∀ x ∈ l, Spares (f x)) :
    Spares (l.forM f) := by
  induction l with
  | nil => exact .ok _
  | cons x l ih =>
      obtain ⟨hHead, hTail⟩ := List.forall_mem_cons.mp h
      exact hHead.bind fun _ _ => ih hTail

theorem mapM {l : List α} {f : α → Except Fault β} (h : ∀ x ∈ l, Spares (f x)) :
    Spares (l.mapM f) := by
  induction l with
  | nil => exact .ok _
  | cons x l ih =>
      obtain ⟨hHead, hTail⟩ := List.forall_mem_cons.mp h
      rw [List.mapM_cons]
      exact hHead.bind fun _ _ => (ih hTail).bind fun _ _ => .ok _

end Spares

theorem blamesSpecials_nameFault (v : Value) : v.nameFault.blamesSpecials = false := by
  cases v <;> rfl

/-! ## Binding forms -/

namespace Form

mutual

theorem spares_ofData : ∀ v : Value, Spares (ofData v)
  | .list xs => by
      rw [ofData]
      exact spares_ofItems xs
  | .tuple xs => by
      rw [ofData]
      exact spares_ofItems xs
  | .term t => by
      rw [ofData.eq_def]
      cases t with
      | sym s => exact .ok _
      | _ => exact .error rfl
  | .text _ | .misnamed .. | .collForm _ | .tupForm _ => by
      rw [ofData]
      exact .ok _
  | .null | .bool _ | .int _ | .float _ | .bytes _ | .keyword _ | .mapping _
  | .set _ | .frozenSet _ | .stream _ | .date _ | .moment _ => by
      rw [ofData.eq_def]
      exact .error rfl

theorem spares_ofItems : ∀ xs : List Value, Spares (ofItems xs)
  | [] => by
      rw [ofItems, ofEach]
      · exact .ok _
      · simp
      · simp
  | [x] => by
      rw [ofItems]
      exact (spares_ofData x).bind fun _ _ => .ok _
  | [x, y] => by
      rw [ofItems]
      refine (spares_ofData x).bind fun _ _ => ?_
      split
      · exact .ok _
      · exact (spares_ofData y).bind fun _ _ => .ok _
  | x :: y :: z :: xs => by
      rw [ofItems]
      · exact (spares_ofEach (x :: y :: z :: xs)).bind fun _ _ => .ok _
      · simp
      · simp

theorem spares_ofEach : ∀ xs : List Value, Spares (ofEach xs)
  | [] => by
      rw [ofEach]
      exact .ok _
  | x :: xs => by
      rw [ofEach]
      exact (spares_ofData x).bind fun _ _ => (spares_ofEach xs).bind fun _ _ => .ok _

end

private theorem spares_checkItems {fs : List Form}
    (h : ∀ f ∈ fs, Spares (f.check false)) : Spares (checkItems fs) := by
  induction fs with
  | nil => exact .ok _
  | cons f fs ih =>
      obtain ⟨hHead, hTail⟩ := List.forall_mem_cons.mp h
      rw [checkItems]
      split
      · exact .error rfl
      · exact hHead.bind fun _ _ => ih hTail

theorem spares_check (f : Form) (top : Bool) : Spares (f.check top) := by
  induction f using Form.induct generalizing top with
  | hSym s =>
      rw [check]
      split
      · exact .ok _
      · split
        · exact .ok _
        · exact .error rfl
  | hColl f ih =>
      rw [check]
      split
      · exact .error rfl
      · exact ih false
  | hTup fs ih =>
      rw [check]
      split
      · exact .error rfl
      · refine (spares_checkItems fun f hf => ih f hf false).bind fun _ _ => ?_
        split
        · exact .error rfl
        · exact .ok _
  | hStray v =>
      rw [check]
      cases v with
      | misnamed n i => exact .error (blamesSpecials_nameFault n)
      | _ => exact .error rfl

private theorem spares_checkArguments {fs : List Form}
    (h : ∀ f ∈ fs, ∀ v, Spares (f.checkArgument v)) (vs : List Value) :
    Spares (checkArguments fs vs) := by
  induction fs generalizing vs with
  | nil =>
      rw [checkArguments]
      exact .ok _
  | cons f fs ih =>
      obtain ⟨hHead, hTail⟩ := List.forall_mem_cons.mp h
      cases vs with
      | nil =>
          rw [checkArguments]
          exact .ok _
      | cons v vs =>
          rw [checkArguments]
          exact (hHead v).bind fun _ _ => ih hTail vs

theorem spares_checkArgument (f : Form) (v : Value) : Spares (f.checkArgument v) := by
  induction f using Form.induct generalizing v with
  | hSym s =>
      rw [checkArgument]
      exact .ok _
  | hColl f ih =>
      rw [checkArgument]
      split
      · exact .error rfl
      · split
        · exact .ok _
        · exact .forM fun v _ => ih v
  | hTup fs ih =>
      rw [checkArgument]
      split
      · exact .error rfl
      · split
        · exact .error rfl
        · exact spares_checkArguments ih _
  | hStray v =>
      rw [checkArgument]
      exact .ok _

end Form

/-! ## The checks of a fragment -/

namespace Fragment

private theorem spares_checkDeclared (f : Fragment) (declaration : String)
    (l : List Name) : Spares (f.checkDeclared declaration l) := by
  rw [checkDeclared]
  split
  · exact .error rfl
  · exact .ok _

private theorem spares_checkOverlap (f : Fragment) : Spares f.checkOverlap := by
  rw [checkOverlap]
  split
  · exact .ok _
  · exact .error rfl

private theorem spares_checkMustLet (f : Fragment) : Spares f.checkMustLet := by
  rw [checkMustLet]
  split
  · exact .ok _
  · exact .error rfl

private theorem spares_checkNames (clauses : List Clause) :
    Spares (checkNames clauses) := by
  rw [checkNames, namesFault?]
  cases Term.misnamedNamesOf clauses with
  | nil => exact .ok _
  | cons n ns =>
      by_cases hKeys : (n :: ns).all Value.isKey = true
      · simp only [hKeys, if_true]
        exact .error (blamesSpecials_nameFault n)
      · simp only [hKeys]
        exact .error rfl

private theorem spares_checkHeads (clauses : List Clause) :
    Spares (checkHeads clauses) := by
  rw [checkHeads]
  split
  · exact .error (blamesSpecials_nameFault _)
  · exact spares_checkNames clauses

private theorem spares_checkBound (f : Fragment) (bound l : List Name) :
    Spares (f.checkBound bound l) := by
  induction l generalizing bound with
  | nil => exact .ok _
  | cons s l ih =>
      rw [checkBound]
      split
      · exact .error rfl
      · split
        · exact .error rfl
        · exact ih _

private theorem spares_checkLets (f : Fragment) (bound : List Name)
    (lets : List (Form × Value)) : Spares (f.checkLets bound lets) := by
  induction lets generalizing bound with
  | nil => exact .ok _
  | cons p lets ih =>
      rw [checkLets]
      refine (Form.spares_check p.1 true).bind fun _ _ => ?_
      refine (spares_checkBound f bound _).bind fun bound' _ => ?_
      exact (Form.spares_checkArgument p.1 p.2).bind fun _ _ => ih bound'

/-- Every special of the clauses is declared. -/
def DeclaresSpecials (f : Fragment) : Prop :=
  ∀ n ∈ f.clauseNames, isSpecialName n = true → n ∈ f.requireNames ∨ n ∈ f.provideNames

/-- The check of a fragment that declares its specials does not complain about
them. -/
theorem spares_checked {f : Fragment} (h : f.DeclaresSpecials) : Spares f.checked := by
  have hDistinct : f.distinct.DeclaresSpecials := fun n hn hSpecial =>
    (h n hn hSpecial).imp (mem_names_distinctNames _ n).mpr
      (mem_names_distinctNames _ n).mpr
  have hSpecials : Spares f.distinct.checkSpecials := by
    rw [(checkSpecials_eq_ok_iff f.distinct).mpr hDistinct]
    exact .ok ()
  rw [checked, check]
  refine Spares.bind ?_ fun _ _ => .ok _
  refine (spares_checkDeclared _ _ _).bind fun _ _ => ?_
  refine (spares_checkDeclared _ _ _).bind fun _ _ => ?_
  refine (spares_checkDeclared _ _ _).bind fun _ _ => ?_
  refine (spares_checkOverlap _).bind fun _ _ => ?_
  refine (spares_checkNames _).bind fun _ _ => ?_
  refine hSpecials.bind fun _ _ => ?_
  exact (spares_checkMustLet _).bind fun _ _ => spares_checkLets _ _ _

/-! ## Construction -/

private theorem spares_readForms (pairs : List (Value × Value)) :
    Spares (readForms pairs) := by
  induction pairs with
  | nil => exact .ok _
  | cons p pairs ih =>
      rw [readForms]
      refine (Form.spares_ofData p.1).bind fun form _ => ?_
      refine (Form.spares_check form true).bind fun _ _ => ?_
      exact ih.bind fun _ _ => .ok _

/-- New bindings for a well-formed fragment do not bring its specials up. -/
theorem spares_bindAll {f : Fragment} (hf : f.WellFormed)
    (pairs : List (Value × Value)) : Spares (f.bindAll pairs) := by
  rw [bindAll]
  split
  · exact .error rfl
  · exact (spares_readForms pairs).bind fun lets _ =>
      spares_checked (f := { f with lets }) hf.specials_declared

end Fragment

namespace Value

private theorem spares_asKeys (vs : List Value) : Spares (asKeys vs) := by
  rw [asKeys]
  split
  · exact .ok _
  · exact .error rfl

private theorem spares_pairsOf (vs : List Value) : Spares (pairsOf vs) := by
  induction vs with
  | nil => exact .ok _
  | cons v vs ih =>
      rw [pairsOf.eq_def]
      dsimp only
      split
      · exact .error rfl
      · split
        · exact ih.bind fun _ _ => .ok _
        · exact .error rfl
      · exact .error rfl

private theorem spares_asEntries (v : Value) : Spares v.asEntries := by
  rw [asEntries.eq_def]
  split
  · exact .ok _
  · split
    · exact .error rfl
    · exact (spares_pairsOf _).bind fun _ _ => .ok _

end Value

namespace Config

private theorem spares_asClauses (c : Config) : Spares c.asClauses := by
  rw [asClauses]
  split
  · exact .error rfl
  · exact .ok _

private theorem spares_asSelectivity (c : Config) : Spares c.asSelectivity := by
  rw [asSelectivity]
  split
  · exact .ok _
  · exact .error rfl

private theorem spares_asDeclared (c : Config) (declaration : String)
    (vs : List Value) : Spares (c.asDeclared declaration vs) := by
  induction vs with
  | nil => exact .ok _
  | cons v vs ih =>
      rw [asDeclared.eq_def]
      dsimp only
      split
      · exact .error (blamesSpecials_nameFault _)
      · split
        · exact ih.bind fun _ _ => .ok _
        · exact .error rfl
      · exact .error rfl

private theorem spares_asSymbol (v : Value) : Spares (asSymbol v) := by
  rw [asSymbol.eq_def]
  split
  · exact .ok _
  · exact .ok _
  · exact .ok _
  · exact .error rfl

private theorem spares_asSymbols (vs : List Value) : Spares (asSymbols vs) := by
  rw [asSymbols]
  refine (Spares.mapM fun v _ => ?_).bind fun _ _ => .ok _
  refine (spares_asSymbol v).bind fun s _ => ?_
  split
  · exact .ok _
  · exact .error rfl

end Config

namespace Fragment

/-- Parts that declare the specials of their clauses make a fragment, or are
refused for something else. -/
theorem spares_ofParts {c : Config} (clauses : List Clause)
    (hClauses : c.clauses = clauses.map Term.toValue)
    (h : ∀ n ∈ (Term.symbolsOf clauses).map Symbol.name, isSpecialName n = true →
      n ∈ namesOf c.require ∨ n ∈ namesOf c.provide) : Spares (ofParts c) := by
  rw [ofParts]
  refine (Value.spares_asKeys _).bind fun provideKeys hProvideKeys => ?_
  refine (Value.spares_asKeys _).bind fun requireKeys hRequireKeys => ?_
  refine (Value.spares_asKeys _).bind fun mustLetKeys _ => ?_
  refine (Value.spares_asEntries _).bind fun extra _ => ?_
  refine (Config.spares_asClauses _).bind fun clauses' hClauses' => ?_
  refine (Config.spares_asSelectivity _).bind fun selectivity _ => ?_
  refine (Config.spares_asDeclared _ _ _).bind fun provide hProvide => ?_
  refine (Config.spares_asDeclared _ _ _).bind fun require hRequire => ?_
  refine (Config.spares_asDeclared _ _ _).bind fun mustLet _ => ?_
  refine spares_checked fun n hn hSpecial => ?_
  obtain rfl := Config.eq_of_asClauses (by exact hClauses) hClauses'
  exact (h n hn hSpecial).imp (mem_names_of_asDeclared hRequireKeys hRequire n)
    (mem_names_of_asDeclared hProvideKeys hProvide n)

/-- Construction from a description never complains about undeclared specials. -/
theorem spares_ofConfig (c : Config) : Spares (ofConfig c) := by
  rw [ofConfig]
  refine (Config.spares_asSymbols _).bind fun provide _ => ?_
  refine (Config.spares_asSymbols _).bind fun explicit _ => ?_
  refine (spares_checkHeads _).bind fun _ _ => ?_
  refine (Spares.mapM fun v _ => Config.spares_asSymbol v).bind fun mustLet _ => ?_
  refine Spares.bind (spares_ofParts (c.clauses.map Value.toTerm) rfl ?_) ?_
  · intro n hn hSpecial
    exact mem_namesOf_of_found ((mem_foundSpecials _ n).mpr (.inr ⟨hn, hSpecial⟩))
  · intro made hMade
    dsimp only
    split
    · exact .ok _
    · exact (spares_bindAll (wellFormed_of_ofParts hMade) _).bind fun _ _ => .ok _

end Fragment

end DatalogFragments
