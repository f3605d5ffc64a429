import DatalogFragments.Fragment.Construction
import DatalogFragments.Proofs.Form.Validity
import DatalogFragments.Proofs.Fragment.Names

/-!
# What construction guarantees

`Fragment.Valid` says that construction leaves a fragment as it is.  The
checks that it runs, in order and with the first fault counting, amount to the
conditions of `Fragment.WellFormed`, all of them about names and shapes.

## Main results

* `Fragment.valid_iff` — a fragment is valid iff it is well formed;
* `Fragment.WellFormed.checked_eq` — construction accepts what is well formed;
* `Fragment.WellFormed.let_cases` — a bound symbol is a special, a provided
  variable, or a private one.
-/

namespace DatalogFragments

namespace Fragment

/-- The conditions on a fragment that construction establishes. -/
structure WellFormed (f : Fragment) : Prop where
  provide_nodup : f.provideNames.Nodup
  require_nodup : f.requireNames.Nodup
  mustLet_nodup : f.mustLetNames.Nodup
  provide_declarable : ∀ n ∈ f.provideNames, isDeclarableName n = true
  require_declarable : ∀ n ∈ f.requireNames, isDeclarableName n = true
  mustLet_declarable : ∀ n ∈ f.mustLetNames, isDeclarableName n = true
  disjoint : ∀ n ∈ f.provideNames, n ∉ f.requireNames
  wellNamed : Term.misnamedNamesOf f.clauses = []
  specials_declared : ∀ n ∈ f.clauseNames, isSpecialName n = true →
    n ∈ f.requireNames ∨ n ∈ f.provideNames
  mustLet_bindable : ∀ n ∈ f.mustLetNames, n ∈ f.bindableNames
  forms_whole : ∀ p ∈ f.lets, p.1.Whole
  arguments_fit : ∀ p ∈ f.lets, p.1.checkArgument p.2 = .ok ()
  let_bindable : ∀ n ∈ f.letNames, n ∈ f.bindableNames
  let_nodup : f.letNames.Nodup

/-! ## The single checks -/

private theorem refuse_ne_ok {α : Type} {f : Fragment} {cause : Cause}
    {unmet : List Name} {a : α} : f.refuse cause unmet ≠ .ok a := by
  intro h
  cases h

private theorem checkDeclared_eq_ok_iff (f : Fragment) (declaration : String)
    (l : List Name) :
    f.checkDeclared declaration l = .ok () ↔
      ∀ n ∈ l.map Symbol.name, isDeclarableName n = true := by
  rw [checkDeclared, List.forall_mem_map]
  cases hFound : l.find? fun s => !s.isDeclarable with
  | some s =>
      refine iff_of_false refuse_ne_ok fun hAll => ?_
      have hs := List.find?_some hFound
      have hTrue := hAll s (List.mem_of_find?_eq_some hFound)
      rw [Symbol.isDeclarable_eq, hTrue] at hs
      exact Bool.noConfusion hs
  | none =>
      refine iff_of_true rfl fun s hs => ?_
      have hNot := List.find?_eq_none.mp hFound s hs
      simpa [Symbol.isDeclarable_eq] using hNot

/-- A check that refuses a list of symbols goes through iff the list is empty. -/
private theorem blaming_eq_ok_iff (check : Except Fault Unit) (f : Fragment)
    (cause : Cause) (l : List Name)
    (h : check = match l with
      | [] => .ok ()
      | blamed => f.refuse cause blamed) : check = .ok () ↔ l = [] := by
  rw [h]
  cases l with
  | nil => exact iff_of_true rfl rfl
  | cons s ss => exact iff_of_false refuse_ne_ok (List.cons_ne_nil s ss)

private theorem checkOverlap_eq_ok_iff (f : Fragment) :
    f.checkOverlap = .ok () ↔ ∀ n ∈ f.provideNames, n ∉ f.requireNames := by
  rw [blaming_eq_ok_iff f.checkOverlap f (.providedAndRequired f.name)
    (f.provide.filter fun s => s.isIn f.require) rfl, List.filter_eq_nil_iff,
    provideNames, List.forall_mem_map]
  exact forall₂_congr fun s _ => not_congr (isIn_iff s f.require)

private theorem checkNames_eq_ok_iff (clauses : List Clause) :
    checkNames clauses = .ok () ↔ Term.misnamedNamesOf clauses = [] := by
  rw [checkNames, namesFault?]
  cases Term.misnamedNamesOf clauses with
  | nil => exact iff_of_true rfl rfl
  | cons n ns =>
      refine iff_of_false ?_ (List.cons_ne_nil n ns)
      dsimp only
      split <;> rename_i h
      · exact fun h' => nomatch h'
      · split at h <;> exact absurd h (by simp)

theorem checkSpecials_eq_ok_iff (f : Fragment) :
    f.checkSpecials = .ok () ↔
      ∀ n ∈ f.clauseNames, isSpecialName n = true →
        n ∈ f.requireNames ∨ n ∈ f.provideNames := by
  rw [blaming_eq_ok_iff f.checkSpecials f (.specialsUndeclared f.name)
    (f.freeSymbols.filter fun s =>
      s.isSpecial && !s.isIn f.require && !s.isIn f.provide) rfl,
    List.filter_eq_nil_iff]
  have hPred : ∀ s : Name,
      ¬(s.isSpecial && !s.isIn f.require && !s.isIn f.provide) = true ↔
        (isSpecialName s.name = true →
          s.name ∈ f.requireNames ∨ s.name ∈ f.provideNames) := by
    intro s
    rw [Symbol.isSpecial, requireNames, provideNames, ← isIn_iff, ← isIn_iff]
    cases isSpecialName s.name <;> cases s.isIn f.require <;>
      cases s.isIn f.provide <;> simp
  constructor
  · intro h n hn hs
    have hFree : n ∈ f.freeNames :=
      (mem_freeNames f n).mpr ⟨hn, isDeclarableName_of_special hs⟩
    obtain ⟨s, hMem, rfl⟩ := List.mem_map.mp hFree
    exact (hPred s).mp (h s hMem) hs
  · intro h s hs
    rw [hPred]
    exact h s.name ((mem_freeNames f s.name).mp (List.mem_map_of_mem hs)).1

private theorem checkMustLet_eq_ok_iff (f : Fragment) :
    f.checkMustLet = .ok () ↔ ∀ n ∈ f.mustLetNames, n ∈ f.bindableNames := by
  rw [blaming_eq_ok_iff f.checkMustLet f (.mustLetNotBindable f.name)
    (f.mustLet.filter fun s => !s.isIn f.bindableSymbols) rfl,
    List.filter_eq_nil_iff, mustLetNames, List.forall_mem_map]
  refine forall₂_congr fun s _ => ?_
  rw [bindableNames, ← isIn_iff]
  cases s.isIn f.bindableSymbols <;> simp

/-! ## Bindings -/

private theorem checkBound_eq_ok_iff (f : Fragment) (bound l bound' : List Name) :
    f.checkBound bound l = .ok bound' ↔
      (∀ n ∈ l.map Symbol.name, n ∈ f.bindableNames) ∧
        (l.map Symbol.name).Nodup ∧
        (∀ n ∈ l.map Symbol.name, n ∉ bound.map Symbol.name) ∧
        bound' = l.reverse ++ bound := by
  induction l generalizing bound with
  | nil => simp [checkBound, eq_comm]
  | cons s l ih =>
      rw [checkBound, List.map_cons, List.forall_mem_cons, List.nodup_cons,
        List.forall_mem_cons]
      by_cases hBindable : s.name ∈ f.bindableNames
      · by_cases hBound : s.name ∈ bound.map Symbol.name
        · have hIn := (isIn_iff s bound).mpr hBound
          refine iff_of_false ?_ fun h => h.2.2.1.1 hBound
          rw [(isIn_iff s f.bindableSymbols).mpr hBindable, hIn]
          exact refuse_ne_ok
        · rw [(isIn_iff s f.bindableSymbols).mpr hBindable,
            (isIn_eq_false_iff s bound).mpr hBound]
          simp only [Bool.not_true, Bool.false_eq_true, if_false]
          rw [ih]
          simp only [List.map_cons, List.mem_cons, not_or, List.reverse_cons,
            List.append_assoc, List.singleton_append]
          constructor
          · rintro ⟨hB, hN, hD, hEq⟩
            refine ⟨⟨hBindable, hB⟩, ⟨?_, hN⟩, ⟨hBound, fun n hn => (hD n hn).2⟩, hEq⟩
            intro hMem
            exact (hD s.name hMem).1 rfl
          · rintro ⟨⟨-, hB⟩, ⟨hNew, hN⟩, ⟨-, hD⟩, hEq⟩
            refine ⟨hB, hN, fun n hn => ⟨?_, hD n hn⟩, hEq⟩
            rintro rfl
            exact hNew hn
      · refine iff_of_false ?_ fun h => hBindable h.1.1
        rw [(isIn_eq_false_iff s f.bindableSymbols).mpr hBindable]
        exact refuse_ne_ok

/-- The bindings go through iff their forms are valid, their arguments fit, and
everything they bind can be bound here and is bound once. -/
private theorem checkLets_eq_ok_iff (f : Fragment) (bound : List Name)
    (lets : List (Form × Value)) :
    f.checkLets bound lets = .ok () ↔
      (∀ p ∈ lets, p.1.Whole ∧ p.1.checkArgument p.2 = .ok ()) ∧
        (∀ n ∈ (lets.flatMap fun p => p.1.symbols).map Symbol.name,
          n ∈ f.bindableNames ∧ n ∉ bound.map Symbol.name) ∧
        ((lets.flatMap fun p => p.1.symbols).map Symbol.name).Nodup := by
  induction lets generalizing bound with
  | nil => simp [checkLets]
  | cons p lets ih =>
      obtain ⟨form, value⟩ := p
      rw [checkLets, then_eq_ok_iff, bind_eq_ok_iff, List.forall_mem_cons,
        List.flatMap_cons, List.map_append, List.forall_mem_append,
        List.nodup_append, Form.check_true_iff]
      simp only [then_eq_ok_iff, ih, checkBound_eq_ok_iff]
      constructor
      · rintro ⟨hWhole, bound', ⟨hB, hN, hD, rfl⟩, hFit, hRest, hMem, hNodup⟩
        refine ⟨⟨⟨hWhole, hFit⟩, hRest⟩,
          ⟨fun n hn => ⟨hB n hn, hD n hn⟩, fun n hn => ⟨(hMem n hn).1, ?_⟩⟩,
          hN, hNodup, ?_⟩
        · intro hBound
          refine (hMem n hn).2 ?_
          rw [List.map_append]
          exact List.mem_append_right _ hBound
        · rintro n hn m hm rfl
          refine (hMem n hm).2 ?_
          rw [List.map_append, List.map_reverse]
          exact List.mem_append_left _ (List.mem_reverse.mpr hn)
      · rintro ⟨⟨⟨hWhole, hFit⟩, hRest⟩, ⟨hHead, hTail⟩, hN, hNodup, hApart⟩
        refine ⟨hWhole, _, ⟨fun n hn => (hHead n hn).1, hN,
          fun n hn => (hHead n hn).2, rfl⟩, hFit, hRest, ?_, hNodup⟩
        intro n hn
        refine ⟨(hTail n hn).1, ?_⟩
        rw [List.map_append, List.map_reverse, List.mem_append, List.mem_reverse]
        rintro (h | h)
        · exact hApart n h n hn rfl
        · exact (hTail n hn).2 h

/-! ## The whole check -/

private theorem check_eq_ok_iff (f : Fragment)
    (hProvide : f.provideNames.Nodup) (hRequire : f.requireNames.Nodup)
    (hMustLet : f.mustLetNames.Nodup) :
    f.check = .ok () ↔ f.WellFormed := by
  rw [check]
  simp only [then_eq_ok_iff, checkDeclared_eq_ok_iff, checkOverlap_eq_ok_iff,
    checkNames_eq_ok_iff, checkSpecials_eq_ok_iff, checkMustLet_eq_ok_iff,
    checkLets_eq_ok_iff]
  constructor
  · rintro ⟨hP, hR, hM, hO, hW, hS, hB, hLets, hBind, hNodup⟩
    exact
      { provide_nodup := hProvide
        require_nodup := hRequire
        mustLet_nodup := hMustLet
        provide_declarable := hP
        require_declarable := hR
        mustLet_declarable := hM
        disjoint := hO
        wellNamed := hW
        specials_declared := hS
        mustLet_bindable := hB
        forms_whole := fun p hp => (hLets p hp).1
        arguments_fit := fun p hp => (hLets p hp).2
        let_bindable := fun n hn => (hBind n hn).1
        let_nodup := hNodup }
  · intro h
    exact ⟨h.provide_declarable, h.require_declarable, h.mustLet_declarable,
      h.disjoint, h.wellNamed, h.specials_declared, h.mustLet_bindable,
      fun p hp => ⟨h.forms_whole p hp, h.arguments_fit p hp⟩,
      fun n hn => ⟨h.let_bindable n hn, List.not_mem_nil⟩, h.let_nodup⟩

theorem distinct_eq_self_iff (f : Fragment) :
    f.distinct = f ↔
      f.provideNames.Nodup ∧ f.requireNames.Nodup ∧ f.mustLetNames.Nodup := by
  rw [provideNames, requireNames, mustLetNames, ← distinctNames_eq_self_iff,
    ← distinctNames_eq_self_iff, ← distinctNames_eq_self_iff, distinct]
  constructor
  · intro h
    exact ⟨congrArg provide h, congrArg require h, congrArg mustLet h⟩
  · rintro ⟨hP, hR, hM⟩
    rw [hP, hR, hM]

/-- Construction accepts a fragment whose distinct form is well formed. -/
theorem checked_eq_ok_iff (f g : Fragment) :
    f.checked = .ok g ↔ g = f.distinct ∧ g.WellFormed := by
  have hNodup : f.distinct.provideNames.Nodup ∧ f.distinct.requireNames.Nodup ∧
      f.distinct.mustLetNames.Nodup :=
    ⟨nodup_names_distinctNames _, nodup_names_distinctNames _,
      nodup_names_distinctNames _⟩
  rw [checked, then_eq_ok_iff,
    check_eq_ok_iff f.distinct hNodup.1 hNodup.2.1 hNodup.2.2]
  constructor
  · rintro ⟨h, hEq⟩
    cases hEq
    exact ⟨rfl, h⟩
  · rintro ⟨rfl, h⟩
    exact ⟨h, rfl⟩

/-- A fragment is valid iff it is well formed. -/
theorem valid_iff (f : Fragment) : f.Valid ↔ f.WellFormed := by
  rw [Valid, checked_eq_ok_iff]
  constructor
  · exact And.right
  · intro h
    have hDistinct := (distinct_eq_self_iff f).mpr
      ⟨h.provide_nodup, h.require_nodup, h.mustLet_nodup⟩
    exact ⟨hDistinct.symm, h⟩

namespace WellFormed

variable {f : Fragment}

/-- Construction leaves a well-formed fragment as it is. -/
theorem checked_eq (h : f.WellFormed) : f.checked = .ok f :=
  (valid_iff f).mpr h

/-- What is bound is not required. -/
theorem let_not_required (h : f.WellFormed) {n : String} (hn : n ∈ f.letNames) :
    n ∉ f.requireNames :=
  ((mem_bindableNames f n).mp (h.let_bindable n hn)).2

/-- What is bound and no special is a variable. -/
theorem variable_of_let (h : f.WellFormed) {n : String} (hn : n ∈ f.letNames)
    (hSpecial : isSpecialName n = false) : isVariableName n = true := by
  have hDeclarable : isDeclarableName n = true := by
    rcases ((mem_bindableNames f n).mp (h.let_bindable n hn)).1 with hFree | hp
    · exact ((mem_freeNames f n).mp hFree).2
    · exact h.provide_declarable n hp
  rw [isDeclarableName, hSpecial, Bool.or_false] at hDeclarable
  exact hDeclarable

/-- A bound variable is provided or private. -/
theorem let_cases (h : f.WellFormed) {n : String} (hn : n ∈ f.letNames)
    (hv : isVariableName n = true) :
    n ∈ f.provideNames ∨ n ∈ f.privateNames := by
  by_cases hp : n ∈ f.provideNames
  · exact .inl hp
  · exact .inr ((mem_privateNames f n).mpr
      ⟨.inr hn, hv, hp, h.let_not_required hn⟩)

end WellFormed

end Fragment

end DatalogFragments
