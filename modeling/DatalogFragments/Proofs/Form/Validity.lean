import DatalogFragments.Form.Arguments
import DatalogFragments.Form.Validity
import DatalogFragments.Proofs.Attempt
import DatalogFragments.Proofs.NameKind

/-!
# What a valid form looks like

The check of a binding form stops at the first fault from the left.  The forms
that it lets through are described here by their shape: below the top level
they are built from variables and placeholders by collections and by tuples
that bind something; at the top level a declarable symbol may stand on its own.

## Main results

* `Form.check_false_iff`, `Form.check_true_iff` — the check accepts exactly
  these shapes;
* `Form.Whole.variables` — a valid form is a special, or binds variables only;
* `Form.check_binds` — the valid forms that bind nothing;
* `Form.Whole.isProper`, `Form.ofData_toValue` — it consists of forms and is
  read from its value as it is;
* `Form.checkArgument_coll_eq_ok_iff`, `Form.checkArgument_tup_eq_ok_iff`,
  `Form.checkArguments_eq_ok_iff` — what a form asks of an argument.
-/

namespace DatalogFragments

namespace Form

/-- Induction along the nesting of forms. -/
theorem induct {P : Form → Prop} (hSym : ∀ s, P (.sym s))
    (hColl : ∀ f, P f → P (.coll f))
    (hTup : ∀ fs, (∀ f ∈ fs, P f) → P (.tup fs))
    (hStray : ∀ v, P (.stray v)) : ∀ f, P f
  | .sym s => hSym s
  | .coll f => hColl f (induct hSym hColl hTup hStray f)
  | .tup fs => hTup fs fun f _ => induct hSym hColl hTup hStray f
  | .stray v => hStray v

/-! ## Shapes -/

/-- A form that is valid below the top level and binds no special. -/
inductive Inner : Form → Prop
  | scalar {s : Name} (h : s.isVariable = true) : Inner (.sym s)
  | skip {s : Name} (h : s.name = placeholderName) : Inner (.sym s)
  | coll {f : Form} (h : Inner f) : Inner (.coll f)
  | tup {fs : List Form} (h : ∀ f ∈ fs, Inner f) (hBinds : symbolsOf fs ≠ []) :
      Inner (.tup fs)

/-- A form that is valid at the top level. -/
inductive Whole : Form → Prop
  | symbol {s : Name} (h : s.isDeclarable = true) : Whole (.sym s)
  | coll {f : Form} (h : Inner f) : Whole (.coll f)
  | tup {fs : List Form} (h : Inner (.tup fs)) : Whole (.tup fs)

private theorem special?_eq_none_iff (s : Name) :
    (Form.sym s).special? = none ↔ s.isSpecial = false := by
  rw [special?]
  split
  · rename_i h
    exact iff_of_false (by simp) (by simp [h])
  · rename_i h
    exact iff_of_true rfl (by simpa using h)

private theorem check_sym_iff (s : Name) :
    (Form.sym s).special? = none ∧ (Form.sym s).check false = .ok () ↔
      (Form.sym s).Inner := by
  rw [special?_eq_none_iff, check]
  constructor
  · rintro ⟨hSpecial, hCheck⟩
    split at hCheck
    · rename_i h
      simp only [Bool.not_false, Bool.and_true, decide_eq_true_eq] at h
      exact .skip h
    · split at hCheck
      · rename_i h
        rw [Symbol.isDeclarable, hSpecial, Bool.or_false] at h
        exact .scalar h
      · exact absurd hCheck (by simp [refuse])
  · intro h
    cases h with
    | scalar h =>
        refine ⟨isSpecialName_eq_false_of_variable h, ?_⟩
        rw [Symbol.isDeclarable, h, Bool.true_or]
        simp
    | skip h =>
        refine ⟨?_, by simp [h]⟩
        rw [Symbol.isSpecial, h]
        decide

private theorem checkItems_eq_ok_iff (fs : List Form) :
    checkItems fs = .ok () ↔
      ∀ f ∈ fs, f.special? = none ∧ f.check false = .ok () := by
  induction fs with
  | nil => simp [checkItems]
  | cons f fs ih =>
      rw [checkItems, List.forall_mem_cons, ← ih]
      cases hs : f.special? with
      | some s => simp [refuse]
      | none => simp only [true_and, then_eq_ok_iff]

private theorem check_tup_iff {top : Bool} {fs : List Form}
    (ih : ∀ f ∈ fs, (f.special? = none ∧ f.check false = .ok () ↔ f.Inner)) :
    (Form.tup fs).check top = .ok () ↔ (Form.tup fs).Inner := by
  have hItems : checkItems fs = .ok () ↔ ∀ f ∈ fs, f.Inner := by
    rw [checkItems_eq_ok_iff]
    exact forall₂_congr ih
  rw [check]
  constructor
  · intro h
    split at h
    · exact absurd h (by simp [refuse])
    · rw [then_eq_ok_iff, hItems] at h
      obtain ⟨hInner, hBinds⟩ := h
      split at hBinds
      · exact absurd hBinds (by simp [refuse])
      · rename_i hne
        exact .tup hInner (by simpa using hne)
  · intro h
    cases h with
    | tup h hBinds =>
        have hne : fs ≠ [] := by
          rintro rfl
          exact hBinds rfl
        rw [if_neg (by simpa using hne), then_eq_ok_iff, hItems,
          if_neg (by simpa using hBinds)]
        exact ⟨h, rfl⟩

/-- Below the top level the check accepts exactly the inner forms, specials
apart. -/
theorem check_false_iff (f : Form) :
    f.special? = none ∧ f.check false = .ok () ↔ f.Inner := by
  induction f using Form.induct with
  | hSym s => exact check_sym_iff s
  | hColl f ih =>
      rw [check]
      constructor
      · rintro ⟨-, h⟩
        cases hs : f.special? with
        | some s => exact absurd h (by simp [hs, refuse])
        | none => exact .coll (ih.mp ⟨hs, by simpa [hs] using h⟩)
      · intro h
        cases h with
        | coll h =>
            obtain ⟨hs, hc⟩ := ih.mpr h
            exact ⟨rfl, by simpa [hs] using hc⟩
  | hTup fs ih =>
      rw [check_tup_iff ih]
      exact and_iff_right rfl
  | hStray v =>
      refine iff_of_false ?_ (fun h => nomatch h)
      rintro ⟨-, h⟩
      cases v <;> simp [check, refuseStray, refuse] at h

/-- At the top level the check accepts exactly the whole forms. -/
theorem check_true_iff (f : Form) : f.check true = .ok () ↔ f.Whole := by
  cases f with
  | sym s =>
      rw [check]
      constructor
      · intro h
        simp only [Bool.not_true, Bool.and_false, Bool.false_eq_true,
          if_false] at h
        split at h
        · rename_i hd
          exact .symbol hd
        · exact absurd h (by simp [refuse])
      · intro h
        cases h with
        | symbol h => simp [h]
  | coll f =>
      have hInner := check_false_iff (.coll f)
      constructor
      · intro h
        have h' := hInner.mp ⟨rfl, by rw [check] at h ⊢; exact h⟩
        cases h' with
        | coll h => exact .coll h
      · intro h
        cases h with
        | coll h =>
            have h' := (hInner.mpr (.coll h)).2
            rw [check] at h' ⊢
            exact h'
  | tup fs =>
      rw [check_tup_iff fun f _ => check_false_iff f]
      constructor
      · exact .tup
      · intro h
        cases h with
        | tup h => exact h
  | stray v =>
      refine iff_of_false ?_ (fun h => nomatch h)
      intro h
      cases v <;> simp [check, refuseStray, refuse] at h

/-! ## What a valid form binds -/

theorem mem_symbolsOf {s : Name} {fs : List Form} :
    s ∈ symbolsOf fs ↔ ∃ f ∈ fs, s ∈ f.symbols := by
  rw [symbolsOf_eq_flatMap, List.mem_flatMap]

/-- An inner form binds variables only. -/
theorem Inner.variables {f : Form} (h : f.Inner) :
    ∀ s ∈ f.symbols, s.isVariable = true := by
  induction h with
  | @scalar s h =>
      intro t ht
      rw [symbols, if_neg (ne_placeholder_of_variable h)] at ht
      rw [List.mem_singleton.mp ht]
      exact h
  | skip h =>
      intro t ht
      rw [symbols, if_pos h] at ht
      exact absurd ht List.not_mem_nil
  | coll _ ih => exact ih
  | tup _ _ ih =>
      intro t ht
      obtain ⟨f, hf, hs⟩ := mem_symbolsOf.mp ht
      exact ih f hf t hs

/-- A valid form is a special or binds variables only. -/
theorem Whole.variables {f : Form} (h : f.Whole) :
    (∃ s : Name, f = .sym s ∧ s.isSpecial = true) ∨
      f.special? = none ∧ ∀ s ∈ f.symbols, s.isVariable = true := by
  cases h with
  | @symbol s h =>
      by_cases hs : s.isSpecial = true
      · exact .inl ⟨s, rfl, hs⟩
      · rw [Bool.not_eq_true] at hs
        rw [Symbol.isDeclarable, hs, Bool.or_false] at h
        exact .inr ⟨(special?_eq_none_iff s).mpr hs, (Inner.scalar h).variables⟩
  | coll h => exact .inr ⟨rfl, (Inner.coll h).variables⟩
  | tup h => exact .inr ⟨rfl, h.variables⟩

/-- A symbol that can be declared has no name that cannot. -/
theorem name_ne_of_declarable {s : Name} {n : String} (h : s.isDeclarable = true)
    (hn : (isVariableName n || isSpecialName n) = false) : s.name ≠ n := by
  rintro rfl
  exact Bool.noConfusion (h.symm.trans hn)

/-- A form that is a special binds it. -/
theorem symbols_of_special {s : Name} (h : s.isSpecial = true) :
    (Form.sym s).symbols = [s] := by
  have hDeclarable : s.isDeclarable = true := by rw [Symbol.isDeclarable, h, Bool.or_true]
  rw [symbols, if_neg (name_ne_of_declarable hDeclarable (by decide))]

/-- A placeholder, under as many collections as there are. -/
def isSkip : Form → Bool
  | .sym s => s.name == placeholderName
  | .coll f => f.isSkip
  | _ => false

private theorem inner_of_isSkip {f : Form} (h : f.isSkip = true) :
    f.Inner ∧ f.symbols = [] := by
  induction f using Form.induct with
  | hSym s =>
      have hName : s.name = placeholderName := by simpa [isSkip] using h
      exact ⟨.skip hName, by rw [symbols, if_pos hName]⟩
  | hColl f ih =>
      obtain ⟨hInner, hNone⟩ := ih h
      exact ⟨.coll hInner, hNone⟩
  | hTup fs ih => cases h
  | hStray v => cases h

/-- An inner form binds a variable unless all there is to it is a placeholder. -/
theorem Inner.symbols_eq_nil_iff {f : Form} (h : f.Inner) :
    f.symbols = [] ↔ f.isSkip = true := by
  refine ⟨fun hNone => ?_, fun hSkip => (inner_of_isSkip hSkip).2⟩
  induction h with
  | @scalar s hs =>
      rw [symbols, if_neg (ne_placeholder_of_variable hs)] at hNone
      cases hNone
  | @skip s hs => simp [isSkip, hs]
  | coll _ ih => exact ih hNone
  | tup _ hBinds _ => exact absurd hNone hBinds

/-- A valid form is a special, or binds variables only.  It binds at least one,
except that a placeholder below the top level is let through as all there is to
a collection. -/
theorem check_binds (f : Form) :
    (f.check true = .ok () →
      (∃ s : Name, f = .sym s ∧ s.isSpecial = true) ∨
        ∀ s ∈ f.symbols, s.isVariable = true) ∧
    (f.check true = .ok () ∧ f.symbols = [] ↔ ∃ g : Form, f = .coll g ∧ g.isSkip = true) := by
  rw [check_true_iff]
  refine ⟨fun h => h.variables.imp_right And.right, ?_, ?_⟩
  · rintro ⟨hWhole, hNone⟩
    cases hWhole with
    | @symbol s hs =>
        rw [symbols, if_neg (name_ne_of_declarable hs (by decide))] at hNone
        cases hNone
    | @coll f h => exact ⟨f, rfl, h.symbols_eq_nil_iff.mp hNone⟩
    | tup h =>
        cases h with
        | tup _ hBinds => exact absurd hNone hBinds
  · rintro ⟨g, rfl, hSkip⟩
    obtain ⟨hInner, hNone⟩ := inner_of_isSkip hSkip
    exact ⟨.coll hInner, hNone⟩

/-- Rows of which only the first column counts. -/
def firstColumn : Form :=
  .coll (.tup [.sym (Symbol.plain "?a"), .sym (Symbol.plain placeholderName)])

theorem check_binds_firstColumn :
    firstColumn.check true = .ok () ∧ firstColumn.symbols ≠ [] ∧
      ∀ s ∈ firstColumn.symbols, s.isVariable = true := by
  obtain ⟨hVariables, hNothing⟩ := check_binds firstColumn
  have hCheck : firstColumn.check true = .ok () := rfl
  refine ⟨hCheck, fun hNone => ?_, (hVariables hCheck).resolve_left ?_⟩
  · obtain ⟨g, hg, hSkip⟩ := hNothing.mp ⟨hCheck, hNone⟩
    cases hg
    cases hSkip
  · rintro ⟨s, hs, -⟩
    cases hs

/-- A collection whose members are skipped is valid and binds nothing. -/
theorem check_skipped_collection :
    (Form.coll (.sym (Symbol.plain placeholderName))).check true = .ok () ∧
    (¬ ∃ s : Name, Form.coll (.sym (Symbol.plain placeholderName)) = .sym s ∧
      s.isSpecial = true) ∧
    (Form.coll (.sym (Symbol.plain placeholderName))).symbols = [] := by
  refine ⟨rfl, ?_, rfl⟩
  rintro ⟨s, hs, -⟩
  cases hs

/-! ## Proper forms -/

theorem toValues_eq_map (fs : List Form) : toValues fs = fs.map toValue := by
  induction fs with
  | nil => rfl
  | cons f fs ih => rw [toValues, ih, List.map_cons]

theorem areProper_eq_true_iff (fs : List Form) :
    areProper fs = true ↔ ∀ f ∈ fs, f.isProper = true := by
  induction fs with
  | nil => simp [areProper]
  | cons f fs ih => rw [areProper, Bool.and_eq_true, ih, List.forall_mem_cons]

private theorem Inner.isProper {f : Form} (h : f.Inner) :
    f.isProper = true := by
  induction h with
  | scalar _ => rfl
  | skip _ => rfl
  | coll _ ih => exact ih
  | tup _ _ ih => exact (areProper_eq_true_iff _).mpr ih

/-- Every part of a valid form is a form. -/
theorem Whole.isProper {f : Form} (h : f.Whole) : f.isProper = true := by
  cases h with
  | symbol _ => rfl
  | coll h => exact h.isProper
  | tup h => exact h.isProper

/-! ## Forms as values -/

private theorem ofValues_eq_map (vs : List Value) : ofValues vs = vs.map ofValue := by
  induction vs with
  | nil => rfl
  | cons v vs ih => rw [ofValues, ih, List.map_cons]

/-- A form is read from its value as it is. -/
theorem ofValue_toValue {f : Form} (h : f.isProper = true) :
    ofValue f.toValue = f := by
  induction f using Form.induct with
  | hSym s => rw [toValue, Value.ofName, ofValue]
  | hColl f ih => rw [toValue, ofValue, ih h]
  | hTup fs ih =>
      have hEach := (areProper_eq_true_iff fs).mp h
      rw [toValue, ofValue, toValues_eq_map, ofValues_eq_map, List.map_map]
      congr 1
      exact (List.map_congr_left fun f hf => ih f hf (hEach f hf)).trans (List.map_id' _)
  | hStray v => cases h

theorem ofData_toValue {f : Form} (h : f.isProper = true) :
    ofData f.toValue = .ok f := by
  have hValue := ofValue_toValue h
  cases f with
  | sym s => rw [toValue, Value.ofName, ofData]
  | coll f =>
      rw [toValue, ofValue] at hValue
      rw [toValue, ofData, hValue]
  | tup fs =>
      rw [toValue, ofValue] at hValue
      rw [toValue, ofData, hValue]
  | stray v => cases h

/-! ## Arguments -/

/-- Arguments fit iff every position that has one fits. -/
theorem checkArguments_eq_ok_iff (fs : List Form) (vs : List Value) :
    checkArguments fs vs = .ok () ↔
      ∀ p ∈ fs.zip vs, checkArgument p.1 p.2 = .ok () := by
  induction fs generalizing vs with
  | nil => simp [checkArguments]
  | cons f fs ih =>
      cases vs with
      | nil => simp [checkArguments]
      | cons v vs =>
          rw [checkArguments, then_eq_ok_iff, ih, List.zip_cons_cons,
            List.forall_mem_cons]

/-- What a collection form asks of an argument. -/
theorem checkArgument_coll_eq_ok_iff (f : Form) (v : Value) :
    (coll f).checkArgument v = .ok () ↔ v.isCollection = true ∧
      (f.isSymbol = false → ∀ x ∈ v.positions?.getD [], f.checkArgument x = .ok ()) := by
  rw [checkArgument]
  cases v.isCollection with
  | false => simp [refuse]
  | true =>
      rw [Bool.not_true, if_neg Bool.false_ne_true, and_iff_right rfl]
      cases f.isSymbol with
      | true => exact iff_of_true rfl fun h => nomatch h
      | false =>
          rw [if_neg Bool.false_ne_true, forM_eq_ok_iff]
          exact ⟨fun hEach _ => hEach, fun hEach => hEach rfl⟩

/-- What a tuple form asks of an argument. -/
theorem checkArgument_tup_eq_ok_iff (fs : List Form) (v : Value) :
    (tup fs).checkArgument v = .ok () ↔ v.isCollection = true ∧
      v.size?.any (· != fs.length) = false ∧
      checkArguments fs (v.positions?.getD []) = .ok () := by
  rw [checkArgument]
  cases v.isCollection with
  | false => simp [refuse]
  | true =>
      cases v.size?.any (· != fs.length) with
      | true => simp [refuse]
      | false => simp

end Form

end DatalogFragments
