import DatalogFragments.Proofs.Attempt
import DatalogFragments.Proofs.Fragment.WellFormed

/-!
# Fragments from descriptions

A description of clauses with provided and required symbols makes a fragment
that additionally requires the specials found in the clauses, unless they are
declared.  This file gives the fragment in closed form and says when it is
well formed, for descriptions without must-let symbols and bindings.

## Main results

* `Term.misnamedBody?_eq_none` — clauses whose symbols all have names;
* `Fragment.inferred` — the described fragment;
* `Fragment.wellFormed_inferred` — when it is well formed;
* `Fragment.ofConfig_eq_ok` — it is what construction returns;
* `Fragment.ofParts_describe`, `Fragment.ofConfig_describe` — a fragment is made
  from its description, with inferred specials left out or not.
-/

namespace DatalogFragments

/-! ## Symbols with names -/

namespace Term

mutual

private theorem misnamedHead?_eq_none :
    ∀ t : Clause, misnamedNames t = [] → misnamedHead? t = none
  | .sym s, _ => rfl
  | .lit v i, _ => rfl
  | .stray v, _ => rfl
  | .vec [] i, _ => rfl
  | .vec (x :: xs) i, h => by
      rw [misnamedNames, misnamedNamesOf, List.append_eq_nil_iff] at h
      rw [misnamedHead?, List.head?_cons, Option.bind_some]
      cases x with
      | stray v =>
          cases v with
          | misnamed n i => exact absurd h.1 (by simp [misnamedNames])
          | _ => rfl
      | _ => rfl
  | .seq xs i, h => by
      rw [misnamedNames] at h
      rw [misnamedHead?]
      exact misnamedCall?_eq_none true xs h

private theorem misnamedCall?_eq_none (start : Bool) :
    ∀ xs : List Clause, misnamedNamesOf xs = [] → misnamedCall? start xs = none
  | [], _ => by simp [misnamedCall?]
  | .sym s :: rest, h => by
      rw [misnamedNamesOf, List.append_eq_nil_iff] at h
      rw [misnamedCall?, misnamedCall?_eq_none false rest h.2,
        misnamedBody?_eq_none rest h.2, misnamedJoin?_eq_none rest h.2]
      simp
  | .seq ys i :: rest, _ => by simp [misnamedCall?]
  | .vec ys i :: rest, _ => by simp [misnamedCall?]
  | .lit v i :: rest, _ => by simp [misnamedCall?]
  | .stray v :: rest, h => by
      rw [misnamedNamesOf, List.append_eq_nil_iff] at h
      cases v with
      | misnamed n i => exact absurd h.1 (by simp [misnamedNames])
      | _ => simp [misnamedCall?]

private theorem misnamedJoin?_eq_none :
    ∀ xs : List Clause, misnamedNamesOf xs = [] → misnamedJoin? xs = none
  | [], _ => rfl
  | _ :: body, h => by
      rw [misnamedNamesOf, List.append_eq_nil_iff] at h
      rw [misnamedJoin?]
      exact misnamedBody?_eq_none body h.2

/-- Where all symbols have names, the search for specials finds no other. -/
theorem misnamedBody?_eq_none :
    ∀ ts : List Clause, misnamedNamesOf ts = [] → misnamedBody? ts = none
  | [], _ => rfl
  | t :: ts, h => by
      rw [misnamedNamesOf, List.append_eq_nil_iff] at h
      rw [misnamedBody?, misnamedHead?_eq_none t h.1,
        misnamedBody?_eq_none ts h.2]
      rfl

end

/-! ## Implied specials -/

private theorem patternSpecials_special (b : Bool) (xs : List Clause) :
    ∀ n ∈ patternSpecials b xs, isSpecialName n = true := by
  have hDefault : ∀ c : Bool, ∀ n ∈ (if c then [] else [defaultDatasource]),
      isSpecialName n = true := by
    intro c n hn
    cases c with
    | true => exact absurd hn List.not_mem_nil
    | false =>
        rw [if_neg Bool.false_ne_true, List.mem_singleton] at hn
        rw [hn]
        decide
  intro n hn
  unfold patternSpecials at hn
  split at hn
  · exact absurd hn List.not_mem_nil
  · exact absurd hn List.not_mem_nil
  · exact absurd hn List.not_mem_nil
  · exact hDefault _ n hn
  · exact hDefault _ n hn

mutual

private theorem clauseSpecials_special (b : Bool) :
    ∀ t : Clause, ∀ n ∈ clauseSpecials b t, isSpecialName n = true
  | .sym s, n, hn => absurd hn List.not_mem_nil
  | .lit v i, n, hn => absurd hn List.not_mem_nil
  | .stray v, n, hn => absurd hn List.not_mem_nil
  | .vec xs i, n, hn => by
      rw [clauseSpecials] at hn
      exact patternSpecials_special b xs n hn
  | .seq xs i, n, hn => by
      rw [clauseSpecials] at hn
      exact callSpecials_special b true xs n hn

private theorem callSpecials_special (b start : Bool) :
    ∀ xs : List Clause, ∀ n ∈ callSpecials b start xs, isSpecialName n = true
  | .sym s :: rest, n, hn => by
      rw [callSpecials] at hn
      split at hn
      · exact callSpecials_special true false rest n hn
      · split at hn
        · exact absurd hn List.not_mem_nil
        · split at hn
          · exact bodySpecials_special b rest n hn
          · split at hn
            · exact joinSpecials_special b rest n hn
            · rw [List.mem_singleton.mp hn]
              decide
  | [], n, hn => absurd hn (by simp [callSpecials])
  | .seq ys i :: rest, n, hn => absurd hn (by simp [callSpecials])
  | .vec ys i :: rest, n, hn => absurd hn (by simp [callSpecials])
  | .lit v i :: rest, n, hn => absurd hn (by simp [callSpecials])
  | .stray v :: rest, n, hn => absurd hn (by simp [callSpecials])

private theorem joinSpecials_special (b : Bool) :
    ∀ xs : List Clause, ∀ n ∈ joinSpecials b xs, isSpecialName n = true
  | [], n, hn => absurd hn List.not_mem_nil
  | _ :: body, n, hn => by
      rw [joinSpecials] at hn
      exact bodySpecials_special b body n hn

/-- What clauses imply are specials. -/
theorem bodySpecials_special (b : Bool) :
    ∀ xs : List Clause, ∀ n ∈ bodySpecials b xs, isSpecialName n = true
  | [], n, hn => absurd hn List.not_mem_nil
  | t :: ts, n, hn => by
      rw [bodySpecials, List.mem_append] at hn
      rcases hn with hn | hn
      · exact clauseSpecials_special b t n hn
      · exact bodySpecials_special b ts n hn

end

/-- Clauses imply what the single ones imply. -/
theorem mem_bodySpecials {b : Bool} {ts : List Clause} {n : String} :
    n ∈ bodySpecials b ts ↔ ∃ t ∈ ts, n ∈ clauseSpecials b t := by
  induction ts with
  | nil => simp [bodySpecials]
  | cons t ts ih =>
      rw [bodySpecials, List.mem_append, ih, List.exists_mem_cons_iff]

theorem mem_impliedSpecials (clauses : List Clause) (n : String) :
    n ∈ impliedSpecials clauses ↔ n ∈ bodySpecials false clauses := by
  have h := mem_map_firstsBy id (bodySpecials false clauses) n
  rwa [List.map_id, List.map_id] at h

end Term

/-! ## Declared symbols as values -/

theorem firstsBy_ofName (l : List Name) :
    firstsBy id (l.map Value.ofName) = (distinctNames l).map Value.ofName := by
  refine firstsBy_map id Symbol.name Value.ofName l fun s _ t _ => ?_
  show Value.same (.term (.sym s)) (.term (.sym t)) = (s.name == t.name)
  rw [Value.same, Value.sameTerm]

theorem isKey_ofName (s : Name) : (Value.ofName s).isKey = true := by
  rw [Value.ofName, Value.isKey, Value.isKeyTerm]

namespace Config

theorem asSymbols_ofName (l : List Name) :
    asSymbols (l.map Value.ofName) =
      .ok ((distinctNames l).map Value.ofName) := by
  have hEach : ∀ v ∈ l.map Value.ofName, (do
      let s ← asSymbol v
      if s.isKey then return s else throw .wrongShape) =
        (Except.ok v : Except Fault Value) := by
    rw [List.forall_mem_map]
    intro s _
    rw [Value.ofName, asSymbol, ok_bind, isKey_ofName, if_pos rfl]
    rfl
  rw [asSymbols, mapM_eq_ok hEach, List.map_id', ok_bind, firstsBy_ofName]
  rfl

theorem asKeys_ofName (l : List Name) :
    Value.asKeys (l.map Value.ofName) =
      .ok ((distinctNames l).map Value.ofName) := by
  have hKeys : (l.map Value.ofName).all Value.isKey = true := by
    rw [List.all_eq_true, List.forall_mem_map]
    exact fun s _ => isKey_ofName s
  rw [Value.asKeys, if_pos hKeys, firstsBy_ofName]

theorem asDeclared_ofName (c : Config) (declaration : String) {l : List Name}
    (h : ∀ n ∈ l.map Symbol.name, isDeclarableName n = true) :
    c.asDeclared declaration (l.map Value.ofName) = .ok l := by
  induction l with
  | nil => rfl
  | cons s l ih =>
      rw [List.map_cons, List.forall_mem_cons] at h
      rw [List.map_cons, Value.ofName, asDeclared, Symbol.isDeclarable_eq,
        if_pos h.1, ih h.2]
      rfl

end Config

namespace Fragment

theorem namesOf_ofName (l : List Name) :
    namesOf (l.map Value.ofName) = l.map Symbol.name := by
  rw [namesOf, List.filterMap_map]
  exact List.filterMap_eq_map_iff_forall_eq_some.mpr fun s _ => rfl

/-! ## The described fragment -/

/-- The specials that are found in clauses and not declared. -/
def impliedBy (clauses : List Clause) (declared : List Name) : List Name :=
  (foundSpecials clauses).filter fun s => !s.isIn declared

/-- The fragment that a description of clauses, provided and required symbols
makes. -/
def inferred (name : Value) (clauses : List Clause)
    (provide require : List Name) : Fragment where
  name := name
  clauses := clauses
  provide := provide
  require := require ++ impliedBy clauses (provide ++ require)

theorem mem_foundSpecials (clauses : List Clause) (n : String) :
    n ∈ (foundSpecials clauses).map Symbol.name ↔
      n ∈ Term.bodySpecials false clauses ∨
        n ∈ (Term.symbolsOf clauses).map Symbol.name ∧
          isSpecialName n = true := by
  have hSymbols : n ∈ ((Term.firstSymbols clauses).filter
      Symbol.isSpecial).map Symbol.name ↔
      n ∈ (Term.symbolsOf clauses).map Symbol.name ∧
        isSpecialName n = true := by
    have hTest : ∀ s : Name,
        s.isSpecial = true ↔ isSpecialName s.name = true := fun _ => Iff.rfl
    rw [mem_names_filter (q := (isSpecialName · = true)) hTest,
      Term.firstSymbols, mem_map_firstsBy]
  have hPlain : (Term.impliedSpecials clauses).map
      (Symbol.name ∘ (Symbol.plain : String → Name)) =
      Term.impliedSpecials clauses := List.map_id' _
  rw [foundSpecials, mem_names_distinctNames, List.map_append, List.mem_append,
    hSymbols, List.map_map, hPlain, Term.mem_impliedSpecials]

theorem foundSpecials_special (clauses : List Clause) :
    ∀ n ∈ (foundSpecials clauses).map Symbol.name, isSpecialName n = true := by
  intro n hn
  rcases (mem_foundSpecials clauses n).mp hn with h | h
  · exact Term.bodySpecials_special false clauses n h
  · exact h.2

theorem mem_impliedBy (clauses : List Clause) (declared : List Name)
    (n : String) : n ∈ (impliedBy clauses declared).map Symbol.name ↔
      n ∈ (foundSpecials clauses).map Symbol.name ∧
        n ∉ declared.map Symbol.name := by
  refine mem_names_filter (q := (· ∉ declared.map Symbol.name)) fun s => ?_
  rw [Bool.not_eq_true', isIn_eq_false_iff]

theorem requireNames_inferred (name : Value) (clauses : List Clause)
    (provide require : List Name) :
    (inferred name clauses provide require).requireNames =
      require.map Symbol.name ++
        (impliedBy clauses (provide ++ require)).map Symbol.name :=
  List.map_append

/-- What is implied are specials, none of them declared. -/
private theorem apart_of_mem_impliedBy {clauses : List Clause}
    {provide require : List Name} {n : String}
    (hn : n ∈ (impliedBy clauses (provide ++ require)).map Symbol.name) :
    isSpecialName n = true ∧ n ∉ provide.map Symbol.name ∧
      n ∉ require.map Symbol.name := by
  obtain ⟨hFound, hNot⟩ := (mem_impliedBy _ _ n).mp hn
  rw [List.map_append, List.mem_append, not_or] at hNot
  exact ⟨foundSpecials_special clauses n hFound, hNot⟩

/-- A special of the clauses is declared, or required because it is implied. -/
private theorem specials_declared_inferred {name : Value}
    {clauses : List Clause} {provide require : List Name} {n : String}
    (hn : n ∈ (Term.symbolsOf clauses).map Symbol.name)
    (hSpecial : isSpecialName n = true) :
    n ∈ (inferred name clauses provide require).requireNames ∨
      n ∈ provide.map Symbol.name := by
  have hFound := (mem_foundSpecials clauses n).mpr (.inr ⟨hn, hSpecial⟩)
  rw [requireNames_inferred, List.mem_append]
  by_cases hDeclared : n ∈ (provide ++ require).map Symbol.name
  · rw [List.map_append, List.mem_append] at hDeclared
    rcases hDeclared with h | h
    · exact .inr h
    · exact .inl (.inl h)
  · exact .inl (.inr ((mem_impliedBy _ _ n).mpr ⟨hFound, hDeclared⟩))

/-- What is implied is not declared, so nothing is required twice. -/
theorem nodup_append_impliedBy (clauses : List Clause) (provide : List Name)
    {require : List Name} (h : (require.map Symbol.name).Nodup) :
    ((require ++ impliedBy clauses (provide ++ require)).map Symbol.name).Nodup := by
  have hImpliedNodup :
      ((impliedBy clauses (provide ++ require)).map Symbol.name).Nodup :=
    (List.filter_sublist.map Symbol.name).nodup (nodup_names_distinctNames _)
  rw [List.map_append]
  exact List.nodup_append'.mpr ⟨h, hImpliedNodup,
    fun n hn hn' => (apart_of_mem_impliedBy hn').2.2 hn⟩

/-- Distinct and disjoint declarations of variables and specials make a
well-formed fragment of clauses whose symbols have names. -/
theorem wellFormed_inferred {name : Value} {clauses : List Clause}
    {provide require : List Name}
    (hNamed : Term.misnamedNamesOf clauses = [])
    (hProvide : (provide.map Symbol.name).Nodup)
    (hRequire : (require.map Symbol.name).Nodup)
    (hProvideDeclarable : ∀ n ∈ provide.map Symbol.name,
      isDeclarableName n = true)
    (hRequireDeclarable : ∀ n ∈ require.map Symbol.name,
      isDeclarableName n = true)
    (hDisjoint : ∀ n ∈ provide.map Symbol.name, n ∉ require.map Symbol.name) :
    (inferred name clauses provide require).WellFormed := by
  refine
    { provide_nodup := hProvide
      require_nodup := nodup_append_impliedBy clauses provide hRequire
      mustLet_nodup := List.nodup_nil
      provide_declarable := hProvideDeclarable
      require_declarable := ?_
      mustLet_declarable := fun n hn => absurd hn List.not_mem_nil
      disjoint := ?_
      wellNamed := hNamed
      specials_declared := fun n hn => specials_declared_inferred hn
      mustLet_bindable := fun n hn => absurd hn List.not_mem_nil
      forms_whole := fun p hp => absurd hp List.not_mem_nil
      arguments_fit := fun p hp => absurd hp List.not_mem_nil
      let_bindable := fun n hn => absurd hn List.not_mem_nil
      let_nodup := List.nodup_nil }
  · rw [requireNames_inferred]
    intro n hn
    rcases List.mem_append.mp hn with h | h
    · exact hRequireDeclarable n h
    · exact isDeclarableName_of_special (apart_of_mem_impliedBy h).1
  · intro n hn
    rw [requireNames_inferred, List.mem_append, not_or]
    exact ⟨hDisjoint n hn, fun h => (apart_of_mem_impliedBy h).2.1 hn⟩

/-! ## Construction -/

private theorem toValue_eq_term {t : Clause} (h : ∀ v, t ≠ .stray v) :
    t.toValue = .term t := by
  cases t with
  | stray v => exact absurd rfl (h v)
  | _ => rfl

private theorem isTerm_toValue {t : Clause} (h : ∀ v, t ≠ .stray v) :
    t.toValue.isTerm = true := by
  cases t with
  | stray v => exact absurd rfl (h v)
  | _ => rfl

private theorem ofValue_toValue {t : Clause} (h : ∀ v, t ≠ .stray v) :
    Term.ofValue t.toValue = t := by
  rw [toValue_eq_term h]
  rfl

private theorem toTerm_toValue {t : Clause} (h : ∀ v, t ≠ .stray v) :
    t.toValue.toTerm = t := by
  rw [toValue_eq_term h, Value.toTerm]

private theorem asClauses_toValue {c : Config} {clauses : List Clause}
    (h : ∀ t ∈ clauses, ∀ v, t ≠ .stray v)
    (hClauses : c.clauses = clauses.map Term.toValue) :
    c.asClauses = .ok clauses := by
  have hNone : c.clauses.find? (fun v => !v.isTerm) = none := by
    rw [hClauses, List.find?_eq_none, List.forall_mem_map]
    intro t ht
    rw [isTerm_toValue (h t ht)]
    decide
  rw [Config.asClauses, hNone, hClauses, List.map_map]
  exact congrArg Except.ok ((List.map_congr_left fun t ht =>
    ofValue_toValue (h t ht)).trans (List.map_id' _))

/-- The description of a fragment, part by part. -/
def describe (f : Fragment) : Config where
  clauses := f.clauses.map Term.toValue
  name := f.name
  provide := f.provide.map .ofName
  require := f.require.map .ofName
  mustLet := f.mustLet.map .ofName
  selectivity := .int f.selectivity
  lets := f.lets.map fun p => (p.1.toValue, p.2)
  locked := f.locked
  extra := .mapping f.extra

private theorem map_ofValue_toValue {lets : List (Form × Value)}
    (h : ∀ p ∈ lets, p.1.Whole) :
    (lets.map fun p => (p.1.toValue, p.2)).map
      (fun p => (Form.ofValue p.1, p.2)) = lets := by
  rw [List.map_map]
  exact (List.map_congr_left fun p hp =>
    congrArg (fun form => (form, p.2)) (Form.ofValue_toValue (h p hp).isProper)).trans
      (List.map_id' _)

/-- Construction from parts that need no change. -/
theorem ofParts_describe {f : Fragment}
    (hTerms : ∀ t ∈ f.clauses, ∀ v, t ≠ .stray v) (h : f.WellFormed) :
    ofParts f.describe = .ok f := by
  have hKeys : ∀ {names : List Name}, (names.map Symbol.name).Nodup →
      Value.asKeys (names.map .ofName) = .ok (names.map .ofName) := by
    intro names hNodup
    rw [Config.asKeys_ofName, (distinctNames_eq_self_iff names).mpr hNodup]
  rw [ofParts]
  dsimp only [describe]
  rw [hKeys h.provide_nodup, hKeys h.require_nodup, hKeys h.mustLet_nodup]
  simp only [Value.asEntries, ok_bind]
  rw [asClauses_toValue hTerms rfl, Config.asDeclared_ofName _ _ h.provide_declarable,
    Config.asDeclared_ofName _ _ h.require_declarable,
    Config.asDeclared_ofName _ _ h.mustLet_declarable]
  simp only [Config.asSelectivity, ok_bind]
  rw [map_ofValue_toValue h.forms_whole]
  exact h.checked_eq

private theorem checkHeads_eq_ok {clauses : List Clause}
    (h : Term.misnamedNamesOf clauses = []) : checkHeads clauses = .ok () := by
  rw [checkHeads, Term.misnamedBody?_eq_none clauses h, checkNames,
    namesFault?, h]

theorem implied_eq (clauses : List Clause) (provide require : List Name) :
    ((foundSpecials clauses).filter fun s =>
      !(namesOf (provide.map .ofName) ++ namesOf (require.map .ofName)).contains
        s.name) = impliedBy clauses (provide ++ require) := by
  refine List.filter_congr fun s _ => ?_
  rw [namesOf_ofName, namesOf_ofName, ← List.map_append, Bool.eq_iff_iff,
    Bool.not_eq_true', Bool.not_eq_true', isIn_eq_false_iff,
    ← Bool.not_eq_true, List.contains_iff_mem]

private theorem readForms_toValue {lets : List (Form × Value)}
    (h : ∀ p ∈ lets, p.1.Whole) :
    readForms (lets.map fun p => (p.1.toValue, p.2)) = .ok lets := by
  induction lets with
  | nil => rfl
  | cons p lets ih =>
      obtain ⟨hHead, hTail⟩ := List.forall_mem_cons.mp h
      rw [List.map_cons, readForms, Form.ofData_toValue hHead.isProper, ok_bind,
        (Form.check_true_iff _).mpr hHead, ok_bind, ih hTail]
      rfl

/-- A description with distinct symbols makes the fragment that it describes
together with the specials that its clauses imply. -/
theorem ofConfig_describe {f : Fragment} (explicit : List Name) (locked : Value)
    (hTerms : ∀ t ∈ f.clauses, ∀ v, t ≠ .stray v) (h : f.WellFormed)
    (hExplicit : (explicit.map Symbol.name).Nodup)
    (hRequire : f.require =
      explicit ++ impliedBy f.clauses (f.provide ++ explicit))
    (hLocked : f.locked = .bool locked.isTruthy) :
    ofConfig { f.describe with require := explicit.map .ofName, locked } = .ok f := by
  have hClauses : (f.clauses.map Term.toValue).map Value.toTerm = f.clauses := by
    rw [List.map_map]
    exact (List.map_congr_left fun t ht => toTerm_toValue (hTerms t ht)).trans
      (List.map_id' _)
  have hSymbols : ∀ {names : List Name}, (names.map Symbol.name).Nodup →
      Config.asSymbols (names.map .ofName) = .ok (names.map .ofName) := by
    intro names hNodup
    rw [Config.asSymbols_ofName, (distinctNames_eq_self_iff names).mpr hNodup]
  have hMustLet : (f.mustLet.map Value.ofName).mapM Config.asSymbol =
      .ok (f.mustLet.map Value.ofName) := by
    have hEach : ∀ v ∈ f.mustLet.map Value.ofName, Config.asSymbol v = .ok (id v) :=
      List.forall_mem_map.mpr fun s _ => rfl
    rw [mapM_eq_ok hEach, List.map_id]
  -- Bindings and lock come last, on a fragment without either.
  let base : Fragment := { f with lets := [], locked := .bool false }
  have hBase : base.WellFormed :=
    { h with
      forms_whole := fun p hp => absurd hp List.not_mem_nil
      arguments_fit := fun p hp => absurd hp List.not_mem_nil
      let_bindable := fun n hn => absurd hn List.not_mem_nil
      let_nodup := List.nodup_nil }
  have hParts := ofParts_describe (f := base) hTerms hBase
  have hLock : (if locked.isTruthy then { base with lets := f.lets }.lock
      else { base with lets := f.lets }) = f := by
    obtain ⟨name, clauses, provide, require, lets, mustLet, selectivity, lock, extra⟩ := f
    dsimp only at hLocked
    subst hLocked
    cases locked.isTruthy <;> rfl
  dsimp only [describe, base] at hParts hLock
  rw [List.map_nil] at hParts
  rw [ofConfig]
  dsimp +instances only [describe]
  rw [hClauses, hSymbols h.provide_nodup, hSymbols hExplicit, hMustLet]
  simp only [ok_bind]
  rw [checkHeads_eq_ok h.wellNamed, implied_eq, ← List.map_append, ← hRequire]
  simp only [ok_bind]
  rw [hParts, ok_bind]
  by_cases hNone : f.lets = []
  · rw [hNone] at hLock
    rw [if_pos (by simp [hNone])]
    exact congrArg Except.ok hLock
  · rw [if_neg (by simpa using hNone), bindAll, isLocked, Value.isTruthy, if_neg Bool.false_ne_true,
      readForms_toValue h.forms_whole, ok_bind,
      WellFormed.checked_eq (by exact { h with }), ok_bind]
    exact congrArg Except.ok hLock

/-- A description whose symbols are distinct and whose fragment is well formed
makes that fragment. -/
theorem ofConfig_eq_ok {name locked : Value} {clauses : List Clause}
    {provide require : List Name} (hTerms : ∀ t ∈ clauses, ∀ v, t ≠ .stray v)
    (hRequire : (require.map Symbol.name).Nodup)
    (h : (inferred name clauses provide require).WellFormed) :
    ofConfig
      { clauses := clauses.map .term
        name := name
        provide := provide.map .ofName
        require := require.map .ofName
        locked := locked } =
      .ok (if locked.isTruthy then (inferred name clauses provide require).lock
        else inferred name clauses provide require) := by
  let f : Fragment :=
    { inferred name clauses provide require with locked := .bool locked.isTruthy }
  have hResult : (if locked.isTruthy then (inferred name clauses provide require).lock
      else inferred name clauses provide require) = f := by
    cases hTruthy : locked.isTruthy <;> simp only [f, hTruthy] <;> rfl
  have hClauses : clauses.map Value.term = clauses.map Term.toValue :=
    List.map_congr_left fun t ht => (toValue_eq_term (hTerms t ht)).symm
  rw [hResult, hClauses]
  exact ofConfig_describe (f := f) require locked hTerms { h with } hRequire rfl rfl

end Fragment

end DatalogFragments
