import DatalogFragments.Proofs.Fragment.Alike
import DatalogFragments.Proofs.Query.Outcome

/-!
# Bookkeeping does not interfere

Compilation of two lists whose fragments are alike position by position runs
through the same steps on both sides: the same fragment is refused for the
same symbols, the compiled orders and the fresh names are the same, and the
declarations are put together alike.  So what a fragment is called, whether it
is locked, what its caller notes in it and how its nodes are to be displayed
has no influence on the query.  There is one exception.  A renamed variable
hands on its display information as a mapping, so display information that is
no mapping stops the run.

## Main results

* `forall₂_orderSlices`, `forall₂_renamedSlices` — order and fresh names;
* `checkSatisfied_agree`, `checkMustLet_agree` — the checks of a plan;
* `Assembly.ofSlices_agree` — declarations and arguments;
* `Query.compile_indifferent` — the whole;
* `Query.compile_same` — equal lists make equal queries;
* `Query.compile_depends_on_information` — the exception does occur.
-/

namespace DatalogFragments

/-! ## Runs that agree -/

/-- Failures of one class that blame the same symbols and give the same
details. -/
structure Failure.Alike (w w' : Failure) : Prop where
  kind : w.kind = w'.kind
  unmet : Value.sameItems w.unmet w'.unmet = true
  context : w.context = w'.context

/-- Both runs go through, with results related by `S`, or both stop with like
failures. -/
def Agree {α β : Type} (S : α → β → Prop) (x : Except Fault α)
    (y : Except Fault β) : Prop :=
  (∃ a b, x = .ok a ∧ y = .ok b ∧ S a b) ∨
    ∃ w w', x = .error (.failure w) ∧ y = .error (.failure w') ∧ w.Alike w'

theorem Agree.ok {α β : Type} {S : α → β → Prop} {a : α} {b : β} (h : S a b) :
    Agree S (.ok a) (.ok b) :=
  .inl ⟨a, b, rfl, rfl, h⟩

theorem Agree.imp {α β : Type} {S T : α → β → Prop} {x : Except Fault α}
    {y : Except Fault β} (h : Agree S x y) (hST : ∀ a b, S a b → T a b) :
    Agree T x y := by
  rcases h with ⟨a, b, hx, hy, hab⟩ | hFailures
  · exact .inl ⟨a, b, hx, hy, hST a b hab⟩
  · exact .inr hFailures

theorem Agree.bind {α β γ δ : Type} {S : α → β → Prop} {T : γ → δ → Prop}
    {x : Except Fault α} {y : Except Fault β} {k : α → Except Fault γ}
    {k' : β → Except Fault δ} (h : Agree S x y)
    (hRest : ∀ a b, S a b → Agree T (k a) (k' b)) :
    Agree T (x >>= k) (y >>= k') := by
  rcases h with ⟨a, b, rfl, rfl, hab⟩ | ⟨w, w', rfl, rfl, hw⟩
  · exact hRest a b hab
  · exact .inr ⟨w, w', rfl, rfl, hw⟩

theorem sameItems_ofName {l l' : List Name}
    (h : l.map Symbol.name = l'.map Symbol.name) :
    Value.sameItems (l.map .ofName) (l'.map .ofName) = true := by
  rw [Value.sameItems_iff]
  refine forall₂_map_of_mem (map_name_eq_iff.mp h) fun s _ s' hs => ?_
  simp only [Value.ofName, Value.Same, Value.same, Value.sameTerm, beq_iff_eq]
  exact hs

/-! ## The checks of a plan -/

section Checks

variable {T : Fragment → Fragment → Prop} {slices slices' : List Fragment}

private theorem forall₂_zipIdx (h : List.Forall₂ T slices slices') (n : Nat) :
    List.Forall₂ (fun p q => T p.1 q.1 ∧ p.2 = q.2) (slices.zipIdx n)
      (slices'.zipIdx n) := by
  induction h generalizing n with
  | nil => exact .nil
  | cons hfg _ ih =>
      rw [List.zipIdx_cons, List.zipIdx_cons]
      exact .cons ⟨hfg, rfl⟩ (ih (n + 1))

private theorem findSome?_alike {α β γ δ : Type} {P : α → β → Prop}
    {Q : γ → δ → Prop} {l : List α} {l' : List β} {f : α → Option γ}
    {g : β → Option δ} (h : List.Forall₂ P l l')
    (hEach : ∀ a b, P a b → f a = none ∧ g b = none ∨
      ∃ c d, f a = some c ∧ g b = some d ∧ Q c d) :
    l.findSome? f = none ∧ l'.findSome? g = none ∨
      ∃ c d, l.findSome? f = some c ∧ l'.findSome? g = some d ∧ Q c d := by
  induction h with
  | nil => exact .inl ⟨rfl, rfl⟩
  | cons hab _ ih =>
      rw [List.findSome?_cons, List.findSome?_cons]
      rcases hEach _ _ hab with ⟨hf, hg⟩ | ⟨c, d, hf, hg, hcd⟩
      · rw [hf, hg]
        exact ih
      · rw [hf, hg]
        exact .inr ⟨c, d, rfl, rfl, hcd⟩

/-- The same position is the first to have symbols to blame, and the symbols
have the same names. -/
theorem firstBlamed_alike {blamed blamed' : Nat → Fragment → List Name}
    (h : List.Forall₂ T slices slices')
    (hEach : ∀ k f g, T f g →
      (blamed k f).map Symbol.name = (blamed' k g).map Symbol.name) :
    firstBlamed slices blamed = none ∧ firstBlamed slices' blamed' = none ∨
      ∃ b b', firstBlamed slices blamed = some b ∧
        firstBlamed slices' blamed' = some b' ∧ b.1 = b'.1 ∧
        b.2.2.map Symbol.name = b'.2.2.map Symbol.name := by
  refine findSome?_alike (forall₂_zipIdx h 0) ?_
  rintro ⟨f, k⟩ ⟨g, j⟩ ⟨hfg, hkj⟩
  obtain rfl : k = j := hkj
  have hNames := hEach k f g hfg
  dsimp only at hNames ⊢
  cases hBlamed : blamed k f with
  | nil =>
      rw [hBlamed, List.map_nil, eq_comm, List.map_eq_nil_iff] at hNames
      rw [hNames]
      exact .inl ⟨rfl, rfl⟩
  | cons s ss =>
      cases hBlamed' : blamed' k g with
      | nil =>
          rw [hBlamed, hBlamed'] at hNames
          cases hNames
      | cons s' ss' =>
          rw [hBlamed, hBlamed'] at hNames
          exact .inr ⟨_, _, rfl, rfl, rfl, hNames⟩

/-- Refusing the first position with symbols to blame. -/
private theorem refuseFirst_agree {blamed blamed' : Nat → Fragment → List Name}
    {cause : Value → Cause} (hKind : ∀ n n', (cause n).kind = (cause n').kind)
    (h : List.Forall₂ T slices slices')
    (hEach : ∀ k f g, T f g →
      (blamed k f).map Symbol.name = (blamed' k g).map Symbol.name) :
    Agree Eq
      (match firstBlamed slices blamed with
        | some (k, f, unmet) => refuseAt k f (cause f.name) unmet
        | none => .ok ())
      (match firstBlamed slices' blamed' with
        | some (k, f, unmet) => refuseAt k f (cause f.name) unmet
        | none => .ok ()) := by
  rcases firstBlamed_alike h hEach with
    ⟨hNone, hNone'⟩ | ⟨b, b', hSome, hSome', hIndex, hNames⟩
  · rw [hNone, hNone']
    exact .ok rfl
  · rw [hSome, hSome']
    dsimp only
    rw [hIndex]
    exact .inr ⟨_, _, rfl, rfl, hKind _ _, sameItems_ofName hNames, rfl⟩

variable {R : Value → Value → Prop}

theorem checkSatisfied_agree
    (h : List.Forall₂ (Fragment.Alike R) slices slices') :
    Agree Eq (checkSatisfied slices) (checkSatisfied slices') := by
  have hProvide : slices.map Fragment.provideNames =
      slices'.map Fragment.provideNames :=
    map_eq_of_forall₂ h fun _ _ _ hfg => hfg.provide
  have hOthers : ∀ k, ((slices.eraseIdx k).flatMap Fragment.provide).map
        Symbol.name =
      ((slices'.eraseIdx k).flatMap Fragment.provide).map Symbol.name := by
    have hEach : ∀ fs : List Fragment, ∀ k,
        ((fs.eraseIdx k).flatMap Fragment.provide).map Symbol.name =
          ((fs.map Fragment.provideNames).eraseIdx k).flatten := by
      intro fs k
      rw [List.map_flatMap, List.flatMap_def, List.eraseIdx_map]
      rfl
    intro k
    rw [hEach, hEach, hProvide]
  have hUnmet : ∀ k f g, Fragment.Alike R f g →
      (unmetAt slices k f).map Symbol.name =
        (unmetAt slices' k g).map Symbol.name := by
    intro k f g hfg
    refine names_filter_congr hfg.require fun s s' hs => ?_
    rw [isIn_congr hs (hOthers k)]
  exact refuseFirst_agree (fun _ _ => rfl) h hUnmet

theorem checkMustLet_agree
    (h : List.Forall₂ (Fragment.Alike R) slices slices') :
    Agree Eq (checkMustLet slices) (checkMustLet slices') := by
  have hUnbound : ∀ (_ : Nat) (f g : Fragment), f.Alike R g →
      f.unboundMustLet.map Symbol.name = g.unboundMustLet.map Symbol.name := by
    intro _ f g hfg
    refine names_filter_congr hfg.mustLet fun s s' hs => ?_
    rw [isIn_congr hs hfg.letNames_eq]
  exact refuseFirst_agree (fun _ _ => rfl) h hUnbound

end Checks

/-! ## Order and fresh names -/

section Order

variable {T : Fragment → Fragment → Prop} {slices slices' : List Fragment}

/-- Lists with the same selectivities are put into the same order. -/
theorem forall₂_orderSlices
    (hKeys : ∀ f g, T f g → f.selectivity = g.selectivity)
    (h : List.Forall₂ T slices slices') :
    List.Forall₂ T (orderSlices slices) (orderSlices slices') := by
  -- Both sorts are the sort of the list of pairs.
  let pairs := slices.zip slices'
  let inOrder : Fragment → Fragment → Bool :=
    fun f g => decide (f.selectivity ≤ g.selectivity)
  obtain ⟨hLength, hPairs⟩ := List.forall₂_iff_zip.mp h
  have hFst : pairs.map Prod.fst = slices := List.map_fst_zip (Nat.le_of_eq hLength)
  have hSnd : pairs.map Prod.snd = slices' := 
    List.map_snd_zip (Nat.le_of_eq hLength.symm)
  have hKey : ∀ p ∈ pairs, p.1.selectivity = p.2.selectivity :=
    fun p hp => hKeys _ _ (hPairs hp)
  have hOrder : (pairs.mergeSort fun p q => inOrder p.1 q.1).map Prod.fst =
      orderSlices slices := by
    rw [List.map_mergeSort (s := inOrder) fun _ _ _ _ => rfl, hFst]
    rfl
  have hOrder' : (pairs.mergeSort fun p q => inOrder p.1 q.1).map Prod.snd =
      orderSlices slices' := by
    rw [List.map_mergeSort (s := inOrder), hSnd]
    · rfl
    · intro p hp q hq
      show decide _ = decide _
      rw [hKey p hp, hKey q hq]
  rw [← hOrder, ← hOrder', List.forall₂_map_left_iff,
    List.forall₂_map_right_iff, List.forall₂_same]
  exact fun p hp => hPairs ((List.mergeSort_perm _ _).mem_iff.mp hp)

variable {R : Value → Value → Prop}

/-- Like lists are renamed along the same maps. -/
theorem compiledMap_eq_of_alike
    (h : List.Forall₂ (Fragment.Alike R) slices slices') :
    compiledMap slices = compiledMap slices' := by
  rw [compiledMap, compiledMap, usedNames_eq_of_alike h]
  exact renamingOf_eq_of_alike _ _ _
    (forall₂_orderSlices (fun _ _ hfg => hfg.selectivity) h)

/-- What relates the fragments of like lists relates the renamed ones too if
renaming respects it. -/
theorem forall₂_renamedSlices_of {U : Fragment → Fragment → Prop}
    (hAlike : ∀ f g, T f g → f.Alike R g)
    (hRenamed : ∀ f g ρ, T f g → U (f.renamed ρ) (g.renamed ρ))
    (h : List.Forall₂ T slices slices') :
    List.Forall₂ U (renamedSlices slices) (renamedSlices slices') := by
  have hOrder := forall₂_orderSlices (fun f g hfg => (hAlike f g hfg).selectivity) h
  rw [renamedSlices, renamedSlices, compiledMap_eq_of_alike (h.imp hAlike)]
  exact forall₂_mapIdx hOrder fun k f g hfg => hRenamed f g _ hfg

/-- Like lists are renamed alike. -/
theorem forall₂_renamedSlices {N : Value → Value → Prop}
    (h : List.Forall₂ (fun f g => f.Alike R g ∧ N f.name g.name)
      slices slices') :
    List.Forall₂ (fun f g => f.Alike R g ∧ N f.name g.name)
      (renamedSlices slices) (renamedSlices slices') :=
  forall₂_renamedSlices_of (fun _ _ => And.left)
    (fun _ _ ρ hfg => ⟨hfg.1.renamed ρ, hfg.2⟩) h

end Order

/-! ## Declarations -/

namespace Assembly

variable {R : Value → Value → Prop}

/-- Assemblies that differ in the owners of what is declared, and in what they
warn of. -/
structure Alike (R : Value → Value → Prop) (a a' : Assembly) : Prop where
  specials : List.Forall₂ (fun b b' => b.symbol.name = b'.symbol.name ∧
    R b.value b'.value) a.specials a'.specials
  params : List.Forall₂ (Term.Alike R) a.params a'.params
  args : List.Forall₂ R a.args a'.args
  taken : a.taken = a'.taken

/-- Declaring symbols with the same names. -/
theorem declareAll_agree {f g : Fragment} {d d' : List (String × Value)}
    {l l' : List Name} (hDeclared : d.map Prod.fst = d'.map Prod.fst)
    (h : l.map Symbol.name = l'.map Symbol.name) :
    Agree (fun e e' => e.map Prod.fst = e'.map Prod.fst) (declareAll f d l)
      (declareAll g d' l') := by
  rw [map_name_eq_iff] at h
  induction h generalizing d d' with
  | nil => exact .ok hDeclared
  | @cons s s' _ _ hs _ ih =>
      have hNone : d.lookup s.name = none ↔ d'.lookup s'.name = none := by
        rw [lookup_eq_none_iff_not_mem, lookup_eq_none_iff_not_mem, hDeclared, hs]
      rw [declareAll, declareAll]
      cases hLookup : d.lookup s.name with
      | none =>
          rw [hNone.mp hLookup]
          exact ih (by rw [List.map_cons, List.map_cons, hDeclared, hs])
      | some first =>
          cases hLookup' : d'.lookup s'.name with
          | none => exact absurd (hNone.mpr hLookup') (by simp [hLookup])
          | some first' =>
              have hUnmet : [s].map Symbol.name = [s'].map Symbol.name := by
                rw [List.map_singleton, List.map_singleton, hs]
              exact .inr ⟨_, _, rfl, rfl, rfl, sameItems_ofName hUnmet, rfl⟩

private theorem wholeSpecial?_alike {form form' : Form}
    (h : form.Alike form') :
    wholeSpecial? form = none ∧ wholeSpecial? form' = none ∨
      ∃ s s', wholeSpecial? form = some s ∧ wholeSpecial? form' = some s' ∧
        s.name = s'.name := by
  cases h with
  | @sym s s' hs =>
      rw [wholeSpecial?, wholeSpecial?, Symbol.isSpecial, Symbol.isSpecial, hs]
      split
      · exact .inr ⟨s, s', rfl, rfl, hs⟩
      · exact .inl ⟨rfl, rfl⟩
  | coll _ => exact .inl ⟨rfl, rfl⟩
  | tup _ => exact .inl ⟨rfl, rfl⟩

/-- Adding like bindings. -/
theorem Alike.add {a a' : Assembly} (h : a.Alike R a') (f g : Fragment)
    {form form' : Form} {v w : Value} (hForm : form.Alike form') (hValue : R v w) :
    Agree (Alike R) (a.add f form v) (a'.add g form' w) := by
  rw [Assembly.add, Assembly.add]
  rcases wholeSpecial?_alike hForm with
    ⟨hNone, hNone'⟩ | ⟨s, s', hSome, hSome', hs⟩
  · rw [hNone, hNone']
    refine (declareAll_agree h.taken hForm.names_eq).bind fun d d' hd => .ok ?_
    exact
      { specials := h.specials
        params := List.rel_append h.params (.cons (hForm.render R) .nil)
        args := List.rel_append h.args (.cons hValue .nil)
        taken := hd }
  · have hNames : (a.specials.map fun b => b.symbol.name) =
        a'.specials.map fun b => b.symbol.name :=
      map_eq_of_forall₂ h.specials fun _ _ _ hb => hb.1
    have hNone : a.specials.find? (fun b => b.symbol.name == s.name) = none ↔
        a'.specials.find? (fun b => b.symbol.name == s'.name) = none := by
      rw [find?_key_eq_none_iff fun b : SpecialBinding => b.symbol.name,
        find?_key_eq_none_iff fun b : SpecialBinding => b.symbol.name, hNames, hs]
    rw [hSome, hSome']
    dsimp only
    cases hFound : a.specials.find? fun b => b.symbol.name == s.name with
    | none =>
        rw [hNone.mp hFound]
        refine .ok { h with specials := ?_ }
        exact List.rel_append h.specials (.cons ⟨hs, hValue⟩ .nil)
    | some b =>
        cases hFound' : a'.specials.find? fun b => b.symbol.name == s'.name with
        | none => exact absurd (hNone.mpr hFound') (by simp [hFound])
        | some b' =>
            -- A special that is there is kept, whether there is a warning or not.
            dsimp only
            split <;> split <;> exact .ok { h with }

/-- Adding like lists of bindings. -/
theorem Alike.addAll {a a' : Assembly} (h : a.Alike R a')
    {bs bs' : List (Fragment × Form × Value)}
    (hBindings : List.Forall₂ (fun b b' => b.2.1.Alike b'.2.1 ∧ R b.2.2 b'.2.2)
      bs bs') : Agree (Alike R) (a.addAll bs) (a'.addAll bs') := by
  induction hBindings generalizing a a' with
  | nil => exact .ok h
  | @cons b b' _ _ hb _ ih =>
      exact (h.add b.1 b'.1 hb.1 hb.2).bind fun _ _ hNext => ih hNext

theorem ofSlices_agree {fs gs : List Fragment}
    (h : List.Forall₂ (Fragment.Alike R) fs gs) :
    Agree (Alike R) (ofSlices fs) (ofSlices gs) := by
  have hStart : Alike R {} {} := ⟨.nil, .nil, .nil, rfl⟩
  refine hStart.addAll ?_
  exact List.rel_flatMap h fun f g hfg =>
    forall₂_map_of_mem hfg.lets fun _ _ _ hpq => hpq

theorem Alike.allParams {a a' : Assembly} (h : a.Alike R a') :
    List.Forall₂ (Term.Alike R) a.allParams a'.allParams := by
  have hSpecials := forall₂_map_of_mem
    (f := fun b => Term.sym b.symbol) (g := fun b => Term.sym b.symbol)
    (S := Term.Alike R) h.specials fun _ _ _ hb => .sym hb.1
  exact List.rel_append hSpecials h.params

theorem Alike.allArgs {a a' : Assembly} (h : a.Alike R a') :
    List.Forall₂ R a.allArgs a'.allArgs := by
  have hSpecials := forall₂_map_of_mem
    (f := SpecialBinding.value) (g := SpecialBinding.value)
    (S := R) h.specials fun _ _ _ hb => hb.2
  exact List.rel_append hSpecials h.args

end Assembly

/-! ## The whole -/

namespace Query

variable {R : Value → Value → Prop}

/-- Queries with one projection and like parts, whose orders differ in the
names of fragments only. -/
structure Alike (R : Value → Value → Prop) (q q' : Query) : Prop where
  find : q.find = q'.find
  params : List.Forall₂ (Term.Alike R) q.params q'.params
  clauses : List.Forall₂ (Term.Alike R) q.clauses q'.clauses
  args : List.Forall₂ R q.args q'.args
  order : List.Forall₂ (fun o o' => o.index = o'.index ∧
    o.selectivity = o'.selectivity) q.order q'.order

/-- Like queries are equal if their projections are, and the names in their
orders. -/
theorem same_of_alike {q q' : Query} (h : q.Alike Value.Same q')
    (hFind : q.find.Same q'.find)
    (hNames : List.Forall₂ (fun o o' => o.name.Same o'.name) q.order q'.order) :
    q.same q' = true := by
  have hOrder := forall₂_and_iff.mpr ⟨h.order, hNames⟩
  obtain ⟨hLength, hPairs⟩ := List.forall₂_iff_zip.mp hOrder
  simp only [same, Bool.and_eq_true, beq_iff_eq, Value.sameTerms_iff,
    Value.sameItems_iff, List.all_eq_true]
  refine ⟨⟨⟨⟨⟨hFind, h.params⟩, h.clauses⟩, h.args⟩, hLength⟩, ?_⟩
  rintro ⟨o, o'⟩ ho
  obtain ⟨⟨hIndex, hSelectivity⟩, hName⟩ := hPairs ho
  exact ⟨⟨hIndex, hName⟩, hSelectivity⟩

/-- Display information of a private variable that is no mapping stops the
compilation. -/
def StopsOnInfo (find : Value) (slices : List Fragment) : Prop :=
  ∃ e, (orderSlices slices).findSome? Fragment.infoFault? = some e ∧
    compile find slices = .error e

/-- Mappings stop nothing. -/
theorem not_stopsOnInfo {find : Value} {slices : List Fragment}
    (h : ∀ f ∈ slices, f.InfoIsMapping) : ¬StopsOnInfo find slices := by
  rintro ⟨e, he, -⟩
  rw [findSome?_orderSlices_eq_none fun f hf => (h f hf).infoFault?_eq_none] at he
  cases he

/-- Both lists are compiled, to queries related by `S`, or refused alike;
unless display information stops one of the two compilations. -/
def CompiledAlike (S : Query → Query → Prop) (find : Value)
    (slices slices' : List Fragment) : Prop :=
  StopsOnInfo find slices ∨ StopsOnInfo find slices' ∨
    Agree S (compile find slices) (compile find slices')

theorem CompiledAlike.imp {S T : Query → Query → Prop} {find : Value}
    {slices slices' : List Fragment} (h : CompiledAlike S find slices slices')
    (hST : ∀ q q', S q q' → T q q') : CompiledAlike T find slices slices' :=
  Or.imp_right (Or.imp_right fun hAgree => hAgree.imp hST) h

/-- Like fragments and like assemblies make like queries. -/
private theorem build_alike {N : Value → Value → Prop} (find : Value)
    {fs gs : List Fragment} {a a' : Assembly}
    (h : List.Forall₂ (fun f g => f.Alike R g ∧ N f.name g.name) fs gs)
    (ha : a.Alike R a') :
    (build find fs a).Alike R (build find gs a') ∧
      List.Forall₂ (fun o o' => N o.name o'.name) (build find fs a).order
        (build find gs a').order := by
  have hIndexed := forall₂_zipIdx h 0
  refine ⟨⟨rfl, ha.allParams, ?_, ha.allArgs, ?_⟩, ?_⟩
  · exact List.rel_flatMap h fun f g hfg => hfg.1.clauses
  · exact forall₂_map_of_mem hIndexed fun p _ p' hp =>
      ⟨hp.2, hp.1.1.selectivity⟩
  · exact forall₂_map_of_mem hIndexed fun p _ p' hp => hp.1.2

/-- Like lists are compiled alike.  The names in the two orders are related as
those of the fragments are. -/
theorem compile_agree {N : Value → Value → Prop} (find : Value)
    {slices slices' : List Fragment} (hWell : ∀ f ∈ slices, f.WellFormed)
    (hWell' : ∀ f ∈ slices', f.WellFormed)
    (h : List.Forall₂ (fun f g => f.Alike R g ∧ N f.name g.name)
      slices slices') :
    CompiledAlike (fun q q' => q.find = find ∧ q.Alike R q' ∧
        List.Forall₂ (fun o o' => N o.name o'.name) q.order q'.order)
      find slices slices' := by
  have hAlike := (forall₂_and_iff.mp h).1
  rcases checkSatisfied_agree hAlike with
    ⟨_, _, hSatisfied, hSatisfied', -⟩ | ⟨w, w', hError, hError', hw⟩
  · rcases checkMustLet_agree hAlike with
      ⟨_, _, hMustLet, hMustLet', -⟩ | ⟨w, w', hError, hError', hw⟩
    · cases hInfo : (orderSlices slices).findSome? Fragment.infoFault? with
      | some e =>
          exact .inl ⟨e, hInfo, compile_eq_error_of_infoFault hWell find
            hSatisfied hMustLet hInfo⟩
      | none =>
          cases hInfo' : (orderSlices slices').findSome? Fragment.infoFault? with
          | some e =>
              exact .inr (.inl ⟨e, hInfo', compile_eq_error_of_infoFault hWell'
                find hSatisfied' hMustLet' hInfo'⟩)
          | none =>
              -- Renaming goes through on both sides.
              have hRenamed := forall₂_renamedSlices h
              have hParts := Assembly.ofSlices_agree
                (forall₂_and_iff.mp hRenamed).1
              right
              right
              rw [compile_eq hWell, compile_eq hWell', hSatisfied, hSatisfied',
                hMustLet, hMustLet', hInfo, hInfo', okUnless_none, okUnless_none]
              simp only [ok_bind]
              exact hParts.bind fun a a' ha =>
                .ok ⟨rfl, build_alike find hRenamed ha⟩
    · refine .inr (.inr (.inr ⟨w, w', ?_, ?_, hw⟩))
      · rw [compile_eq hWell, hSatisfied, hError, ok_bind, error_bind]
      · rw [compile_eq hWell', hSatisfied', hError', ok_bind, error_bind]
  · refine .inr (.inr (.inr ⟨w, w', ?_, ?_, hw⟩))
    · rw [compile_eq hWell, hError, error_bind]
    · rw [compile_eq hWell', hError', error_bind]

/-- Equal lists are compiled to equal queries.  A projection that does not
equal itself, such as a one-pass source, is passed through just the same, but
queries with it do not count as equal. -/
theorem compile_same {find : Value} {slices slices' : List Fragment}
    (hFind : find.Same find) (hWell : ∀ f ∈ slices, f.WellFormed)
    (hWell' : ∀ f ∈ slices', f.WellFormed)
    (hSame : List.Forall₂ (fun f g => f.same g = true) slices slices') :
    CompiledAlike (fun q q' => q.same q' = true) find slices slices' := by
  have hRelated : List.Forall₂
      (fun f g => f.Alike Value.Same g ∧ f.name.Same g.name) slices slices' := by
    refine forall₂_imp_of_mem hSame fun f hf g hg hfg => ?_
    obtain ⟨hAlike, hName, -⟩ := (f.same_iff (hWell f hf) (hWell' g hg)).mp hfg
    exact ⟨hAlike, hName⟩
  refine (compile_agree find hWell hWell' hRelated).imp ?_
  rintro q q' ⟨rfl, hAlike, hNames⟩
  refine same_of_alike hAlike ?_ hNames
  rw [← hAlike.find]
  exact hFind

/-- Two lists are compiled alike, whatever the bookkeeping in them. -/
structure Indifferent (R : Value → Value → Prop) (find : Value)
    (slices slices' : List Fragment) : Prop where
  /-- Like queries or like failures. -/
  agree : CompiledAlike (Alike R) find slices slices'
  /-- Display information that consists of mappings, as it is meant to, stops
  nothing. -/
  mapping : (∀ f ∈ slices ++ slices', f.InfoIsMapping) →
    Agree (Alike R) (compile find slices) (compile find slices')
  /-- Equal lists make equal queries, names in the order included. -/
  equal : find.Same find →
    List.Forall₂ (fun f g => f.same g = true) slices slices' →
    CompiledAlike (fun q q' => q.same q' = true) find slices slices'

/-- Valid fragments that are alike position by position are compiled alike.
The relation `R` of values can be their equality, or any other. -/
theorem compile_indifferent (R : Value → Value → Prop) (find : Value)
    (slices slices' : List Fragment) (hValid : ∀ f ∈ slices, f.Valid)
    (hValid' : ∀ f ∈ slices', f.Valid)
    (hAlike : List.Forall₂ (Fragment.Alike R) slices slices') :
    Indifferent R find slices slices' := by
  have hWell : ∀ f ∈ slices, f.WellFormed :=
    fun f hf => f.valid_iff.mp (hValid f hf)
  have hWell' : ∀ f ∈ slices', f.WellFormed :=
    fun f hf => f.valid_iff.mp (hValid' f hf)
  have hRelated : List.Forall₂ (fun f g => f.Alike R g ∧ True) slices slices' :=
    hAlike.imp fun f g hfg => ⟨hfg, trivial⟩
  have hCompiled : CompiledAlike (Alike R) find slices slices' :=
    (compile_agree (N := fun _ _ => True) find hWell hWell' hRelated).imp
      fun q q' hq => hq.2.1
  refine ⟨hCompiled, fun hMapping => ?_, fun hFind hSame => ?_⟩
  · obtain ⟨hHead, hTail⟩ := List.forall_mem_append.mp hMapping
    rcases hCompiled with hStops | hStops | hAgree
    · exact absurd hStops (not_stopsOnInfo hHead)
    · exact absurd hStops (not_stopsOnInfo hTail)
    · exact hAgree
  · exact compile_same hFind hWell hWell' hSame

/-- A fragment with nothing but its parts. -/
def bare : List Fragment :=
  [ { clauses := [.vector [.named "?x", .literal (.int 1), .named "?y"]]
      provide := [Symbol.plain "?x"]
      lets := [(.sym (Symbol.plain "?y"), .int 1)] } ]

/-- The same parts under a name and a lock, with a note of the caller, display
information on the private variable, and `true` in the place of 1. -/
def annotated : List Fragment :=
  [ { name := .text "artists"
      clauses := [.vector [.named "?x", .literal (.bool true),
        .sym ⟨"?y", some (.mapping [(.text "line", .int 3)])⟩]]
      provide := [Symbol.plain "?x"]
      lets := [(.sym (Symbol.plain "?y"), .bool true)]
      locked := .bool true
      extra := [(.text "author", .text "me")] } ]

theorem compile_indifferent_annotated :
    (∀ f ∈ bare, f.Valid) ∧ (∀ f ∈ annotated, f.Valid) ∧
      List.Forall₂ (Fragment.Alike Value.Same) bare annotated ∧
      Indifferent Value.Same .null bare annotated := by
  have hValid : ∀ f ∈ bare, f.Valid := by
    rw [bare, List.forall_mem_singleton]
    rfl
  have hValid' : ∀ f ∈ annotated, f.Valid := by
    rw [annotated, List.forall_mem_singleton]
    rfl
  have hYes : (Value.int 1).Same (.bool true) := by
    simp [Value.Same, Value.same, Value.sameNumbers, Value.number?, Number.same]
  have hAlike : List.Forall₂ (Fragment.Alike Value.Same) bare annotated := by
    refine .cons ?_ .nil
    exact
      { clauses := .cons (.vec (.cons (.sym rfl) (.cons (.lit hYes)
          (.cons (.sym rfl) .nil)))) .nil
        provide := rfl
        require := rfl
        lets := .cons ⟨.sym rfl, hYes⟩ .nil
        mustLet := rfl
        selectivity := rfl }
  exact ⟨hValid, hValid', hAlike,
    compile_indifferent Value.Same .null _ _ hValid hValid' hAlike⟩

/-- A fragment that keeps its only variable to itself. -/
def readable : Fragment where
  clauses := [.sym (Symbol.plain "?x")]

/-- Two fragments that differ in display information only, one of which
cannot be compiled because of it. -/
theorem compile_depends_on_information :
    unreadable.Valid ∧ readable.Valid ∧
      List.Forall₂ (Fragment.Alike Value.Same) [unreadable] [readable] ∧
      compile .null [unreadable] = .error .wrongShape ∧
      (∃ q, compile .null [readable] = .ok q) ∧
      ¬Agree (Alike Value.Same) (compile .null [unreadable])
        (compile .null [readable]) := by
  have hValid : unreadable.Valid := rfl
  have hValid' : readable.Valid := rfl
  have hWell : ∀ f ∈ [unreadable], f.WellFormed := by
    rw [List.forall_mem_singleton]
    exact unreadable.valid_iff.mp hValid
  have hWell' : ∀ f ∈ [readable], f.WellFormed := by
    rw [List.forall_mem_singleton]
    exact readable.valid_iff.mp hValid'
  have hInfo : (orderSlices [unreadable]).findSome? Fragment.infoFault? =
      some .wrongShape := by
    rw [orderSlices_singleton]
    rfl
  have hStops : compile .null [unreadable] = .error .wrongShape :=
    compile_eq_error_of_infoFault hWell .null rfl rfl hInfo
  have hReads : ∀ f ∈ [readable], f.infoFault? = none := by
    rw [List.forall_mem_singleton]
    rfl
  have hApart : ∀ n, ¬ClashesOn [readable] n := by
    intro n
    rw [not_clashesOn_iff]
    exact List.pairwise_singleton _ _
  have hRuns : ∃ q, compile .null [readable] = .ok q :=
    exists_compile_eq_ok hWell' .null rfl rfl
      (findSome?_orderSlices_eq_none hReads) hApart
  refine ⟨hValid, hValid', ?_, hStops, hRuns, ?_⟩
  · refine .cons ?_ .nil
    exact ⟨.cons (.sym rfl) .nil, rfl, rfl, .nil, rfl, rfl⟩
  · rw [hStops]
    rintro (⟨q, -, hError, -⟩ | ⟨w, -, hError, -⟩)
    · cases hError
    · cases hError

end Query

end DatalogFragments
