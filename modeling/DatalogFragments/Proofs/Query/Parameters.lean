import DatalogFragments.Proofs.Query.Outcome

/-!
# Parameters and arguments line up

The assembly of a query keeps declarations and arguments in separate lists,
and specials apart from everything else.  Put together, both lists come from
one list of bindings: the first binding of every special, then all bindings of
other forms.  So an argument stands where its declaration does, whatever is
declared how often.

## Main definitions

* `Assembly.declaredBindings` — the bindings that are declared, in order;
* `Assembly.warningsOf` — the warnings that dropped bindings give rise to.

## Main results

* `Assembly.Accounts.add`, `Assembly.Accounts.addAll` — the assembly accounts
  for the bindings added so far;
* `Assembly.existsUnique_declared` — what is bound is declared once;
* `Query.LinesUp`, `Query.compile_lines_up` — every compiled query lines up.
-/

namespace DatalogFragments

namespace Assembly

/-- A binding with the fragment that it belongs to. -/
abbrev OwnedBinding := Fragment × Form × Value

/-! ## What is to be declared -/

/-- The special that a binding binds as a whole, if it is one. -/
def specialBinding? (b : OwnedBinding) : Option SpecialBinding :=
  (wholeSpecial? b.2.1).map fun s => ⟨s, b.1.name, b.2.2⟩

/-- The bindings of specials, in order. -/
def specialBindings (bs : List OwnedBinding) : List SpecialBinding :=
  bs.filterMap specialBinding?

/-- The first binding of every special, in order. -/
def firstSpecials (bs : List OwnedBinding) : List SpecialBinding :=
  firstsBy (fun e => e.symbol.name) (specialBindings bs)

/-- The bindings of anything but a special, in order. -/
def plainBindings (bs : List OwnedBinding) : List (Form × Value) :=
  (bs.filter fun b => (wholeSpecial? b.2.1).isNone).map Prod.snd

/-- The bindings that are declared: every special with its first argument,
then all other bindings. -/
def declaredBindings (bs : List OwnedBinding) : List (Form × Value) :=
  (firstSpecials bs).map (fun e => (.sym e.symbol, e.value)) ++ plainBindings bs

/-- The warning that a binding gives rise to after earlier ones: a special was
bound before, and the first time with another argument. -/
def warning? (earlier : List OwnedBinding) (b : OwnedBinding) :
    Option Warning := do
  let later ← specialBinding? b
  let first ← (specialBindings earlier).find? fun e =>
    e.symbol.name == later.symbol.name
  if first.value.same later.value then none
  else some ⟨later.symbol.name, first.owner, later.owner⟩

/-- The warnings that bindings give rise to, one position after the other. -/
def warningsOf (bs : List OwnedBinding) : List Warning :=
  bs.zipIdx.filterMap fun p => warning? (bs.take p.2) p.1

theorem warningsOf_concat (bs : List OwnedBinding) (b : OwnedBinding) :
    warningsOf (bs ++ [b]) = warningsOf bs ++ (warning? bs b).toList := by
  have hEarlier : ∀ p ∈ bs.zipIdx,
      warning? ((bs ++ [b]).take p.2) p.1 = warning? (bs.take p.2) p.1 := by
    intro p hp
    have hIndex := (List.mem_zipIdx hp).2.1
    rw [List.take_append_of_le_length (by omega)]
  rw [warningsOf, List.zipIdx_append, List.filterMap_append,
    List.filterMap_congr hEarlier, warningsOf, List.zipIdx_singleton,
    Nat.zero_add, List.filterMap_cons]
  dsimp only
  rw [List.take_left]
  cases warning? bs b <;> rfl

/-! ## Adding bindings -/

/-- The assembly is what the bindings added so far amount to. -/
structure Accounts (a : Assembly) (bs : List OwnedBinding) : Prop where
  specials_eq : a.specials = firstSpecials bs
  params_eq : a.params = (plainBindings bs).map fun p => p.1.render
  args_eq : a.args = (plainBindings bs).map Prod.snd
  warnings_eq : a.warnings = warningsOf bs

theorem Accounts.empty : Accounts {} [] where
  specials_eq := rfl
  params_eq := rfl
  args_eq := rfl
  warnings_eq := rfl

private theorem firstSpecials_concat (bs : List OwnedBinding) (b : OwnedBinding)
    (e : SpecialBinding) (h : specialBinding? b = some e) :
    firstSpecials (bs ++ [b]) =
      if (firstSpecials bs).find? (fun x => x.symbol.name == e.symbol.name) = none
      then firstSpecials bs ++ [e] else firstSpecials bs := by
  have hList : specialBindings (bs ++ [b]) = specialBindings bs ++ [e] := by
    rw [specialBindings, List.filterMap_append, List.filterMap_cons, h]
    rfl
  rw [firstSpecials, hList, firstsBy_concat, ← firstSpecials]
  simp only [firstSpecials, find?_firstsBy, ite_not,
    find?_key_eq_none_iff fun x : SpecialBinding => x.symbol.name]

private theorem warning?_eq (bs : List OwnedBinding) {b : OwnedBinding}
    {e : SpecialBinding} (h : specialBinding? b = some e) :
    warning? bs b =
      ((firstSpecials bs).find? fun x => x.symbol.name == e.symbol.name).bind
        fun first => if first.value.same e.value then none
          else some ⟨e.symbol.name, first.owner, e.owner⟩ := by
  rw [firstSpecials, find?_firstsBy, warning?, h]
  rfl

/-- A binding of a special adds to specials and warnings only. -/
private theorem Accounts.special {a a' : Assembly} {bs : List OwnedBinding}
    {b : OwnedBinding} {e : SpecialBinding} (h : Accounts a bs)
    (hb : specialBinding? b = some e) (hParams : a'.params = a.params)
    (hArgs : a'.args = a.args)
    (hSpecials : a'.specials = firstSpecials (bs ++ [b]))
    (hWarnings : a'.warnings = a.warnings ++ (warning? bs b).toList) :
    Accounts a' (bs ++ [b]) := by
  have hForm : (wholeSpecial? b.2.1).isNone = false := by
    rw [specialBinding?, Option.map_eq_some_iff] at hb
    obtain ⟨s, hs, -⟩ := hb
    rw [hs]
    rfl
  have hPlain : plainBindings (bs ++ [b]) = plainBindings bs := by
    rw [plainBindings, List.filter_append,
      List.filter_cons_of_neg (by simp [hForm]), List.filter_nil,
      List.append_nil, plainBindings]
  refine ⟨hSpecials, ?_, ?_, ?_⟩
  · rw [hPlain, hParams, h.params_eq]
  · rw [hPlain, hArgs, h.args_eq]
  · rw [warningsOf_concat, hWarnings, h.warnings_eq]

/-- Any other binding adds a declaration and its argument only. -/
private theorem Accounts.plain {a : Assembly} {bs : List OwnedBinding}
    {f : Fragment} {form : Form} {value : Value} (h : Accounts a bs)
    (hForm : wholeSpecial? form = none) (declared : List (String × Value)) :
    Accounts
      { a with
        declared := declared
        params := a.params ++ [form.render]
        args := a.args ++ [value] }
      (bs ++ [(f, form, value)]) := by
  have hBinding : specialBinding? (f, form, value) = none := by
    rw [specialBinding?, hForm]
    rfl
  have hPlain : plainBindings (bs ++ [(f, form, value)]) =
      plainBindings bs ++ [(form, value)] := by
    rw [plainBindings, List.filter_append,
      List.filter_cons_of_pos (by simp [hForm]), List.filter_nil,
      List.map_append, plainBindings]
    rfl
  have hSpecials : firstSpecials (bs ++ [(f, form, value)]) =
      firstSpecials bs := by
    rw [firstSpecials, specialBindings, List.filterMap_append,
      List.filterMap_cons, hBinding, List.filterMap_nil, List.append_nil,
      firstSpecials, specialBindings]
  have hWarning : warning? bs (f, form, value) = none := by
    rw [warning?, hBinding]
    rfl
  refine ⟨h.specials_eq.trans hSpecials.symm, ?_, ?_, ?_⟩
  · rw [hPlain, List.map_append, ← h.params_eq]
    rfl
  · rw [hPlain, List.map_append, ← h.args_eq]
    rfl
  · rw [warningsOf_concat, hWarning]
    exact h.warnings_eq.trans (List.append_nil _).symm

/-- One more binding is accounted for. -/
theorem Accounts.add {a a' : Assembly} {bs : List OwnedBinding}
    (h : Accounts a bs) {f : Fragment} {form : Form} {value : Value}
    (hAdd : a.add f form value = .ok a') :
    Accounts a' (bs ++ [(f, form, value)]) := by
  rw [Assembly.add] at hAdd
  cases hForm : wholeSpecial? form with
  | none =>
      rw [hForm] at hAdd
      obtain ⟨declared, -, hEq⟩ := bind_eq_ok_iff.mp hAdd
      cases hEq
      exact h.plain hForm declared
  | some s =>
      have hBinding : specialBinding? (f, form, value) =
          some ⟨s, f.name, value⟩ := by
        rw [specialBinding?, hForm]
        rfl
      have hFirst := firstSpecials_concat bs _ _ hBinding
      have hWarning := warning?_eq bs hBinding
      rw [hForm] at hAdd
      dsimp only at hAdd hFirst hWarning
      rw [← h.specials_eq] at hFirst hWarning
      cases hFound : a.specials.find? fun x => x.symbol.name == s.name with
      | none =>
          rw [hFound] at hAdd hFirst hWarning
          cases hAdd
          rw [if_pos rfl] at hFirst
          refine h.special hBinding rfl rfl hFirst.symm ?_
          rw [hWarning]
          exact (List.append_nil _).symm
      | some first =>
          rw [hFound] at hAdd hFirst hWarning
          rw [if_neg (by simp)] at hFirst
          rw [Option.bind_some] at hWarning
          dsimp only at hAdd
          split at hAdd
          · rename_i hSame
            cases hAdd
            refine h.special hBinding rfl rfl hFirst.symm ?_
            rw [hWarning, if_pos hSame]
            exact (List.append_nil _).symm
          · rename_i hDiffers
            cases hAdd
            refine h.special hBinding rfl rfl hFirst.symm ?_
            rw [hWarning, if_neg hDiffers]
            rfl

/-- Whatever is added to an assembly, it accounts for. -/
theorem Accounts.addAll {a a' : Assembly} {done bs : List OwnedBinding}
    (h : Accounts a done) (hAll : a.addAll bs = .ok a') :
    Accounts a' (done ++ bs) := by
  induction bs generalizing a done with
  | nil =>
      cases hAll
      rw [List.append_nil]
      exact h
  | cons b bs ih =>
      obtain ⟨f, form, value⟩ := b
      rw [Assembly.addAll] at hAll
      obtain ⟨a₁, hAdd, hRest⟩ := bind_eq_ok_iff.mp hAll
      have hStep := ih (h.add hAdd) hRest
      rw [List.append_assoc, List.singleton_append] at hStep
      exact hStep

theorem accounts_ofSlices {fs : List Fragment} {a : Assembly}
    (h : ofSlices fs = .ok a) : Accounts a (bindingsOf fs) :=
  Accounts.empty.addAll h

theorem Accounts.allParams_eq {a : Assembly} {bs : List OwnedBinding}
    (h : Accounts a bs) :
    a.allParams = (declaredBindings bs).map fun p => p.1.render := by
  rw [allParams, h.specials_eq, h.params_eq, declaredBindings, List.map_append,
    List.map_map]
  rfl

theorem Accounts.allArgs_eq {a : Assembly} {bs : List OwnedBinding}
    (h : Accounts a bs) : a.allArgs = (declaredBindings bs).map Prod.snd := by
  rw [allArgs, h.specials_eq, h.args_eq, declaredBindings, List.map_append,
    List.map_map]
  rfl

/-! ## Everything bound is declared once -/

private theorem existsUnique_getElem? {α : Type} {F : α → List String}
    {l : List α} {n : String} (hNodup : (l.flatMap F).Nodup)
    (hn : n ∈ l.flatMap F) : ∃! i : Nat, ∃ x, l[i]? = some x ∧ n ∈ F x := by
  obtain ⟨x, hx, hnx⟩ := List.mem_flatMap.mp hn
  obtain ⟨i, hi⟩ := List.mem_iff_getElem?.mp hx
  have hApart := List.pairwise_iff_getElem.mp (List.nodup_flatMap.mp hNodup).2
  have hNotBelow : ∀ (j k : Nat) (y z : α), l[j]? = some y →
      l[k]? = some z → n ∈ F y → n ∈ F z → ¬j < k := by
    intro j k y z hj hk hy hz hjk
    obtain ⟨hjl, rfl⟩ := List.getElem?_eq_some_iff.mp hj
    obtain ⟨hkl, rfl⟩ := List.getElem?_eq_some_iff.mp hk
    exact hApart j k hjl hkl hjk hy hz
  refine ⟨i, ⟨x, hi, hnx⟩, ?_⟩
  rintro j ⟨y, hj, hny⟩
  have hBelow := hNotBelow j i y x hj hi hny hnx
  have hAbove := hNotBelow i j x y hi hj hnx hny
  omega

/-- The names that declared bindings bind, in order. -/
def declaredBindingNames (bs : List OwnedBinding) : List String :=
  (declaredBindings bs).flatMap fun p => p.1.names

theorem isSpecial_of_wholeSpecial {form : Form} {s : Name}
    (h : wholeSpecial? form = some s) : s.isSpecial = true := by
  cases form with
  | sym t =>
      rw [wholeSpecial?] at h
      split at h
      · rename_i hSpecial
        rwa [← Option.some.inj h]
      · cases h
  | _ => cases h

private theorem isSpecial_of_specialBinding {b : OwnedBinding}
    {e : SpecialBinding} (h : specialBinding? b = some e) :
    e.symbol.isSpecial = true := by
  rw [specialBinding?, Option.map_eq_some_iff] at h
  obtain ⟨s, hs, rfl⟩ := h
  exact isSpecial_of_wholeSpecial hs

theorem isSpecial_of_mem_firstSpecials {bs : List OwnedBinding}
    {e : SpecialBinding} (h : e ∈ firstSpecials bs) :
    e.symbol.isSpecial = true := by
  obtain ⟨b, -, hb⟩ := List.mem_filterMap.mp (mem_of_mem_firstsBy h)
  exact isSpecial_of_specialBinding hb

private theorem flatMap_names_plainBindings (bs : List OwnedBinding) :
    ((plainBindings bs).flatMap fun p => p.1.names) = declaredNames bs := by
  rw [plainBindings, List.flatMap_map, declaredNames]
  induction bs with
  | nil => rfl
  | cons b bs ih =>
      rw [List.flatMap_cons, ← ih, declaredBy]
      cases hb : wholeSpecial? b.2.1 with
      | some s => rw [List.filter_cons_of_neg (by simp [hb]), List.nil_append]
      | none => rw [List.filter_cons_of_pos (by simp [hb]), List.flatMap_cons]

theorem declaredBindingNames_eq (bs : List OwnedBinding) :
    declaredBindingNames bs =
      (firstSpecials bs).map (fun e => e.symbol.name) ++ declaredNames bs := by
  have hSpecials : ((firstSpecials bs).flatMap fun e =>
      (Form.sym e.symbol).names) =
      (firstSpecials bs).map fun e => e.symbol.name := by
    rw [List.map_eq_flatMap]
    refine List.flatMap_congr fun e he => ?_
    rw [Form.names, Form.symbols_of_special (isSpecial_of_mem_firstSpecials he)]
    rfl
  rw [declaredBindingNames, declaredBindings, List.flatMap_append,
    List.flatMap_map, hSpecials, flatMap_names_plainBindings]

/-- Nothing is declared twice by well-formed fragments that can be put
together. -/
theorem nodup_declaredBindingNames {fs : List Fragment} {a : Assembly}
    (hWell : ∀ f ∈ fs, f.WellFormed) (h : ofSlices fs = .ok a) :
    (declaredBindingNames (bindingsOf fs)).Nodup := by
  have hPlain : (fs.flatMap parameterNames).Nodup := by
    rcases ofSlices_outcome hWell with ⟨-, hNodup⟩ | ⟨e, f, n, hError, -⟩
    · exact hNodup
    · rw [h] at hError
      cases hError
  rw [declaredBindingNames_eq, declaredNames_bindingsOf hWell]
  refine List.nodup_append'.mpr ⟨nodup_map_firstsBy _ _, hPlain, ?_⟩
  -- One part consists of specials, the other one has none.
  intro n hn hn'
  obtain ⟨e, he, rfl⟩ := List.mem_map.mp hn
  obtain ⟨f, -, hf⟩ := List.mem_flatMap.mp hn'
  have hSpecial : isSpecialName e.symbol.name = true :=
    isSpecial_of_mem_firstSpecials he
  rw [(mem_parameterNames.mp hf).2] at hSpecial
  cases hSpecial

/-- What a fragment binds is declared. -/
theorem mem_declaredBindingNames {fs : List Fragment} {f : Fragment}
    (hf : f ∈ fs) {n : String} (hn : n ∈ f.letNames) :
    n ∈ declaredBindingNames (bindingsOf fs) := by
  rw [Fragment.letNames, Fragment.letSymbols, List.map_flatMap] at hn
  obtain ⟨p, hp, hn⟩ := List.mem_flatMap.mp hn
  have hMem : (f, p.1, p.2) ∈ bindingsOf fs :=
    List.mem_flatMap.mpr ⟨f, hf, List.mem_map_of_mem hp⟩
  rw [declaredBindingNames_eq, List.mem_append]
  cases hForm : wholeSpecial? p.1 with
  | some s =>
      left
      have hBinding : specialBinding? (f, p.1, p.2) = some ⟨s, f.name, p.2⟩ := by
        rw [specialBinding?, hForm]
        rfl
      have hName : n = s.name := by
        rw [eq_sym_of_wholeSpecial hForm,
          Form.symbols_of_special (isSpecial_of_wholeSpecial hForm)] at hn
        simpa using hn
      rw [hName, firstSpecials, mem_map_firstsBy]
      exact List.mem_map_of_mem (List.mem_filterMap.mpr ⟨_, hMem, hBinding⟩)
  | none =>
      right
      refine List.mem_flatMap.mpr ⟨_, hMem, ?_⟩
      rw [declaredBy, hForm]
      exact hn

private theorem declarable_of_let {f : Fragment} (hf : f.WellFormed)
    {n : String} (hn : n ∈ f.letNames) : isDeclarableName n = true := by
  cases hSpecial : isSpecialName n with
  | true => exact isDeclarableName_of_special hSpecial
  | false => exact isDeclarableName_of_variable (hf.variable_of_let hn hSpecial)

/-- The name occurs in the declaration at the index. -/
def NamedAt (params : List Clause) (n : String) (i : Nat) : Prop :=
  ∃ c : Clause, params[i]? = some c ∧ n ∈ c.symbols.map Symbol.name

/-- What a fragment binds is named in exactly one declaration. -/
theorem existsUnique_declared {fs : List Fragment} {a : Assembly}
    (hWell : ∀ f ∈ fs, f.WellFormed) (h : ofSlices fs = .ok a)
    {f : Fragment} (hf : f ∈ fs) {n : String} (hn : n ∈ f.letNames) :
    ∃! i, NamedAt ((declaredBindings (bindingsOf fs)).map
      fun p => p.1.render) n i := by
  have hDeclarable := declarable_of_let (hWell f hf) hn
  have hPlaceholder : n ≠ placeholderName := by
    rintro rfl
    exact absurd hDeclarable (by decide)
  have hEllipsis : n ≠ ellipsisName := by
    rintro rfl
    exact absurd hDeclarable (by decide)
  have hUnique := existsUnique_getElem? (nodup_declaredBindingNames hWell h)
    (mem_declaredBindingNames hf hn)
  refine (existsUnique_congr fun i => ?_).mp hUnique
  rw [NamedAt, List.getElem?_map]
  simp only [Option.map_eq_some_iff]
  constructor
  · rintro ⟨p, hp, hMem⟩
    exact ⟨_, ⟨p, hp, rfl⟩, (Form.mem_names_render hPlaceholder hEllipsis _).mpr hMem⟩
  · rintro ⟨c, ⟨p, hp, rfl⟩, hMem⟩
    exact ⟨p, hp, (Form.mem_names_render hPlaceholder hEllipsis _).mp hMem⟩

end Assembly

namespace Query

/-- Declarations, arguments and warnings of a query, read off the bindings of
its fragments in compiled order. -/
structure LinesUp (q : Query) : Prop where
  /-- Specials are declared in the order of their first binding, then all other
  bindings in order. -/
  params_eq : q.params = (Assembly.declaredBindings
    (Assembly.bindingsOf q.slices)).map fun p => p.1.render
  /-- The argument of a declaration is that of the binding which is declared. -/
  args_eq : q.args = (Assembly.declaredBindings
    (Assembly.bindingsOf q.slices)).map Prod.snd
  length_eq : q.args.length = q.params.length
  /-- What is bound is named in exactly one declaration. -/
  declared_once : ∀ g ∈ q.slices, ∀ n ∈ g.letNames,
    ∃! i, Assembly.NamedAt q.params n i
  mustLet_bound : ∀ g ∈ q.slices, ∀ n ∈ g.mustLetNames, n ∈ g.letNames
  /-- A later binding of a special warns if its argument differs from the
  first one; nothing else warns. -/
  warnings_eq : q.warnings =
    Assembly.warningsOf (Assembly.bindingsOf q.slices)

private theorem mustLet_bound_renamed {slices : List Fragment}
    (h : checkMustLet slices = .ok ()) :
    ∀ g ∈ renamedSlices slices, ∀ n ∈ g.mustLetNames, n ∈ g.letNames := by
  intro g hg n hn
  obtain ⟨k, f, hf, rfl⟩ := mem_renamedSlices.mp hg
  have hKeeps := (freshens_compiledMap hf).keepsKinds
  have hMem := mem_orderSlices.mp (List.mem_of_getElem? hf)
  rw [Fragment.mustLetNames_renamed] at hn
  obtain ⟨s, hs, rfl⟩ := List.mem_map.mp hn
  rw [Fragment.letNames_renamed hKeeps]
  exact List.mem_map_of_mem ((checkMustLet_eq_ok_iff slices).mp h f hMem s hs)

/-- In every compiled query parameters and arguments line up, whatever valid
fragments it is made of. -/
theorem compile_lines_up (find : Value) (slices : List Fragment) (q : Query)
    (hValid : ∀ f ∈ slices, f.Valid) (hCompile : compile find slices = .ok q) :
    LinesUp q := by
  have hWell : ∀ f ∈ slices, f.WellFormed :=
    fun f hf => f.valid_iff.mp (hValid f hf)
  obtain ⟨-, hMustLet⟩ := checks_of_compile_eq_ok hCompile
  obtain ⟨a, ha, rfl⟩ := exists_of_compile_eq_ok hWell hCompile
  have hAccounts := Assembly.accounts_ofSlices ha
  have hParams := hAccounts.allParams_eq
  have hArgs := hAccounts.allArgs_eq
  exact
    { params_eq := hParams
      args_eq := hArgs
      length_eq := by
        show a.allArgs.length = a.allParams.length
        rw [hParams, hArgs, List.length_map, List.length_map]
      declared_once := by
        intro g hg n hn
        show ∃! i, Assembly.NamedAt a.allParams n i
        rw [hParams]
        exact Assembly.existsUnique_declared (wellFormed_of_mem_renamedSlices hWell)
          ha hg hn
      mustLet_bound := mustLet_bound_renamed hMustLet
      warnings_eq := hAccounts.warnings_eq }

/-- A private variable and the default datasource are bound, the latter by two
fragments to different databases. -/
def disputed : List Fragment :=
  [ { name := .text "new"
      provide := [Symbol.plain "$"]
      lets := [(.sym (Symbol.plain "$"), .text "new")]
      selectivity := 2 }
  , { clauses := [.vector [.named "?x", .literal (.keyword ":a"), .named "?y"]]
      require := [Symbol.plain "$"]
      lets := [(.coll (.sym (Symbol.plain "?y")), .list [.int 1, .int 2])]
      mustLet := [Symbol.plain "?y"]
      selectivity := 1 }
  , { name := .text "old"
      provide := [Symbol.plain "$"]
      lets := [(.sym (Symbol.plain "$"), .text "old")]
      selectivity := 1 } ]

theorem disputed_valid : ∀ f ∈ disputed, f.Valid := by
  rw [disputed, List.forall_mem_cons, List.forall_mem_cons,
    List.forall_mem_singleton]
  exact ⟨rfl, rfl, rfl⟩

private theorem exists_compile_disputed :
    ∃ q, compile .null disputed = .ok q := by
  refine exists_compile_of_valid disputed_valid .null rfl rfl ?_ fun n => ?_
  · rw [disputed, List.forall_mem_cons, List.forall_mem_cons,
      List.forall_mem_singleton]
    exact ⟨rfl, rfl, rfl⟩
  · -- The only provided symbol is a special.
    rw [← not_clashesOn_iff]
    have hProvide : ∀ f ∈ disputed, n ∈ f.provideNames → n = "$" := by
      rw [disputed, List.forall_mem_cons, List.forall_mem_cons,
        List.forall_mem_singleton]
      exact ⟨List.mem_singleton.mp, fun h => absurd h List.not_mem_nil,
        List.mem_singleton.mp⟩
    rintro ⟨j, k, f, g, -, hf, -, ⟨hSpecial, hMem, -⟩, -⟩
    rw [hProvide f (List.mem_of_getElem? hf) hMem] at hSpecial
    exact absurd hSpecial (by decide)

theorem compile_lines_up_disputed :
    (∀ f ∈ disputed, f.Valid) ∧
      ∃ q, compile .null disputed = .ok q ∧ LinesUp q := by
  obtain ⟨q, hq⟩ := exists_compile_disputed
  exact ⟨disputed_valid, q, hq,
    compile_lines_up .null disputed q disputed_valid hq⟩

end Query

end DatalogFragments
