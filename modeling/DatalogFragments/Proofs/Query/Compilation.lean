import DatalogFragments.Proofs.Fragment.RenamingRun
import DatalogFragments.Proofs.Query.Assembly

/-!
# What compilation computes

Once the checks of a plan have passed, compilation moves every fragment along
a map of names and puts the declarations together.  This file names the maps
and the renamed fragments, and says when the rest goes through: no private
variable carries display information that is no mapping, and no two fragments
provide and bind the same variable.

## Main results

* `renameSlices_eq` — the renaming of all fragments;
* `freshenedApart_compiledMap` — the maps keep the fragments apart;
* `mem_drawnNames` — what the fresh names stand for;
* `duplicate_parameterNames_iff` — what is declared twice;
* `Query.compile_eq`, `Query.exists_of_compile_eq_ok` — the whole.
-/

namespace DatalogFragments

/-! ## Renamed fragments -/

/-- The base of a new name for a compiled position. -/
def sliceBase (slice position : Nat) (name : String) : String :=
  privateBase name slice position

theorem isVariableName_sliceBase (slice position : Nat) (name : String)
    (h : isVariableName name = true) :
    isVariableName (sliceBase slice position name) = true :=
  isVariableName_privateBase h _ _

/-- The map of names for a position of a list of fragments. -/
def compiledMap (slices : List Fragment) : Nat → String → String :=
  renamingOf sliceBase 0 (usedNames slices) (orderSlices slices)

/-- The renamed fragments in compiled order. -/
def renamedSlices (slices : List Fragment) : List Fragment :=
  (orderSlices slices).mapIdx fun k f => f.renamed (compiledMap slices k)

theorem mem_orderSlices {f : Fragment} {slices : List Fragment} :
    f ∈ orderSlices slices ↔ f ∈ slices :=
  (List.mergeSort_perm _ _).mem_iff

theorem orderSlices_singleton (f : Fragment) : orderSlices [f] = [f] :=
  List.mergeSort_singleton f

/-- The renaming of all fragments, with the fault of the first one that has
any. -/
theorem renameSlices_eq {fs : List Fragment} (hf : ∀ f ∈ fs, f.WellFormed)
    (slice : Nat) (taken : List String)
    (hUsed : ∀ f ∈ fs, ∀ n ∈ f.names, n ∈ taken) :
    renameSlices slice taken fs = okUnless (fs.findSome? Fragment.infoFault?)
      (fs.mapIdx fun k f => f.renamed (renamingOf sliceBase slice taken fs k)) := by
  induction fs generalizing slice taken with
  | nil => rfl
  | cons f fs ih =>
      obtain ⟨hHead, hTail⟩ := List.forall_mem_cons.mp hf
      obtain ⟨hHeadUsed, hTailUsed⟩ := List.forall_mem_cons.mp hUsed
      have hDrawn : f.sliceRenaming slice taken =
          f.privateRenaming (sliceBase slice) taken := rfl
      rw [renameSlices, Fragment.renamePrivate_eq hHead _ hHeadUsed, hDrawn,
        List.findSome?_cons]
      cases f.infoFault? with
      | some e => rfl
      | none =>
          rw [okUnless_none, ok_bind]
          dsimp only
          rw [ih hTail (slice + 1) _ fun g hg n hn =>
            mem_privateRenaming_taken f slice (hTailUsed g hg n hn)]
          cases fs.findSome? Fragment.infoFault? with
          | some e => rfl
          | none =>
              rw [List.mapIdx_cons]
              rfl

theorem findSome?_orderSlices_eq_none {slices : List Fragment}
    (h : ∀ f ∈ slices, f.infoFault? = none) :
    (orderSlices slices).findSome? Fragment.infoFault? = none := by
  rw [List.findSome?_eq_none_iff]
  exact fun f hf => h f (mem_orderSlices.mp hf)

theorem usedNames_of_mem_orderSlices (slices : List Fragment) :
    ∀ f ∈ orderSlices slices, ∀ n ∈ f.names, n ∈ usedNames slices :=
  fun f hf => names_subset_usedNames slices f (mem_orderSlices.mp hf)

theorem renameSlices_orderSlices {slices : List Fragment}
    (h : ∀ f ∈ slices, f.WellFormed) :
    renameSlices 0 (usedNames slices) (orderSlices slices) =
      okUnless ((orderSlices slices).findSome? Fragment.infoFault?)
        (renamedSlices slices) :=
  renameSlices_eq (fun f hf => h f (mem_orderSlices.mp hf)) 0 _
    (usedNames_of_mem_orderSlices slices)

/-- The maps freshen the private variables of their fragments and keep
different fragments apart. -/
theorem freshenedApart_compiledMap (slices : List Fragment) :
    FreshenedApart (orderSlices slices) (compiledMap slices)
      (usedNames slices) :=
  freshenedApart_renamingOf isVariableName_sliceBase 0 _ _

theorem freshens_compiledMap {slices : List Fragment} {k : Nat} {f : Fragment}
    (hf : (orderSlices slices)[k]? = some f) :
    f.Freshens (compiledMap slices k) (usedNames slices) :=
  (freshenedApart_compiledMap slices).freshens k f hf

theorem getElem?_renamedSlices {slices : List Fragment} {k : Nat}
    {g : Fragment} : (renamedSlices slices)[k]? = some g ↔
      ∃ f, (orderSlices slices)[k]? = some f ∧
        f.renamed (compiledMap slices k) = g := by
  rw [renamedSlices, List.getElem?_mapIdx, Option.map_eq_some_iff]

theorem mem_renamedSlices {slices : List Fragment} {g : Fragment} :
    g ∈ renamedSlices slices ↔
      ∃ (k : Nat) (f : Fragment), (orderSlices slices)[k]? = some f ∧
        f.renamed (compiledMap slices k) = g := by
  rw [List.mem_iff_getElem?]
  exact exists_congr fun k => getElem?_renamedSlices

/-- The name is a private variable of the fragment at a compiled position. -/
def PrivateAt (slices : List Fragment) (k : Nat) (n : String) : Prop :=
  ∃ f, (orderSlices slices)[k]? = some f ∧ n ∈ f.privateNames

/-- The private variables of the renamed fragments. -/
def drawnNames (slices : List Fragment) : List String :=
  (renamedSlices slices).flatMap Fragment.privateNames

/-- They are the images of the private variables of the fragments. -/
theorem mem_drawnNames {slices : List Fragment} {n : String} :
    n ∈ drawnNames slices ↔
      ∃ k s, PrivateAt slices k s ∧ compiledMap slices k s = n := by
  have hImages : ∀ (k : Nat) (f : Fragment), (orderSlices slices)[k]? = some f →
      (n ∈ (f.renamed (compiledMap slices k)).privateNames ↔
        ∃ s ∈ f.privateNames, compiledMap slices k s = n) :=
    fun k f hf => Fragment.mem_privateNames_renamed (freshens_compiledMap hf)
      (usedNames_of_mem_orderSlices slices f (List.mem_of_getElem? hf))
  rw [drawnNames, List.mem_flatMap]
  constructor
  · rintro ⟨g, hg, hn⟩
    obtain ⟨k, f, hf, rfl⟩ := mem_renamedSlices.mp hg
    obtain ⟨s, hs, heq⟩ := (hImages k f hf).mp hn
    exact ⟨k, s, ⟨f, hf, hs⟩, heq⟩
  · rintro ⟨k, s, ⟨f, hf, hs⟩, heq⟩
    exact ⟨_, mem_renamedSlices.mpr ⟨k, f, hf, rfl⟩,
      (hImages k f hf).mpr ⟨s, hs, heq⟩⟩

theorem isVariableName_compiledMap {slices : List Fragment} {k : Nat}
    {s : String} (h : PrivateAt slices k s) :
    isVariableName (compiledMap slices k s) = true := by
  obtain ⟨f, hf, hs⟩ := h
  exact (freshens_compiledMap hf).isVariable s hs

theorem compiledMap_not_used {slices : List Fragment} {k : Nat} {s : String}
    (h : PrivateAt slices k s) : compiledMap slices k s ∉ usedNames slices := by
  obtain ⟨f, hf, hs⟩ := h
  exact (freshens_compiledMap hf).fresh s hs

/-- No name is drawn twice. -/
theorem compiledMap_injective {slices : List Fragment} {k j : Nat}
    {s t : String} (hs : PrivateAt slices k s) (ht : PrivateAt slices j t)
    (heq : compiledMap slices k s = compiledMap slices j t) : k = j ∧ s = t := by
  obtain ⟨f, hf, hs⟩ := hs
  obtain ⟨g, hg, ht⟩ := ht
  exact (freshenedApart_compiledMap slices).capture_free
    (usedNames_of_mem_orderSlices slices) hf hg hs
    (Fragment.mem_names_of_private ht) heq

theorem wellFormed_of_mem_renamedSlices {slices : List Fragment}
    (h : ∀ f ∈ slices, f.WellFormed) :
    ∀ g ∈ renamedSlices slices, g.WellFormed := by
  intro g hg
  obtain ⟨k, f, hf, rfl⟩ := mem_renamedSlices.mp hg
  have hMem := List.mem_of_getElem? hf
  exact (h f (mem_orderSlices.mp hMem)).renamed (freshens_compiledMap hf)
    (usedNames_of_mem_orderSlices slices f hMem)

/-! ## Names declared twice -/

private theorem duplicate_flatMap_iff {α : Type} {F : α → List String}
    {l : List α} {n : String} (h : ∀ x ∈ l, (F x).Nodup) :
    List.Duplicate n (l.flatMap F) ↔ ∃ (j k : Nat) (x y : α), j < k ∧
      l[j]? = some x ∧ l[k]? = some y ∧ n ∈ F x ∧ n ∈ F y := by
  induction l with
  | nil => simp
  | cons a l ih =>
      obtain ⟨hHead, hTail⟩ := List.forall_mem_cons.mp h
      rw [List.flatMap_cons]
      constructor
      · intro hTwice
        by_cases hn : n ∈ F a
        · have hRest : n ∈ l.flatMap F := by
            rw [List.duplicate_iff_two_le_count, List.count_append] at hTwice
            have hOnce := List.nodup_iff_count_le_one.mp hHead n
            exact List.count_pos_iff.mp (by omega)
          obtain ⟨y, hy, hny⟩ := List.mem_flatMap.mp hRest
          obtain ⟨k, hk⟩ := List.mem_iff_getElem?.mp hy
          exact ⟨0, k + 1, a, y, by omega, rfl, hk, hn, hny⟩
        · have hRest : List.Duplicate n (l.flatMap F) := by
            rw [List.duplicate_iff_two_le_count, List.count_append,
              List.count_eq_zero_of_not_mem hn, Nat.zero_add] at hTwice
            exact List.duplicate_iff_two_le_count.mpr hTwice
          obtain ⟨j, k, x, y, hjk, hx, hy, hn⟩ := (ih hTail).mp hRest
          exact ⟨j + 1, k + 1, x, y, by omega, hx, hy, hn⟩
      · rintro ⟨j, k, x, y, hjk, hx, hy, hnx, hny⟩
        obtain ⟨k, rfl⟩ : ∃ i, k = i + 1 := ⟨k - 1, by omega⟩
        rw [List.getElem?_cons_succ] at hy
        cases j with
        | zero =>
            obtain rfl : a = x := by simpa using hx
            have hRest : n ∈ l.flatMap F :=
              List.mem_flatMap.mpr ⟨y, List.mem_of_getElem? hy, hny⟩
            have hHeadCount := List.count_pos_iff.mpr hnx
            have hRestCount := List.count_pos_iff.mpr hRest
            rw [List.duplicate_iff_two_le_count, List.count_append]
            omega
        | succ j =>
            rw [List.getElem?_cons_succ] at hx
            have hRest := (ih hTail).mpr
              ⟨j, k, x, y, by omega, hx, hy, hnx, hny⟩
            exact hRest.mono_sublist (List.sublist_append_right _ _)

namespace Fragment

/-- The name is no special, and the fragment both provides and binds it. -/
def Exports (f : Fragment) (n : String) : Prop :=
  isSpecialName n = false ∧ n ∈ f.provideNames ∧ n ∈ f.letNames

end Fragment

/-- Two positions of a list of fragments export the same name. -/
def ClashesOn (slices : List Fragment) (n : String) : Prop :=
  ∃ (j k : Nat) (f g : Fragment), j ≠ k ∧ slices[j]? = some f ∧
    slices[k]? = some g ∧ f.Exports n ∧ g.Exports n

theorem not_clashesOn_iff (slices : List Fragment) (n : String) :
    ¬ClashesOn slices n ↔
      slices.Pairwise fun f g => ¬(f.Exports n ∧ g.Exports n) := by
  rw [List.pairwise_iff_getElem]
  constructor
  · intro h j k hj hk hjk hBoth
    exact h ⟨j, k, slices[j], slices[k], Nat.ne_of_lt hjk,
      List.getElem?_eq_getElem hj, List.getElem?_eq_getElem hk, hBoth⟩
  · rintro h ⟨j, k, f, g, hne, hf, hg, hfn, hgn⟩
    obtain ⟨hj, rfl⟩ := List.getElem?_eq_some_iff.mp hf
    obtain ⟨hk, rfl⟩ := List.getElem?_eq_some_iff.mp hg
    rcases Nat.lt_or_gt_of_ne hne with hjk | hkj
    · exact h j k hj hk hjk ⟨hfn, hgn⟩
    · exact h k j hk hj hkj ⟨hgn, hfn⟩

/-- The order of the fragments does not matter for a clash. -/
theorem clashesOn_orderSlices (slices : List Fragment) (n : String) :
    ClashesOn (orderSlices slices) n ↔ ClashesOn slices n := by
  rw [← not_iff_not, not_clashesOn_iff, not_clashesOn_iff]
  exact (List.mergeSort_perm _ _).pairwise_iff
    fun hfg hgf => hfg hgf.symm

theorem mem_parameterNames {f : Fragment} {n : String} :
    n ∈ Assembly.parameterNames f ↔
      n ∈ f.letNames ∧ isSpecialName n = false := by
  rw [Assembly.parameterNames, List.mem_filter, Bool.not_eq_true']

private theorem parameterNames_renamed {f : Fragment} {ρ : String → String}
    (h : KeepsKinds ρ) : Assembly.parameterNames (f.renamed ρ) =
      (Assembly.parameterNames f).map ρ := by
  rw [Assembly.parameterNames, Fragment.letNames_renamed h, List.filter_map,
    Assembly.parameterNames]
  refine congrArg (List.map ρ) (List.filter_congr fun n _ => ?_)
  rw [Function.comp_apply, h.isSpecialName_eq]

/-- A bound name that is neither special nor private is provided. -/
private theorem exports_of_not_private {f : Fragment} (hf : f.WellFormed)
    {n : String} (hn : n ∈ Assembly.parameterNames f)
    (hPrivate : n ∉ f.privateNames) : f.Exports n := by
  obtain ⟨hLet, hSpecial⟩ := mem_parameterNames.mp hn
  rcases hf.let_cases hLet (hf.variable_of_let hLet hSpecial) with h | h
  · exact ⟨hSpecial, h, hLet⟩
  · exact absurd h hPrivate

/-- What a fragment exports, its renamed form declares under the same name. -/
private theorem declared_of_exports {f : Fragment} {ρ : String → String}
    {used : List String} (h : f.Freshens ρ used) {n : String}
    (hn : f.Exports n) : n ∈ Assembly.parameterNames (f.renamed ρ) := by
  obtain ⟨hSpecial, hProvide, hLet⟩ := hn
  rw [parameterNames_renamed h.keepsKinds, List.mem_map]
  exact ⟨n, mem_parameterNames.mpr ⟨hLet, hSpecial⟩, h.provide_fixed hProvide⟩

/-- A name is declared twice iff two fragments export it. -/
theorem duplicate_parameterNames_iff {slices : List Fragment}
    (h : ∀ f ∈ slices, f.WellFormed) (n : String) :
    List.Duplicate n ((renamedSlices slices).flatMap Assembly.parameterNames) ↔
      ClashesOn slices n := by
  have hApart := freshenedApart_compiledMap slices
  have hWell : ∀ f ∈ orderSlices slices, f.WellFormed :=
    fun f hf => h f (mem_orderSlices.mp hf)
  have hNodup : ∀ g ∈ renamedSlices slices,
      (Assembly.parameterNames g).Nodup :=
    fun g hg => (wellFormed_of_mem_renamedSlices h g hg).let_nodup.filter _
  rw [duplicate_flatMap_iff hNodup, ← clashesOn_orderSlices]
  constructor
  · rintro ⟨j, k, f', g', hjk, hj, hk, hnf, hng⟩
    obtain ⟨f, hf, rfl⟩ := getElem?_renamedSlices.mp hj
    obtain ⟨g, hg, rfl⟩ := getElem?_renamedSlices.mp hk
    rw [parameterNames_renamed (hApart.freshens j f hf).keepsKinds] at hnf
    rw [parameterNames_renamed (hApart.freshens k g hg).keepsKinds] at hng
    obtain ⟨s, hs, rfl⟩ := List.mem_map.mp hnf
    obtain ⟨t, ht, heq⟩ := List.mem_map.mp hng
    obtain ⟨rfl, hIndex | ⟨hsPublic, htPublic⟩⟩ := hApart.coincidence
      (usedNames_of_mem_orderSlices slices) hf hg
      (f.mem_names_of_let (mem_parameterNames.mp hs).1)
      (g.mem_names_of_let (mem_parameterNames.mp ht).1) heq.symm
    · omega
    · rw [(hApart.freshens j f hf).keeps s hsPublic]
      exact ⟨j, k, f, g, Nat.ne_of_lt hjk, hf, hg,
        exports_of_not_private (hWell f (List.mem_of_getElem? hf)) hs hsPublic,
        exports_of_not_private (hWell g (List.mem_of_getElem? hg)) ht htPublic⟩
  · rintro ⟨j, k, f, g, hne, hf, hg, hnf, hng⟩
    have hf' := getElem?_renamedSlices.mpr ⟨f, hf, rfl⟩
    have hg' := getElem?_renamedSlices.mpr ⟨g, hg, rfl⟩
    have hnf' := declared_of_exports (hApart.freshens j f hf) hnf
    have hng' := declared_of_exports (hApart.freshens k g hg) hng
    rcases Nat.lt_or_gt_of_ne hne with hjk | hkj
    · exact ⟨j, k, _, _, hjk, hf', hg', hnf', hng'⟩
    · exact ⟨k, j, _, _, hkj, hg', hf', hng', hnf'⟩

/-! ## The whole -/

namespace Query

/-- The query that renamed fragments and their declarations make. -/
def build (find : Value) (ordered : List Fragment) (a : Assembly) : Query where
  find := find
  params := a.allParams
  clauses := ordered.flatMap Fragment.clauses
  args := a.allArgs
  order := orderOf ordered
  slices := ordered
  warnings := a.warnings

/-- Compilation of well-formed fragments, step by step. -/
theorem compile_eq {slices : List Fragment} (h : ∀ f ∈ slices, f.WellFormed)
    (find : Value) :
    compile find slices = (checkSatisfied slices >>= fun _ =>
      checkMustLet slices >>= fun _ =>
      okUnless ((orderSlices slices).findSome? Fragment.infoFault?)
        (renamedSlices slices) >>= fun ordered =>
      Assembly.ofSlices ordered >>= fun a => .ok (build find ordered a)) := by
  rw [compile, renameSlices_orderSlices h]
  rfl

/-- The private variables of the compiled fragments. -/
def privateNames (q : Query) : List String := q.slices.flatMap Fragment.privateNames

/-- What a compiled query is made of. -/
theorem exists_of_compile_eq_ok {slices : List Fragment}
    (h : ∀ f ∈ slices, f.WellFormed) {find : Value} {q : Query}
    (hq : compile find slices = .ok q) :
    ∃ a, Assembly.ofSlices (renamedSlices slices) = .ok a ∧
      q = build find (renamedSlices slices) a := by
  rw [compile_eq h, then_eq_ok_iff, then_eq_ok_iff, bind_eq_ok_iff] at hq
  obtain ⟨-, -, ordered, hOrdered, hRest⟩ := hq
  obtain ⟨-, rfl⟩ := okUnless_eq_ok_iff.mp hOrdered
  obtain ⟨a, ha, hBuild⟩ := bind_eq_ok_iff.mp hRest
  exact ⟨a, ha, (Except.ok.inj hBuild).symm⟩

/-- What is compiled has passed the checks of a plan. -/
theorem checks_of_compile_eq_ok {slices : List Fragment} {find : Value}
    {q : Query} (hq : compile find slices = .ok q) :
    checkSatisfied slices = .ok () ∧ checkMustLet slices = .ok () := by
  rw [compile, then_eq_ok_iff, then_eq_ok_iff] at hq
  exact ⟨hq.1, hq.2.1⟩

/-- Past the checks of the plan, what is left to go wrong is display
information that is no mapping and a name that two fragments export. -/
theorem exists_compile_eq_ok {slices : List Fragment}
    (h : ∀ f ∈ slices, f.WellFormed) (find : Value)
    (hSatisfied : checkSatisfied slices = .ok ())
    (hMustLet : checkMustLet slices = .ok ())
    (hInfo : (orderSlices slices).findSome? Fragment.infoFault? = none)
    (hApart : ∀ n, ¬ClashesOn slices n) :
    ∃ q, compile find slices = .ok q := by
  rw [compile_eq h, hSatisfied, hMustLet, hInfo, okUnless_none]
  simp only [ok_bind]
  rcases Assembly.ofSlices_outcome (wellFormed_of_mem_renamedSlices h) with
    ⟨⟨a, ha⟩, -⟩ | ⟨e, f, n, -, -, -, hTwice⟩
  · exact ⟨build find (renamedSlices slices) a, by rw [ha, ok_bind]⟩
  · exact absurd ((duplicate_parameterNames_iff h n).mp hTwice) (hApart n)

/-- Valid fragments that pass the checks of a plan are compiled if their display
information can be read and no two of them export one name. -/
theorem exists_compile_of_valid {slices : List Fragment}
    (hValid : ∀ f ∈ slices, f.Valid) (find : Value)
    (hSatisfied : checkSatisfied slices = .ok ())
    (hMustLet : checkMustLet slices = .ok ())
    (hInfo : ∀ f ∈ slices, f.infoFault? = none)
    (hApart : ∀ n, slices.Pairwise fun f g => ¬(f.Exports n ∧ g.Exports n)) :
    ∃ q, compile find slices = .ok q :=
  exists_compile_eq_ok (fun f hf => f.valid_iff.mp (hValid f hf)) find hSatisfied
    hMustLet (findSome?_orderSlices_eq_none hInfo)
    fun n => (not_clashesOn_iff slices n).mpr (hApart n)

/-- Display information that is no mapping stops compilation, once the checks
of the plan do not. -/
theorem compile_eq_error_of_infoFault {slices : List Fragment}
    (h : ∀ f ∈ slices, f.WellFormed) (find : Value)
    (hSatisfied : checkSatisfied slices = .ok ())
    (hMustLet : checkMustLet slices = .ok ()) {e : Fault}
    (hInfo : (orderSlices slices).findSome? Fragment.infoFault? = some e) :
    compile find slices = .error e := by
  rw [compile_eq h, hSatisfied, hMustLet, hInfo, okUnless_some, ok_bind, ok_bind,
    error_bind]

/-- What is compiled has display information that can be read. -/
theorem infoFault_of_compile_eq_ok {slices : List Fragment}
    (h : ∀ f ∈ slices, f.WellFormed) {find : Value} {q : Query}
    (hq : compile find slices = .ok q) :
    (orderSlices slices).findSome? Fragment.infoFault? = none := by
  obtain ⟨hSatisfied, hMustLet⟩ := checks_of_compile_eq_ok hq
  cases hInfo : (orderSlices slices).findSome? Fragment.infoFault? with
  | none => rfl
  | some e =>
      rw [compile_eq_error_of_infoFault h find hSatisfied hMustLet hInfo] at hq
      cases hq

/-- A name that two fragments export stops compilation, once nothing before
does. -/
theorem exists_compile_eq_error {slices : List Fragment}
    (h : ∀ f ∈ slices, f.WellFormed) (find : Value)
    (hSatisfied : checkSatisfied slices = .ok ())
    (hMustLet : checkMustLet slices = .ok ())
    (hInfo : (orderSlices slices).findSome? Fragment.infoFault? = none)
    (hClash : ∃ n, ClashesOn slices n) :
    ∃ e f n, compile find slices = .error e ∧ Assembly.RefusesTwice f n e ∧
      ClashesOn slices n := by
  rw [compile_eq h, hSatisfied, hMustLet, hInfo, okUnless_none]
  simp only [ok_bind]
  rcases Assembly.ofSlices_outcome (wellFormed_of_mem_renamedSlices h) with
    ⟨-, hNodup⟩ | ⟨e, f, n, hError, -, hRefuses, hTwice⟩
  · obtain ⟨n, hn⟩ := hClash
    exact absurd hNodup ((duplicate_parameterNames_iff h n).mpr hn).not_nodup
  · exact ⟨e, f, n, by rw [hError, error_bind], hRefuses,
      (duplicate_parameterNames_iff h n).mp hTwice⟩

end Query

end DatalogFragments
