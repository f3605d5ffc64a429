import DatalogFragments.Proofs.Fragment.Relabelling
import DatalogFragments.Proofs.Query.Bookkeeping
import DatalogFragments.Proofs.Query.Parameters
import Mathlib.Data.Set.Function

/-!
# The choice of private names does not matter

A caller may give the private variables of any fragments other names, also such
that other fragments use.  Compilation then draws other fresh names, since the
names that are taken are others and so are the bases.  But every fresh name of
one run stands for the same private variable as one of the other run, and this
correspondence is all that the two queries differ by.

## Main definitions

* `Corresponds` — which fresh names of two runs stand for the same variables;
* `Query.AlphaEquivalent` — queries that differ by such a correspondence.

## Main results

* `exists_corresponds` — the fresh names of two runs correspond;
* `Corresponds.slices_eq` — the compiled fragments are relabelled along it;
* `Assembly.declaredBindings_relabelled` — so are the declarations;
* `Query.compile_alpha_invariant` — the whole.
-/

namespace DatalogFragments

/-! ## Plans that differ in private names -/

section Plan

variable {slices slices' : List Fragment}

theorem Fragment.Relabels.exports_iff {f : Fragment} {σ : String → String}
    (h : f.Relabels σ) (n : String) :
    (f.relabelled σ).Exports n ↔ f.Exports n := by
  rw [Fragment.Exports, h.letNames_eq, List.mem_map]
  refine and_congr_right fun _ => and_congr_right fun hProvide => ?_
  have hExposed : n ∈ f.provideNames := hProvide
  constructor
  · rintro ⟨m, hm, rfl⟩
    rwa [h.respects.eq_of_exposed (f.mem_names_of_let hm) (.inl hExposed)]
  · exact fun hLet => ⟨n, hLet, h.respects.exposed_fixed n (.inl hExposed)⟩

theorem wellFormed_of_relabelled (h : List.Forall₂ Fragment.Relabelled slices slices')
    (hWell : ∀ f ∈ slices, f.WellFormed) : ∀ g ∈ slices', g.WellFormed := by
  induction h with
  | nil => exact hWell
  | cons hfg _ ih =>
      obtain ⟨σ, hσ, rfl⟩ := hfg
      obtain ⟨hHead, hTail⟩ := List.forall_mem_cons.mp hWell
      exact List.forall_mem_cons.mpr ⟨hσ.wellFormed hHead, ih hTail⟩

theorem checkSatisfied_relabelled
    (h : List.Forall₂ Fragment.Relabelled slices slices')
    (hWell : ∀ f ∈ slices, f.WellFormed) :
    checkSatisfied slices = .ok () ↔ checkSatisfied slices' = .ok () := by
  have hProvide : slices.flatMap Fragment.provideNames =
      slices'.flatMap Fragment.provideNames :=
    flatMap_eq_of_forall₂ h fun _ _ _ ⟨_, _, hg⟩ => hg ▸ rfl
  have hRequire : slices.flatMap Fragment.requireNames =
      slices'.flatMap Fragment.requireNames :=
    flatMap_eq_of_forall₂ h fun _ _ _ ⟨_, _, hg⟩ => hg ▸ rfl
  rw [checkSatisfied_eq_ok_iff hWell,
    checkSatisfied_eq_ok_iff (wellFormed_of_relabelled h hWell)]
  simp only [← List.mem_flatMap, ← List.forall_mem_flatMap, hProvide, hRequire]

theorem checkMustLet_relabelled
    (h : List.Forall₂ Fragment.Relabelled slices slices') :
    checkMustLet slices = .ok () ↔ checkMustLet slices' = .ok () := by
  rw [checkMustLet_eq_ok_iff, checkMustLet_eq_ok_iff]
  refine forall_mem_iff_of_forall₂ h fun f g hfg => ?_
  obtain ⟨σ, hσ, rfl⟩ := hfg
  exact hσ.mustLet_bound_iff.symm

theorem clashesOn_relabelled
    (h : List.Forall₂ Fragment.Relabelled slices slices') (n : String) :
    ClashesOn slices n ↔ ClashesOn slices' n := by
  have hExports : (slices.map fun f => f.Exports n) =
      slices'.map fun f => f.Exports n := by
    refine map_eq_of_forall₂ h fun f g _ hfg => ?_
    obtain ⟨σ, hσ, rfl⟩ := hfg
    exact propext (hσ.exports_iff n).symm
  rw [← not_iff_not, not_clashesOn_iff, not_clashesOn_iff,
    ← List.pairwise_map (R := fun p q => ¬(p ∧ q)), hExports, List.pairwise_map]

theorem orderSlices_relabelled
    (h : List.Forall₂ Fragment.Relabelled slices slices') :
    List.Forall₂ Fragment.Relabelled (orderSlices slices) (orderSlices slices') :=
  forall₂_orderSlices (fun _ _ ⟨_, _, hg⟩ => hg ▸ rfl) h

theorem infoFault_relabelled
    (h : List.Forall₂ Fragment.Relabelled slices slices') :
    (orderSlices slices).findSome? Fragment.infoFault? =
      (orderSlices slices').findSome? Fragment.infoFault? := by
  have hFaults : (orderSlices slices).map Fragment.infoFault? =
      (orderSlices slices').map Fragment.infoFault? := by
    refine map_eq_of_forall₂ (orderSlices_relabelled h) fun f g _ hfg => ?_
    obtain ⟨σ, hσ, rfl⟩ := hfg
    exact hσ.infoFault?_eq.symm
  have hFirst : ∀ fs : List Fragment, fs.findSome? Fragment.infoFault? =
      (fs.map Fragment.infoFault?).findSome? id := by
    intro fs
    rw [List.findSome?_map]
    rfl
  rw [hFirst, hFirst, hFaults]

end Plan

/-! ## Fresh names of two runs -/

/-- `σ` gives the other names for every compiled position. -/
structure Labels (slices slices' : List Fragment)
    (σ : Nat → String → String) : Prop where
  ordered_eq : orderSlices slices' =
    (orderSlices slices).mapIdx fun k f => f.relabelled (σ k)
  relabels : ∀ (k : Nat) (f : Fragment), (orderSlices slices)[k]? = some f →
    f.Relabels (σ k)

private theorem exists_relabellings {fs gs : List Fragment}
    (h : List.Forall₂ Fragment.Relabelled fs gs) :
    ∃ σ : Nat → String → String,
      gs = fs.mapIdx (fun k f => f.relabelled (σ k)) ∧
      ∀ (k : Nat) (f : Fragment), fs[k]? = some f → f.Relabels (σ k) := by
  induction h with
  | nil => exact ⟨fun _ => id, rfl, fun k f hk => by simp at hk⟩
  | cons hfg _ ih =>
      obtain ⟨σ₀, hHead, rfl⟩ := hfg
      obtain ⟨σ, rfl, hTail⟩ := ih
      refine ⟨fun k => Nat.casesOn k σ₀ σ, ?_, ?_⟩
      · rw [List.mapIdx_cons]
        rfl
      · intro k f hk
        cases k with
        | zero =>
            rw [List.getElem?_cons_zero, Option.some.injEq] at hk
            exact hk ▸ hHead
        | succ k => exact hTail k f hk

theorem exists_labels {slices slices' : List Fragment}
    (h : List.Forall₂ Fragment.Relabelled slices slices') :
    ∃ σ, Labels slices slices' σ := by
  obtain ⟨σ, hOrdered, hRelabels⟩ := exists_relabellings (orderSlices_relabelled h)
  exact ⟨σ, hOrdered, hRelabels⟩

namespace Labels

variable {slices slices' : List Fragment} {σ : Nat → String → String}
  {k : Nat}

theorem getElem?_eq (h : Labels slices slices' σ) {f : Fragment}
    (hf : (orderSlices slices)[k]? = some f) :
    (orderSlices slices')[k]? = some (f.relabelled (σ k)) := by
  rw [h.ordered_eq, List.getElem?_mapIdx, hf, Option.map_some]

theorem privateAt_image (h : Labels slices slices' σ) {s : String}
    (hs : PrivateAt slices k s) : PrivateAt slices' k (σ k s) := by
  obtain ⟨f, hf, hs⟩ := hs
  exact ⟨_, h.getElem?_eq hf, (h.relabels k f hf).mem_privateNames_iff.mpr ⟨s, hs, rfl⟩⟩

theorem exists_privateAt (h : Labels slices slices' σ) {t : String}
    (ht : PrivateAt slices' k t) : ∃ s, PrivateAt slices k s ∧ σ k s = t := by
  obtain ⟨g, hg, ht⟩ := ht
  rw [h.ordered_eq, List.getElem?_mapIdx, Option.map_eq_some_iff] at hg
  obtain ⟨f, hf, rfl⟩ := hg
  obtain ⟨s, hs, heq⟩ := (h.relabels k f hf).mem_privateNames_iff.mp ht
  exact ⟨s, ⟨f, hf, hs⟩, heq⟩

theorem injective (h : Labels slices slices' σ) {s t : String}
    (hs : PrivateAt slices k s) (ht : PrivateAt slices k t)
    (heq : σ k s = σ k t) : s = t := by
  obtain ⟨f, hf, hs⟩ := hs
  obtain ⟨g, hg, ht⟩ := ht
  obtain rfl : f = g := Option.some.inj (hf.symm.trans hg)
  exact (h.relabels k f hf).injective s hs t ht heq

end Labels

/-- `β` takes the fresh names of the first run to those of the second one that
stand for the same private variables, and keeps every other name. -/
structure Corresponds (slices slices' : List Fragment)
    (σ : Nat → String → String) (β : String → String) : Prop where
  labels : Labels slices slices' σ
  image : ∀ k s, PrivateAt slices k s →
    β (compiledMap slices k s) = compiledMap slices' k (σ k s)
  keeps : ∀ n, n ∉ drawnNames slices → β n = n

/-- A private variable with its compiled position. -/
def PrivateVariable (slices : List Fragment) : Type :=
  {p : Nat × String // PrivateAt slices p.1 p.2}

/-- The fresh name of a private variable. -/
def PrivateVariable.drawn {slices : List Fragment} (v : PrivateVariable slices) :
    String :=
  compiledMap slices v.1.1 v.1.2

/-- No name is drawn twice, so a fresh name tells what it stands for. -/
theorem PrivateVariable.drawn_injective (slices : List Fragment) :
    Function.Injective (@PrivateVariable.drawn slices) := by
  rintro ⟨⟨k, s⟩, hs⟩ ⟨⟨j, t⟩, ht⟩ heq
  obtain ⟨rfl, rfl⟩ := compiledMap_injective hs ht heq
  rfl

theorem exists_corresponds {slices slices' : List Fragment}
    {σ : Nat → String → String} (h : Labels slices slices' σ) :
    ∃ β, Corresponds slices slices' σ β := by
  let redrawn : PrivateVariable slices → String :=
    fun v => compiledMap slices' v.1.1 (σ v.1.1 v.1.2)
  refine ⟨Function.extend PrivateVariable.drawn redrawn id, h, ?_, ?_⟩
  · exact fun k s hs => (PrivateVariable.drawn_injective slices).extend_apply
      redrawn id ⟨(k, s), hs⟩
  · intro n hn
    refine Function.extend_apply' _ _ _ ?_
    rintro ⟨⟨⟨k, s⟩, hs⟩, rfl⟩
    exact hn (mem_drawnNames.mpr ⟨k, s, hs, rfl⟩)

namespace Corresponds

variable {slices slices' : List Fragment} {σ : Nat → String → String}
  {β : String → String}

theorem keepsKinds (h : Corresponds slices slices' σ β) : KeepsKinds β := by
  intro n
  by_cases hn : n ∈ drawnNames slices
  · obtain ⟨k, s, hs, rfl⟩ := mem_drawnNames.mp hn
    rw [h.image k s hs]
    exact .inr ⟨isVariableName_compiledMap hs,
      isVariableName_compiledMap (h.labels.privateAt_image hs)⟩
  · exact .inl (h.keeps n hn)

theorem bijective (h : Corresponds slices slices' σ β) :
    Set.BijOn β {n | n ∈ drawnNames slices} {n | n ∈ drawnNames slices'} := by
  refine ⟨?_, ?_, ?_⟩
  · intro n hn
    obtain ⟨k, s, hs, rfl⟩ := mem_drawnNames.mp hn
    exact mem_drawnNames.mpr
      ⟨k, σ k s, h.labels.privateAt_image hs, (h.image k s hs).symm⟩
  · intro m hm n hn heq
    obtain ⟨k, s, hs, rfl⟩ := mem_drawnNames.mp hm
    obtain ⟨j, t, ht, rfl⟩ := mem_drawnNames.mp hn
    rw [h.image k s hs, h.image j t ht] at heq
    obtain ⟨rfl, hst⟩ := compiledMap_injective (h.labels.privateAt_image hs)
      (h.labels.privateAt_image ht) heq
    rw [h.labels.injective hs ht hst]
  · intro n hn
    obtain ⟨k, t, ht, rfl⟩ := mem_drawnNames.mp hn
    obtain ⟨s, hs, rfl⟩ := h.labels.exists_privateAt ht
    exact ⟨_, mem_drawnNames.mpr ⟨k, s, hs, rfl⟩, h.image k s hs⟩

/-- A name that is used, or is no variable, is not drawn. -/
private theorem not_drawn {k : Nat} {f : Fragment} {n : String}
    (hf : (orderSlices slices)[k]? = some f)
    (hn : n ∈ f.names ∨ isVariableName n = false) : n ∉ drawnNames slices := by
  intro hMem
  obtain ⟨j, s, hs, rfl⟩ := mem_drawnNames.mp hMem
  rcases hn with hn | hn
  · exact compiledMap_not_used hs (usedNames_of_mem_orderSlices slices f
      (List.mem_of_getElem? hf) _ hn)
  · rw [isVariableName_compiledMap hs] at hn
    cases hn

/-- At the names of a fragment, relabelling commutes with drawing fresh names. -/
theorem commuteAt (h : Corresponds slices slices' σ β) {k : Nat} {f : Fragment}
    (hf : (orderSlices slices)[k]? = some f) {n : String}
    (hn : n ∈ f.names ∨ isVariableName n = false) :
    CommuteAt (σ k) (compiledMap slices k) (compiledMap slices' k) β n := by
  have hRelabels := h.labels.relabels k f hf
  have hf' := h.labels.getElem?_eq hf
  have hFresh := freshens_compiledMap hf
  have hFresh' := freshens_compiledMap hf'
  by_cases hPrivate : n ∈ f.privateNames
  · -- A new name on both sides.
    have hAt : PrivateAt slices k n := ⟨f, hf, hPrivate⟩
    have hAt' := h.labels.privateAt_image hAt
    refine ⟨h.image k n hAt, iff_of_false ?_ ?_⟩
    · intro heq
      refine compiledMap_not_used hAt ?_
      rw [heq]
      exact usedNames_of_mem_orderSlices slices f (List.mem_of_getElem? hf) n
        (Fragment.mem_names_of_private hPrivate)
    · intro heq
      refine compiledMap_not_used hAt' ?_
      rw [heq]
      refine usedNames_of_mem_orderSlices slices' _ (List.mem_of_getElem? hf') _ ?_
      exact Fragment.mem_names_of_private
        (hRelabels.mem_privateNames_iff.mpr ⟨n, hPrivate, rfl⟩)
  · -- No new name on either side.
    have hσ := hRelabels.keeps n hPrivate
    have hPrivate' : n ∉ (f.relabelled (σ k)).privateNames := by
      rcases hn with hn | hn
      · rwa [← hRelabels.image_mem_privateNames_iff hn, hσ] at hPrivate
      · intro hMem
        rw [Fragment.isVariableName_of_private hMem] at hn
        cases hn
    rw [CommuteAt, hσ, hFresh.keeps n hPrivate, hFresh'.keeps n hPrivate']
    exact ⟨h.keeps n (not_drawn hf hn), Iff.rfl⟩

theorem slices_eq (h : Corresponds slices slices' σ β) :
    renamedSlices slices' =
      (renamedSlices slices).map (Fragment.relabelled β) := by
  refine List.ext_getElem? fun k => ?_
  rw [renamedSlices, h.labels.ordered_eq, List.getElem?_mapIdx,
    List.getElem?_mapIdx, List.getElem?_map, renamedSlices,
    List.getElem?_mapIdx]
  cases hf : (orderSlices slices)[k]? with
  | none => rfl
  | some f =>
      exact congrArg some (Fragment.renamed_relabelled
        (fun n hn => h.commuteAt hf (.inl hn))
        (fun n hn => h.commuteAt hf (.inr hn)))

/-- A name of a compiled fragment that is not drawn in the first run is not
drawn in the second one either. -/
private theorem not_drawn_of_not_drawn (h : Corresponds slices slices' σ β)
    {g : Fragment} (hg : g ∈ renamedSlices slices) {n : String}
    (hn : n ∈ g.names) (hNot : n ∉ drawnNames slices) :
    n ∉ drawnNames slices' := by
  obtain ⟨k, f, hf, rfl⟩ := mem_renamedSlices.mp hg
  have hFresh := freshens_compiledMap hf
  rw [Fragment.names_renamed hFresh] at hn
  obtain ⟨s, hs, rfl⟩ := List.mem_map.mp hn
  have hPrivate : s ∉ f.privateNames :=
    fun hMem => hNot (mem_drawnNames.mpr ⟨k, s, ⟨f, hf, hMem⟩, rfl⟩)
  have hRelabels := h.labels.relabels k f hf
  rw [hFresh.keeps s hPrivate]
  refine not_drawn (h.labels.getElem?_eq hf) (.inl ?_)
  rw [hRelabels.names_eq]
  exact List.mem_map.mpr ⟨s, hs, hRelabels.keeps s hPrivate⟩

theorem injective (h : Corresponds slices slices' σ β) :
    Set.InjOn β {n | ∃ g ∈ renamedSlices slices, n ∈ g.names} := by
  have hMixed : ∀ m n, (∃ g ∈ renamedSlices slices, n ∈ g.names) →
      m ∈ drawnNames slices → n ∉ drawnNames slices → β m ≠ β n := by
    rintro m n ⟨g, hg, hn⟩ hm hNot heq
    rw [h.keeps n hNot] at heq
    exact h.not_drawn_of_not_drawn hg hn hNot (heq ▸ h.bijective.mapsTo hm)
  intro m hm n hn heq
  by_cases hmDrawn : m ∈ drawnNames slices
  · by_cases hnDrawn : n ∈ drawnNames slices
    · exact h.bijective.injOn hmDrawn hnDrawn heq
    · exact absurd heq (hMixed m n hn hmDrawn hnDrawn)
  · by_cases hnDrawn : n ∈ drawnNames slices
    · exact absurd heq.symm (hMixed n m hm hnDrawn hmDrawn)
    · rwa [h.keeps m hmDrawn, h.keeps n hnDrawn] at heq

end Corresponds

/-! ## Declarations under other names -/

namespace Assembly

/-- A binding with other names, its argument left in place. -/
def relabelBinding (β : String → String) (b : OwnedBinding) : OwnedBinding :=
  (b.1.relabelled β, b.2.1.relabelled β, b.2.2)

theorem bindingsOf_relabelled (β : String → String) (fs : List Fragment) :
    bindingsOf (fs.map (Fragment.relabelled β)) =
      (bindingsOf fs).map (relabelBinding β) := by
  rw [bindingsOf, bindingsOf, List.flatMap_map, List.map_flatMap]
  refine List.flatMap_congr fun f _ => ?_
  rw [Fragment.relabelled, Fragment.mapSymbols, List.map_map, List.map_map]
  rfl

variable {β : String → String}

/-- Specials are no variables, so they keep their names. -/
private theorem relabelled_of_special (h : KeepsKinds β) {s : Name}
    (hs : s.isSpecial = true) : s.relabelled β = s :=
  Symbol.relabelled_of_fixed
    (h.eq_of_not_variable (isVariableName_eq_false_of_special hs))

theorem wholeSpecial?_relabelled (h : KeepsKinds β) (form : Form) :
    wholeSpecial? (form.relabelled β) = wholeSpecial? form := by
  cases form with
  | sym s =>
      have hSpecial : (s.relabelled β).isSpecial = s.isSpecial :=
        h.isSpecialName_eq s.name
      rw [Form.relabelled, Form.mapSymbols_sym, wholeSpecial?, wholeSpecial?,
        hSpecial]
      split
      · rename_i hs
        rw [relabelled_of_special h hs]
      · rfl
  | coll form => rw [Form.relabelled, Form.mapSymbols_coll]; rfl
  | tup forms => rw [Form.relabelled, Form.mapSymbols_tup]; rfl
  | stray v => rw [Form.relabelled, Form.mapSymbols_stray]

theorem specialBinding?_relabelled (h : KeepsKinds β) (b : OwnedBinding) :
    specialBinding? (relabelBinding β b) = specialBinding? b := by
  rw [specialBinding?, relabelBinding, wholeSpecial?_relabelled h]
  rfl

theorem specialBindings_relabelled (h : KeepsKinds β) (bs : List OwnedBinding) :
    specialBindings (bs.map (relabelBinding β)) = specialBindings bs := by
  rw [specialBindings, List.filterMap_map]
  exact List.filterMap_congr fun b _ => specialBinding?_relabelled h b

theorem plainBindings_relabelled (h : KeepsKinds β) (bs : List OwnedBinding) :
    plainBindings (bs.map (relabelBinding β)) =
      (plainBindings bs).map fun p => (p.1.relabelled β, p.2) := by
  have hPlain : ∀ b ∈ bs,
      ((fun b : OwnedBinding => (wholeSpecial? b.2.1).isNone) ∘ relabelBinding β) b =
        (wholeSpecial? b.2.1).isNone := by
    intro b _
    rw [Function.comp_apply, relabelBinding, wholeSpecial?_relabelled h]
  rw [plainBindings, List.filter_map, List.filter_congr hPlain, plainBindings,
    List.map_map, List.map_map]
  rfl

/-- The declarations and arguments of relabelled fragments. -/
theorem declaredBindings_relabelled (h : KeepsKinds β) (bs : List OwnedBinding) :
    declaredBindings (bs.map (relabelBinding β)) =
      (declaredBindings bs).map fun p => (p.1.relabelled β, p.2) := by
  have hFirst : firstSpecials (bs.map (relabelBinding β)) = firstSpecials bs := by
    rw [firstSpecials, specialBindings_relabelled h, firstSpecials]
  rw [declaredBindings, hFirst, plainBindings_relabelled h, declaredBindings,
    List.map_append, List.map_map]
  congr 1
  refine List.map_congr_left fun e he => ?_
  rw [Function.comp_apply, Form.relabelled, Form.mapSymbols_sym,
    relabelled_of_special h (isSpecial_of_mem_firstSpecials he)]

theorem warningsOf_relabelled (h : KeepsKinds β) (bs : List OwnedBinding) :
    warningsOf (bs.map (relabelBinding β)) = warningsOf bs := by
  rw [warningsOf, List.zipIdx_map, List.filterMap_map, warningsOf]
  refine List.filterMap_congr fun p _ => ?_
  rw [Function.comp_apply, ← List.map_take]
  show warning? ((bs.take p.2).map (relabelBinding β)) (relabelBinding β p.1) = _
  rw [warning?, specialBinding?_relabelled h, specialBindings_relabelled h,
    warning?]

end Assembly

/-- The declaration of a form with other names. -/
theorem Form.render_relabelled {β : String → String} (h : KeepsKinds β)
    (form : Form) : (form.relabelled β).render = form.render.relabelled β :=
  render_mapSymbols
    (Symbol.relabelled_of_fixed (h.eq_of_not_variable (by decide))) form

/-! ## The whole -/

namespace Query

/-- The second query is the first one with `β` applied to its fresh names. -/
structure Renames (q : Query) (β : String → String) (q' : Query) : Prop where
  find_eq : q'.find = q.find
  args_eq : q'.args = q.args
  order_eq : q'.order = q.order
  warnings_eq : q'.warnings = q.warnings
  params_eq : q'.params = q.params.map (Term.relabelled β)
  clauses_eq : q'.clauses = q.clauses.map (Term.relabelled β)
  slices_eq : q'.slices = q.slices.map (Fragment.relabelled β)
  bijective : Set.BijOn β {n | n ∈ q.privateNames} {n | n ∈ q'.privateNames}
  keeps : ∀ n, n ∉ q.privateNames → β n = n
  /-- No two names of the first query fall together. -/
  injective : Set.InjOn β {n | ∃ g ∈ q.slices, n ∈ g.names}

/-- Queries that differ in the choice of their fresh names only. -/
def AlphaEquivalent (q q' : Query) : Prop := ∃ β, q.Renames β q'

private theorem renames_build (find : Value) {slices slices' : List Fragment}
    {σ : Nat → String → String} {β : String → String} {a a' : Assembly}
    (h : Corresponds slices slices' σ β)
    (ha : Assembly.ofSlices (renamedSlices slices) = .ok a)
    (ha' : Assembly.ofSlices (renamedSlices slices') = .ok a') :
    (build find (renamedSlices slices) a).Renames β
      (build find (renamedSlices slices') a') := by
  have hKinds := h.keepsKinds
  have hAccounts := Assembly.accounts_ofSlices ha
  have hAccounts' := Assembly.accounts_ofSlices ha'
  rw [h.slices_eq, Assembly.bindingsOf_relabelled] at hAccounts'
  have hParams : a'.allParams = a.allParams.map (Term.relabelled β) := by
    rw [hAccounts'.allParams_eq, Assembly.declaredBindings_relabelled hKinds,
      hAccounts.allParams_eq, List.map_map, List.map_map]
    exact List.map_congr_left fun p _ => Form.render_relabelled hKinds p.1
  have hArgs : a'.allArgs = a.allArgs := by
    rw [hAccounts'.allArgs_eq, Assembly.declaredBindings_relabelled hKinds,
      hAccounts.allArgs_eq, List.map_map]
    rfl
  have hWarnings : a'.warnings = a.warnings := by
    rw [hAccounts'.warnings_eq, Assembly.warningsOf_relabelled hKinds,
      hAccounts.warnings_eq]
  have hOrder : orderOf (renamedSlices slices') = orderOf (renamedSlices slices) := by
    rw [h.slices_eq, orderOf, List.zipIdx_map, List.map_map]
    rfl
  have hClauses : (renamedSlices slices').flatMap Fragment.clauses =
      ((renamedSlices slices).flatMap Fragment.clauses).map (Term.relabelled β) := by
    rw [h.slices_eq, List.flatMap_map, List.map_flatMap]
    rfl
  exact
    { find_eq := rfl
      args_eq := hArgs
      order_eq := hOrder
      warnings_eq := hWarnings
      params_eq := hParams
      clauses_eq := hClauses
      slices_eq := h.slices_eq
      bijective := h.bijective
      keeps := h.keeps
      injective := h.injective }

/-- Other names for private variables make no difference: valid fragments are
compiled, or refused for the same reason, whatever their private variables are
called, and the two queries differ in the choice of fresh names only. -/
theorem compile_alpha_invariant (find : Value) (slices slices' : List Fragment)
    (hValid : ∀ f ∈ slices, f.Valid)
    (hRelabelled : List.Forall₂ Fragment.Relabelled slices slices') :
    SameVerdict AlphaEquivalent (compile find slices) (compile find slices') := by
  have hWell : ∀ f ∈ slices, f.WellFormed :=
    fun f hf => f.valid_iff.mp (hValid f hf)
  have hWell' := wellFormed_of_relabelled hRelabelled hWell
  refine compile_sameVerdict hWell hWell' (checkSatisfied_relabelled hRelabelled hWell)
    (checkMustLet_relabelled hRelabelled) (infoFault_relabelled hRelabelled)
    (clashesOn_relabelled hRelabelled) ?_
  intro q q' hq hq'
  obtain ⟨a, ha, rfl⟩ := exists_of_compile_eq_ok hWell hq
  obtain ⟨a', ha', rfl⟩ := exists_of_compile_eq_ok hWell' hq'
  obtain ⟨σ, hLabels⟩ := exists_labels hRelabelled
  obtain ⟨β, hβ⟩ := exists_corresponds hLabels
  exact ⟨β, renames_build find hβ ha ha'⟩

/-- Two fragments about one entity, each with a private variable. -/
def linked (first second : String) : List Fragment :=
  [ { clauses := [.vector [.named "?e", .literal (.keyword ":a"), .named first]]
      provide := [Symbol.plain "?e", Symbol.plain "$"] }
  , { clauses := [.vector [.named "?e", .literal (.keyword ":b"), .named second]]
      require := [Symbol.plain "?e", Symbol.plain "$"]
      lets := [(.sym (Symbol.plain second), .int 1)] } ]

/-- The first one may take the private name of the second one, which may take
the name that is drawn for the first one. -/
theorem compile_alpha_invariant_linked :
    (∀ f ∈ linked "?y" "?z", f.Valid) ∧
      List.Forall₂ Fragment.Relabelled (linked "?y" "?z") (linked "?z" "?y__0_0") ∧
      (∃ q, compile .null (linked "?y" "?z") = .ok q) ∧
      SameVerdict AlphaEquivalent (compile .null (linked "?y" "?z"))
        (compile .null (linked "?z" "?y__0_0")) := by
  have hValid : ∀ f ∈ linked "?y" "?z", f.Valid := by
    rw [linked, List.forall_mem_cons, List.forall_mem_singleton]
    exact ⟨rfl, rfl⟩
  have hRelabelled : List.Forall₂ Fragment.Relabelled (linked "?y" "?z")
      (linked "?z" "?y__0_0") := by
    refine .cons ⟨Function.update id "?y" "?z", ?_, rfl⟩
      (.cons ⟨Function.update id "?z" "?y__0_0", ?_, rfl⟩ .nil)
    · exact Fragment.relabels_update (by decide) (by decide) (by decide)
    · exact Fragment.relabels_update (by decide) (by decide) (by decide)
  have hRuns : ∃ q, compile .null (linked "?y" "?z") = .ok q := by
    refine exists_compile_of_valid hValid .null rfl rfl ?_ fun n => ?_
    · rw [linked, List.forall_mem_cons, List.forall_mem_singleton]
      exact ⟨rfl, rfl⟩
    · rw [linked, List.pairwise_pair]
      rintro ⟨-, -, hSecond, -⟩
      exact absurd hSecond List.not_mem_nil
  exact ⟨hValid, hRelabelled, hRuns,
    compile_alpha_invariant .null _ _ hValid hRelabelled⟩

end Query

end DatalogFragments
