import DatalogFragments.Proofs.Fragment.Renaming

/-!
# Fresh names across a list of fragments

The taken names are threaded through a list of fragments, so a name that is
drawn for one fragment is not drawn again for a later one.  After the whole
run every fragment has a map of its own, and the images of private variables
meet no other name of any fragment.

## Main results

* `FreshenedApart` — the invariant of the run;
* `freshenedApart_renamingOf` — the run establishes it;
* `FreshenedApart.capture_free` — the image of a private variable is the image
  of no other name;
* `FreshenedApart.coincidence` — when two images are the same name;
* `renamingOf_mono` — more taken names make no difference unless one of them is
  drawn;
* `renamingOf_congr` — of the taken names only the set counts.
-/

namespace DatalogFragments

/-- Every fragment of a list has a map that freshens its private variables,
and private variables of different fragments have different images. -/
structure FreshenedApart (fs : List Fragment) (ρ : Nat → String → String)
    (used : List String) : Prop where
  freshens : ∀ (k : Nat) (f : Fragment), fs[k]? = some f → f.Freshens (ρ k) used
  apart : ∀ (k j : Nat) (f g : Fragment), fs[k]? = some f → fs[j]? = some g →
    ∀ s ∈ f.privateNames, ∀ t ∈ g.privateNames, ρ k s = ρ j t → k = j

namespace FreshenedApart

variable {fs : List Fragment} {ρ : Nat → String → String}
  {used : List String}

theorem nil (ρ : Nat → String → String) (used : List String) :
    FreshenedApart [] ρ used where
  freshens k f hk := by simp at hk
  apart k j f g hk := by simp at hk

/-- A further fragment in front: its private variables are given names that
count as used for the rest. -/
theorem cons {f : Fragment} {used' : List String}
    (hHead : f.Freshens (ρ 0) used)
    (hTail : FreshenedApart fs (fun k => ρ (k + 1)) used')
    (hUsed : ∀ n ∈ used, n ∈ used')
    (hDrawn : ∀ n ∈ f.privateNames, ρ 0 n ∈ used') :
    FreshenedApart (f :: fs) ρ used where
  freshens := by
    intro k g hk
    cases k with
    | zero =>
        obtain rfl : f = g := by simpa using hk
        exact hHead
    | succ k =>
        rw [List.getElem?_cons_succ] at hk
        exact (hTail.freshens k g hk).mono hUsed
  apart := by
    intro k j g h hk hj s hs t ht heq
    cases k with
    | zero =>
        cases j with
        | zero => rfl
        | succ j =>
            obtain rfl : f = g := by simpa using hk
            rw [List.getElem?_cons_succ] at hj
            exact absurd (heq ▸ hDrawn s hs) ((hTail.freshens j h hj).fresh t ht)
    | succ k =>
        rw [List.getElem?_cons_succ] at hk
        cases j with
        | zero =>
            obtain rfl : f = h := by simpa using hj
            exact absurd (heq ▸ hDrawn t ht) ((hTail.freshens k g hk).fresh s hs)
        | succ j =>
            rw [List.getElem?_cons_succ] at hj
            rw [hTail.apart k j g h hk hj s hs t ht heq]

/-- The image of a private variable is the image of no other name, in its own
fragment or in another one. -/
theorem capture_free (h : FreshenedApart fs ρ used)
    (hUsed : ∀ f ∈ fs, ∀ n ∈ f.names, n ∈ used) {k j : Nat} {f g : Fragment}
    (hk : fs[k]? = some f) (hj : fs[j]? = some g) {s t : String}
    (hs : s ∈ f.privateNames) (ht : t ∈ g.names) (heq : ρ k s = ρ j t) :
    k = j ∧ s = t := by
  have hf := h.freshens k f hk
  have hg := h.freshens j g hj
  by_cases htPrivate : t ∈ g.privateNames
  · obtain rfl := h.apart k j f g hk hj s hs t htPrivate heq
    obtain rfl : f = g := Option.some.inj (hk.symm.trans hj)
    exact ⟨rfl, hf.injective s hs t htPrivate heq⟩
  · rw [hg.keeps t htPrivate] at heq
    exact absurd (heq ▸ hUsed g (List.mem_of_getElem? hj) t ht) (hf.fresh s hs)

/-- Two names have the same image only if they are the same name, of one
fragment or public in both. -/
theorem coincidence (h : FreshenedApart fs ρ used)
    (hUsed : ∀ f ∈ fs, ∀ n ∈ f.names, n ∈ used) {k j : Nat} {f g : Fragment}
    (hk : fs[k]? = some f) (hj : fs[j]? = some g) {s t : String}
    (hs : s ∈ f.names) (ht : t ∈ g.names) (heq : ρ k s = ρ j t) :
    s = t ∧ (k = j ∨ s ∉ f.privateNames ∧ t ∉ g.privateNames) := by
  by_cases hsPrivate : s ∈ f.privateNames
  · obtain ⟨hIndex, hName⟩ := h.capture_free hUsed hk hj hsPrivate ht heq
    exact ⟨hName, .inl hIndex⟩
  · by_cases htPrivate : t ∈ g.privateNames
    · obtain ⟨hIndex, hName⟩ :=
        h.capture_free hUsed hj hk htPrivate hs heq.symm
      exact ⟨hName.symm, .inl hIndex.symm⟩
    · rw [(h.freshens k f hk).keeps s hsPrivate,
        (h.freshens j g hj).keeps t htPrivate] at heq
      exact ⟨heq, .inr ⟨hsPrivate, htPrivate⟩⟩

end FreshenedApart

/-! ## The run -/

/-- The map for every fragment of a list.  Fresh names are drawn for one
fragment after the other, and each is taken from then on. -/
def renamingOf (base : Nat → Nat → String → String) :
    Nat → List String → List Fragment → Nat → String → String
  | _, _, [], _ => id
  | slice, taken, f :: _, 0 => (f.privateRenaming (base slice) taken).1.renameText
  | slice, taken, f :: fs, k + 1 =>
    renamingOf base (slice + 1) (f.privateRenaming (base slice) taken).2 fs k

section Run

variable {base : Nat → Nat → String → String}

theorem mem_privateRenaming_taken (f : Fragment) (slice : Nat)
    {taken : List String} {n : String} (h : n ∈ taken) :
    n ∈ (f.privateRenaming (base slice) taken).2 := by
  rw [f.privateRenaming_taken]
  exact List.mem_append_right _ h

theorem drawn_mem_taken (f : Fragment) (slice : Nat) (taken : List String)
    {n : String} (h : n ∈ f.privateNames) :
    (f.privateRenaming (base slice) taken).1.renameText n ∈
      (f.privateRenaming (base slice) taken).2 := by
  rw [f.privateRenaming_taken, ← f.map_privateRenaming, List.mem_append,
    List.mem_reverse]
  exact .inl (List.mem_map_of_mem h)

/-- Drawing names for one fragment after the other keeps them apart. -/
theorem freshenedApart_renamingOf
    (hBase : ∀ k i n, isVariableName n = true →
      isVariableName (base k i n) = true)
    (slice : Nat) (taken : List String) (fs : List Fragment) :
    FreshenedApart fs (renamingOf base slice taken fs) taken := by
  induction fs generalizing slice taken with
  | nil => exact FreshenedApart.nil _ taken
  | cons f fs ih =>
      exact FreshenedApart.cons
        (Fragment.freshens_privateRenaming (hBase slice))
        (ih (slice + 1) (f.privateRenaming (base slice) taken).2)
        (fun _ hn => mem_privateRenaming_taken f slice hn)
        (fun _ hn => drawn_mem_taken f slice taken hn)

/-- Further taken names make no difference to a fragment unless one of them is
drawn: the same names are drawn, and are taken from then on. -/
theorem privateRenaming_mono (f : Fragment) (slice : Nat)
    {taken taken' : List String} (h : ∀ n ∈ taken, n ∈ taken')
    (hAvoid : ∀ s ∈ f.privateNames,
      (f.privateRenaming (base slice) taken).1.renameText s ∉ taken') :
    (f.privateRenaming (base slice) taken').1 =
        (f.privateRenaming (base slice) taken).1 ∧
      ∃ drawn, (f.privateRenaming (base slice) taken).2 = drawn ++ taken ∧
        (f.privateRenaming (base slice) taken').2 = drawn ++ taken' := by
  have hDrawn : (freshNames (f.privateNames.mapIdx (base slice)) taken').1 =
      (freshNames (f.privateNames.mapIdx (base slice)) taken).1 := by
    refine freshNames_mono h ?_
    rw [← f.map_privateRenaming, List.forall_mem_map]
    exact hAvoid
  refine ⟨congrArg f.privateNames.zip hDrawn, _, f.privateRenaming_taken _ _, ?_⟩
  rw [f.privateRenaming_taken, hDrawn]

/-- Further taken names make no difference to a run unless one of them is
drawn. -/
theorem renamingOf_mono
    (hBase : ∀ k i n, isVariableName n = true →
      isVariableName (base k i n) = true)
    (slice : Nat) {taken taken' : List String}
    (h : ∀ n ∈ taken, n ∈ taken') (fs : List Fragment)
    (hAvoid : ∀ (k : Nat) (f : Fragment), fs[k]? = some f →
      ∀ s ∈ f.privateNames, renamingOf base slice taken fs k s ∉ taken') :
    renamingOf base slice taken' fs = renamingOf base slice taken fs := by
  induction fs generalizing slice taken taken' with
  | nil =>
      funext k
      rw [renamingOf, renamingOf]
  | cons f fs ih =>
      obtain ⟨hRenaming, drawn, hTaken, hTaken'⟩ :=
        privateRenaming_mono f slice h (hAvoid 0 f rfl)
      have hTail : renamingOf base (slice + 1)
            (f.privateRenaming (base slice) taken').2 fs =
          renamingOf base (slice + 1)
            (f.privateRenaming (base slice) taken).2 fs := by
        refine ih (slice + 1) ?_ ?_
        · rw [hTaken, hTaken']
          simp only [List.mem_append]
          exact fun n => Or.imp_right (h n)
        · -- What is drawn for the rest is new, also compared to this fragment.
          have hRest := freshenedApart_renamingOf hBase (slice + 1)
            (f.privateRenaming (base slice) taken).2 fs
          have hDrawn : ∀ n ∈ drawn, n ∈ (f.privateRenaming (base slice) taken).2 :=
            fun n hn => hTaken ▸ List.mem_append_left taken hn
          intro k g hk s hs hMem
          rw [hTaken', List.mem_append] at hMem
          rcases hMem with hMem | hMem
          · exact (hRest.freshens k g hk).fresh s hs (hDrawn _ hMem)
          · exact hAvoid (k + 1) g hk s hs hMem
      funext k
      cases k with
      | zero => rw [renamingOf, renamingOf, hRenaming]
      | succ k => rw [renamingOf, renamingOf, hTail]

/-- Of the taken names only the set counts. -/
theorem renamingOf_congr
    (hBase : ∀ k i n, isVariableName n = true →
      isVariableName (base k i n) = true)
    (slice : Nat) {taken taken' : List String}
    (h : ∀ n, n ∈ taken ↔ n ∈ taken') (fs : List Fragment) :
    renamingOf base slice taken fs = renamingOf base slice taken' fs := by
  have hApart := freshenedApart_renamingOf hBase slice taken fs
  refine (renamingOf_mono hBase slice (fun n => (h n).mp) fs ?_).symm
  exact fun k f hk s hs => mt (h _).mpr ((hApart.freshens k f hk).fresh s hs)

end Run

end DatalogFragments
