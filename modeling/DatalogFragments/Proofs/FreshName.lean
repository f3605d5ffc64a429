import DatalogFragments.FreshName
import DatalogFragments.Proofs.DecimalText
import DatalogFragments.Proofs.NameKind
import Mathlib.Data.Finset.Card

/-!
# Fresh names are fresh

The candidates for a base are pairwise different, so one of the first
`taken.length + 1` of them is free and the search finds the first such one.
Names drawn one after the other from one set of taken names are therefore new,
and different from each other.

## Main results

* `freshName_spec` — the candidate with the least free suffix;
* `freshNames_taken`, `nodup_freshNames`, `freshNames_not_mem` — a sequence of
  fresh names;
* `freshNames_mono` — more taken names make no difference unless one of them is
  drawn.
-/

namespace DatalogFragments

/-! ## Candidates -/

private theorem append_ne_self {base tail : String} (h : tail.toList ≠ []) :
    base ++ tail ≠ base := by
  intro heq
  have hList := congrArg String.toList heq
  rw [String.toList_append] at hList
  exact h (List.append_right_eq_self.mp hList)

/-- The candidates for a base are pairwise different. -/
theorem candidateName_injective (base : String) {m n : Nat}
    (h : candidateName base m = candidateName base n) : m = n := by
  have hSuffix : ∀ k : Nat, base ++ "_" ++ intText (k : Int) ≠ base := by
    intro k
    rw [String.append_assoc]
    exact append_ne_self (by simp [String.toList_append])
  unfold candidateName at h
  by_cases hm : m = 0 <;> by_cases hn : n = 0
  · rw [hm, hn]
  · rw [if_pos hm, if_neg hn] at h
    exact absurd h.symm (hSuffix n)
  · rw [if_neg hm, if_pos hn] at h
    exact absurd h (hSuffix m)
  · rw [if_neg hm, if_neg hn] at h
    have hList := congrArg String.toList h
    rw [String.toList_append (s := base ++ "_"),
      String.toList_append (s := base ++ "_")] at hList
    exact intText_natCast_injective
      (String.toList_injective (List.append_cancel_left hList))

/-- The candidates before a suffix are pairwise different, so no more of them can
be taken than there are taken names. -/
theorem le_card_of_candidates_mem {base : String} {taken : List String} {n : Nat}
    (h : ∀ m < n, candidateName base m ∈ taken) : n ≤ taken.toFinset.card := by
  have hSubset : (Finset.range n).image (candidateName base) ⊆ taken.toFinset := by
    intro name hName
    obtain ⟨m, hm, rfl⟩ := Finset.mem_image.mp hName
    exact List.mem_toFinset.mpr (h m (Finset.mem_range.mp hm))
  calc n = ((Finset.range n).image (candidateName base)).card := by
        rw [Finset.card_image_of_injective _ fun _ _ => candidateName_injective base,
          Finset.card_range]
    _ ≤ taken.toFinset.card := Finset.card_le_card hSubset

/-- Among one more candidates than there are taken names one is free. -/
theorem exists_free_candidate (base : String) (taken : List String) :
    ∃ n ≤ taken.length, candidateName base n ∉ taken := by
  by_contra hAll
  push Not at hAll
  have hMany : taken.length + 1 ≤ taken.toFinset.card :=
    le_card_of_candidates_mem fun m hm => hAll m (Nat.lt_succ_iff.mp hm)
  have hFew := taken.toFinset_card_le
  omega

/-- The fresh name is the candidate with the least suffix that is free. -/
theorem freshName_spec (base : String) (taken : List String) :
    ∃ n ≤ taken.length, freshName base taken = candidateName base n ∧
      candidateName base n ∉ taken ∧
      ∀ m < n, candidateName base m ∈ taken := by
  obtain ⟨k, hk, hkFree⟩ := exists_free_candidate base taken
  unfold freshName
  generalize hFound : (List.range (taken.length + 1)).find?
    (fun n => !taken.contains (candidateName base n)) = found
  cases found with
  | none =>
      have hTaken := List.find?_eq_none.mp hFound k
        (List.mem_range.mpr (by omega))
      simp [hkFree] at hTaken
  | some n =>
      obtain ⟨hFree, hRange, hLeast⟩ := List.find?_range_eq_some.mp hFound
      refine ⟨n, ?_, rfl, by simpa using hFree, ?_⟩
      · have := List.mem_range.mp hRange
        omega
      · intro m hm
        simpa using hLeast m hm

theorem freshName_not_mem (base : String) (taken : List String) :
    freshName base taken ∉ taken := by
  obtain ⟨n, -, hEq, hFree, -⟩ := freshName_spec base taken
  rw [hEq]
  exact hFree

/-- Further taken names make no difference unless the name drawn is among
them. -/
theorem freshName_mono {base : String} {taken taken' : List String}
    (h : ∀ n ∈ taken, n ∈ taken') (hAvoid : freshName base taken ∉ taken') :
    freshName base taken' = freshName base taken := by
  obtain ⟨m, -, hm, hmFree, hmLeast⟩ := freshName_spec base taken
  obtain ⟨n, -, hn, hnFree, hnLeast⟩ := freshName_spec base taken'
  rw [hm] at hAvoid ⊢
  have hmn : ¬m < n := fun hLt => hAvoid (hnLeast m hLt)
  have hnm : ¬n < m := fun hLt => hnFree (h _ (hmLeast n hLt))
  have hEq : n = m := by omega
  rw [hn, hEq]

theorem isVariableName_candidateName {base : String}
    (h : isVariableName base = true) (n : Nat) :
    isVariableName (candidateName base n) = true := by
  unfold candidateName
  split
  · exact h
  · exact isVariableName_append (isVariableName_append h _) _

theorem isVariableName_freshName {base : String}
    (h : isVariableName base = true) (taken : List String) :
    isVariableName (freshName base taken) = true := by
  obtain ⟨n, -, hEq, -⟩ := freshName_spec base taken
  rw [hEq]
  exact isVariableName_candidateName h n

theorem isVariableName_privateBase {name : String}
    (h : isVariableName name = true) (slice position : Int) :
    isVariableName (privateBase name slice position) = true := by
  unfold privateBase
  exact isVariableName_append (isVariableName_append
    (isVariableName_append (isVariableName_append h _) _) _) _

theorem isVariableName_armBase {name : String}
    (h : isVariableName name = true) (branch : Int) :
    isVariableName (armBase name branch) = true := by
  unfold armBase
  exact isVariableName_append (isVariableName_append h _) _

/-! ## Sequences of fresh names -/

theorem freshNames_cons (base : String) (bases taken : List String) :
    freshNames (base :: bases) taken =
      (freshName base taken ::
          (freshNames bases (freshName base taken :: taken)).1,
        (freshNames bases (freshName base taken :: taken)).2) := rfl

theorem length_freshNames (bases taken : List String) :
    (freshNames bases taken).1.length = bases.length := by
  induction bases generalizing taken with
  | nil => rfl
  | cons base bases ih => rw [freshNames_cons, List.length_cons, ih, List.length_cons]

/-- The taken names grow by exactly the fresh ones. -/
theorem freshNames_taken (bases taken : List String) :
    (freshNames bases taken).2 = (freshNames bases taken).1.reverse ++ taken := by
  induction bases generalizing taken with
  | nil => rfl
  | cons base bases ih =>
      rw [freshNames_cons, ih, List.reverse_cons, List.append_assoc,
        List.singleton_append]

theorem freshNames_not_mem (bases taken : List String) :
    ∀ name ∈ (freshNames bases taken).1, name ∉ taken := by
  induction bases generalizing taken with
  | nil =>
      intro name hName
      exact absurd hName List.not_mem_nil
  | cons base bases ih =>
      intro name hName hTaken
      rw [freshNames_cons, List.mem_cons] at hName
      rcases hName with rfl | hRest
      · exact freshName_not_mem base taken hTaken
      · exact ih _ name hRest (List.mem_cons_of_mem _ hTaken)

theorem nodup_freshNames (bases taken : List String) :
    (freshNames bases taken).1.Nodup := by
  induction bases generalizing taken with
  | nil => exact List.nodup_nil
  | cons base bases ih =>
      rw [freshNames_cons, List.nodup_cons]
      refine ⟨?_, ih _⟩
      intro hMem
      exact freshNames_not_mem bases _ _ hMem List.mem_cons_self

/-- Further taken names make no difference unless one of them is drawn. -/
theorem freshNames_mono {bases taken taken' : List String}
    (h : ∀ n ∈ taken, n ∈ taken')
    (hAvoid : ∀ n ∈ (freshNames bases taken).1, n ∉ taken') :
    (freshNames bases taken').1 = (freshNames bases taken).1 := by
  induction bases generalizing taken taken' with
  | nil => rfl
  | cons base bases ih =>
      rw [freshNames_cons, List.forall_mem_cons] at hAvoid
      obtain ⟨hHead, hTail⟩ := hAvoid
      have hFresh := freshName_mono h hHead
      have hGrown : ∀ n ∈ freshName base taken :: taken,
          n ∈ freshName base taken :: taken' := by
        intro n hn
        exact (List.mem_cons.mp hn).elim (fun heq => heq ▸ List.mem_cons_self)
          fun hn => List.mem_cons_of_mem _ (h n hn)
      rw [freshNames_cons, freshNames_cons, hFresh, ih hGrown]
      intro n hn hMem
      rcases List.mem_cons.mp hMem with rfl | hMem
      · exact freshNames_not_mem bases _ _ hn List.mem_cons_self
      · exact hTail n hn hMem

/-- Fresh names for variables are variables. -/
theorem isVariableName_of_mem_freshNames {bases : List String}
    (h : ∀ base ∈ bases, isVariableName base = true) (taken : List String) :
    ∀ name ∈ (freshNames bases taken).1, isVariableName name = true := by
  induction bases generalizing taken with
  | nil =>
      intro name hName
      exact absurd hName List.not_mem_nil
  | cons base bases ih =>
      intro name hName
      rw [freshNames_cons, List.mem_cons] at hName
      rcases hName with rfl | hRest
      · exact isVariableName_freshName (h base List.mem_cons_self) taken
      · exact ih (fun b hb => h b (List.mem_cons_of_mem _ hb)) _ name hRest

end DatalogFragments
