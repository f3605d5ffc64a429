import DatalogFragments.Proofs.Query.Outcome

/-!
# The order of the input does not matter

Fragments are compiled by ascending selectivity, those of one selectivity in
the order in which they were given.  So the caller's order counts among ties
only: any other rearrangement leads to the same compiled order.  The rest of
the input is read as a set.  The checks of a plan ask whether some fragment
provides a symbol, and fresh names avoid the names that are used somewhere.

## Main results

* `eq_of_ties_eq` — a sorted list is determined by its ties;
* `orderSlices_eq` — the compiled order after a rearrangement;
* `renamedSlices_eq` — so are the renamed fragments, fresh names included;
* `Query.compile_rearranged` — compilation answers the same.
-/

namespace DatalogFragments

/-! ## Sorting and ties -/

section Ties

variable {α : Type} {key : α → Int}

private theorem mem_of_ties {l l' : List α}
    (h : ∀ k, l.filter (fun a => key a == k) = l'.filter fun a => key a == k)
    {b : α} (hb : b ∈ l') : b ∈ l := by
  have hMem : b ∈ l'.filter fun a => key a == key b :=
    List.mem_filter.mpr ⟨hb, beq_self_eq_true _⟩
  rw [← h (key b)] at hMem
  exact (List.mem_filter.mp hMem).1

private theorem head_le {a b : α} {l : List α}
    (h : (a :: l).Pairwise fun a b => key a ≤ key b) (hb : b ∈ a :: l) :
    key a ≤ key b := by
  rcases List.mem_cons.mp hb with rfl | hb
  · exact Int.le_refl _
  · exact (List.pairwise_cons.mp h).1 b hb

/-- A sorted list is determined by its entries of every key, in their order. -/
theorem eq_of_ties_eq {l l' : List α} (hl : l.Pairwise fun a b => key a ≤ key b)
    (hl' : l'.Pairwise fun a b => key a ≤ key b)
    (h : ∀ k, l.filter (fun a => key a == k) = l'.filter fun a => key a == k) :
    l = l' := by
  induction l generalizing l' with
  | nil =>
      cases l' with
      | nil => rfl
      | cons b l' => exact absurd (mem_of_ties h List.mem_cons_self) List.not_mem_nil
  | cons a l ih =>
      cases l' with
      | nil =>
          exact absurd (mem_of_ties (fun k => (h k).symm) List.mem_cons_self)
            List.not_mem_nil
      | cons b l' =>
          -- Each head is among the other entries, hence not below their head.
          have hab := head_le hl (mem_of_ties h List.mem_cons_self)
          have hba := head_le hl'
            (mem_of_ties (fun k => (h k).symm) List.mem_cons_self)
          have hKey : key b = key a := Int.le_antisymm hba hab
          have hHead := h (key a)
          rw [List.filter_cons_of_pos (by simp),
            List.filter_cons_of_pos (by simp [hKey]), List.cons.injEq] at hHead
          obtain ⟨rfl, hTail⟩ := hHead
          refine congrArg (List.cons a) (ih (List.pairwise_cons.mp hl).2
            (List.pairwise_cons.mp hl').2 fun k => ?_)
          by_cases hk : key a = k
          · rw [← hk]
            exact hTail
          · have hRest := h k
            rwa [List.filter_cons_of_neg (by simpa using hk),
              List.filter_cons_of_neg (by simpa using hk)] at hRest

/-- Entries with pairwise different keys have no ties to keep. -/
theorem ties_eq_of_nodup {l l' : List α} (hPerm : l.Perm l')
    (hNodup : (l.map key).Nodup) (k : Int) :
    l.filter (fun a => key a == k) = l'.filter fun a => key a == k := by
  have hFilter := hPerm.filter fun a => key a == k
  have hShort : (l.filter fun a => key a == k).length ≤ 1 := by
    have hCount : (l.filter fun a => key a == k).length =
        (l.map key).count k := by
      rw [List.count, List.countP_map, List.countP_eq_length_filter]
      rfl
    rw [hCount]
    exact List.nodup_iff_count_le_one.mp hNodup k
  cases hList : l.filter fun a => key a == k with
  | nil =>
      rw [hList] at hFilter
      exact (List.nil_perm.mp hFilter).symm
  | cons a rest =>
      rw [hList, List.length_cons] at hShort
      obtain rfl : rest = [] := List.eq_nil_of_length_eq_zero (by omega)
      rw [hList] at hFilter
      exact List.singleton_perm.mp hFilter

end Ties

/-! ## The compiled order -/

/-- The fragments of every selectivity stand in the same order. -/
def KeepsTies (slices slices' : List Fragment) : Prop :=
  ∀ i : Int, slices.filter (fun f => f.selectivity == i) =
    slices'.filter fun f => f.selectivity == i

private theorem selectivity_trans (f g h : Fragment)
    (hfg : decide (f.selectivity ≤ g.selectivity) = true)
    (hgh : decide (g.selectivity ≤ h.selectivity) = true) :
    decide (f.selectivity ≤ h.selectivity) = true := by
  rw [decide_eq_true_eq] at hfg hgh ⊢
  omega

private theorem selectivity_total (f g : Fragment) :
    (decide (f.selectivity ≤ g.selectivity) ||
      decide (g.selectivity ≤ f.selectivity)) = true := by
  rw [Bool.or_eq_true, decide_eq_true_eq, decide_eq_true_eq]
  omega

private theorem pairwise_orderSlices (slices : List Fragment) :
    (orderSlices slices).Pairwise fun f g => f.selectivity ≤ g.selectivity :=
  (List.pairwise_mergeSort selectivity_trans selectivity_total slices).imp
    of_decide_eq_true

/-- Sorting keeps the order of ties. -/
theorem keepsTies_orderSlices (slices : List Fragment) :
    KeepsTies (orderSlices slices) slices := by
  intro i
  let tied : Fragment → Bool := fun f => f.selectivity == i
  have hTied : (slices.filter tied).Pairwise fun f g =>
      decide (f.selectivity ≤ g.selectivity) = true := by
    rw [List.pairwise_filter]
    refine List.pairwise_of_forall fun f g hf hg => ?_
    have hfi : f.selectivity = i := eq_of_beq hf
    have hgi : g.selectivity = i := eq_of_beq hg
    exact decide_eq_true (Int.le_of_eq (hfi.trans hgi.symm))
  have hSublist : (slices.filter tied).Sublist (orderSlices slices) :=
    List.sublist_mergeSort selectivity_trans selectivity_total hTied
      List.filter_sublist
  have hFiltered := hSublist.filter tied
  rw [List.filter_filter] at hFiltered
  simp only [Bool.and_self] at hFiltered
  have hLength := ((List.mergeSort_perm slices
    fun f g => decide (f.selectivity ≤ g.selectivity)).filter tied).length_eq
  exact (hFiltered.eq_of_length hLength.symm).symm

/-- A rearrangement that keeps ties is compiled in the same order. -/
theorem orderSlices_eq {slices slices' : List Fragment}
    (h : KeepsTies slices slices') : orderSlices slices = orderSlices slices' := by
  refine eq_of_ties_eq (pairwise_orderSlices slices)
    (pairwise_orderSlices slices') fun i => ?_
  rw [keepsTies_orderSlices slices i, h i, keepsTies_orderSlices slices' i]

/-! ## What is read as a set -/

theorem mem_usedNames_perm {slices slices' : List Fragment}
    (h : slices.Perm slices') (n : String) :
    n ∈ usedNames slices ↔ n ∈ usedNames slices' := by
  rw [mem_usedNames, mem_usedNames]
  exact exists_congr fun f => and_congr_left fun _ => h.mem_iff

/-- Fresh names are the same after a rearrangement that keeps ties. -/
theorem renamedSlices_eq {slices slices' : List Fragment}
    (hPerm : slices.Perm slices') (hTies : KeepsTies slices slices') :
    renamedSlices slices = renamedSlices slices' := by
  have hOrder := orderSlices_eq hTies
  have hMap : compiledMap slices = compiledMap slices' := by
    rw [compiledMap, compiledMap, hOrder]
    exact renamingOf_congr isVariableName_sliceBase 0 (mem_usedNames_perm hPerm) _
  rw [renamedSlices, renamedSlices, hOrder, hMap]

theorem checkSatisfied_perm {slices slices' : List Fragment}
    (hWell : ∀ f ∈ slices, f.WellFormed) (h : slices.Perm slices') :
    checkSatisfied slices = .ok () ↔ checkSatisfied slices' = .ok () := by
  have hWell' : ∀ f ∈ slices', f.WellFormed := fun f hf => hWell f (h.mem_iff.mpr hf)
  rw [checkSatisfied_eq_ok_iff hWell, checkSatisfied_eq_ok_iff hWell']
  simp only [h.mem_iff]

theorem checkMustLet_perm {slices slices' : List Fragment}
    (h : slices.Perm slices') :
    checkMustLet slices = .ok () ↔ checkMustLet slices' = .ok () := by
  rw [checkMustLet_eq_ok_iff, checkMustLet_eq_ok_iff]
  simp only [h.mem_iff]

/-! ## The same answer -/

namespace Query

/-- One and the same query, or failures of one class. -/
inductive SameAnswer : Except Fault Query → Except Fault Query → Prop
  | ok (q : Query) : SameAnswer (.ok q) (.ok q)
  | error {e e' : Fault} (h : e.SameKind e') : SameAnswer (.error e) (.error e')

theorem SameAnswer.refl (x : Except Fault Query) : SameAnswer x x := by
  cases x with
  | ok q => exact .ok q
  | error e => exact .error e.sameKind_refl

/-- Compilation answers the same for every rearrangement of valid fragments
that keeps the order of those with one selectivity, and for any rearrangement
at all when no two have one selectivity. -/
theorem compile_rearranged (find : Value) (slices slices' : List Fragment)
    (hValid : ∀ f ∈ slices, f.Valid) (hPerm : slices.Perm slices')
    (hTies : (slices.map Fragment.selectivity).Nodup ∨ KeepsTies slices slices') :
    SameAnswer (compile find slices) (compile find slices') := by
  have hKeeps : KeepsTies slices slices' := by
    rcases hTies with hNodup | hKeeps
    · exact ties_eq_of_nodup hPerm hNodup
    · exact hKeeps
  have hWell : ∀ f ∈ slices, f.WellFormed :=
    fun f hf => f.valid_iff.mp (hValid f hf)
  have hWell' : ∀ f ∈ slices', f.WellFormed :=
    fun f hf => hWell f (hPerm.mem_iff.mpr hf)
  rw [compile_eq hWell, compile_eq hWell', orderSlices_eq hKeeps,
    renamedSlices_eq hPerm hKeeps]
  by_cases hSatisfied : checkSatisfied slices = .ok ()
  · by_cases hMustLet : checkMustLet slices = .ok ()
    · -- Past the checks both runs go through the same steps.
      rw [hSatisfied, hMustLet, (checkSatisfied_perm hWell hPerm).mp hSatisfied,
        (checkMustLet_perm hPerm).mp hMustLet]
      exact .refl _
    · obtain ⟨w, hError, hKind⟩ := checkMustLet_eq_error hMustLet
      obtain ⟨w', hError', hKind'⟩ := checkMustLet_eq_error
        (mt (checkMustLet_perm hPerm).mpr hMustLet)
      rw [hSatisfied, (checkSatisfied_perm hWell hPerm).mp hSatisfied, hError,
        hError']
      exact .error (hKind.trans hKind'.symm)
  · obtain ⟨w, hError, hKind⟩ := checkSatisfied_eq_error hSatisfied
    obtain ⟨w', hError', hKind'⟩ := checkSatisfied_eq_error
      (mt (checkSatisfied_perm hWell hPerm).mpr hSatisfied)
    rw [hError, hError']
    exact .error (hKind.trans hKind'.symm)

/-- Three fragments that keep `?y` to themselves, two of them tied. -/
def ranked : List Fragment :=
  [ { name := .text "late"
      clauses := [.vector [.named "?y", .literal (.keyword ":a")]]
      selectivity := 7 }
  , { name := .text "first"
      clauses := [.vector [.named "?y", .literal (.keyword ":b")]] }
  , { name := .text "second"
      clauses := [.vector [.named "?y", .literal (.keyword ":c")]] } ]

/-- The tied fragments may be moved past the other one together. -/
theorem compile_rearranged_ranked :
    (∀ f ∈ ranked, f.Valid) ∧ ranked.Perm (ranked.tail ++ ranked.take 1) ∧
      KeepsTies ranked (ranked.tail ++ ranked.take 1) ∧
      SameAnswer (compile .null ranked)
        (compile .null (ranked.tail ++ ranked.take 1)) := by
  have hValid : ∀ f ∈ ranked, f.Valid := by
    rw [ranked, List.forall_mem_cons, List.forall_mem_cons,
      List.forall_mem_singleton]
    exact ⟨rfl, rfl, rfl⟩
  have hPerm : ranked.Perm (ranked.tail ++ ranked.take 1) :=
    @List.perm_append_comm _ (ranked.take 1) ranked.tail
  have hTies : KeepsTies ranked (ranked.tail ++ ranked.take 1) := by
    intro i
    show (ranked.take 1 ++ ranked.tail).filter (fun f => f.selectivity == i) = _
    rw [List.filter_append, List.filter_append]
    by_cases h7 : (7 : Int) = i
    · subst h7
      rfl
    · have hLate : (ranked.take 1).filter (fun f => f.selectivity == i) = [] :=
        List.filter_cons_of_neg (by simpa using h7)
      rw [hLate, List.append_nil, List.nil_append]
  exact ⟨hValid, hPerm, hTies,
    compile_rearranged .null _ _ hValid hPerm (.inr hTies)⟩

end Query

end DatalogFragments
