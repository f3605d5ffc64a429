import DatalogFragments.Proofs.Attempt
import DatalogFragments.Proofs.Distinct
import Mathlib.Data.List.Perm.Basic
import Mathlib.Data.List.Sort
import Mathlib.Data.String.Basic

/-!
# Lists

Totals, sorted texts and distinct texts do not tell in which order the entries
of a list stood.  A run of entries ends where the first other one stands.

## Main results

* `run_append` — where a run ends;
* `pairwise_sortTexts`, `sortTexts_congr` — sorted texts;
* `total_congr`, `firstsBy_perm` — totals and distinct texts;
* `mapM_perm` — a step for every entry.
-/

namespace DatalogFragments

/-- Taking and dropping entries of one kind stop at the first other one. -/
theorem run_append {α : Type} {p : α → Bool} {l rest : List α}
    (h : ∀ x ∈ l, p x = true) (hRest : ∀ x, rest.head? = some x → p x = false) :
    (l ++ rest).takeWhile p = l ∧ (l ++ rest).dropWhile p = rest := by
  rw [List.takeWhile_append_of_pos h, List.dropWhile_append_of_pos h]
  cases rest with
  | nil => exact ⟨List.append_nil l, rfl⟩
  | cons x rest =>
      have hx := hRest x rfl
      rw [List.takeWhile_cons, List.dropWhile_cons, hx]
      exact ⟨List.append_nil l, rfl⟩

/-! ## Lists in any order -/

/-- Sorted texts ascend. -/
theorem pairwise_sortTexts (l : List String) : (sortTexts l).Pairwise (· ≤ ·) := by
  have hTrans : ∀ a b c : String, decide (a ≤ b) = true → decide (b ≤ c) = true →
      decide (a ≤ c) = true := by
    intro a b c hab hbc
    rw [decide_eq_true_eq] at *
    exact le_trans hab hbc
  have hTotal : ∀ a b : String, (decide (a ≤ b) || decide (b ≤ a)) = true := by
    intro a b
    rw [Bool.or_eq_true, decide_eq_true_eq, decide_eq_true_eq]
    exact le_total a b
  exact (List.pairwise_mergeSort hTrans hTotal l).imp of_decide_eq_true

theorem sortTexts_perm (l : List String) : (sortTexts l).Perm l := List.mergeSort_perm l _

/-- Sorting texts leaves nothing of the order that they were in. -/
theorem sortTexts_congr {l l' : List String} (h : l.Perm l') : sortTexts l = sortTexts l' := by
  have hPerm : (sortTexts l).Perm (sortTexts l') :=
    ((sortTexts_perm l).trans h).trans (sortTexts_perm l').symm
  exact hPerm.eq_of_pairwise' (pairwise_sortTexts l) (pairwise_sortTexts l')

theorem total_congr {l l' : List Nat} (h : l.Perm l') : total l = total l' :=
  h.foldr_eq 0

theorem firstsBy_perm {l l' : List String} (h : l.Perm l') :
    (firstsBy id l).Perm (firstsBy id l') := by
  have hNodup : ∀ ts : List String, (firstsBy id ts).Nodup := by
    intro ts
    simpa only [List.map_id] using nodup_map_firstsBy id ts
  have hMem : ∀ (ts : List String) (t : String), t ∈ firstsBy id ts ↔ t ∈ ts := by
    intro ts t
    simpa only [List.map_id] using mem_map_firstsBy id ts t
  rw [List.perm_ext_iff_of_nodup (hNodup l) (hNodup l')]
  intro t
  rw [hMem, hMem, h.mem_iff]

/-! ## Steps for every entry -/

section

variable {α β ε : Type} {f : α → Except ε β} {e : ε}

private theorem mapM_eq_error {l : List α} (hOne : ∀ x w, f x = .error w → w = e) {x : α}
    (hx : x ∈ l) (hFails : ∀ b, f x ≠ .ok b) : l.mapM f = .error e := by
  induction l with
  | nil => exact absurd hx List.not_mem_nil
  | cons y ys ih =>
      rw [List.mapM_cons]
      cases hy : f y with
      | error w => rw [hOne y w hy, error_bind]
      | ok b =>
          rcases List.mem_cons.mp hx with rfl | hx
          · exact absurd hy (hFails b)
          · rw [ok_bind, ih hx, error_bind]

private theorem mapM_eq_filterMap {l : List α} (h : ∀ x ∈ l, ∃ b, f x = .ok b) :
    l.mapM f = .ok (l.filterMap fun x => (f x).toOption) := by
  induction l with
  | nil => rfl
  | cons x xs ih =>
      obtain ⟨b, hb⟩ := h x List.mem_cons_self
      rw [List.mapM_cons, hb, ok_bind, ih fun y hy => h y (List.mem_cons_of_mem _ hy), ok_bind,
        List.filterMap_cons, hb]
      rfl

/-- A step that can stop in one way only takes entries in any order to results
in some order. -/
theorem mapM_perm (hOne : ∀ x w, f x = .error w → w = e) {l l' : List α} (h : l.Perm l') :
    (l.mapM f = .error e ∧ l'.mapM f = .error e) ∨
      ∃ bs bs', l.mapM f = .ok bs ∧ l'.mapM f = .ok bs' ∧ bs.Perm bs' := by
  by_cases hAll : ∀ x ∈ l, ∃ b, f x = .ok b
  · exact .inr ⟨_, _, mapM_eq_filterMap hAll,
      mapM_eq_filterMap fun x hx => hAll x (h.mem_iff.mpr hx), h.filterMap _⟩
  · push Not at hAll
    obtain ⟨x, hx, hFails⟩ := hAll
    exact .inl ⟨mapM_eq_error hOne hx hFails, mapM_eq_error hOne (h.mem_iff.mp hx) hFails⟩

end

end DatalogFragments
