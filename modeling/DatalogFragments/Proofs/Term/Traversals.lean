import DatalogFragments.Proofs.Report.Tally
import DatalogFragments.Proofs.Term.StackWalk

/-!
# Traversals of a clause agree

The symbols of clauses are listed in three ways: by the recursion over the tree,
by a loop over the terms that wait on a stack, which notes a symbol unless it was
seen, and along with the size of a clause by its inventory.  All of them go by
the leaves from left to right, and keep the first one of each name.  The inventory
also counts the nodes, all but missing items, and its depth is the number of
composites that can be found one within the other.

## Main definitions

* `KeepsFirsts` — a list of the first entries of each key, in their order;
* `Term.isPresent` — the nodes that count;
* `Term.Nests` — how many composites stand one within the other;
* `Term.Surveyed` — what the inventory of a clause says.

## Main results

* `keepsFirsts_firstsBy` — what `firstsBy` keeps;
* `Term.gathered_eq_firstSymbols` — the loop and the recursion;
* `Term.names_metrics`, `Term.nodes_metrics`, `Term.nests_iff` — the inventory;
* `Term.traversals_agree` — all together.
-/

namespace DatalogFragments

/-! ## First entries -/

section FirstEntries

variable {α β : Type} [DecidableEq β]

/-- Of a list, the first entries of each key are kept, in the order in which the
keys occur first. -/
structure KeepsFirsts (key : α → β) (l kept : List α) : Prop where
  complete : ∀ k, k ∈ kept.map key ↔ k ∈ l.map key
  ascending : (kept.map key).Pairwise fun j k => (l.map key).idxOf j < (l.map key).idxOf k
  first : ∀ x ∈ kept, l.find? (fun y => key y == key x) = some x

theorem pairwise_idxOf_firstsBy (key : α → β) (l : List α) :
    ((firstsBy key l).map key).Pairwise fun j k =>
      (l.map key).idxOf j < (l.map key).idxOf k := by
  induction l with
  | nil => exact .nil
  | cons x xs ih =>
      have hLater : ∀ k ∈ ((firstsBy key xs).filter fun y => !(key x == key y)).map key,
          key x ≠ k := by
        intro k hk
        obtain ⟨y, hy, rfl⟩ := List.mem_map.mp hk
        simpa using (List.mem_filter.mp hy).2
      rw [firstsBy_cons, List.map_cons, List.map_cons]
      refine .cons (fun k hk => ?_) ?_
      · rw [List.idxOf_cons_self, List.idxOf_cons_ne _ (hLater k hk)]
        exact Nat.succ_pos _
      · refine (ih.sublist (List.filter_sublist.map key)).imp_of_mem fun hj hk hjk => ?_
        rw [List.idxOf_cons_ne _ (hLater _ hj), List.idxOf_cons_ne _ (hLater _ hk)]
        exact Nat.succ_lt_succ hjk

theorem keepsFirsts_firstsBy (key : α → β) (l : List α) :
    KeepsFirsts key l (firstsBy key l) where
  complete := mem_map_firstsBy key l
  ascending := pairwise_idxOf_firstsBy key l
  first := fun _ => find?_of_mem_firstsBy

end FirstEntries

namespace Term

/-! ## The loop over terms that wait -/

section Gathering

variable {α : Type}

theorem foldl_note (l found : List (Symbol α)) :
    found.foldl note (firstsBy Symbol.name l) = firstsBy Symbol.name (l ++ found) := by
  induction found generalizing l with
  | nil => rw [List.foldl_nil, List.append_nil]
  | cons s found ih =>
      have hNote : note (firstsBy Symbol.name l) s = firstsBy Symbol.name (l ++ [s]) := by
        rw [note, firstsBy_concat]
        simp only [mem_map_firstsBy]
      rw [List.foldl_cons, hNote, ih, List.append_assoc, List.singleton_append]

/-- The loop over several terms lists the symbols in the order in which they occur
first. -/
theorem gathered_eq_firstSymbols (ts : List (Term α)) : gathered ts = firstSymbols ts := by
  have hRun : ∀ l : List (Symbol α),
      ts.foldl (fun seen t => (drain [t]).foldl note seen) (firstsBy Symbol.name l) =
        firstsBy Symbol.name (l ++ symbolsOf ts) := by
    induction ts with
    | nil =>
        intro l
        rw [List.foldl_nil, symbolsOf_nil, List.append_nil]
    | cons t ts ih =>
        intro l
        rw [List.foldl_cons, foldl_note, ih, drain_eq_symbolsOf, symbolsOf_cons, symbolsOf_cons,
          symbolsOf_nil, List.append_nil, List.append_assoc]
  exact hRun []

end Gathering

/-! ## The inventory -/

theorem names_eq (t : Clause) : t.names = firstsBy id (t.symbols.map Symbol.name) := by
  rw [names, firstSymbols, symbolsOf_cons, symbolsOf_nil, List.append_nil]
  exact map_name_distinctNames t.symbols

/-- The names of an inventory are those of the leaves, in their order. -/
theorem names_metrics (t : Clause) : t.metrics.names = t.names := by
  have hItems : ∀ xs : List Clause, (∀ x ∈ xs, x.metrics.names = x.names) →
      (metricsOf xs).names = firstsBy id ((symbolsOf xs).map Symbol.name) := by
    intro xs h
    induction xs with
    | nil => rfl
    | cons x xs ih =>
        obtain ⟨hHead, hTail⟩ := List.forall_mem_cons.mp h
        rw [metricsOf, Metrics.beside, ih hTail, hHead, names_eq, symbolsOf_cons,
          List.map_append]
        exact firstsBy_append_firstsBy id _ _
  induction t using Term.induct with
  | hSym s => rfl
  | hSeq xs i ih => rw [names_eq, symbols_seq, metrics, Metrics.enclosed, hItems xs ih]
  | hVec xs i ih => rw [names_eq, symbols_vec, metrics, Metrics.enclosed, hItems xs ih]
  | hLit v i => rfl
  | hStray v => cases v <;> rfl

/-! ### Nodes -/

/-- Whether there is a node: a missing item is none. -/
def isPresent : Clause → Bool
  | .stray .null => false
  | _ => true

/-- An inventory counts the nodes of the tree. -/
theorem nodes_metrics (t : Clause) : t.metrics.nodes = t.postorder.countP isPresent := by
  have hItems : ∀ xs : List Clause,
      (∀ x ∈ xs, x.metrics.nodes = x.postorder.countP isPresent) →
      (metricsOf xs).nodes = (postorderOf xs).countP isPresent := by
    intro xs h
    induction xs with
    | nil => rfl
    | cons x xs ih =>
        obtain ⟨hHead, hTail⟩ := List.forall_mem_cons.mp h
        rw [metricsOf, Metrics.beside, ih hTail, hHead, postorderOf, List.countP_append]
  induction t using Term.induct with
  | hSym s => rfl
  | hSeq xs i ih =>
      rw [metrics, Metrics.enclosed, hItems xs ih, postorder, List.countP_append]
      rfl
  | hVec xs i ih =>
      rw [metrics, Metrics.enclosed, hItems xs ih, postorder, List.countP_append]
      rfl
  | hLit v i => rfl
  | hStray v => cases v <;> rfl

/-- If no item is missing, these are all nodes. -/
theorem nodes_metrics_eq_size {t : Clause} (h : t.postorder.all isPresent = true) :
    t.metrics.nodes = t.size := by
  rw [nodes_metrics, ← length_postorder, List.countP_eq_length]
  exact List.all_eq_true.mp h

/-! ### Depth -/

/-- As many composites stand one within the other, the clause being the outermost. -/
inductive Nests : Clause → Nat → Prop
  | none (t : Clause) : Nests t 0
  | one {t : Clause} (h : t.isComposite = true) : Nests t 1
  | more {t u : Clause} {n : Nat} (hItem : u ∈ t.items) (h : Nests u n) : Nests t (n + 1)

theorem lt_foldr_max_iff (l : List Nat) (n : Nat) :
    n < l.foldr max 0 ↔ ∃ k ∈ l, n < k := by
  induction l with
  | nil => simp
  | cons k l ih => rw [List.foldr_cons, lt_max_iff, ih, List.exists_mem_cons_iff]

theorem nests_leaf_iff {t : Clause} (ht : t.isComposite = false) (n : Nat) :
    t.Nests n ↔ n ≤ 0 := by
  have hItems : t.items = [] := by
    cases t with
    | seq | vec => cases ht
    | _ => rfl
  constructor
  · intro h
    cases h with
    | none => exact Nat.le_refl 0
    | one h => exact absurd h (by rw [ht]; exact Bool.false_ne_true)
    | more hItem _ => exact absurd hItem (by rw [hItems]; exact List.not_mem_nil)
  · intro h
    rw [Nat.le_zero.mp h]
    exact .none t

/-- A composite nests one composite more than the deepest of its items. -/
theorem nests_composite_iff {t : Clause} (ht : t.isComposite = true)
    (ih : ∀ u ∈ t.items, ∀ n, u.Nests n ↔ n ≤ u.metrics.depth) (n : Nat) :
    t.Nests n ↔ n ≤ (metricsOf t.items).depth + 1 := by
  rw [depth_metricsOf]
  constructor
  · intro h
    cases h with
    | none => exact Nat.zero_le _
    | one _ => exact Nat.le_add_left 1 _
    | @more _ u n hItem h =>
        have hDepth := (ih u hItem n).mp h
        cases n with
        | zero => exact Nat.le_add_left 1 _
        | succ n =>
            have hDeep := (lt_foldr_max_iff (t.items.map fun u => u.metrics.depth) n).mpr
              ⟨_, List.mem_map_of_mem hItem, hDepth⟩
            exact Nat.succ_le_succ hDeep
  · intro h
    match n with
    | 0 => exact .none t
    | 1 => exact .one ht
    | n + 2 =>
        obtain ⟨k, hk, hn⟩ := (lt_foldr_max_iff _ n).mp (Nat.lt_of_succ_lt_succ h)
        obtain ⟨u, hu, rfl⟩ := List.mem_map.mp hk
        exact .more hu ((ih u hu (n + 1)).mpr hn)

/-- The depth of an inventory is the greatest number of composites one within the
other. -/
theorem nests_iff (t : Clause) (n : Nat) : t.Nests n ↔ n ≤ t.metrics.depth := by
  induction t using Term.induct generalizing n with
  | hSym s => exact nests_leaf_iff rfl n
  | hSeq xs i ih =>
      rw [metrics]
      exact nests_composite_iff (t := .seq xs i) rfl ih n
  | hVec xs i ih =>
      rw [metrics]
      exact nests_composite_iff (t := .vec xs i) rfl ih n
  | hLit v i => exact nests_leaf_iff rfl n
  | hStray v =>
      rw [nests_leaf_iff rfl]
      cases v <;> rfl

/-! ## All together -/

/-- What is found out about a single clause. -/
structure Surveyed (t : Clause) : Prop where
  /-- Its names are those of its leaves, each once. -/
  names : t.names.Nodup ∧ ∀ n, n ∈ t.names ↔ n ∈ t.symbols.map Symbol.name
  /-- The loop over the terms that wait meets these leaves. -/
  drained : drain [t] = t.symbols
  /-- The inventory has the same names. -/
  inventory : t.metrics.names = t.names
  /-- It counts the nodes, all but missing items. -/
  nodes : t.metrics.nodes = t.postorder.countP isPresent
  /-- Without missing items this is the size of the tree. -/
  size : t.postorder.all isPresent = true → t.metrics.nodes = t.size
  /-- Its depth is the greatest number of composites one within the other. -/
  depth : ∀ n, t.Nests n ↔ n ≤ t.metrics.depth

theorem surveyed (t : Clause) : t.Surveyed where
  names := by
    rw [names_eq]
    constructor
    · simpa only [List.map_id] using nodup_map_firstsBy id (t.symbols.map Symbol.name)
    · intro n
      simpa only [List.map_id] using mem_map_firstsBy id (t.symbols.map Symbol.name) n
  drained := by
    rw [drain_eq_symbolsOf, symbolsOf_cons, symbolsOf_nil, List.append_nil]
  inventory := names_metrics t
  nodes := nodes_metrics t
  size := nodes_metrics_eq_size
  depth := nests_iff t

/-- The symbols of clauses in order of first occurrence are those that the loop over
the clauses gathers, and they are the first ones among the leaves.  For a single
clause its names, the leaves met by the loop, and its inventory agree. -/
theorem traversals_agree :
    (∀ ts : List Clause, gathered ts = firstSymbols ts ∧
      KeepsFirsts Symbol.name (symbolsOf ts) (gathered ts)) ∧
    ∀ t : Clause, t.Surveyed := by
  refine ⟨fun ts => ?_, surveyed⟩
  have hGathered := gathered_eq_firstSymbols ts
  refine ⟨hGathered, ?_⟩
  rw [hGathered]
  exact keepsFirsts_firstsBy Symbol.name (symbolsOf ts)

/-- Two arms, one of which is a negation, around a variable that both mention. -/
def negatedArm : Clause :=
  .sequence [.named "or-join", .vector [.named "?a"],
    .vector [.named "?a", .literal (.keyword ":artist/name"), .named "?n"],
    .sequence [.named "not", .vector [.named "?n", .literal (.text "?n"), .named "?a"]]]

theorem traversals_agree_negatedArm :
    (gathered [negatedArm]).map Symbol.name = ["or-join", "?a", "?n", "not"] ∧
      negatedArm.metrics.nodes = 14 ∧ negatedArm.Nests 3 ∧ ¬negatedArm.Nests 4 := by
  obtain ⟨hGathered, -⟩ := traversals_agree.1 [negatedArm]
  have hSurvey := traversals_agree.2 negatedArm
  refine ⟨by rw [hGathered]; decide, ?_, ?_, ?_⟩
  · rw [hSurvey.size (by decide)]
    decide
  · exact (hSurvey.depth 3).mpr (by decide)
  · exact fun h => absurd ((hSurvey.depth 4).mp h) (by decide)

end Term

end DatalogFragments
