import DatalogFragments.Proofs.Value.Plain
import DatalogFragments.Term.StackWalk

/-!
# The walk with a stack is the recursion

A walk keeps two stacks: the tasks that wait, and the results that wait for the
composite they belong to.  Whatever lies below on either stack is left alone
while a node is worked off, and what the node leaves behind is its own result.
So the results above a composite that waits are exactly those of its items, the
last one first, and the walk does what the recursion over the tree does.  Both
stop at the same node where display information has no entries to hand on, and
neither stops where it has.

## Main definitions

* `Term.postorder` — the nodes of a tree, the items of a composite before it;
* `Term.rebuilt` — a node over the results of its items;
* `Value.IsNote`, `Term.IsNoted` — information of the declared type;
* `WalkState.walked` — a state once a node is done.

## Main results

* `field?_overlaid` — entries laid over entries;
* `postwalk_eq` — the walk of a node from the walks of its items;
* `exists_rebuilt` — the function is given every node, if the walk goes through;
* `exists_postwalk` — it does over notes;
* `runTasks_visit` — one node leaves everything below it on the stacks alone;
* `stackWalk_eq_recursion` — the walk with a stack, its outcome and its calls.
-/

namespace DatalogFragments

/-! ## Entries laid over entries -/

namespace Value

variable {es own : Entries}

theorem same_text_iff {k : Value} {key : String} :
    k.same (.text key) = true ↔ k = .text key := by
  cases k <;> simp [same.eq_def, sameNumbers, number?]

/-- A text key that is set has the value it was set to, any other one what it
had. -/
theorem field?_put (key : String) (v : Value) (name : String) (es : Entries) :
    field? key (put (.text name) v es) =
      if name = key then some v else field? key es := by
  induction es with
  | nil => rfl
  | cons e es ih =>
      obtain ⟨k, w⟩ := e
      rw [put]
      by_cases hHit : k.same (.text name) = true
      · obtain rfl := same_text_iff.mp hHit
        rw [if_pos hHit, field?, field?]
        split <;> rfl
      · rw [if_neg hHit]
        have hApart : k ≠ .text name := fun hEq => hHit (same_text_iff.mpr hEq)
        cases k with
        | text k =>
            rw [field?, ih, field?]
            by_cases hKey : k = key
            · have hName : name ≠ key := fun hEq => hApart (by rw [hKey, hEq])
              rw [if_pos hKey, if_neg hName, if_pos hKey]
            · rw [if_neg hKey, if_neg hKey]
        | _ => exact ih

/-- Setting a text key adds it to the keys unless it is there. -/
theorem map_fst_put (name : String) (v : Value) (es : Entries) :
    (put (.text name) v es).map Prod.fst = es.map Prod.fst ∨
      .text name ∉ es.map Prod.fst ∧
        (put (.text name) v es).map Prod.fst = es.map Prod.fst ++ [.text name] := by
  induction es with
  | nil => exact .inr ⟨List.not_mem_nil, rfl⟩
  | cons e es ih =>
      obtain ⟨k, w⟩ := e
      rw [put]
      by_cases hHit : k.same (.text name) = true
      · rw [if_pos hHit]
        exact .inl rfl
      · rw [if_neg hHit, List.map_cons, List.map_cons]
        have hApart : .text name ≠ k := fun hEq => hHit (same_text_iff.mpr hEq.symm)
        rcases ih with hOld | ⟨hNew, hLast⟩
        · exact .inl (by rw [hOld])
        · exact .inr ⟨List.not_mem_cons_of_ne_of_not_mem hApart hNew,
            by rw [hLast, List.cons_append]⟩

theorem HasTextKeys.put (h : HasTextKeys es) (name : String) (v : Value) :
    HasTextKeys (put (.text name) v es) := by
  rcases map_fst_put name v es with hOld | ⟨hNew, hLast⟩
  · exact h.congr (.of_eq hOld.symm)
  · have hAdded : HasTextKeys (es ++ [(.text name, v)]) := by
      refine ⟨fun e he => ?_, ?_⟩
      · rcases List.mem_append.mp he with hOld | hOwn
        · exact h.texts e hOld
        · exact ⟨name, by rw [List.mem_singleton.mp hOwn]⟩
      · rw [List.map_append]
        exact h.nodup.append (List.nodup_singleton _) (List.disjoint_singleton.mpr hNew)
    refine hAdded.congr (.of_eq ?_)
    rw [hLast, List.map_append, List.map_singleton]

/-- Entries laid over entries: a key has the value of the entries above where
they have one, and that of the entries below otherwise. -/
theorem field?_overlaid (hOwn : HasTextKeys own) (key : String) (es : Entries) :
    field? key (overlaid es own) = (field? key own).or (field? key es) := by
  induction own generalizing es with
  | nil => rfl
  | cons e own ih =>
      obtain ⟨k, v⟩ := e
      obtain ⟨name, hName⟩ := hOwn.texts (k, v) List.mem_cons_self
      obtain rfl : k = .text name := hName
      have hNew := (hasTextKeys_cons_iff.mp hOwn).1
      have hStep : overlaid es ((.text name, v) :: own) =
          overlaid (Value.put (.text name) v es) own := rfl
      rw [hStep, ih hOwn.of_cons, field?_put, field?]
      by_cases hKey : name = key
      · have hNone : field? key own = none :=
          Option.eq_none_iff_forall_ne_some.mpr fun w hw =>
            hNew (hKey ▸ List.mem_map_of_mem (mem_of_field? hw))
        rw [if_pos hKey, if_pos hKey, hNone, Option.none_or, Option.some_or]
      · rw [if_neg hKey, if_neg hKey]

theorem HasTextKeys.overlaid (h : HasTextKeys es) (hOwn : HasTextKeys own) :
    HasTextKeys (overlaid es own) := by
  induction own generalizing es with
  | nil => exact h
  | cons e own ih =>
      obtain ⟨name, hName⟩ := hOwn.texts e List.mem_cons_self
      have hPut : HasTextKeys (Value.put e.1 e.2 es) := hName ▸ h.put name e.2
      exact ih hPut hOwn.of_cons

/-! ## Display information -/

/-- Display information of the type that nodes declare for it: entries under
texts, if there is any. -/
def IsNote (info : Option Value) : Prop :=
  ∀ i, info = some i → ∃ es, i = .mapping es ∧ HasTextKeys es

theorem isNote_none : IsNote none := fun _ h => nomatch h

theorem isNote_mapping {es : Entries} (h : HasTextKeys es) : IsNote (some (.mapping es)) := by
  rintro i ⟨⟩
  exact ⟨es, rfl, h⟩

theorem isNote_cases {info : Option Value} (h : IsNote info) :
    info = none ∨ ∃ es, info = some (.mapping es) ∧ HasTextKeys es := by
  cases info with
  | none => exact .inl rfl
  | some i =>
      obtain ⟨es, rfl, hKeys⟩ := h i rfl
      exact .inr ⟨es, rfl, hKeys⟩

theorem broughtAlong_mapping (own : Entries) :
    broughtAlong (some (.mapping own)) = .ok own := by
  cases own <;> rfl

/-- An outcome that has the information of the node keeps it. -/
theorem inheritInfo_self (info : Option Value) : inheritInfo info info = .ok info := by
  cases info with
  | none => rfl
  | some i => rw [inheritInfo, if_pos rfl]

/-- Entries are handed on under those that the outcome brings along. -/
theorem inheritInfo_mapping {es own : Entries} {info : Option Value}
    (hEs : HasTextKeys es) (hOwn : HasTextKeys own)
    (h : info = some (.mapping own) ∨ info = none ∧ own = []) :
    ∃ merged, inheritInfo (some (.mapping es)) info = .ok (some (.mapping merged)) ∧
      HasTextKeys merged ∧
      ∀ key, field? key merged = (field? key own).or (field? key es) := by
  by_cases hKept : info = some (.mapping es)
  · obtain rfl : own = es := by
      rcases h with hSome | ⟨hNone, -⟩
      · rw [hSome] at hKept
        exact Value.mapping.inj (Option.some.inj hKept)
      · rw [hNone] at hKept
        cases hKept
    refine ⟨own, ?_, hOwn, fun key => Option.or_self.symm⟩
    rw [hKept, inheritInfo_self]
  · have hBrought : broughtAlong info = .ok own := by
      rcases h with rfl | ⟨rfl, rfl⟩
      · exact broughtAlong_mapping own
      · rfl
    refine ⟨overlaid es own, ?_, hEs.overlaid hOwn, fun key => field?_overlaid hOwn key es⟩
    rw [inheritInfo, if_neg hKept, hBrought]
    rfl

theorem IsNote.inheritInfo {given own : Option Value} (hGiven : IsNote given)
    (hOwn : IsNote own) : ∃ info, inheritInfo given own = .ok info ∧ IsNote info := by
  rcases isNote_cases hGiven with rfl | ⟨es, rfl, hEs⟩
  · exact ⟨own, rfl, hOwn⟩
  · rcases isNote_cases hOwn with rfl | ⟨own, rfl, hKeys⟩
    · obtain ⟨merged, hMerged, hKeys, -⟩ := inheritInfo_mapping hEs hasTextKeys_nil (.inr ⟨rfl, rfl⟩)
      exact ⟨_, hMerged, isNote_mapping hKeys⟩
    · obtain ⟨merged, hMerged, hKeys, -⟩ := inheritInfo_mapping hEs hKeys (.inl rfl)
      exact ⟨_, hMerged, isNote_mapping hKeys⟩

end Value

namespace Term

open Value (HasTextKeys field?)

/-! ## Nodes -/

section Nodes

variable {α : Type}

mutual

/-- The nodes of a tree, from left to right, the items of a composite before
the composite. -/
def postorder : Term α → List (Term α)
  | .sym s => [.sym s]
  | .seq xs i => postorderOf xs ++ [.seq xs i]
  | .vec xs i => postorderOf xs ++ [.vec xs i]
  | .lit v i => [.lit v i]
  | .stray v => [.stray v]

/-- The nodes of trees, tree by tree. -/
def postorderOf : List (Term α) → List (Term α)
  | [] => []
  | t :: ts => postorder t ++ postorderOf ts

end

theorem postorderOf_eq_flatMap (ts : List (Term α)) :
    postorderOf ts = ts.flatMap postorder := by
  induction ts with
  | nil => rfl
  | cons t ts ih => rw [postorderOf, ih, List.flatMap_cons]

/-- Every node is listed once. -/
theorem length_postorder (t : Term α) : t.postorder.length = t.size := by
  have hItems : ∀ xs : List (Term α), (∀ x ∈ xs, x.postorder.length = x.size) →
      (postorderOf xs).length = sizeOfAll xs := by
    intro xs h
    induction xs with
    | nil => rfl
    | cons x xs ih =>
        obtain ⟨hHead, hRest⟩ := List.forall_mem_cons.mp h
        rw [postorderOf, List.length_append, sizeOfAll, hHead, ih hRest]
  induction t using Term.induct with
  | hSym s => rfl
  | hLit v i => rfl
  | hStray v => rfl
  | hSeq xs i ih =>
      rw [postorder, List.length_append, hItems xs ih, size, List.length_singleton]
  | hVec xs i ih =>
      rw [postorder, List.length_append, hItems xs ih, size, List.length_singleton]

end Nodes

/-! ## Handing on -/

/-- A node of the type that walks declare: a term, with a note for its display
information. -/
structure IsNoted (t : Clause) : Prop where
  isTerm : ∀ v, t ≠ .stray v
  isNote : Value.IsNote t.info?

theorem withInfo_info? (t : Clause) : t.withInfo t.info? = t := by
  cases t <;> rfl

theorem inherit_stray (u : Clause) (v : Value) : inherit u (.stray v) = .ok (.stray v) := by
  cases u <;> rfl

/-- Beside items that are no terms, only display information counts. -/
theorem inherit_eq {u r : Clause} (hNode : ∀ v, u ≠ .stray v) (hResult : ∀ v, r ≠ .stray v) :
    inherit u r = do return r.withInfo (← Value.inheritInfo u.info? r.info?) := by
  cases r with
  | stray v => exact absurd rfl (hResult v)
  | _ =>
    cases u with
    | stray v => exact absurd rfl (hNode v)
    | _ => rfl

/-- A node without display information leaves the outcome as it is. -/
theorem inherit_of_info?_eq_none {u : Clause} (hNode : ∀ v, u ≠ .stray v)
    (h : u.info? = none) (r : Clause) : inherit u r = .ok r := by
  by_cases hResult : ∃ v, r = .stray v
  · obtain ⟨v, rfl⟩ := hResult
    exact inherit_stray u v
  · rw [inherit_eq hNode (not_exists.mp hResult), h]
    exact congrArg Except.ok (withInfo_info? r)

/-- Outcomes take over the entries of the node, under their own. -/
theorem inherit_mapping {es own : Entries} {u r : Clause} (hEs : HasTextKeys es)
    (hOwn : HasTextKeys own) (hNode : u.info? = some (.mapping es))
    (h : r.info? = some (.mapping own) ∨ r.info? = none ∧ own = []) :
    ∃ merged, inherit u r = .ok (r.withInfo (some (.mapping merged))) ∧
      HasTextKeys merged ∧
      ∀ key, field? key merged = (field? key own).or (field? key es) := by
  obtain ⟨merged, hMerged, hKeys, hField⟩ := Value.inheritInfo_mapping hEs hOwn h
  refine ⟨merged, ?_, hKeys, hField⟩
  have hTerm : ∀ v, u ≠ .stray v := by
    rintro v rfl
    cases hNode
  by_cases hResult : ∃ v, r = .stray v
  · obtain ⟨v, rfl⟩ := hResult
    exact inherit_stray u v
  · rw [inherit_eq hTerm (not_exists.mp hResult), hNode, hMerged]
    rfl

/-- Notes can be handed on. -/
theorem IsNoted.exists_inherit {u r : Clause} (hNode : u.IsNoted)
    (hResult : Value.IsNote r.info?) : ∃ r', inherit u r = .ok r' := by
  by_cases hStray : ∃ v, r = .stray v
  · obtain ⟨v, rfl⟩ := hStray
    exact ⟨_, inherit_stray u v⟩
  · obtain ⟨info, hInfo, -⟩ := hNode.isNote.inheritInfo hResult
    rw [inherit_eq hNode.isTerm (not_exists.mp hStray), hInfo]
    exact ⟨_, rfl⟩

/-! ## One node -/

variable (fn : Clause → Clause)

/-- A node over the results of its items: what the function is given for it. -/
def rebuilt (t : Clause) : Except Fault Clause := do
  return t.withItems (← t.items.mapM (postwalk fn))

/-- The walk of a node: its items are walked, the function is given the node
over what became of them, and the outcome inherits the information of the
node. -/
theorem postwalk_eq (t : Clause) :
    postwalk fn t = (do inherit t (fn (← rebuilt fn t))) := by
  cases t with
  | sym s => rfl
  | lit v i => rfl
  | seq xs i =>
      rw [postwalk, postwalkAll_eq_mapM, rebuilt, items]
      cases xs.mapM (postwalk fn) <;> rfl
  | vec xs i =>
      rw [postwalk, postwalkAll_eq_mapM, rebuilt, items]
      cases xs.mapM (postwalk fn) <;> rfl
  | stray v => rfl

variable {fn}

theorem rebuilt_of_items {t : Clause} {rs : List Clause}
    (h : t.items.mapM (postwalk fn) = .ok rs) : rebuilt fn t = .ok (t.withItems rs) := by
  rw [rebuilt, h]
  rfl

/-- Where the walk of a node goes through, so does that of its items. -/
theorem exists_items_of_postwalk {t r : Clause} (h : postwalk fn t = .ok r) :
    ∃ rs, t.items.mapM (postwalk fn) = .ok rs := by
  rw [postwalk_eq] at h
  obtain ⟨node, hNode, -⟩ := bind_eq_ok_iff.mp h
  obtain ⟨rs, hItems, -⟩ := bind_eq_ok_iff.mp hNode
  exact ⟨rs, hItems⟩

theorem exists_rebuilt_items {ts rs : List Clause}
    (hEach : ∀ t ∈ ts, ∀ r, postwalk fn t = .ok r →
      ∀ u ∈ t.postorder, ∃ node, rebuilt fn u = .ok node)
    (h : ts.mapM (postwalk fn) = .ok rs) :
    ∀ u ∈ postorderOf ts, ∃ node, rebuilt fn u = .ok node := by
  intro u hu
  rw [postorderOf_eq_flatMap, List.mem_flatMap] at hu
  obtain ⟨t, ht, hu⟩ := hu
  obtain ⟨r, -, hr⟩ := exists_of_forall₂_right (mapM_eq_ok_iff.mp h).flip ht
  exact hEach t ht r hr u hu

/-- Where the walk of a node goes through, the function is given every node in
it. -/
theorem exists_rebuilt {t r : Clause} (h : postwalk fn t = .ok r) :
    ∀ u ∈ t.postorder, ∃ node, rebuilt fn u = .ok node := by
  induction t using Term.induct generalizing r with
  | hSym s => exact List.forall_mem_singleton.mpr ⟨_, rfl⟩
  | hLit v i => exact List.forall_mem_singleton.mpr ⟨_, rfl⟩
  | hStray v => exact List.forall_mem_singleton.mpr ⟨_, rfl⟩
  | hSeq xs i ih =>
      obtain ⟨rs, hItems⟩ := exists_items_of_postwalk h
      exact List.forall_mem_append.mpr
        ⟨exists_rebuilt_items (fun x hx _ hr => ih x hx hr) hItems,
          List.forall_mem_singleton.mpr ⟨_, rebuilt_of_items hItems⟩⟩
  | hVec xs i ih =>
      obtain ⟨rs, hItems⟩ := exists_items_of_postwalk h
      exact List.forall_mem_append.mpr
        ⟨exists_rebuilt_items (fun x hx _ hr => ih x hx hr) hItems,
          List.forall_mem_singleton.mpr ⟨_, rebuilt_of_items hItems⟩⟩

/-- The walk over noted nodes goes through if the function keeps to notes. -/
theorem exists_postwalk (hFn : ∀ u : Clause, u.IsNoted → Value.IsNote (fn u).info?)
    {t : Clause} (h : ∀ u ∈ t.postorder, u.IsNoted) : ∃ r, postwalk fn t = .ok r := by
  -- A node over other items is as noted as it was.
  have hNode : ∀ {t : Clause} {rs : List Clause}, t.IsNoted →
      t.items.mapM (postwalk fn) = .ok rs → ∃ r, postwalk fn t = .ok r := by
    intro t rs ht hItems
    have hNoted : (t.withItems rs).IsNoted := by
      cases t with
      | stray v => exact absurd rfl (ht.isTerm v)
      | _ => exact ⟨fun v hv => (nomatch hv), ht.isNote⟩
    obtain ⟨r, hr⟩ := ht.exists_inherit (hFn _ hNoted)
    refine ⟨r, ?_⟩
    rw [postwalk_eq, rebuilt_of_items hItems]
    exact hr
  have hItems : ∀ {xs : List Clause},
      (∀ x ∈ xs, (∀ u ∈ x.postorder, u.IsNoted) → ∃ r, postwalk fn x = .ok r) →
      (∀ u ∈ postorderOf xs, u.IsNoted) → ∃ rs, xs.mapM (postwalk fn) = .ok rs := by
    intro xs ih h
    refine exists_mapM_eq_ok fun x hx => ih x hx fun u hu => h u ?_
    rw [postorderOf_eq_flatMap]
    exact List.mem_flatMap.mpr ⟨x, hx, hu⟩
  induction t using Term.induct with
  | hSym s => exact hNode (h _ (List.mem_singleton_self _)) rfl
  | hLit v i => exact hNode (h _ (List.mem_singleton_self _)) rfl
  | hStray v => exact hNode (h _ (List.mem_singleton_self _)) rfl
  | hSeq xs i ih =>
      obtain ⟨hInner, hOuter⟩ := List.forall_mem_append.mp h
      obtain ⟨rs, hrs⟩ := hItems ih hInner
      exact hNode (t := .seq xs i) (hOuter _ (List.mem_singleton_self _)) hrs
  | hVec xs i ih =>
      obtain ⟨hInner, hOuter⟩ := List.forall_mem_append.mp h
      obtain ⟨rs, hrs⟩ := hItems ih hInner
      exact hNode (t := .vec xs i) (hOuter _ (List.mem_singleton_self _)) hrs

/-! ## The stacks -/

/-- A state once a node is done: its result is on top, and the function was
given its nodes. -/
def WalkState.walked (fn : Clause → Clause) (t : Clause) (s : WalkState) :
    Except Fault WalkState := do
  let result ← postwalk fn t
  let given ← t.postorder.mapM (rebuilt fn)
  return { results := result :: s.results, given := given.reverse ++ s.given }

/-- A state once several nodes are done, the result of the last one on top. -/
def WalkState.walkedAll (fn : Clause → Clause) (ts : List Clause) (s : WalkState) :
    Except Fault WalkState := do
  let results ← ts.mapM (postwalk fn)
  let given ← (postorderOf ts).mapM (rebuilt fn)
  return { results := results.reverse ++ s.results, given := given.reverse ++ s.given }

/-- Several nodes are done one after the other. -/
private theorem walkedAll_cons (t : Clause) (ts : List Clause) (s : WalkState) :
    s.walkedAll fn (t :: ts) = (do (← s.walked fn t).walkedAll fn ts) := by
  rw [WalkState.walkedAll, WalkState.walked, List.mapM_cons, postorderOf, List.mapM_append]
  cases hResult : postwalk fn t with
  | error e => rfl
  | ok r =>
      obtain ⟨given, hGiven⟩ := exists_mapM_eq_ok (exists_rebuilt hResult)
      rw [hGiven]
      simp only [ok_bind, WalkState.walkedAll]
      cases ts.mapM (postwalk fn) with
      | error e => rfl
      | ok rs =>
          cases (postorderOf ts).mapM (rebuilt fn) with
          | error e => rfl
          | ok gs => simp [pure, Except.pure]

/-- A composite is rebuilt from the results on top, which are those of its
items. -/
private theorem walked_composite {t : Clause} (hComposite : t.isComposite = true)
    (s : WalkState) :
    s.walked fn t = (do
      let done ← s.walkedAll fn t.items
      done.apply fn t (t.withItems (done.results.take t.items.length).reverse)
        t.items.length) := by
  have hPostorder : t.postorder = postorderOf t.items ++ [t] := by
    cases t with
    | seq xs i => rfl
    | vec xs i => rfl
    | _ => cases hComposite
  rw [WalkState.walked, WalkState.walkedAll, postwalk_eq, hPostorder, List.mapM_append]
  cases hItems : t.items.mapM (postwalk fn) with
  | error e =>
      rw [rebuilt, hItems]
      rfl
  | ok rs =>
      have hLength : t.items.length = rs.reverse.length := by
        rw [List.length_reverse, (mapM_eq_ok_iff.mp hItems).length_eq]
      obtain ⟨gs, hGiven⟩ := exists_mapM_eq_ok
        (exists_rebuilt_items (fun _ _ _ hr => exists_rebuilt hr) hItems)
      rw [rebuilt_of_items hItems, hGiven]
      simp only [ok_bind, List.mapM_cons, List.mapM_nil, rebuilt_of_items hItems, pure,
        Except.pure, WalkState.apply]
      rw [hLength, List.take_left, List.drop_left, List.reverse_reverse]
      cases inherit t (fn (t.withItems rs)) with
      | error e => rfl
      | ok r => simp

/-- Items that wait are worked off one after the other. -/
private theorem runTasks_visits {ts : List Clause}
    (h : ∀ t ∈ ts, ∀ rest s,
      runTasks fn (.visit t :: rest) s = (do runTasks fn rest (← s.walked fn t)))
    (rest : List Task) (s : WalkState) :
    runTasks fn (ts.map .visit ++ rest) s =
      (do runTasks fn rest (← s.walkedAll fn ts)) := by
  induction ts generalizing s with
  | nil => rfl
  | cons t ts ih =>
      obtain ⟨hHead, hTail⟩ := List.forall_mem_cons.mp h
      rw [List.map_cons, List.cons_append, hHead, walkedAll_cons, bind_assoc]
      exact bind_congr fun s' => ih hTail s'

/-- A leaf is done at once. -/
private theorem runTasks_leaf {t : Clause} (hLeaf : t.isComposite = false)
    (rest : List Task) (s : WalkState) :
    runTasks fn (.visit t :: rest) s = (do runTasks fn rest (← s.walked fn t)) := by
  have hApply : s.apply fn t t 0 = s.walked fn t := by
    rw [WalkState.apply, WalkState.walked, postwalk_eq]
    cases t with
    | seq xs i => cases hLeaf
    | vec xs i => cases hLeaf
    | _ => rfl
  rw [runTasks, if_neg (Bool.eq_false_iff.mp hLeaf), hApply]

/-- A composite is done once its items are. -/
private theorem runTasks_composite {t : Clause} (hComposite : t.isComposite = true)
    (h : ∀ x ∈ t.items, ∀ rest s,
      runTasks fn (.visit x :: rest) s = (do runTasks fn rest (← s.walked fn x)))
    (rest : List Task) (s : WalkState) :
    runTasks fn (.visit t :: rest) s = (do runTasks fn rest (← s.walked fn t)) := by
  rw [runTasks, if_pos hComposite, runTasks_visits h, walked_composite hComposite, bind_assoc]
  exact bind_congr fun done => by rw [runTasks]

/-- Working off a node leaves its result behind and touches nothing below. -/
theorem runTasks_visit (t : Clause) (rest : List Task) (s : WalkState) :
    runTasks fn (.visit t :: rest) s = (do runTasks fn rest (← s.walked fn t)) := by
  induction t using Term.induct generalizing rest s with
  | hSym x => exact runTasks_leaf rfl rest s
  | hLit v i => exact runTasks_leaf rfl rest s
  | hStray v => exact runTasks_leaf rfl rest s
  | hSeq xs i ih => exact runTasks_composite (t := .seq xs i) rfl ih rest s
  | hVec xs i ih => exact runTasks_composite (t := .vec xs i) rfl ih rest s

/-! ## The walk -/

/-- The outcome of the walk with a stack, and the nodes that it gives to the
function. -/
theorem stackWalk_eq (t : Clause) :
    t.stackWalk fn = (do
      let result ← postwalk fn t
      let given ← t.postorder.mapM (rebuilt fn)
      return (result, given)) := by
  rw [stackWalk, runTasks_visit, WalkState.walked]
  cases postwalk fn t with
  | error e => rfl
  | ok r =>
      cases t.postorder.mapM (rebuilt fn) with
      | error e => rfl
      | ok given =>
          simp [runTasks, pure, Except.pure]

theorem map_fst_stackWalk (t : Clause) :
    (t.stackWalk fn).map Prod.fst = postwalk fn t := by
  rw [stackWalk_eq]
  cases h : postwalk fn t with
  | error e => rfl
  | ok r =>
      obtain ⟨given, hGiven⟩ := exists_mapM_eq_ok (exists_rebuilt h)
      rw [hGiven]
      rfl

/-- The function is given as many nodes as there are. -/
theorem length_of_stackWalk {t result : Clause} {given : List Clause}
    (h : t.stackWalk fn = .ok (result, given)) : given.length = t.size := by
  rw [stackWalk_eq] at h
  obtain ⟨_, -, hRest⟩ := bind_eq_ok_iff.mp h
  obtain ⟨given', hGiven, hPair⟩ := bind_eq_ok_iff.mp hRest
  obtain ⟨-, rfl⟩ := Prod.mk.inj (Except.ok.inj hPair)
  rw [← (mapM_eq_ok_iff.mp hGiven).length_eq, length_postorder]

/-- The walk with a stack is the recursion over the tree.  The function is given
every node once, after its items and over what became of them.  The outcome of a
node that has no information stays as it is; otherwise the entries of the node
are handed on, and those that the outcome brings along win.  The walk goes
through wherever nodes and outcomes have entries for their information. -/
theorem stackWalk_eq_recursion (fn : Clause → Clause) (t : Clause) :
    t.stackWalk fn = (do
        let result ← postwalk fn t
        let given ← t.postorder.mapM (rebuilt fn)
        return (result, given)) ∧
      (t.stackWalk fn).map Prod.fst = postwalk fn t ∧
      t.postorder.length = t.size ∧
      (∀ u : Clause, postwalk fn u = (do inherit u (fn (← rebuilt fn u)))) ∧
      (∀ u r : Clause, (∀ v, u ≠ .stray v) → u.info? = none → inherit u r = .ok r) ∧
      (∀ (es own : Entries) (u r : Clause), HasTextKeys es → HasTextKeys own →
        u.info? = some (.mapping es) →
        (r.info? = some (.mapping own) ∨ r.info? = none ∧ own = []) →
        ∃ merged, inherit u r = .ok (r.withInfo (some (.mapping merged))) ∧
          HasTextKeys merged ∧
          ∀ key, field? key merged = (field? key own).or (field? key es)) ∧
      ((∀ u ∈ t.postorder, u.IsNoted) →
        (∀ u : Clause, u.IsNoted → Value.IsNote (fn u).info?) →
        ∃ result given, t.stackWalk fn = .ok (result, given)) := by
  refine ⟨stackWalk_eq t, map_fst_stackWalk t, length_postorder t, postwalk_eq fn,
    fun u r hTerm hInfo => inherit_of_info?_eq_none hTerm hInfo r,
    fun es own u r hEs hOwn => inherit_mapping hEs hOwn, ?_⟩
  intro hNoted hFn
  obtain ⟨result, hResult⟩ := exists_postwalk hFn hNoted
  obtain ⟨given, hGiven⟩ := exists_mapM_eq_ok (exists_rebuilt hResult)
  refine ⟨result, given, ?_⟩
  rw [stackWalk_eq, hResult, hGiven]
  rfl

/-- A function that turns vectors into sequences, with a note. -/
def asCall : Clause → Clause
  | .vec xs _ => .seq xs (some (.mapping [(.text "note", .text "call")]))
  | t => t

/-- An empty vector of a certain line, beside a variable. -/
def vectorOnLine : Clause :=
  .vec [.vec [] (some (.mapping [(.text "line", .int 2)])), .named "?x"] none

private theorem hasTextKeys_line : HasTextKeys [(.text "line", .int 2)] :=
  Value.hasTextKeys_cons_iff.mpr ⟨List.not_mem_nil, Value.hasTextKeys_nil⟩

private theorem hasTextKeys_note : HasTextKeys [(.text "note", .text "call")] :=
  Value.hasTextKeys_cons_iff.mpr ⟨List.not_mem_nil, Value.hasTextKeys_nil⟩

private theorem isNoted_vectorOnLine : ∀ u ∈ vectorOnLine.postorder, u.IsNoted := by
  have hList : vectorOnLine.postorder =
      [.vec [] (some (.mapping [(.text "line", .int 2)])), .named "?x", vectorOnLine] := rfl
  rw [hList, List.forall_mem_cons, List.forall_mem_cons, List.forall_mem_singleton]
  exact ⟨⟨fun _ => nofun, Value.isNote_mapping hasTextKeys_line⟩,
    ⟨fun _ => nofun, Value.isNote_none⟩, ⟨fun _ => nofun, Value.isNote_none⟩⟩

private theorem isNote_asCall {u : Clause} (hu : u.IsNoted) :
    Value.IsNote (asCall u).info? := by
  cases u with
  | vec xs i => exact Value.isNote_mapping hasTextKeys_note
  | _ => exact hu.isNote

/-- The walk over an empty vector beside a variable: the function is given three
nodes, and the empty vector keeps its line over the new note. -/
theorem stackWalk_asCall_vectorOnLine :
    (HasTextKeys [(.text "line", .int 2)] ∧
      HasTextKeys [(.text "note", .text "call")] ∧
      (∀ u ∈ vectorOnLine.postorder, u.IsNoted) ∧
      ∀ u : Clause, u.IsNoted → Value.IsNote (asCall u).info?) ∧
    (∃ result given, vectorOnLine.stackWalk asCall = .ok (result, given) ∧
      given.length = 3 ∧ postwalk asCall vectorOnLine = .ok result) ∧
      (∀ r : Clause, inherit (.named "?x") r = .ok r) ∧
      ∃ merged, postwalk asCall (.vec [] (some (.mapping [(.text "line", .int 2)]))) =
          .ok (.seq [] (some (.mapping merged))) ∧
        field? "line" merged = some (.int 2) ∧
        field? "note" merged = some (.text "call") := by
  obtain ⟨-, hOutcome, -, hNode, hKept, hInherit, hTotal⟩ :=
    stackWalk_eq_recursion asCall vectorOnLine
  obtain ⟨result, given, hResult⟩ := hTotal isNoted_vectorOnLine fun _ => isNote_asCall
  obtain ⟨merged, hMerged, -, hField⟩ :=
    hInherit _ _ (.vec [] (some (.mapping [(.text "line", .int 2)])))
      (.seq [] (some (.mapping [(.text "note", .text "call")])))
      hasTextKeys_line hasTextKeys_note rfl (.inl rfl)
  have hWalk : postwalk asCall vectorOnLine = .ok result := by
    rw [← hOutcome, hResult]
    rfl
  refine ⟨⟨hasTextKeys_line, hasTextKeys_note, isNoted_vectorOnLine, fun _ => isNote_asCall⟩,
    ⟨result, given, hResult, length_of_stackWalk hResult, hWalk⟩,
    fun r => hKept _ r (fun _ => nofun) rfl, merged, ?_, ?_, ?_⟩
  · exact (hNode _).trans hMerged
  · rw [hField]
    rfl
  · rw [hField]
    rfl

end Term

end DatalogFragments
