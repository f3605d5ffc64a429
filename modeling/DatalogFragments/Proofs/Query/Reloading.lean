import DatalogFragments.Proofs.Document.Reloading
import DatalogFragments.Proofs.Query.Bookkeeping
import DatalogFragments.Proofs.Query.Text

/-!
# Queries over saved fragments

Any of the fragments of a query may be replaced by what is loaded from its JSON
text: the query is compiled as before, to clauses and arguments in which the
entries of mappings are in the order of their keys.  The text of a query shows
entries in the order that they have.  So it stays the same where the literals are
in order already, and need not do so elsewhere.

## Main definitions

* `Query.ReloadsSome` — a list in which some fragments were saved and loaded;
* `Query.Reloaded` — the queries compiled from the two lists.

## Main results

* `Query.compile_reloaded` — the query over saved fragments, and its text;
* `Query.edn_reloaded_unsorted` — a text that changes.
-/

namespace DatalogFragments

open Value (entry field?)

namespace Query

/-- The clauses of like lists are as alike as those of their fragments are. -/
theorem clauses_alike {R P : Value → Value → Prop} {find : Value}
    {slices slices' : List Fragment} {q q' : Query}
    (hWell : ∀ f ∈ slices, f.WellFormed) (hWell' : ∀ f ∈ slices', f.WellFormed)
    (hq : compile find slices = .ok q) (hq' : compile find slices' = .ok q')
    (h : List.Forall₂ (fun f g => f.Alike R g ∧
      List.Forall₂ (Term.Alike P) f.clauses g.clauses) slices slices') :
    List.Forall₂ (Term.Alike P) q.clauses q'.clauses := by
  obtain ⟨a, -, rfl⟩ := exists_of_compile_eq_ok hWell hq
  obtain ⟨a', -, rfl⟩ := exists_of_compile_eq_ok hWell' hq'
  have hRenamed : List.Forall₂ (fun f g => List.Forall₂ (Term.Alike P) f.clauses g.clauses)
      (renamedSlices slices) (renamedSlices slices') :=
    forall₂_renamedSlices_of (fun _ _ => And.left)
      (fun f g ρ hfg => forall₂_map_of_mem hfg.2 fun _ _ _ htu => htu.renamed ρ) h
  exact List.rel_flatMap hRenamed fun _ _ hfg => hfg

/-- What is compiled is compiled from a list of like fragments, too, if no display
information is in the way. -/
theorem exists_compile_of_alike {R : Value → Value → Prop} {find : Value}
    {slices slices' : List Fragment} {q : Query} (hWell : ∀ f ∈ slices, f.WellFormed)
    (hSound : ∀ g ∈ slices', g.WellFormed ∧ g.infoFault? = none)
    (h : List.Forall₂ (Fragment.Alike R) slices' slices)
    (hq : compile find slices = .ok q) :
    ∃ q', compile find slices' = .ok q' ∧ q'.Alike R q := by
  rcases compile_agree (N := fun _ _ => True) find (fun g hg => (hSound g hg).1) hWell
    (h.imp fun _ _ hgf => ⟨hgf, trivial⟩) with ⟨e, hStops, -⟩ | ⟨e, hStops, -⟩ | hAgree
  · rw [findSome?_orderSlices_eq_none fun g hg => (hSound g hg).2] at hStops
    cases hStops
  · rw [infoFault_of_compile_eq_ok hWell hq] at hStops
    cases hStops
  · rcases hAgree with ⟨q', q₀, hq', hq₀, -, hAlike, -⟩ | ⟨w, w', -, hError, -⟩
    · obtain rfl := Except.ok.inj (hq.symm.trans hq₀)
      exact ⟨q', hq', hAlike⟩
    · rw [hq] at hError
      cases hError

/-- A value as it was, or with the entries of its mappings brought into order. -/
def KeptOrSorted (w v : Value) : Prop := w = v ∨ w.SortedFrom v

section Reloading

variable {find : Value} {slices slices' : List Fragment} {q : Query}

/-- Some of the fragments are replaced by what is loaded from their JSON text. -/
def ReloadsSome : List Fragment → List Fragment → Prop :=
  List.Forall₂ fun f g => g = f ∨ f.JsonData ∧ f.Reloads g

/-- Replaced fragments are as before, up to the order of entries. -/
private theorem alike_of_reloadsSome (hProduced : ∀ f ∈ slices, f.Produced)
    (h : ReloadsSome slices slices') :
    List.Forall₂ (Fragment.Alike KeptOrSorted) slices' slices := by
  refine (forall₂_imp_of_mem h fun f hf g _ hfg => ?_).flip
  rcases hfg with rfl | ⟨hData, hReloads⟩
  · exact Fragment.alike_refl (fun _ => .inl rfl) (hProduced g hf).constructed.wellFormed
  · exact ((hProduced f hf).reloaded hData hReloads).alike.imp fun _ _ => .inr

/-- Literals that are in order leave the text as it was. -/
private theorem edn_eq_of_sortedLiterals {q' : Query}
    (hProduced : ∀ f ∈ slices, f.Produced) (h : ReloadsSome slices slices')
    (hSorted : List.Forall₂ (fun f g => g = f ∨ f.SortedLiterals) slices slices')
    (hWell : ∀ f ∈ slices, f.WellFormed) (hWell' : ∀ g ∈ slices', g.WellFormed)
    (hq : compile find slices = .ok q) (hq' : compile find slices' = .ok q')
    (hAlike : q'.Alike KeptOrSorted q) : q'.edn = q.edn := by
  refine edn_eq_of_alike (congrArg findEdn hAlike.find) ?_ ?_
  · exact forall₂_imp_of_mem hAlike.params fun _ _ c hc hcc' =>
      hcc'.imp_over (V := fun _ => False) (over_params hWell hq c hc)
        fun _ _ _ => False.elim
  · refine clauses_alike hWell' hWell hq' hq (forall₂_and_iff.mpr
      ⟨alike_of_reloadsSome hProduced h, ?_⟩)
    have hSame : ∀ f : Fragment, List.Forall₂ (Term.Alike Eq) f.clauses f.clauses :=
      fun f => List.forall₂_same.mpr fun t _ => t.alike_refl fun _ => rfl
    refine (forall₂_imp_of_mem (forall₂_and_iff.mpr ⟨h, hSorted⟩) ?_).flip
    rintro f hf g - ⟨hSome, rfl | hLiterals⟩
    · exact hSame g
    · rcases hSome with rfl | ⟨hData, hReloads⟩
      · exact hSame g
      · exact ((hProduced f hf).reloaded hData hReloads).clauses_alike hLiterals

/-- The query over fragments of which some were saved and loaded. -/
structure Reloaded (slices slices' : List Fragment) (q q' : Query) : Prop where
  /-- Nothing changes but the order of the entries in mappings. -/
  alike : q'.Alike KeptOrSorted q
  /-- The text stays as it is if the entries in the literals of the replaced
  fragments are in order already. -/
  edn : List.Forall₂ (fun f g => g = f ∨ f.SortedLiterals) slices slices' →
    q'.edn = q.edn

/-- Every fragment of plain data can be saved and loaded, and what is compiled
without this is compiled with it. -/
theorem compile_reloaded (find : Value) (slices : List Fragment)
    (hProduced : ∀ f ∈ slices, f.Produced) {q : Query}
    (hq : compile find slices = .ok q) :
    (∀ f ∈ slices, f.JsonData → ∃ g, f.Reloads g) ∧
      ∀ slices', ReloadsSome slices slices' →
        ∃ q', compile find slices' = .ok q' ∧ Reloaded slices slices' q q' := by
  refine ⟨fun f hf hData => ?_, fun slices' hSome => ?_⟩
  · obtain ⟨g, hg, -⟩ := (hProduced f hf).exists_reloaded hData
    exact ⟨g, hg⟩
  have hWell : ∀ f ∈ slices, f.WellFormed :=
    fun f hf => (hProduced f hf).constructed.wellFormed
  have hInfo := infoFault_of_compile_eq_ok hWell hq
  have hSound : ∀ g ∈ slices', g.WellFormed ∧ g.infoFault? = none := by
    intro g hg
    obtain ⟨f, hf, hfg⟩ := exists_of_forall₂_right hSome hg
    rcases hfg with rfl | ⟨hData, hReloads⟩
    · exact ⟨hWell g hf, List.findSome?_eq_none_iff.mp hInfo g (mem_orderSlices.mpr hf)⟩
    · have hReloaded := (hProduced f hf).reloaded hData hReloads
      exact ⟨hReloaded.wellFormed, hReloaded.info.infoFault?_eq_none⟩
  obtain ⟨q', hq', hAlike⟩ :=
    exists_compile_of_alike hWell hSound (alike_of_reloadsSome hProduced hSome) hq
  exact ⟨q', hq', hAlike, fun hSorted => edn_eq_of_sortedLiterals hProduced hSome
    hSorted hWell (fun g hg => (hSound g hg).1) hq hq' hAlike⟩

end Reloading

/-- Two scores in the order of their keys. -/
def sortedScores : Entries := [entry "a" (.int 2), entry "b" (.int 1)]

/-- The same two scores the other way round. -/
def unsortedScores : Entries := [entry "b" (.int 1), entry "a" (.int 2)]

/-- A fragment with the scores in a literal. -/
def tallied (es : Entries) : Fragment := scored (.literal (.mapping es))

private theorem jsonData_tallied {es : Entries} (h : (Value.mapping es).Coded) :
    (tallied es).JsonData where
  name := .inl rfl
  clauses := by
    have hKeyword : (Value.keyword ":score").Coded := .ident "score"
    simp [tallied, scored, Term.vector, Term.named, Term.literal, Symbol.plain, hKeyword, h]
  arguments := fun _ hp => absurd hp List.not_mem_nil
  extra := by simp [tallied, scored]

private theorem coded_scores {es : Entries} (hKeys : Value.HasTextKeys es)
    (hTag : Value.hasTag "kw" es = false) (h : ∀ e ∈ es, ∃ i, e.2 = .int i) :
    (Value.mapping es).Coded := by
  refine .mapping hKeys hTag fun e he => ?_
  obtain ⟨i, hi⟩ := h e he
  rw [hi]
  exact .atom (.int i)

private theorem keySorted_sortedScores : (Value.mapping sortedScores).KeySorted := by
  refine .mapping ⟨["a", "b"], rfl, by decide⟩ ?_
  simp only [sortedScores, List.forall_mem_cons]
  exact ⟨.atom (.int 2), .atom (.int 1), fun _ h => absurd h List.not_mem_nil⟩

theorem compile_reloaded_sorted :
    (tallied sortedScores).Produced ∧ (tallied sortedScores).JsonData ∧
      (tallied sortedScores).SortedLiterals ∧
      ∃ q g q', compile (projection (subject.map .sym)) [tallied sortedScores] = .ok q ∧
        (tallied sortedScores).Reloads g ∧
        compile (projection (subject.map .sym)) [g] = .ok q' ∧
        q.edn = .ok "[:find ?e :where [?e :score \x7b\"a\" 2, \"b\" 1\x7d]]" ∧
        q'.edn = q.edn := by
  have hProduced : ∀ f ∈ [tallied sortedScores], f.Produced :=
    List.forall_mem_singleton.mpr (produced_scored _ _)
  have hData : (tallied sortedScores).JsonData := by
    refine jsonData_tallied (coded_scores ?_ rfl ?_) <;> simp [sortedScores, entry]
  have hSorted : (tallied sortedScores).SortedLiterals := by
    have hKeyword : (Value.keyword ":score").KeySorted := .keyword _
    intro t ht
    obtain rfl := List.mem_singleton.mp ht
    simp [Term.vector, Term.named, Term.literal, Symbol.plain, hKeyword,
      keySorted_sortedScores]
  have hq := compile_scored (projection (subject.map .sym)) (.mapping sortedScores) none
  obtain ⟨hExists, hReloaded⟩ := compile_reloaded _ _ hProduced hq
  obtain ⟨g, hg⟩ := hExists _ (List.mem_singleton.mpr rfl) hData
  obtain ⟨q', hq', hLike⟩ := hReloaded [g] (.cons (.inr ⟨hData, hg⟩) .nil)
  exact ⟨produced_scored _ _, hData, hSorted, _, g, q', hq, hg, hq', rfl,
    hLike.edn (.cons (.inr hSorted) .nil)⟩

/-- Bringing the entries into order makes the sorted ones out of the unsorted. -/
private theorem eq_of_sortedFrom {w : Value} (h : w.SortedFrom (.mapping unsortedScores)) :
    w = .mapping sortedScores := by
  have hKeys : Value.HasTextKeys sortedScores := by simp [sortedScores, entry]
  exact keySorted_sortedScores.eq_of_reordered h.2 (h.1.of_perm hKeys (.swap ..))

/-- What the literal of a fragment is brought into. -/
private theorem alike_sortedScores {ts : List Clause}
    (h : List.Forall₂ (Term.Alike Value.SortedFrom) ts (tallied unsortedScores).clauses) :
    List.Forall₂ (Term.Alike Eq) ts (tallied sortedScores).clauses := by
  rcases h with _ | ⟨ht, _ | _⟩
  cases ht with
  | vec hItems =>
      rcases hItems with _ | ⟨hSubject, _ | ⟨hAttribute, _ | ⟨hEntries, _ | _⟩⟩⟩
      cases hSubject with
      | sym hName =>
          cases hAttribute with
          | lit hKeyword =>
              cases hKeyword.1
              cases hEntries with
              | lit hMapping =>
                  obtain rfl := eq_of_sortedFrom hMapping
                  exact .cons (.vec (.cons (.sym hName) (.cons (.lit rfl)
                    (.cons (.lit rfl) .nil)))) .nil

/-- The text of a query can change when its only fragment is saved and loaded. -/
theorem edn_reloaded_unsorted :
    (tallied unsortedScores).Produced ∧ (tallied unsortedScores).JsonData ∧
      ∃ q g q', compile (projection (subject.map .sym)) [tallied unsortedScores] = .ok q ∧
        (tallied unsortedScores).Reloads g ∧
        compile (projection (subject.map .sym)) [g] = .ok q' ∧
        q.edn = .ok "[:find ?e :where [?e :score \x7b\"b\" 1, \"a\" 2\x7d]]" ∧
        q'.edn = .ok "[:find ?e :where [?e :score \x7b\"a\" 2, \"b\" 1\x7d]]" := by
  have hData : (tallied unsortedScores).JsonData := by
    refine jsonData_tallied (coded_scores ?_ rfl ?_) <;> simp [unsortedScores, entry]
  obtain ⟨g, hg, hReloaded⟩ := (produced_scored _ _).exists_reloaded hData
  have hAlike : g.Alike Eq (tallied sortedScores) :=
    { clauses := alike_sortedScores hReloaded.alike.clauses
      provide := hReloaded.alike.provide
      require := hReloaded.alike.require
      lets := by
        rw [List.forall₂_nil_right_iff.mp hReloaded.alike.lets]
        exact .nil
      mustLet := hReloaded.alike.mustLet
      selectivity := hReloaded.alike.selectivity }
  have hSound : ∀ f ∈ [g], f.WellFormed ∧ f.infoFault? = none :=
    List.forall_mem_singleton.mpr ⟨hReloaded.wellFormed, hReloaded.info.infoFault?_eq_none⟩
  have hWell : ∀ f ∈ [tallied sortedScores], f.WellFormed :=
    List.forall_mem_singleton.mpr (produced_scored _ _).constructed.wellFormed
  obtain ⟨q', hq', hQueries⟩ := exists_compile_of_alike hWell hSound (.cons hAlike .nil)
    (compile_scored (projection (subject.map .sym)) (.mapping sortedScores) none)
  refine ⟨produced_scored _ _, hData, _, g, q', compile_scored _ _ _, hg, hq', rfl, ?_⟩
  exact edn_eq_of_alike (congrArg findEdn hQueries.find) hQueries.params hQueries.clauses

end Query

end DatalogFragments
