import DatalogFragments.Proofs.Document.Clauses
import DatalogFragments.Proofs.Edn.Reader
import DatalogFragments.Proofs.Fragment.Produced
import DatalogFragments.Proofs.Query.Parameters
import DatalogFragments.Proofs.Query.Projection

/-!
# The text of a query

The text of a query shows its projection, its declarations and its clauses, each
behind a keyword.  The first two hold no keywords, so the text is cut at the right
places whatever the clauses are, and also if there are no declarations.  What is
read from it is the query without display information: two legible queries with
one text are the same.

## Main definitions

* `Query.read?` — reads the text of a query;
* `Query.Legible` — queries that can be read back;
* `Query.SameParts` — queries that differ in display information and bookkeeping
  only.

## Main results

* `Term.Alike.edn_eq` — like clauses with equally written literals;
* `Query.read?_edn` — what is read from the text of a legible query;
* `Query.edn_unambiguous` — one text, one query;
* `Query.edn_ambiguous_stray` — items that are no terms.
-/

namespace DatalogFragments

open Value (entry)

/-! ## Written forms of like clauses -/

namespace Term

variable {P : Value → Value → Prop}

private theorem ednItems_congr {ts us : List Clause}
    (h : List.Forall₂ (fun t u => t.edn = u.edn) ts us) : ednItems ts = ednItems us := by
  induction h with
  | nil => rfl
  | cons htu _ ih => rw [ednItems, ednItems, htu, ih]

/-- Like clauses are written alike if their literals are. -/
theorem Alike.edn_eq (hP : ∀ v w, P v w → v.edn = w.edn) {t u : Clause} (h : t.Alike P u) :
    t.edn = u.edn := by
  induction t using Term.induct generalizing u with
  | hSym s =>
      cases h with
      | sym h => rw [edn, edn, h]
  | hSeq xs i ih =>
      cases h with
      | seq h =>
          rw [edn, edn, ednItems_congr (forall₂_imp_of_mem h fun x hx y _ hxy => ih x hx hxy)]
  | hVec xs i ih =>
      cases h with
      | vec h =>
          rw [edn, edn, ednItems_congr (forall₂_imp_of_mem h fun x hx y _ hxy => ih x hx hxy)]
  | hLit v i =>
      cases h with
      | lit h => rw [edn, edn, hP _ _ h]
  | hStray v =>
      cases h with
      | stray h => rw [edn, edn, hP _ _ h]

theorem ednItems_of_alike (hP : ∀ v w, P v w → v.edn = w.edn) {ts us : List Clause}
    (h : List.Forall₂ (Alike P) ts us) : ednItems ts = ednItems us :=
  ednItems_congr (h.imp fun _ _ htu => htu.edn_eq hP)

end Term

namespace Form

/-- Declarations have no literals. -/
theorem over_render {V : Value → Prop} {f : Form} (h : f.isProper = true) :
    f.render.Over (fun _ => True) V := by
  induction f using Form.induct with
  | hSym s => exact .sym fun _ _ => trivial
  | hColl f ih =>
      have hItem := ih h
      have hMark : (Term.named ellipsisName : Clause).Over (fun _ => True) V :=
        .sym fun _ _ => trivial
      rw [render]
      split
      · exact .vec (List.forall_mem_singleton.mpr hItem) fun _ _ => trivial
      · exact .vec (List.forall_mem_cons.mpr
          ⟨hItem, List.forall_mem_singleton.mpr hMark⟩) fun _ _ => trivial
  | hTup fs ih =>
      rw [isProper, areProper_eq_true_iff] at h
      rw [render, renderAll_eq_map]
      refine .vec ?_ fun _ _ => trivial
      rw [List.forall_mem_map]
      exact fun f hf => ih f hf (h f hf)
  | hStray v => cases h

end Form

namespace Query

theorem find_of_compile_eq_ok {slices : List Fragment}
    (hWell : ∀ f ∈ slices, f.WellFormed) {find : Value} {q : Query}
    (hq : compile find slices = .ok q) : q.find = find := by
  obtain ⟨a, -, rfl⟩ := exists_of_compile_eq_ok hWell hq
  rfl

/-- Declarations of compiled fragments have no literals. -/
theorem over_params {V : Value → Prop} {slices : List Fragment}
    (hWell : ∀ f ∈ slices, f.WellFormed) {find : Value} {q : Query}
    (hq : compile find slices = .ok q) :
    ∀ c ∈ q.params, c.Over (fun _ => True) V := by
  obtain ⟨a, ha, rfl⟩ := exists_of_compile_eq_ok hWell hq
  intro c hc
  obtain ⟨f, hf, p, hp, rfl⟩ := Assembly.mem_allParams_ofSlices ha c hc
  have hForm := (wellFormed_of_mem_renamedSlices hWell f hf).forms_whole p hp
  exact Form.over_render hForm.isProper

/-- Queries with like declarations and clauses and one written projection have one
text. -/
theorem edn_eq_of_alike {q q' : Query} (hFind : findEdn q.find = findEdn q'.find)
    (hParams : List.Forall₂ (Term.Alike Eq) q.params q'.params)
    (hClauses : List.Forall₂ (Term.Alike Eq) q.clauses q'.clauses) : q.edn = q'.edn := by
  have hWritten : ∀ v w : Value, v = w → v.edn = w.edn := fun _ _ => congrArg Value.edn
  rw [edn, edn, hFind, Term.ednItems_of_alike hWritten hParams,
    Term.ednItems_of_alike hWritten hClauses]

/-! ## Reading a query back -/

/-- What is read from the text of a query. -/
structure Sections where
  find : List Clause
  params : List Clause
  clauses : List Clause

/-- Whether the item is anything but a keyword. -/
def isUnmarked : Clause → Bool
  | .lit (.keyword _) _ => false
  | _ => true

/-- What stands behind a keyword in front. -/
def behind? (k : String) : List Clause → Option (List Clause)
  | .lit (.keyword k') _ :: rest => if k' = k then some rest else none
  | _ => none

/-- Cuts items behind the keywords that introduce the parts of a query. -/
def sections? (items : List Clause) : Option Sections := do
  let body ← behind? ":find" items
  let find := body.takeWhile isUnmarked
  let rest := body.dropWhile isUnmarked
  match behind? ":where" rest with
  | some clauses => return ⟨find, [], clauses⟩
  | none =>
    let body ← behind? ":in" rest
    let clauses ← behind? ":where" (body.dropWhile isUnmarked)
    return ⟨find, body.takeWhile isUnmarked, clauses⟩

/-- Reads the text of a query. -/
def read? (text : String) : Option Sections :=
  match Edn.readItems [] [] text.toList with
  | some [.vec items _] => sections? items
  | _ => none

/-- The items of the text of a query. -/
def Sections.items (s : Sections) : List Clause :=
  .lit (.keyword ":find") none :: (s.find ++
    ((if s.params.isEmpty then [] else .lit (.keyword ":in") none :: s.params) ++
      .lit (.keyword ":where") none :: s.clauses))

/-- The items of a query are cut where they were put together. -/
theorem sections?_items {s : Sections} (hFind : ∀ t ∈ s.find, isUnmarked t = true)
    (hParams : ∀ t ∈ s.params, isUnmarked t = true) : sections? s.items = some s := by
  -- A keyword is where taking and dropping stop.
  have hTake : ∀ {ts : List Clause} (k : String) (rest : List Clause),
      (∀ t ∈ ts, isUnmarked t = true) →
      (ts ++ .lit (.keyword k) none :: rest).takeWhile isUnmarked = ts ∧
        (ts ++ .lit (.keyword k) none :: rest).dropWhile isUnmarked =
          .lit (.keyword k) none :: rest := by
    intro ts k rest hts
    refine run_append hts ?_
    rintro t ⟨⟩
    rfl
  obtain ⟨find, params, clauses⟩ := s
  dsimp only at hFind hParams
  rw [Sections.items]
  dsimp only
  cases params with
  | nil =>
      obtain ⟨hBefore, hBehind⟩ := hTake ":where" clauses hFind
      rw [List.isEmpty_nil, if_pos rfl, List.nil_append, sections?, behind?, if_pos rfl]
      dsimp only [Option.bind_eq_bind, Option.bind_some]
      rw [hBefore, hBehind, behind?, if_pos rfl]
      rfl
  | cons param params =>
      obtain ⟨hBefore, hBehind⟩ := hTake ":in"
        (param :: params ++ .lit (.keyword ":where") none :: clauses) hFind
      obtain ⟨hBefore', hBehind'⟩ := hTake ":where" clauses hParams
      rw [List.isEmpty_cons, if_neg Bool.false_ne_true, List.cons_append, sections?,
        behind?, if_pos rfl]
      dsimp only [Option.bind_eq_bind, Option.bind_some]
      rw [hBefore, hBehind, behind?, if_neg (by decide)]
      dsimp only
      rw [behind?, if_pos rfl, Option.bind_some, hBefore', hBehind', behind?, if_pos rfl]
      rfl

open Edn (ReadsAs)

/-- The parts of a query are read back from a text that is put together from
theirs. -/
theorem readsAs_items {s : Sections} {find params clauses : String}
    (hFind : ReadsAs find s.find) (hParams : ReadsAs params s.params)
    (hClauses : ReadsAs clauses s.clauses) :
    ReadsAs (Edn.spaced ([":find", find] ++
      (if s.params.isEmpty then [] else [":in", params]) ++ [":where", clauses])) s.items := by
  have hMarkFind := ReadsAs.keyword (k := ":find") (by decide) (by decide)
  have hMarkIn := ReadsAs.keyword (k := ":in") (by decide) (by decide)
  have hMarkWhere := ReadsAs.keyword (k := ":where") (by decide) (by decide)
  rw [Sections.items]
  cases hEmpty : s.params.isEmpty with
  | true =>
      have hRead := ReadsAs.spaced (.cons hMarkFind (.cons hFind
        (.cons hMarkWhere (.cons hClauses .nil))))
      simpa [Term.literal] using hRead
  | false =>
      have hRead := ReadsAs.spaced (.cons hMarkFind (.cons hFind (.cons hMarkIn
        (.cons hParams (.cons hMarkWhere (.cons hClauses .nil))))))
      simpa [Term.literal] using hRead

/-! ## Legible queries -/

/-- A query whose projection consists of symbols, with legible clauses and with
names that stand for symbols when they are read. -/
structure Legible (find : List Name) (q : Query) : Prop where
  find : ∀ s ∈ find, Edn.IsSymbolWord s.name
  params : ∀ s ∈ Term.symbolsOf q.params, Edn.IsSymbolWord s.name
  clauses : ∀ t ∈ q.clauses, t.Legible

/-- The parts of a query without display information. -/
def sections (find : List Name) (q : Query) : Sections where
  find := (find.map Symbol.name).map Term.named
  params := q.params.map Term.bare
  clauses := q.clauses.map Term.bare

theorem ednAll_terms (ts : List Clause) : Value.ednAll (ts.map .term) = Term.ednItems ts := by
  induction ts with
  | nil => rfl
  | cons t ts ih => rw [List.map_cons, Value.ednAll, Term.ednItems, ih, Value.edn]

theorem findEdn_projection (ts : List Clause) :
    findEdn (projection ts) = (Term.ednItems ts).map Edn.spaced := by
  rw [projection, findEdn, ← ednAll_terms]
  · rfl
  · rintro s ⟨⟩
  · rintro t ⟨⟩

end Query

namespace Term

variable {I : Value → Prop} {t : Clause}

/-- Clauses without literals are legible if their names are. -/
theorem Over.legible (h : t.Over I fun _ => False)
    (hNames : ∀ s ∈ t.symbols, Edn.IsSymbolWord s.name) : t.Legible := by
  induction h with
  | sym _ => exact .sym (hNames _ (List.mem_singleton.mpr rfl))
  | seq _ _ ih =>
      exact .seq fun x hx => ih x hx fun s hs => hNames s (mem_symbolsOf.mpr ⟨x, hx, hs⟩)
  | vec _ _ ih =>
      exact .vec fun x hx => ih x hx fun s hs => hNames s (mem_symbolsOf.mpr ⟨x, hx, hs⟩)
  | lit hv _ => exact hv.elim

theorem Over.isUnmarked (h : t.Over I fun _ => False) :
    Query.isUnmarked t.bare = true := by
  cases h with
  | sym _ => rfl
  | seq _ _ => rfl
  | vec _ _ => rfl
  | lit hv _ => exact hv.elim

end Term

namespace Query

section Reading

variable {slices : List Fragment} {find : List Name} {q : Query}

/-- What is read from the text of a legible query is the query without display
information. -/
theorem read?_edn (hWell : ∀ f ∈ slices, f.WellFormed)
    (hq : compile (projection (find.map .sym)) slices = .ok q) (hLegible : q.Legible find) :
    ∃ text, q.edn = .ok text ∧ read? text = some (q.sections find) := by
  have hParts := over_params (V := fun _ => False) hWell hq
  have hFindItems : ∀ t ∈ find.map Term.sym, t.Legible :=
    List.forall_mem_map.mpr fun s hs => .sym (hLegible.find s hs)
  have hParamItems : ∀ t ∈ q.params, t.Legible := fun t ht =>
    (hParts t ht).legible fun s hs => hLegible.params s (Term.mem_symbolsOf.mpr ⟨t, ht, hs⟩)
  obtain ⟨find', hFind, -, hFindReads⟩ := Term.readsAs_ednItems hFindItems
  obtain ⟨params, hParams, hLength, hParamsRead⟩ := Term.readsAs_ednItems hParamItems
  obtain ⟨clauses, hClauses, -, hClausesRead⟩ := Term.readsAs_ednItems hLegible.clauses
  have hFindText : findEdn q.find = .ok (Edn.spaced find') := by
    rw [find_of_compile_eq_ok hWell hq, findEdn_projection, hFind]
    rfl
  have hEmpty : (q.sections find).params.isEmpty = params.isEmpty := by
    rw [sections, List.isEmpty_map, Bool.eq_iff_iff, List.isEmpty_iff_length_eq_zero,
      List.isEmpty_iff_length_eq_zero, hLength]
  have hNames : (find.map Term.sym).map Term.bare =
      (find.map Symbol.name).map Term.named := by
    rw [List.map_map, List.map_map]
    rfl
  rw [hNames] at hFindReads
  have hRead := (readsAs_items (s := q.sections find) hFindReads hParamsRead hClausesRead).vec
    [] [] [] (fun _ h => by cases h)
  rw [hEmpty, List.append_nil] at hRead
  refine ⟨_, by rw [edn, hFindText, hParams, hClauses]; rfl, ?_⟩
  rw [read?, hRead, Edn.readItems]
  exact sections?_items (List.forall_mem_map.mpr fun _ _ => rfl)
    (List.forall_mem_map.mpr fun t ht => (hParts t ht).isUnmarked)

end Reading

/-- Two queries with the same projection, declarations and clauses, up to display
information. -/
structure SameParts (find find' : List Name) (q q' : Query) : Prop where
  find : find.map Symbol.name = find'.map Symbol.name
  params : List.Forall₂ (Term.Alike Eq) q.params q'.params
  clauses : List.Forall₂ (Term.Alike Eq) q.clauses q'.clauses

/-- A legible query has a text, and two of them have the same text iff they have
the same parts. -/
theorem edn_unambiguous (find find' : List Name) (slices slices' : List Fragment)
    (hValid : ∀ f ∈ slices, f.Valid) (hValid' : ∀ f ∈ slices', f.Valid) {q q' : Query}
    (hq : compile (projection (find.map .sym)) slices = .ok q)
    (hq' : compile (projection (find'.map .sym)) slices' = .ok q')
    (hLegible : q.Legible find) (hLegible' : q'.Legible find') :
    (∃ text, q.edn = .ok text) ∧ (q.edn = q'.edn ↔ SameParts find find' q q') := by
  have hWell : ∀ f ∈ slices, f.WellFormed := fun f hf => f.valid_iff.mp (hValid f hf)
  have hWell' : ∀ f ∈ slices', f.WellFormed := fun f hf => f.valid_iff.mp (hValid' f hf)
  obtain ⟨text, hText, hRead⟩ := read?_edn hWell hq hLegible
  obtain ⟨text', hText', hRead'⟩ := read?_edn hWell' hq' hLegible'
  refine ⟨⟨text, hText⟩, fun hSame => ?_, fun hSame => ?_⟩
  · rw [hText, hText', Except.ok.injEq] at hSame
    rw [hSame, hRead', Option.some.injEq] at hRead
    obtain ⟨hFind, hParams, hClauses⟩ := Sections.mk.inj hRead
    have hAlike : ∀ {ts us : List Clause}, us.map Term.bare = ts.map Term.bare →
        List.Forall₂ (Term.Alike Eq) ts us := fun h =>
      (Term.map_bare_eq_iff.mp h.symm).imp fun _ _ => Term.alike_of_bare_eq
    refine ⟨?_, hAlike hParams, hAlike hClauses⟩
    refine List.map_injective_iff.mpr (fun m n hmn => ?_) hFind.symm
    exact congrArg Symbol.name (Term.sym.inj hmn)
  · have hFind : List.Forall₂ (Term.Alike Eq) (find.map .sym) (find'.map .sym) := by
      have hNames := hSame.find
      rw [← List.forall₂_eq_eq_eq, List.forall₂_map_left_iff,
        List.forall₂_map_right_iff] at hNames
      rw [List.forall₂_map_left_iff, List.forall₂_map_right_iff]
      exact hNames.imp fun _ _ => .sym
    refine edn_eq_of_alike ?_ hSame.params hSame.clauses
    rw [find_of_compile_eq_ok hWell hq, find_of_compile_eq_ok hWell' hq',
      findEdn_projection, findEdn_projection,
      Term.ednItems_of_alike (fun _ _ => congrArg Value.edn) hFind]

/-! ### A query about scores -/

/-- A fragment whose only clause gives a score to its subject. -/
def scored (t : Clause) : Fragment where
  clauses := [.vector [.named "?e", .literal (.keyword ":score"), t]]
  provide := [Symbol.plain "?e", Symbol.plain "$"]

/-- The projection on the subject. -/
def subject : List Name := [Symbol.plain "?e"]

theorem produced_scored (v : Value) (i : Option Value) : (scored (.lit v i)).Produced :=
  .made (Fragment.ofConfig_describe [] (.bool false) (by simp [scored, Term.vector])
    ((Fragment.valid_iff (scored (.lit v i))).mp rfl) List.nodup_nil rfl rfl)

theorem compile_scored (find v : Value) (i : Option Value) :
    compile find [scored (.lit v i)] = .ok (build find [scored (.lit v i)] {}) := by
  rw [compile, orderSlices_singleton]
  rfl

private theorem legible_scored {v : Value} (h : v.Legible) (find : Value)
    (i : Option Value) : (build find [scored (.lit v i)] {}).Legible subject := by
  have hSubject : Edn.IsSymbolWord "?e" := ⟨by decide, by decide, by decide, by decide⟩
  have hKeyword : (Value.keyword ":score").Legible := .keyword (by decide) (by decide)
  refine ⟨List.forall_mem_singleton.mpr hSubject, fun _ hs => absurd hs List.not_mem_nil,
    List.forall_mem_singleton.mpr (.vec ?_)⟩
  simp only [List.forall_mem_cons]
  exact ⟨.sym hSubject, .lit hKeyword, .lit h, fun _ hx => absurd hx List.not_mem_nil⟩

theorem edn_unambiguous_annotated :
    ∃ f f' : Fragment, f = scored (.literal (.text "] :where")) ∧
      f' = scored (.lit (.text "] :where") (some (.mapping [entry "line" (.int 3)]))) ∧
      (∀ g ∈ [f], g.Valid) ∧ (∀ g ∈ [f'], g.Valid) ∧
      ∃ q q', compile (projection (subject.map .sym)) [f] = .ok q ∧
        compile (projection (subject.map .sym)) [f'] = .ok q' ∧
        q.Legible subject ∧ q'.Legible subject ∧
        (∃ text, q.edn = .ok text) ∧ (q.edn = q'.edn ↔ SameParts subject subject q q') := by
  have hText : (Value.text "] :where").Legible := .atom (.text _)
  have hValid : ∀ i, ∀ g ∈ [scored (.lit (.text "] :where") i)], g.Valid :=
    fun i => List.forall_mem_singleton.mpr rfl
  have hq := compile_scored (projection (subject.map .sym)) (.text "] :where")
  have hLegible := legible_scored hText (projection (subject.map .sym))
  exact ⟨_, _, rfl, rfl, hValid _, hValid _, _, _, hq _, hq _, hLegible _, hLegible _,
    edn_unambiguous subject subject _ _ (hValid _) (hValid _) (hq _) (hq _) (hLegible _)
      (hLegible _)⟩

/-- An item that is no term is written like a literal, so the text of a query does
not tell the two apart. -/
theorem edn_ambiguous_stray :
    (scored (.literal (.int 5))).Produced ∧ (scored (.stray (.int 5))).Produced ∧
      ∃ q q', compile (projection (subject.map .sym)) [scored (.literal (.int 5))] = .ok q ∧
        compile (projection (subject.map .sym)) [scored (.stray (.int 5))] = .ok q' ∧
        q.clauses = (scored (.literal (.int 5))).clauses ∧
        q'.clauses = (scored (.stray (.int 5))).clauses ∧
        q.edn = .ok "[:find ?e :where [?e :score 5]]" ∧ q'.edn = q.edn ∧
        ¬SameParts subject subject q q' := by
  have hProduced : (scored (.stray (.int 5))).Produced :=
    .made (Fragment.ofConfig_describe [] (.bool false) (by simp [scored, Term.vector])
      ((Fragment.valid_iff (scored (.stray (.int 5)))).mp rfl) List.nodup_nil rfl rfl)
  have hq' : compile (projection (subject.map .sym)) [scored (.stray (.int 5))] =
      .ok (build (projection (subject.map .sym)) [scored (.stray (.int 5))] {}) := by
    rw [compile, orderSlices_singleton]
    rfl
  refine ⟨produced_scored _ _, hProduced, _, _, compile_scored _ _ _, hq', rfl, rfl, rfl, rfl,
    fun hSame => ?_⟩
  rcases hSame.clauses with _ | ⟨hClause, -⟩
  cases hClause with
  | vec hItems =>
      rcases hItems with _ | ⟨-, _ | ⟨-, _ | ⟨hScore, -⟩⟩⟩
      cases hScore

end Query

end DatalogFragments
