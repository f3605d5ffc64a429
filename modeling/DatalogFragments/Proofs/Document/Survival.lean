import DatalogFragments.Proofs.Document.Clauses

/-!
# Which values survive a document

Keywords are written into a document in-band, as mappings with the type `kw`.
So a mapping of the caller's that looks like one is read as a keyword, at any
depth, and that is all that is ever lost: data with keywords comes back exactly
if no mapping in it has the type `kw`, and a clause comes back exactly if the
values of its literals do and its display information can be written.

## Main definitions

* `Value.Survives`, `Term.Survives` — what is written and read back is equal to
  what was there;
* `Value.Writable` — display information that can be written.

## Main results

* `Value.survives_iff_coded` — for data with keywords;
* `Term.survives_iff_over` — a clause survives if its literals do;
* `survival_exact` — both for data with keywords;
* `keyword_mimicked` — a mapping that comes back as a keyword.
-/

namespace DatalogFragments

namespace Value

/-- Reading what was written gives an equal value. -/
def Survives (v : Value) : Prop := ∃ w, ofData v.toData = .ok w ∧ w.Same v

/-- Data with keywords survives a document iff no mapping in it looks like a
keyword. -/
theorem survives_iff_coded {v : Value} (h : v.Comparable) : v.Survives ↔ v.Coded := by
  constructor
  · rintro ⟨w, hRead, hSame⟩
    have hPlain := h.plain_toData
    obtain rfl : w = v := eq_of_same_ofData hPlain hRead hSame
    exact coded_of_ofData hPlain hRead
  · intro hCoded
    exact ⟨v, hCoded.ofData_toData, h.same_self⟩

/-- A mapping that looks like a keyword comes back as one if it has a name, and
is not read at all otherwise. -/
theorem ofData_toData_of_tag {es : Entries} (hTag : hasTag "kw" es = true) (w : Value) :
    ofData (toData (.mapping es)) = .ok w ↔
      ∃ name, field? "name" es = some (.text name) ∧ w = keywordOf name := by
  have hField : ∀ key s, field? key (toDataEntries es) = some (.text s) ↔
      field? key es = some (.text s) := by
    intro key s
    have hRel : Option.Rel (fun v w => w = v.toData) (field? key es)
        (field? key (toDataEntries es)) := by
      refine field?_rel ?_ key
      rw [toDataEntries_eq_map, List.forall₂_map_right_iff, List.forall₂_same]
      exact fun e _ => ⟨rfl, rfl⟩
    generalize field? key es = v, field? key (toDataEntries es) = w at hRel
    cases hRel with
    | none => simp
    | @some v _ h =>
        rw [h, Option.some.injEq, Option.some.injEq]
        cases v <;> simp [toData]
  rw [hasTag_eq_true_iff, ← hField, ← hasTag_eq_true_iff] at hTag
  simp only [toData, ofData_mapping_of_tag hTag, hField]

/-- Display information that is left out, or that makes a mapping. -/
def Writable (i : Value) : Prop := i.isTruthy = true → ∃ es, i.asEntries = .ok es

end Value

namespace Term

open Value (entry field? Writable)

/-- Reading what was written gives an equal clause. -/
def Survives (t : Clause) : Prop :=
  ∃ d u, t.toDocument = .ok d ∧ ofDocument d = .ok u ∧ Value.sameTerm u t = true

/-- The document of a node has its entries, and possibly more after them. -/
private theorem nodeDocument_eq_ok {entries : Entries} {info : Option Value} {d : Value}
    (h : nodeDocument entries info = .ok d) :
    (∀ i, info = some i → Writable i) ∧
      ∃ rest, d = .mapping (entries ++ rest) := by
  cases info with
  | none =>
      refine ⟨by simp, [], ?_⟩
      rw [List.append_nil]
      exact (Except.ok.inj h).symm
  | some i =>
      rw [nodeDocument] at h
      by_cases hTruthy : i.isTruthy = true
      · rw [if_pos hTruthy] at h
        obtain ⟨es, hes, h⟩ := bind_eq_ok_iff.mp h
        refine ⟨fun j hj _ => ⟨es, ?_⟩, _, (Except.ok.inj h).symm⟩
        rw [← Option.some.inj hj, hes]
      · rw [if_neg hTruthy] at h
        refine ⟨fun j hj hj' => ?_, [], ?_⟩
        · exact absurd (Option.some.inj hj ▸ hj') hTruthy
        · rw [List.append_nil]
          exact (Except.ok.inj h).symm

private theorem exists_nodeDocument_eq_ok {info : Option Value}
    (h : ∀ i, info = some i → Writable i) (entries : Entries) :
    ∃ d, nodeDocument entries info = .ok d := by
  cases info with
  | none => exact ⟨_, rfl⟩
  | some i =>
      rw [nodeDocument]
      by_cases hTruthy : i.isTruthy = true
      · obtain ⟨es, hes⟩ := h i rfl hTruthy
        rw [if_pos hTruthy, hes]
        exact ⟨_, rfl⟩
      · rw [if_neg hTruthy]
        exact ⟨_, rfl⟩

section Node

variable {γ : Type} {t : Clause} {info : Option Value} {Q : γ → Prop}

/-- A node survives iff its content can be written and is read as an equal node,
whatever follows it in the document, and its display information can be written. -/
private theorem survives_iff_of_node (content : Except Fault γ) (entries : γ → Entries)
    (hWrite : t.toDocument = content >>= fun c => nodeDocument (entries c) info)
    (hRead : ∀ c rest, (∃ u, ofDocument (.mapping (entries c ++ rest)) = .ok u ∧
      Value.sameTerm u t = true) ↔ Q c) :
    t.Survives ↔ (∃ c, content = .ok c ∧ Q c) ∧ ∀ i, info = some i → Writable i := by
  constructor
  · rintro ⟨d, u, hd, hu, hSame⟩
    rw [hWrite] at hd
    obtain ⟨c, hc, hd⟩ := bind_eq_ok_iff.mp hd
    obtain ⟨hInfo, rest, rfl⟩ := nodeDocument_eq_ok hd
    exact ⟨⟨c, hc, (hRead c rest).mp ⟨u, hu, hSame⟩⟩, hInfo⟩
  · rintro ⟨⟨c, hc, hQ⟩, hInfo⟩
    obtain ⟨d, hd⟩ := exists_nodeDocument_eq_ok hInfo (entries c)
    obtain ⟨-, rest, rfl⟩ := nodeDocument_eq_ok hd
    obtain ⟨u, hu, hSame⟩ := (hRead c rest).mpr hQ
    exact ⟨_, u, hWrite.trans (bind_eq_ok_iff.mpr ⟨c, hc, hd⟩), hu, hSame⟩

/-- A leaf, whose content can always be written. -/
private theorem survives_iff_of_leaf {leaf : Entries} {R : Prop}
    (hWrite : t.toDocument = nodeDocument leaf info)
    (hRead : ∀ rest, (∃ u, ofDocument (.mapping (leaf ++ rest)) = .ok u ∧
      Value.sameTerm u t = true) ↔ R) :
    t.Survives ↔ R ∧ ∀ i, info = some i → Writable i := by
  have hNode := survives_iff_of_node (.ok ()) (fun _ => leaf) (Q := fun _ => R) hWrite
    fun _ => hRead
  rw [hNode]
  refine and_congr_left fun _ => ⟨?_, fun h => ⟨(), rfl, h⟩⟩
  rintro ⟨-, -, h⟩
  exact h

end Node

/-- Clauses that each survive are written and read back together. -/
private theorem forall_survives_iff (xs : List Clause) :
    (∃ ds, toDocuments xs = .ok ds ∧ ∃ us, ofDocuments ds = .ok us ∧
      Value.sameTerms us xs = true) ↔ ∀ x ∈ xs, x.Survives := by
  simp only [toDocuments_eq_mapM, ofDocuments_eq_mapM, mapM_eq_ok_iff]
  induction xs with
  | nil =>
      refine iff_of_true ⟨[], .nil, [], .nil, by rw [Value.sameTerms]; rfl⟩ ?_
      exact fun x hx => absurd hx List.not_mem_nil
  | cons x xs ih =>
      rw [List.forall_mem_cons, ← ih]
      constructor
      · rintro ⟨ds, hds, us, hus, hSame⟩
        cases hds with
        | cons hd hds =>
            cases hus with
            | cons hu hus =>
                rw [Value.sameTerms, Bool.and_eq_true] at hSame
                exact ⟨⟨_, _, hd, hu, hSame.1⟩, _, hds, _, hus, hSame.2⟩
      · rintro ⟨⟨d, u, hd, hu, hSame⟩, ds, hds, us, hus, hRest⟩
        refine ⟨d :: ds, .cons hd hds, u :: us, .cons hu hus, ?_⟩
        rw [Value.sameTerms, hSame, hRest]
        rfl

/-- A composite survives iff its items do and its display information can be
written. -/
private theorem composite_survives_iff {tag : String}
    {mk : List Clause → Option Value → Clause}
    (hWrite : ∀ xs i, toDocument (mk xs i) = toDocuments xs >>= fun ds =>
      nodeDocument [entry "type" (.text tag), entry "items" (.list ds)] i)
    (hRead : ∀ es, tagOf es = .text tag →
      ofDocument (.mapping es) = itemsOf es >>= fun ts => pure (mk ts (infoOf es)))
    (hSame : ∀ us xs i j,
      Value.sameTerm (mk us i) (mk xs j) = Value.sameTerms us xs)
    (xs : List Clause) (info : Option Value) :
    (mk xs info).Survives ↔
      (∀ x ∈ xs, x.Survives) ∧ ∀ i, info = some i → Writable i := by
  rw [← forall_survives_iff]
  refine survives_iff_of_node _ _ (hWrite xs info) fun ds rest => ?_
  have hItems : itemsOf ([entry "type" (.text tag), entry "items" (.list ds)] ++ rest) =
      ofDocuments ds := rfl
  rw [hRead _ rfl, hItems]
  constructor
  · rintro ⟨u, hu, hSameItems⟩
    obtain ⟨us, hus, hu⟩ := bind_eq_ok_iff.mp hu
    obtain rfl := Except.ok.inj hu
    exact ⟨us, hus, (hSame _ _ _ _) ▸ hSameItems⟩
  · rintro ⟨us, hus, hSameItems⟩
    exact ⟨_, bind_eq_ok_iff.mpr ⟨us, hus, rfl⟩, (hSame _ _ _ _).trans hSameItems⟩

/-- A clause survives a document iff its literals do and its display information
can be written. -/
theorem survives_iff_over {t : Clause} (h : t.Over (fun _ => True) fun _ => True) :
    t.Survives ↔ t.Over Writable Value.Survives := by
  induction h with
  | @sym s _ =>
      have hRead : ∀ rest, ∃ u, ofDocument (.mapping
          ([entry "type" (.text "sym"), entry "name" (.text s.name)] ++ rest)) = .ok u ∧
          Value.sameTerm u (.sym s) = true :=
        fun rest => ⟨.sym ⟨s.name, _⟩, rfl, by rw [Value.sameTerm, beq_self_eq_true]⟩
      rw [survives_iff_of_leaf (by rw [toDocument]) fun rest =>
        iff_of_true (hRead rest) trivial, over_sym_iff]
      exact and_iff_right trivial
  | seq _ _ ih =>
      rw [composite_survives_iff (fun _ _ => by rw [toDocument])
        (fun es hTag => by rw [ofDocument, hTag]; rfl)
        (fun _ _ _ _ => by rw [Value.sameTerm]), over_seq_iff]
      exact and_congr_left fun _ => forall₂_congr ih
  | vec _ _ ih =>
      rw [composite_survives_iff (fun _ _ => by rw [toDocument])
        (fun es hTag => by rw [ofDocument, hTag]; rfl)
        (fun _ _ _ _ => by rw [Value.sameTerm]), over_vec_iff]
      exact and_congr_left fun _ => forall₂_congr ih
  | @lit v info _ _ =>
      have hRead : ∀ rest, (∃ u, ofDocument (.mapping
          ([entry "type" (.text "lit"), entry "value" v.toData] ++ rest)) = .ok u ∧
          Value.sameTerm u (.lit v info) = true) ↔ v.Survives := by
        intro rest
        obtain ⟨i, hLit⟩ : ∃ i, ofDocument (.mapping
            ([entry "type" (.text "lit"), entry "value" v.toData] ++ rest)) =
            Value.ofData v.toData >>= fun w => pure (.lit w i) := ⟨_, rfl⟩
        rw [hLit]
        constructor
        · rintro ⟨u, hu, hSame⟩
          obtain ⟨w, hw, hu⟩ := bind_eq_ok_iff.mp hu
          obtain rfl := Except.ok.inj hu
          rw [Value.sameTerm] at hSame
          exact ⟨w, hw, hSame⟩
        · rintro ⟨w, hw, hSame⟩
          refine ⟨_, bind_eq_ok_iff.mpr ⟨w, hw, rfl⟩, ?_⟩
          rw [Value.sameTerm]
          exact hSame
      rw [survives_iff_of_leaf (by rw [toDocument]) hRead, over_lit_iff]

end Term

/-! ## Data with keywords -/

open Value (Comparable Coded Writable)

/-- Of data with keywords, and of clauses over such data, exactly those survive a
document in which no mapping looks like a keyword; display information takes no
part, as long as it can be written. -/
theorem survival_exact (v : Value) (t : Clause) (hv : v.Comparable)
    (ht : t.Over (fun _ => True) Comparable) :
    (v.Survives ↔ v.Coded) ∧ (v.Coded → Value.ofData v.toData = .ok v) ∧
      (t.Survives ↔ t.Over Writable Coded) := by
  refine ⟨Value.survives_iff_coded hv, Coded.ofData_toData, ?_⟩
  rw [Term.survives_iff_over (ht.imp (fun _ h => h) fun _ _ => trivial)]
  constructor
  · intro h
    exact (h.and ht).imp (fun _ h => h.1) fun _ h => (Value.survives_iff_coded h.2).mp h.1
  · intro h
    exact (h.and ht).imp (fun _ h => h.1) fun _ h => (Value.survives_iff_coded h.2).mpr h.1

/-- Attributes in a list, one of them inside a mapping. -/
def attributes : Value :=
  .list [.keyword ":a/b", .mapping [(.text "attr", .keyword ":a/c")]]

theorem attributes_coded : attributes.Coded := by
  have hFirst : (Value.keyword ":a/b").Coded := .ident ":a/b"
  have hSecond : (Value.keyword ":a/c").Coded := .ident ":a/c"
  refine .list (List.forall_mem_cons.mpr ⟨hFirst, List.forall_mem_singleton.mpr ?_⟩)
  refine .mapping ?_ rfl (List.forall_mem_singleton.mpr hSecond)
  exact Value.hasTextKeys_cons_iff.mpr ⟨List.not_mem_nil, Value.hasTextKeys_nil⟩

/-- Attributes inside a list survive, in a literal with display information. -/
theorem survival_exact_attributes :
    attributes.Comparable ∧
      (Term.lit attributes (some (.mapping []))).Over (fun _ => True) Comparable ∧
      attributes.Survives ∧ (Term.lit attributes (some (.mapping []))).Survives := by
  have hComparable := attributes_coded.comparable
  have hOver : (Term.lit attributes (some (.mapping []))).Over (fun _ => True) Comparable :=
    .lit hComparable fun _ _ => trivial
  have hInfo : ∀ i, some (Value.mapping []) = some i → i.Writable := by
    intro i hi _
    exact ⟨[], Option.some.inj hi ▸ rfl⟩
  obtain ⟨hValue, -, hTerm⟩ := survival_exact attributes _ hComparable hOver
  exact ⟨hComparable, hOver, hValue.mpr attributes_coded,
    hTerm.mpr (.lit attributes_coded hInfo)⟩

/-- A mapping of the caller's with the type of keywords. -/
def mimic : Value :=
  .mapping [(.text "type", .text "kw"), (.text "name", .text ":a")]

/-- A mapping that looks like a keyword comes back as the keyword. -/
theorem keyword_mimicked :
    mimic.Comparable ∧ Value.ofData mimic.toData = .ok (.keyword ":a") ∧
      ¬ mimic.Survives ∧ ¬ (Term.lit mimic none).Survives := by
  have hComparable : mimic.Comparable := by
    refine .mapping ?_ (List.forall_mem_cons.mpr
      ⟨.atom (.text "kw"), List.forall_mem_singleton.mpr (.atom (.text ":a"))⟩)
    simp [Value.hasTextKeys_cons_iff]
  have hRead : Value.ofData mimic.toData = .ok (.keyword ":a") :=
    (Value.ofData_toData_of_tag rfl _).mpr ⟨":a", rfl, rfl⟩
  have hLost : ¬ mimic.Survives := by
    rintro ⟨w, hw, hSame⟩
    obtain rfl := Except.ok.inj (hRead.symm.trans hw)
    simp [mimic, Value.Same, Value.same] at hSame
  refine ⟨hComparable, hRead, hLost, ?_⟩
  rw [Term.survives_iff_over (.lit trivial fun _ _ => trivial), Term.over_lit_iff]
  exact fun h => hLost h.1

end DatalogFragments
