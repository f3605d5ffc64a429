import DatalogFragments.Proofs.Value.Codec

/-!
# Clauses and forms in documents

A clause is written as a mapping with a type tag, its content and its display
information, and it is read by looking up these keys.  So nothing is lost as
long as the document reaches the reader with the same lists and with the same
fields in its mappings: as it is, or reordered by some notation in between.
Display information is written when there is any, so an empty mapping is left
out, and binding forms are written without it.

## Main definitions

* `Value.Faithful` — what may become of a document on its way;
* `Term.Over` — clauses that consist of terms only;
* `Term.Rereads` — what a clause is read back as.

## Main results

* `Term.returns_document`, `Form.returns_document` — writing and reading back;
* `Term.Rereads.toDocument_eq` — what was read back is written in the same way.
-/

namespace DatalogFragments

namespace Value

/-- Related values stand under the same text keys. -/
def FieldsRelated (E : Value → Value → Prop) (es fs : Entries) : Prop :=
  ∀ key, Option.Rel E (field? key es) (field? key fs)

/-- A relation between a document as written and as read that keeps constants,
lists and the fields of mappings with text keys. -/
structure Faithful (E : Value → Value → Prop) : Prop where
  atom : ∀ v y, v.IsAtom → E v y → y = v
  list : ∀ xs y, E (.list xs) y → ∃ ys, y = .list ys ∧ List.Forall₂ E xs ys
  mapping : ∀ es y, E (.mapping es) y → ∃ fs, y = .mapping fs
  fields : ∀ es fs, HasTextKeys es → E (.mapping es) (.mapping fs) →
    FieldsRelated E es fs

theorem faithful_eq : Faithful Eq where
  atom := fun _ _ _ h => h.symm
  list := fun xs _ h => ⟨xs, h.symm, List.forall₂_same.mpr fun _ _ => rfl⟩
  mapping := fun es _ h => ⟨es, h.symm⟩
  fields := by
    intro es fs _ h key
    obtain rfl : es = fs := Value.mapping.inj h
    cases field? key es with
    | none => exact .none
    | some v => exact .some rfl

theorem faithful_reordered : Faithful Reordered where
  atom := by
    intro v y hAtom h
    cases h with
    | refl => rfl
    | list h => cases hAtom
    | mapping hKeys hPerm h => cases hAtom
  list := by
    intro xs y h
    cases h with
    | refl => exact ⟨xs, rfl, List.forall₂_same.mpr fun x _ => .refl x⟩
    | list h => exact ⟨_, rfl, h⟩
  mapping := by
    intro es y h
    cases h with
    | refl => exact ⟨es, rfl⟩
    | mapping hKeys hPerm h => exact ⟨_, rfl⟩
  fields := by
    intro es fs hKeys h key
    cases h with
    | refl =>
        cases field? key es with
        | none => exact .none
        | some v => exact .some (.refl v)
    | mapping _ hPerm hEach => exact field?_rel_of_perm hKeys hPerm hEach key

section Fields

variable {E : Value → Value → Prop} {es fs : Entries} {key : String}

theorem FieldsRelated.field (h : FieldsRelated E es fs) {v : Value}
    (hv : field? key es = some v) : ∃ w, field? key fs = some w ∧ E v w := by
  have hRel := h key
  rw [hv] at hRel
  generalize field? key fs = w at hRel ⊢
  cases hRel with
  | some hvw => exact ⟨_, rfl, hvw⟩

theorem FieldsRelated.none (h : FieldsRelated E es fs)
    (hv : field? key es = none) : field? key fs = none := by
  have hRel := h key
  rw [hv] at hRel
  generalize field? key fs = w at hRel ⊢
  cases hRel
  rfl

variable (hE : Faithful E)

include hE

/-- A mapping of a document is read as a mapping with related fields. -/
theorem Faithful.exists_fields {y : Value} (hKeys : HasTextKeys es)
    (h : E (.mapping es) y) : ∃ fs, y = .mapping fs ∧ FieldsRelated E es fs := by
  obtain ⟨fs, rfl⟩ := hE.mapping es y h
  exact ⟨fs, rfl, hE.fields es fs hKeys h⟩

/-- Constants are found as they were written. -/
theorem Faithful.field_atom (h : FieldsRelated E es fs) {v : Value}
    (hv : field? key es = some v) (hAtom : v.IsAtom) : field? key fs = some v := by
  obtain ⟨w, hw, hvw⟩ := h.field hv
  rw [hw, hE.atom v w hAtom hvw]

/-- Lists are found with related items. -/
theorem Faithful.field_list (h : FieldsRelated E es fs) {xs : List Value}
    (hv : field? key es = some (.list xs)) :
    ∃ ys, field? key fs = some (.list ys) ∧ List.Forall₂ E xs ys := by
  obtain ⟨w, hw, hvw⟩ := h.field hv
  obtain ⟨ys, rfl, hys⟩ := hE.list xs w hvw
  exact ⟨ys, hw, hys⟩

end Fields

/-- A mapping, as display information is by its type. -/
def IsMapping (v : Value) : Prop := ∃ es, v = .mapping es

end Value

open Value (entry field?)

/-! ## Clauses -/

namespace Term

/-- A clause all of whose parts are terms, with display information in `I` and
literal values in `V`. -/
inductive Over (I V : Value → Prop) : Clause → Prop
  | sym {s : Name} (hInfo : ∀ i, s.info = some i → I i) : Over I V (.sym s)
  | seq {xs : List Clause} {info : Option Value} (h : ∀ x ∈ xs, Over I V x)
      (hInfo : ∀ i, info = some i → I i) : Over I V (.seq xs info)
  | vec {xs : List Clause} {info : Option Value} (h : ∀ x ∈ xs, Over I V x)
      (hInfo : ∀ i, info = some i → I i) : Over I V (.vec xs info)
  | lit {v : Value} {info : Option Value} (h : V v)
      (hInfo : ∀ i, info = some i → I i) : Over I V (.lit v info)

section Over

variable {I J V W : Value → Prop} {t : Clause} {xs : List Clause} {i : Option Value}

@[simp] theorem over_sym_iff {s : Name} :
    Over I V (.sym s) ↔ ∀ j, s.info = some j → I j := by
  refine ⟨fun h => ?_, .sym⟩
  cases h
  assumption

@[simp] theorem over_seq_iff :
    Over I V (.seq xs i) ↔ (∀ x ∈ xs, x.Over I V) ∧ ∀ j, i = some j → I j := by
  refine ⟨fun h => ?_, fun h => .seq h.1 h.2⟩
  cases h with
  | seq h hInfo => exact ⟨h, hInfo⟩

@[simp] theorem over_vec_iff :
    Over I V (.vec xs i) ↔ (∀ x ∈ xs, x.Over I V) ∧ ∀ j, i = some j → I j := by
  refine ⟨fun h => ?_, fun h => .vec h.1 h.2⟩
  cases h with
  | vec h hInfo => exact ⟨h, hInfo⟩

@[simp] theorem over_lit_iff {v : Value} :
    Over I V (.lit v i) ↔ V v ∧ ∀ j, i = some j → I j := by
  refine ⟨fun h => ?_, fun h => .lit h.1 h.2⟩
  cases h with
  | lit hv hInfo => exact ⟨hv, hInfo⟩

theorem Over.imp (hIJ : ∀ i, I i → J i) (hVW : ∀ v, V v → W v) (h : t.Over I V) :
    t.Over J W := by
  induction h with
  | sym hInfo => exact .sym fun i hi => hIJ i (hInfo i hi)
  | seq _ hInfo ih => exact .seq ih fun i hi => hIJ i (hInfo i hi)
  | vec _ hInfo ih => exact .vec ih fun i hi => hIJ i (hInfo i hi)
  | lit hv hInfo => exact .lit (hVW _ hv) fun i hi => hIJ i (hInfo i hi)

theorem Over.and (h : t.Over I V) (h' : t.Over J W) :
    t.Over (fun i => I i ∧ J i) fun v => V v ∧ W v := by
  induction h with
  | sym hInfo =>
      rw [over_sym_iff] at h'
      exact .sym fun i hi => ⟨hInfo i hi, h' i hi⟩
  | seq _ hInfo ih =>
      rw [over_seq_iff] at h'
      exact .seq (fun x hx => ih x hx (h'.1 x hx)) fun i hi => ⟨hInfo i hi, h'.2 i hi⟩
  | vec _ hInfo ih =>
      rw [over_vec_iff] at h'
      exact .vec (fun x hx => ih x hx (h'.1 x hx)) fun i hi => ⟨hInfo i hi, h'.2 i hi⟩
  | lit hv hInfo =>
      rw [over_lit_iff] at h'
      exact .lit ⟨hv, h'.1⟩ fun i hi => ⟨hInfo i hi, h'.2 i hi⟩

end Over

/-- Display information as it is read back: without an empty mapping. -/
inductive InfoRereads (E : Value → Value → Prop) :
    Option Value → Option Value → Prop
  | absent : InfoRereads E none none
  | dropped : InfoRereads E (some (.mapping [])) none
  | kept {es fs : Entries} (hes : es ≠ []) (h : E (.mapping es) (.mapping fs)) :
      InfoRereads E (some (.mapping es)) (some (.mapping fs))

/-- A clause as it is read back. -/
inductive Rereads (E R : Value → Value → Prop) : Clause → Clause → Prop
  | sym {s s' : Name} (hName : s'.name = s.name)
      (hInfo : InfoRereads E s.info s'.info) : Rereads E R (.sym s) (.sym s')
  | seq {xs ys : List Clause} {i j : Option Value}
      (h : List.Forall₂ (Rereads E R) xs ys) (hInfo : InfoRereads E i j) :
      Rereads E R (.seq xs i) (.seq ys j)
  | vec {xs ys : List Clause} {i j : Option Value}
      (h : List.Forall₂ (Rereads E R) xs ys) (hInfo : InfoRereads E i j) :
      Rereads E R (.vec xs i) (.vec ys j)
  | lit {v w : Value} {i j : Option Value} (h : R w v)
      (hInfo : InfoRereads E i j) : Rereads E R (.lit v i) (.lit w j)

theorem toDocuments_eq_mapM (ts : List Clause) :
    toDocuments ts = ts.mapM toDocument := by
  induction ts with
  | nil => rfl
  | cons t ts ih => rw [toDocuments, ih, List.mapM_cons]

theorem ofDocuments_eq_mapM (ds : List Value) :
    ofDocuments ds = ds.mapM ofDocument := by
  induction ds with
  | nil => rfl
  | cons d ds ih => rw [ofDocuments, ih, List.mapM_cons]

theorem itemsOf_eq (es : Entries) :
    itemsOf es = match field? "items" es with
      | none => .ok []
      | some v => ofElements v := by
  induction es with
  | nil => rfl
  | cons e es ih =>
      obtain ⟨k, v⟩ := e
      cases k with
      | text k =>
          rw [itemsOf, field?]
          split
          · rfl
          · exact ih
      | _ => exact ih

theorem itemsOf_eq_ok {es : Entries} {ys : List Value} {ts : List Clause}
    (hItems : field? "items" es = some (.list ys))
    (h : ys.mapM ofDocument = .ok ts) : itemsOf es = .ok ts := by
  rw [itemsOf_eq, hItems]
  dsimp only
  rw [ofElements, ofDocuments_eq_mapM, h]

/-- The entry with the display information of a node. -/
def infoEntries : Option Value → Entries
  | none => []
  | some i => if i.isTruthy then [entry "meta" i] else []

theorem nodeDocument_eq {info : Option Value}
    (h : ∀ i, info = some i → i.IsMapping) (entries : Entries) :
    nodeDocument entries info = .ok (.mapping (entries ++ infoEntries info)) := by
  cases info with
  | none => rw [nodeDocument, infoEntries, List.append_nil]
  | some i =>
      obtain ⟨es, rfl⟩ := h i rfl
      rw [nodeDocument, infoEntries]
      split
      · rfl
      · rw [List.append_nil]

/-- The entries of a node: its tag, its content, and its display information. -/
def nodeEntries (tag key : String) (v : Value) (info : Option Value) : Entries :=
  [entry "type" (.text tag), entry key v] ++ infoEntries info

section Node

variable {E : Value → Value → Prop} {tag key : String} {v : Value}
  {info : Option Value}

theorem hasTextKeys_node (hTag : key ≠ "type") (hMeta : key ≠ "meta") :
    Value.HasTextKeys (nodeEntries tag key v info) := by
  have hApart : (Value.text key ≠ .text "type") ∧ Value.text key ≠ .text "meta" := by
    simp [hTag, hMeta]
  have hInfo : infoEntries info = [] ∨ ∃ i, infoEntries info = [entry "meta" i] := by
    cases info with
    | none => exact .inl rfl
    | some i =>
        rw [infoEntries]
        split
        · exact .inr ⟨i, rfl⟩
        · exact .inl rfl
  rcases hInfo with hNone | ⟨i, hSome⟩
  · constructor <;> simp [nodeEntries, hNone, entry, hApart.1.symm]
  · constructor <;>
      simp [nodeEntries, hSome, entry, hApart.1.symm, hApart.2]

private theorem field?_meta_node (hMeta : key ≠ "meta") :
    field? "meta" (nodeEntries tag key v info) = field? "meta" (infoEntries info) := by
  simp [nodeEntries, entry, field?, hMeta]

private theorem infoRereads_of_fields (hE : Value.Faithful E)
    (hInfo : ∀ i, info = some i → i.IsMapping) (hMeta : key ≠ "meta") {fs : Entries}
    (hFields : Value.FieldsRelated E (nodeEntries tag key v info) fs) :
    InfoRereads E info (infoOf fs) := by
  have hNone : field? "meta" (infoEntries info) = none → infoOf fs = none := by
    intro h
    rw [infoOf, hFields.none ((field?_meta_node hMeta).trans h)]
  cases info with
  | none =>
      rw [hNone rfl]
      exact .absent
  | some i =>
      obtain ⟨es, rfl⟩ := hInfo i rfl
      cases es with
      | nil =>
          rw [hNone rfl]
          exact .dropped
      | cons e es =>
          obtain ⟨w, hw, hEw⟩ := hFields.field
            ((field?_meta_node hMeta).trans (show _ = some (.mapping (e :: es)) from rfl))
          obtain ⟨gs, rfl⟩ := hE.mapping _ w hEw
          rw [infoOf, hw]
          exact .kept (List.cons_ne_nil e es) hEw

/-- What is found in the document of a node. -/
theorem fields_of_node (hE : Value.Faithful E)
    (hInfo : ∀ i, info = some i → i.IsMapping) (hTag : key ≠ "type")
    (hMeta : key ≠ "meta") {y : Value}
    (h : E (.mapping (nodeEntries tag key v info)) y) :
    ∃ fs, y = .mapping fs ∧ tagOf fs = .text tag ∧
      InfoRereads E info (infoOf fs) ∧
      Value.FieldsRelated E (nodeEntries tag key v info) fs := by
  obtain ⟨fs, rfl, hFields⟩ := hE.exists_fields (hasTextKeys_node hTag hMeta) h
  have hType : field? "type" fs = some (.text tag) :=
    hE.field_atom hFields rfl (.text tag)
  refine ⟨fs, rfl, ?_, infoRereads_of_fields hE hInfo hMeta hFields, hFields⟩
  rw [tagOf, hType, Option.getD_some]

theorem field?_content (hTag : key ≠ "type") :
    field? key (nodeEntries tag key v info) = some v := by
  simp [nodeEntries, entry, field?, hTag.symm]

end Node

section Returns

variable {E R : Value → Value → Prop}

/-- A composite is written and read back if its items are. -/
private theorem returns_composite (hE : Value.Faithful E) {tag : String}
    {mk : List Clause → Option Value → Clause}
    (hWrite : ∀ xs i, toDocument (mk xs i) = toDocuments xs >>= fun ds =>
      nodeDocument [entry "type" (.text tag), entry "items" (.list ds)] i)
    (hRead : ∀ es ts, tagOf es = .text tag → itemsOf es = .ok ts →
      ofDocument (.mapping es) = .ok (mk ts (infoOf es)))
    (hMk : ∀ {xs ys i j}, List.Forall₂ (Rereads E R) xs ys → InfoRereads E i j →
      Rereads E R (mk xs i) (mk ys j))
    {xs : List Clause} {info : Option Value}
    (ih : ∀ x ∈ xs, Returns toDocument E ofDocument (Rereads E R) x)
    (hInfo : ∀ i, info = some i → i.IsMapping) :
    Returns toDocument E ofDocument (Rereads E R) (mk xs info) := by
  obtain ⟨ds, hds, hBack⟩ := Returns.mapM ih
  refine ⟨.mapping (nodeEntries tag "items" (.list ds) info), ?_, ?_⟩
  · rw [hWrite, toDocuments_eq_mapM, hds, ok_bind, nodeDocument_eq hInfo]
    rfl
  · intro y hy
    obtain ⟨fs, rfl, hTag, hReads, hFields⟩ :=
      fields_of_node hE hInfo (by decide) (by decide) hy
    obtain ⟨ys, hys, hItems⟩ := hE.field_list hFields (field?_content (by decide))
    obtain ⟨ts, hts, hRereads⟩ := hBack ys hItems
    exact ⟨mk ts (infoOf fs), hRead fs ts hTag (itemsOf_eq_ok hys hts),
      hMk hRereads hReads⟩

/-- A clause is written, and what is read from its document is the clause up to
what its values are read as. -/
theorem returns_document (hE : Value.Faithful E) {t : Clause}
    (ht : t.Over Value.IsMapping (Value.Recovers E R)) :
    Returns toDocument E ofDocument (Rereads E R) t := by
  induction ht with
  | @sym s hInfo =>
      refine ⟨.mapping (nodeEntries "sym" "name" (.text s.name) s.info), ?_, ?_⟩
      · rw [toDocument, nodeDocument_eq hInfo]
        rfl
      · intro y hy
        obtain ⟨fs, rfl, hTag, hReads, hFields⟩ :=
          fields_of_node hE hInfo (by decide) (by decide) hy
        have hName : field? "name" fs = some (.text s.name) :=
          hE.field_atom hFields rfl (.text s.name)
        refine ⟨.sym ⟨s.name, infoOf fs⟩, ?_, .sym rfl hReads⟩
        rw [ofDocument, hTag, symbolOf, hName]
        rfl
  | seq _ hInfo ih =>
      refine returns_composite hE (fun _ _ => by rw [toDocument]) (fun es ts hTag h => ?_)
        .seq ih hInfo
      rw [ofDocument, hTag, h]
      rfl
  | vec _ hInfo ih =>
      refine returns_composite hE (fun _ _ => by rw [toDocument]) (fun es ts hTag h => ?_)
        .vec ih hInfo
      rw [ofDocument, hTag, h]
      rfl
  | @lit v info hv hInfo =>
      refine ⟨.mapping (nodeEntries "lit" "value" v.toData info), ?_, ?_⟩
      · rw [toDocument, nodeDocument_eq hInfo]
        rfl
      · intro y hy
        obtain ⟨fs, rfl, hTag, hReads, hFields⟩ :=
          fields_of_node hE hInfo (by decide) (by decide) hy
        obtain ⟨x, hx, hEx⟩ := hFields.field (field?_content (by decide))
        obtain ⟨w, hw, hwv⟩ := hv x hEx
        refine ⟨.lit w (infoOf fs), ?_, .lit hwv hReads⟩
        rw [ofDocument, hTag, literalOf, hx, Option.getD_some, hw]
        rfl

end Returns

/-! ## What is read back -/

/-- What is read back is the clause, except for display information and up to
what its values are read as. -/
theorem Rereads.alike {E R S : Value → Value → Prop}
    (hS : ∀ w v, R w v → S w v) {t u : Clause} (h : Rereads E R t u) :
    u.Alike S t := by
  induction t using Term.induct generalizing u with
  | hSym s =>
      cases h with
      | sym hName hInfo => exact .sym hName
  | hSeq xs i ih =>
      cases h with
      | seq h hInfo => exact .seq (forall₂_imp_of_mem h fun x hx y _ => ih x hx).flip
  | hVec xs i ih =>
      cases h with
      | vec h hInfo => exact .vec (forall₂_imp_of_mem h fun x hx y _ => ih x hx).flip
  | hLit v i =>
      cases h with
      | lit h hInfo => exact .lit (hS _ _ h)
  | hStray v => cases h

private theorem InfoRereads.nodeDocument_eq {i j : Option Value}
    (h : InfoRereads Eq i j) (entries : Entries) :
    nodeDocument entries j = nodeDocument entries i := by
  cases h with
  | absent => rfl
  | dropped => rfl
  | kept hes h => rw [← h]

/-- What was read back from a document is written in the same way. -/
theorem Rereads.toDocument_eq {R : Value → Value → Prop}
    (hR : ∀ w v, R w v → w.toData = v.toData) {t u : Clause}
    (h : Rereads Eq R t u) : u.toDocument = t.toDocument := by
  have hItems : ∀ {xs ys : List Clause}, List.Forall₂ (Rereads Eq R) xs ys →
      (∀ x ∈ xs, ∀ {y : Clause}, Rereads Eq R x y → y.toDocument = x.toDocument) →
      toDocuments ys = toDocuments xs := by
    intro xs ys hxy hEach
    rw [toDocuments_eq_mapM, toDocuments_eq_mapM]
    exact mapM_congr_of_forall₂ hxy fun x hx y => hEach x hx
  induction t using Term.induct generalizing u with
  | hSym s =>
      cases h with
      | sym hName hInfo => rw [toDocument, toDocument, hName, hInfo.nodeDocument_eq]
  | hSeq xs i ih =>
      cases h with
      | seq h hInfo =>
          rw [toDocument, toDocument, hItems h ih]
          exact congrArg _ (funext fun ds => hInfo.nodeDocument_eq _)
  | hVec xs i ih =>
      cases h with
      | vec h hInfo =>
          rw [toDocument, toDocument, hItems h ih]
          exact congrArg _ (funext fun ds => hInfo.nodeDocument_eq _)
  | hLit v i =>
      cases h with
      | lit h hInfo => rw [toDocument, toDocument, hR _ _ h, hInfo.nodeDocument_eq]
  | hStray v => cases h

end Term

/-! ## Binding forms -/

namespace Form

theorem toDocuments_eq_mapM (fs : List Form) :
    toDocuments fs = fs.mapM toDocument := by
  induction fs with
  | nil => rfl
  | cons f fs ih => rw [toDocuments, ih, List.mapM_cons]

theorem ofDocuments_eq_mapM (ds : List Value) :
    ofDocuments ds = ds.mapM ofDocument := by
  induction ds with
  | nil => rfl
  | cons d ds ih => rw [ofDocuments, ih, List.mapM_cons]

theorem innerOf_eq (es : Entries) :
    innerOf es = match field? "inner" es with
      | none => .error (.entryMissing "inner")
      | some v => ofDocument v := by
  induction es with
  | nil => rfl
  | cons e es ih =>
      obtain ⟨k, v⟩ := e
      cases k with
      | text k =>
          rw [innerOf, field?]
          split
          · rfl
          · exact ih
      | _ => exact ih

theorem itemsOf_eq (es : Entries) :
    itemsOf es = match field? "items" es with
      | none => .ok []
      | some v => ofElements v := by
  induction es with
  | nil => rfl
  | cons e es ih =>
      obtain ⟨k, v⟩ := e
      cases k with
      | text k =>
          rw [itemsOf, field?]
          split
          · rfl
          · exact ih
      | _ => exact ih

/-- What is found in the document of a form. -/
private theorem fields_of_form {E : Value → Value → Prop} (hE : Value.Faithful E)
    {tag key : String} {v y : Value} (hTag : key ≠ "type") (hMeta : key ≠ "meta")
    (h : E (.mapping (Term.nodeEntries tag key v none)) y) :
    ∃ fs, y = .mapping fs ∧ Term.tagOf fs = .text tag ∧
      Value.FieldsRelated E (Term.nodeEntries tag key v none) fs := by
  have hNone : ∀ i, (none : Option Value) = some i → i.IsMapping := by simp
  obtain ⟨fs, hy, hType, -, hFields⟩ := Term.fields_of_node hE hNone hTag hMeta h
  exact ⟨fs, hy, hType, hFields⟩

/-- A form is written, and what is read from its document is the form without
display information. -/
theorem returns_document {E : Value → Value → Prop} (hE : Value.Faithful E)
    {f : Form} (hf : f.isProper = true) :
    Returns toDocument E ofDocument Alike f := by
  induction f using Form.induct with
  | hSym s =>
      refine ⟨.mapping (Term.nodeEntries "sym" "name" (.text s.name) none), rfl, ?_⟩
      intro y hy
      obtain ⟨fs, rfl, hTag, hFields⟩ :=
        fields_of_form hE (by decide) (by decide) hy
      have hName : field? "name" fs = some (.text s.name) :=
        hE.field_atom hFields rfl (.text s.name)
      refine ⟨.sym (Symbol.plain s.name), ?_, .sym rfl⟩
      rw [ofDocument, hTag, symbolOf, hName]
      rfl
  | hColl f ih =>
      obtain ⟨d, hd, hBack⟩ := ih hf
      refine ⟨.mapping (Term.nodeEntries "coll" "inner" d none), ?_, ?_⟩
      · rw [toDocument, hd]
        rfl
      · intro y hy
        obtain ⟨fs, rfl, hTag, hFields⟩ :=
          fields_of_form hE (by decide) (by decide) hy
        obtain ⟨x, hx, hEx⟩ := hFields.field (Term.field?_content (by decide))
        obtain ⟨g, hg, hAlike⟩ := hBack x hEx
        refine ⟨.coll g, ?_, .coll hAlike⟩
        have hInner : innerOf fs = .ok g := by rw [innerOf_eq, hx]; exact hg
        rw [ofDocument, hTag, hInner]
        rfl
  | hTup fs ih =>
      rw [isProper, areProper_eq_true_iff] at hf
      obtain ⟨ds, hds, hBack⟩ := Returns.mapM fun f hMem => ih f hMem (hf f hMem)
      refine ⟨.mapping (Term.nodeEntries "tuple" "items" (.list ds) none), ?_, ?_⟩
      · rw [toDocument, toDocuments_eq_mapM, hds]
        rfl
      · intro y hy
        obtain ⟨es, rfl, hTag, hFields⟩ :=
          fields_of_form hE (by decide) (by decide) hy
        obtain ⟨ys, hys, hItems⟩ :=
          hE.field_list hFields (Term.field?_content (by decide))
        obtain ⟨gs, hgs, hAlike⟩ := hBack ys hItems
        refine ⟨.tup gs, ?_, .tup hAlike⟩
        have hRead : itemsOf es = .ok gs := by
          rw [itemsOf_eq, hys]
          dsimp only
          rw [ofElements, ofDocuments_eq_mapM, hgs]
        rw [ofDocument, hTag, hRead]
        rfl
  | hStray v => cases hf

/-- Like forms are written in the same way. -/
theorem Alike.toDocument_eq {f g : Form} (h : f.Alike g) :
    g.toDocument = f.toDocument := by
  induction f using Form.induct generalizing g with
  | hSym s =>
      cases h with
      | sym h => rw [toDocument, toDocument, h]
  | hColl f ih =>
      cases h with
      | coll h => rw [toDocument, toDocument, ih h]
  | hTup fs ih =>
      cases h with
      | tup h =>
          rw [toDocument, toDocument, toDocuments_eq_mapM, toDocuments_eq_mapM,
            mapM_congr_of_forall₂ h ih]
  | hStray v => cases h

end Form

end DatalogFragments
