import DatalogFragments.Proofs.Document.Resemblance
import DatalogFragments.Proofs.Fragment.Produced

/-!
# Fragments in documents

The document of a fragment holds its description, and reading the document means
making the fragment that is described.  The fragment that was read back passes
every check of the written one, and nothing is inferred for it in addition.  So
making it goes through and leaves it as it is described.

## Main results

* `Fragment.returns_description` — the description that is read;
* `Fragment.returns_document` — the fragment that is made from it;
* `Fragment.Rereads.toDocument_eq` — its own document.
-/

namespace DatalogFragments

open Value (entry field?)

/-! ## Descriptions -/

namespace Config

theorem elementsAt_eq_ok {key : String} {es : Entries} {xs : List Value}
    (h : field? key es = some (.list xs)) : elementsAt key es = .ok xs := by
  rw [elementsAt, h]
  rfl

/-- The description that is read from the entries of a document. -/
theorem ofDocument_eq_ok {es : Entries} {ds ps rs ms bs : List Value}
    {ts : List Clause} {lets : List (Value × Value)}
    (hWhere : elementsAt "where" es = .ok ds) (hTerms : ds.mapM Term.ofDocument = .ok ts)
    (hProvide : elementsAt "provide" es = .ok ps)
    (hRequire : elementsAt "require" es = .ok rs)
    (hMustLet : elementsAt "must_let" es = .ok ms)
    (hLet : elementsAt "let" es = .ok bs) (hLets : bs.mapM letOfDocument = .ok lets) :
    ofDocument (.mapping es) = .ok
      { clauses := ts.map Term.toValue
        name := (field? "name" es).getD .null
        provide := ps.map fun n => Value.symbolNamed n none
        require := rs.map fun n => Value.symbolNamed n none
        mustLet := ms.map fun n => Value.symbolNamed n none
        selectivity := (field? "selectivity" es).getD (.int 0)
        lets
        locked := (field? "locked" es).getD (.bool false)
        extra := (field? "extra" es).getD (.mapping []) } := by
  simp only [ofDocument, Value.asMapping, hWhere, hTerms, hProvide, hRequire, hMustLet,
    hLet, hLets, ok_bind, pure_bind]
  rfl

end Config

namespace Fragment

variable {E R : Value → Value → Prop}

/-! ## Bindings and names -/

/-- The document of a binding. -/
def letDocument (p : Form × Value) : Except Fault Value := do
  let d ← p.1.toDocument
  return .mapping [entry "form" d, entry "value" p.2.toData]

theorem letDocuments_eq_mapM (lets : List (Form × Value)) :
    letDocuments lets = lets.mapM letDocument := by
  induction lets with
  | nil => rfl
  | cons p lets ih =>
      obtain ⟨form, value⟩ := p
      rw [letDocuments, ih, List.mapM_cons, letDocument, bind_assoc]
      rfl

/-- A binding as it is read back. -/
def LetRereads (R : Value → Value → Prop) (p q : Form × Value) : Prop :=
  p.1.Alike q.1 ∧ R q.2 p.2

/-- A binding is written, and what is read from its document is the binding up to
what its argument is read as. -/
theorem returns_letDocument (hE : Value.Faithful E) {p : Form × Value}
    (hForm : p.1.isProper = true) (hValue : p.2.Recovers E R) :
    Returns letDocument E Config.letOfDocument
      (fun p d => ∃ q, d = (q.1.toValue, q.2) ∧ LetRereads R p q) p := by
  obtain ⟨d, hd, hBack⟩ := Form.returns_document hE hForm
  refine ⟨.mapping [entry "form" d, entry "value" p.2.toData], ?_, ?_⟩
  · rw [letDocument, hd]
    rfl
  · intro y hy
    have hKeys : Value.HasTextKeys [entry "form" d, entry "value" p.2.toData] := by
      constructor <;> simp [entry]
    obtain ⟨fs, rfl, hFields⟩ := hE.exists_fields hKeys hy
    obtain ⟨x, hx, hEx⟩ := hFields.field (show field? "form" _ = some d from rfl)
    obtain ⟨form, hRead, hAlike⟩ := hBack x hEx
    obtain ⟨z, hz, hEz⟩ :=
      hFields.field (show field? "value" _ = some p.2.toData from rfl)
    obtain ⟨value, hValueRead, hR⟩ := hValue z hEz
    refine ⟨(form.toValue, value), ?_, (form, value), rfl, hAlike, hR⟩
    rw [Config.letOfDocument, hx]
    dsimp only
    rw [hRead, ok_bind, hz, Option.getD_some, hValueRead]
    rfl

/-- The names of symbols are found under their key, and are read as symbols of these
names. -/
private theorem exists_names (hE : Value.Faithful E) {es fs : Entries}
    (hFields : Value.FieldsRelated E es fs) {key : String} {names : List Name}
    (h : field? key es = some (nameList names)) :
    ∃ ys, Config.elementsAt key fs = .ok ys ∧
      (ys.map fun n => Value.symbolNamed n none) =
        (names.map fun s => Symbol.plain s.name).map .ofName := by
  obtain ⟨ys, hys, hEach⟩ := hE.field_list hFields h
  refine ⟨ys, Config.elementsAt_eq_ok hys, ?_⟩
  rw [List.forall₂_map_left_iff] at hEach
  rw [List.map_map]
  refine (map_eq_of_forall₂ hEach fun s _ y hy => ?_).symm
  rw [hE.atom _ _ (.text s.name) hy]
  rfl

/-! ## The document of a fragment -/

/-- The entries of the document of a fragment with the given parts. -/
def documentEntries (f : Fragment) (clauses lets : List Value) : Entries :=
  [ entry "name" f.name,
    entry "where" (.list clauses),
    entry "provide" (nameList f.provide),
    entry "require" (nameList f.require),
    entry "must_let" (nameList f.mustLet),
    entry "selectivity" (.int f.selectivity),
    entry "let" (.list lets),
    entry "locked" f.locked,
    entry "extra" (.mapping f.extra)]

theorem hasTextKeys_documentEntries (f : Fragment) (clauses lets : List Value) :
    Value.HasTextKeys (f.documentEntries clauses lets) := by
  constructor <;> simp [documentEntries, entry]

/-- What a document has to keep of a fragment. -/
structure Recoverable (E R : Value → Value → Prop) (f : Fragment) : Prop where
  clauses : ∀ t ∈ f.clauses, t.Over Value.IsMapping (Value.Recovers E R)
  forms : ∀ p ∈ f.lets, p.1.isProper = true
  arguments : ∀ p ∈ f.lets, p.2.Recovers E R
  locked : ∃ b, f.locked = .bool b

private theorem map_name_plain (names : List Name) :
    (names.map fun s => (Symbol.plain s.name : Name)).map Symbol.name =
      names.map Symbol.name := by
  rw [List.map_map]
  rfl

/-- A fragment is written, and what is read from its document is the description
of a fragment that is the written one up to what its values are read as. -/
theorem returns_description (hE : Value.Faithful E) {f : Fragment}
    (hf : f.Recoverable E R) :
    Returns toDocument E Config.ofDocument
      (fun f c => ∃ g : Fragment, c = g.describe ∧ f.Rereads E R g) f := by
  obtain ⟨ds, hds, hClauses⟩ := Returns.mapM fun t ht =>
    Term.returns_document hE (hf.clauses t ht)
  obtain ⟨bs, hbs, hLets⟩ := Returns.mapM fun p hp =>
    returns_letDocument hE (hf.forms p hp) (hf.arguments p hp)
  obtain ⟨b, hb⟩ := hf.locked
  refine ⟨.mapping (f.documentEntries ds bs), ?_, ?_⟩
  · rw [toDocument, Term.toDocuments_eq_mapM, hds, letDocuments_eq_mapM, hbs]
    rfl
  intro y hy
  obtain ⟨es, rfl, hFields⟩ :=
    hE.exists_fields (f.hasTextKeys_documentEntries ds bs) hy
  obtain ⟨name, hName, hEName⟩ :=
    hFields.field (show field? "name" _ = some f.name from rfl)
  obtain ⟨xs, hxs, hItems⟩ :=
    hE.field_list hFields (show field? "where" _ = some (.list ds) from rfl)
  obtain ⟨ts, hts, hTerms⟩ := hClauses xs hItems
  obtain ⟨ps, hps, hProvide⟩ :=
    exists_names hE hFields (show field? "provide" _ = some (nameList f.provide) from rfl)
  obtain ⟨rs, hrs, hRequire⟩ :=
    exists_names hE hFields (show field? "require" _ = some (nameList f.require) from rfl)
  obtain ⟨ms, hms, hMustLet⟩ :=
    exists_names hE hFields (show field? "must_let" _ = some (nameList f.mustLet) from rfl)
  obtain ⟨ls, hls, hBindings⟩ :=
    hE.field_list hFields (show field? "let" _ = some (.list bs) from rfl)
  obtain ⟨pairs, hPairs, hRereads⟩ := hLets ls hBindings
  obtain ⟨lets, rfl, hLetRereads⟩ := exists_map_eq_of_forall₂ hRereads
  have hSelectivity := hE.field_atom hFields
    (show field? "selectivity" _ = some (.int f.selectivity) from rfl) (.int _)
  have hLocked := hE.field_atom hFields
    (show field? "locked" _ = some f.locked from rfl) (hb ▸ .bool b)
  obtain ⟨x, hx, hEx⟩ :=
    hFields.field (show field? "extra" _ = some (.mapping f.extra) from rfl)
  obtain ⟨extra, rfl⟩ := hE.mapping f.extra x hEx
  refine ⟨_, Config.ofDocument_eq_ok (Config.elementsAt_eq_ok hxs) hts hps hrs hms
      (Config.elementsAt_eq_ok hls) hPairs,
    { f with
      name, clauses := ts, lets, extra
      provide := f.provide.map fun s => Symbol.plain s.name
      require := f.require.map fun s => Symbol.plain s.name
      mustLet := f.mustLet.map fun s => Symbol.plain s.name }, ?_, ?_⟩
  · rw [hName, hSelectivity, hLocked, hx, hProvide, hRequire, hMustLet]
    rfl
  · exact
      { name := hEName
        clauses := hTerms
        provide := map_name_plain f.provide
        require := map_name_plain f.require
        lets := hLetRereads
        mustLet := map_name_plain f.mustLet
        selectivity := rfl
        locked := rfl
        extra := hEx }

/-- A fragment that construction accepts and that declares what it implies is
written, and what is made from its document is the fragment up to what its values
are read as. -/
theorem returns_document (hE : Value.Faithful E)
    (hR : ∀ w v, R w v → w.FitsLike v) {f : Fragment} (hRecoverable : f.Recoverable E R)
    (hf : f.WellFormed) (hImplied : f.DeclaresImplied) :
    Returns toDocument E ofDocument (Rereads E R) f := by
  obtain ⟨d, hd, hBack⟩ := returns_description hE hRecoverable
  refine ⟨d, hd, fun y hy => ?_⟩
  obtain ⟨_, hRead, g, rfl, hg⟩ := hBack y hy
  have hLocked : ∃ b, g.locked = .bool b := by
    rw [hg.locked]
    exact hRecoverable.locked
  refine ⟨g, ?_, hg⟩
  rw [ofDocument, hRead, ok_bind]
  exact ofConfig_describe_self hg.ne_stray (hg.wellFormed hf hR)
    (hg.declaresImplied hImplied) hLocked

/-! ## What is read back -/

private theorem nameList_eq {names names' : List Name}
    (h : names'.map Symbol.name = names.map Symbol.name) :
    nameList names' = nameList names := by
  have hTexts : ∀ l : List Name,
      nameList l = .list ((l.map Symbol.name).map Value.text) := by
    intro l
    rw [nameList, List.map_map]
    rfl
  rw [hTexts, hTexts, h]

/-- What was read back from a document is written in the same way. -/
theorem Rereads.toDocument_eq (hR : ∀ w v, R w v → w.toData = v.toData)
    {f g : Fragment} (h : f.Rereads Eq R g) : g.toDocument = f.toDocument := by
  have hClauses : g.clauses.mapM Term.toDocument = f.clauses.mapM Term.toDocument :=
    mapM_congr_of_forall₂ h.clauses fun t _ u htu => htu.toDocument_eq hR
  have hLets : g.lets.mapM letDocument = f.lets.mapM letDocument := by
    refine mapM_congr_of_forall₂ h.lets fun p _ q hpq => ?_
    rw [letDocument, letDocument, hpq.1.toDocument_eq, hR _ _ hpq.2]
  have hExtra : f.extra = g.extra := Value.mapping.inj h.extra
  rw [toDocument, toDocument, Term.toDocuments_eq_mapM, Term.toDocuments_eq_mapM,
    letDocuments_eq_mapM, letDocuments_eq_mapM, hClauses, hLets, ← h.name,
    nameList_eq h.provide, nameList_eq h.require, nameList_eq h.mustLet,
    h.selectivity, h.locked, hExtra]

end Fragment

end DatalogFragments
