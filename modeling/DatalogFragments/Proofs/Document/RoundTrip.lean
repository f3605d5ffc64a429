import DatalogFragments.Json
import DatalogFragments.Proofs.Disjunction.Composite
import DatalogFragments.Proofs.Document.Fragments
import DatalogFragments.Proofs.Json.RoundTrip

/-!
# Saving and loading fragments

Whatever way a fragment was produced, loading its document produces it again,
provided that its clauses consist of terms and that its values survive a
document.  A document of plain data takes the same way through JSON text, which
brings its entries into another order.

## Main definitions

* `Fragment.Storable` — what a document can hold;
* `Fragment.IsPlain` — fragments whose documents are plain data;
* `Fragment.Repeats` — a fragment and its copy.

## Main results

* `Fragment.plain_of_toDocument` — the documents of such fragments;
* `Fragment.Produced.ofDocument_toDocument` — through a document;
* `Fragment.Produced.ofJson_toJson` — through JSON text;
* `Fragment.Produced.round_trip` — saving and loading;
* `Fragment.Produced.toDocument_unwritable` — a composite that holds something else.
-/

namespace DatalogFragments

open Value (entry)

/-! ## Documents of plain data -/

namespace Term

/-- A node with plain content has plain data for its document. -/
private theorem plain_of_nodeDocument {tag key : String} {v d : Value}
    {info : Option Value} (hTag : key ≠ "type") (hMeta : key ≠ "meta") (hv : v.Plain)
    (hInfo : ∀ i, info = some i → i.IsMapping ∧ i.Plain)
    (h : nodeDocument [entry "type" (.text tag), entry key v] info = .ok d) :
    d.Plain := by
  rw [nodeDocument_eq fun i hi => (hInfo i hi).1] at h
  obtain rfl := Except.ok.inj h
  have hInfoEntries : ∀ e ∈ infoEntries info, e.2.Plain := by
    cases info with
    | none => exact fun e he => absurd he List.not_mem_nil
    | some i =>
        rw [infoEntries]
        split
        · exact List.forall_mem_singleton.mpr (hInfo i rfl).2
        · exact fun e he => absurd he List.not_mem_nil
  refine .mapping (hasTextKeys_node hTag hMeta) ?_
  rw [List.forall_mem_append]
  exact ⟨List.forall_mem_cons.mpr
    ⟨Value.plain_text tag, List.forall_mem_singleton.mpr hv⟩, hInfoEntries⟩

theorem plain_of_toDocuments {ts : List Clause} {ds : List Value}
    (hEach : ∀ t ∈ ts, ∀ {d : Value}, t.toDocument = .ok d → d.Plain)
    (h : toDocuments ts = .ok ds) : (Value.list ds).Plain := by
  rw [toDocuments_eq_mapM, mapM_eq_ok_iff] at h
  refine .list fun d hd => ?_
  obtain ⟨t, ht, htd⟩ := exists_of_forall₂_right h hd
  exact hEach t ht htd

/-- A clause of plain data has plain data for its document. -/
theorem plain_of_toDocument {t : Clause} {d : Value}
    (ht : t.Over (fun i => i.IsMapping ∧ i.Plain) fun v => v.toData.Plain)
    (h : t.toDocument = .ok d) : d.Plain := by
  induction ht generalizing d with
  | sym hInfo =>
      exact plain_of_nodeDocument (by decide) (by decide) (Value.plain_text _) hInfo h
  | seq _ hInfo ih =>
      obtain ⟨ds, hds, h⟩ := bind_eq_ok_iff.mp h
      exact plain_of_nodeDocument (by decide) (by decide) (plain_of_toDocuments ih hds)
        hInfo h
  | vec _ hInfo ih =>
      obtain ⟨ds, hds, h⟩ := bind_eq_ok_iff.mp h
      exact plain_of_nodeDocument (by decide) (by decide) (plain_of_toDocuments ih hds)
        hInfo h
  | lit hv hInfo => exact plain_of_nodeDocument (by decide) (by decide) hv hInfo h

end Term

/-- The documents of forms are plain data. -/
theorem Form.plain_of_toDocument {f : Form} {d : Value} (hf : f.isProper = true)
    (h : f.toDocument = .ok d) : d.Plain := by
  induction f using Form.induct generalizing d with
  | hSym s =>
      obtain rfl := Except.ok.inj h
      simp [entry]
  | hColl f ih =>
      obtain ⟨inner, hInner, h⟩ := bind_eq_ok_iff.mp h
      obtain rfl := Except.ok.inj h
      simp [entry, ih hf hInner]
  | hTup fs ih =>
      rw [isProper, areProper_eq_true_iff] at hf
      obtain ⟨ds, hds, h⟩ := bind_eq_ok_iff.mp h
      obtain rfl := Except.ok.inj h
      rw [toDocuments_eq_mapM, mapM_eq_ok_iff] at hds
      have hItems : ∀ d ∈ ds, d.Plain := by
        intro d hd
        obtain ⟨g, hg, hgd⟩ := exists_of_forall₂_right hds hd
        exact ih g hg (hf g hg) hgd
      simpa [entry] using hItems
  | hStray v => cases hf

namespace Fragment

/-! ## What can be saved -/

/-- What a document can hold: clauses that consist of terms, with mappings for
display information, and values that survive. -/
structure Storable (f : Fragment) : Prop where
  clauses : ∀ t ∈ f.clauses, t.Over Value.IsMapping Value.Restores
  arguments : ∀ p ∈ f.lets, p.2.Restores

/-- Name, display information, bookkeeping entries and written-out values are plain
data. -/
structure IsPlain (f : Fragment) : Prop where
  name : f.IsNamed
  clauses : ∀ t ∈ f.clauses, t.Over Value.Plain fun v => v.toData.Plain
  arguments : ∀ p ∈ f.lets, p.2.toData.Plain
  extra : (Value.mapping f.extra).Plain

private theorem IsNamed.plain {f : Fragment} (h : f.IsNamed) : f.name.Plain := by
  rcases h with hName | ⟨s, hName⟩ <;> simp [hName]

private theorem plain_nameList (names : List Name) : (nameList names).Plain := by
  refine .list ?_
  rw [List.forall_mem_map]
  exact fun s _ => Value.plain_text s.name

private theorem plain_of_letDocument {p : Form × Value} {d : Value}
    (hForm : p.1.isProper = true) (hValue : p.2.toData.Plain)
    (h : letDocument p = .ok d) : d.Plain := by
  obtain ⟨form, hRead, h⟩ := bind_eq_ok_iff.mp h
  obtain rfl := Except.ok.inj h
  simp [entry, Form.plain_of_toDocument hForm hRead, hValue]

/-- The document of a plain fragment is plain data. -/
theorem plain_of_toDocument {f : Fragment} {d : Value} (hf : f.IsPlain)
    (hStorable : f.Storable) (hForms : ∀ p ∈ f.lets, p.1.isProper = true)
    (hLocked : ∃ b, f.locked = .bool b) (h : f.toDocument = .ok d) : d.Plain := by
  rw [toDocument, letDocuments_eq_mapM] at h
  obtain ⟨ds, hds, h⟩ := bind_eq_ok_iff.mp h
  obtain ⟨bs, hbs, h⟩ := bind_eq_ok_iff.mp h
  obtain rfl := Except.ok.inj h
  have hClauses : (Value.list ds).Plain :=
    Term.plain_of_toDocuments (fun t ht _ => Term.plain_of_toDocument <|
      ((hStorable.clauses t ht).and (hf.clauses t ht)).imp (fun _ => id)
        fun _ => And.right) hds
  have hLets : (Value.list bs).Plain := by
    refine .list fun d hd => ?_
    obtain ⟨p, hp, hpd⟩ := exists_of_forall₂_right (mapM_eq_ok_iff.mp hbs) hd
    exact plain_of_letDocument (hForms p hp) (hf.arguments p hp) hpd
  have hLock : f.locked.Plain := by
    obtain ⟨b, hb⟩ := hLocked
    simp [hb]
  refine .mapping (f.hasTextKeys_documentEntries ds bs) ?_
  simp only [entry, List.forall_mem_cons]
  exact ⟨hf.name.plain, hClauses, plain_nameList _, plain_nameList _, plain_nameList _,
    Value.plain_int _, hLets, hLock, hf.extra, fun e he => absurd he List.not_mem_nil⟩

/-! ## Through a document -/

/-- A copy of a fragment.  It has the same clauses and bindings up to equality of
values and except for display information, declares the same names in the same
order, and has the same bookkeeping. -/
structure Repeats (g f : Fragment) : Prop where
  alike : g.Alike Value.Equals f
  name : g.name = f.name
  locked : g.locked = f.locked
  extra : g.extra = f.extra

/-- A copy equals a fragment that equals itself. -/
theorem Repeats.same {f g : Fragment} (h : g.Repeats f) (hf : f.WellFormed)
    (hg : g.WellFormed) (hSelf : f.same f = true) : g.same f = true := by
  obtain ⟨hAlike, hName, hLocked, hExtra⟩ := (same_iff hf hf).mp hSelf
  rw [same_iff hg hf, h.name, h.locked, h.extra]
  refine ⟨h.alike.imp_self (fun v w hvw hw => ?_) hAlike, hName, hLocked, hExtra⟩
  rcases hvw with rfl | hSame
  · exact hw
  · exact hSame

section Produced

variable {f : Fragment} (hf : f.Produced) (hStorable : f.Storable)

include hf hStorable

/-- The document of a produced fragment is loaded as a copy of it. -/
theorem Produced.ofDocument_toDocument : ∃ d g, f.toDocument = .ok d ∧
    ofDocument d = .ok g ∧ g.Repeats f ∧ (f.same f = true → g.same f = true) := by
  have hWell := hf.constructed.wellFormed
  have hRecoverable : f.Recoverable Eq fun w v => w.Equals v ∧ w.FitsLike v :=
    { clauses := fun t ht =>
        (hStorable.clauses t ht).imp (fun _ => id) fun _ => Value.Restores.recovers
      forms := fun p hp => (hWell.forms_whole p hp).isProper
      arguments := fun p hp => (hStorable.arguments p hp).recovers
      locked := hf.isBool_locked }
  obtain ⟨d, hd, hBack⟩ := returns_document Value.faithful_eq (fun _ _ => And.right)
    hRecoverable hWell hf.declaresImplied
  obtain ⟨g, hg, hRereads⟩ := hBack d rfl
  have hRepeats : g.Repeats f :=
    { alike := hRereads.alike fun _ _ => And.left
      name := hRereads.name.symm
      locked := hRereads.locked
      extra := (Value.mapping.inj hRereads.extra).symm }
  have hAgain : g.WellFormed := hRereads.wellFormed hWell fun _ _ => And.right
  exact ⟨d, g, hd, hg, hRepeats, hRepeats.same hWell hAgain⟩

/-- The JSON text of a produced fragment that is plain is loaded as an equal one. -/
theorem Produced.ofJson_toJson (hPlain : f.IsPlain) :
    ∃ text g, f.toJson = .ok text ∧ ofJson text = .ok g ∧ g.same f = true := by
  have hWell := hf.constructed.wellFormed
  have hForms : ∀ p ∈ f.lets, p.1.isProper = true :=
    fun p hp => (hWell.forms_whole p hp).isProper
  have hRecoverable :
      f.Recoverable Value.Reordered fun w v => w.Same v ∧ w.FitsLike v :=
    { clauses := fun t ht =>
        ((hStorable.clauses t ht).and (hPlain.clauses t ht)).imp (fun _ => And.left)
          fun _ hv => hv.1.recovers_reordered hv.2
      forms := hForms
      arguments := fun p hp =>
        (hStorable.arguments p hp).recovers_reordered (hPlain.arguments p hp)
      locked := hf.isBool_locked }
  obtain ⟨d, hd, hBack⟩ := returns_document Value.faithful_reordered
    (fun _ _ => And.right) hRecoverable hWell hf.declaresImplied
  have hDocument : d.Plain :=
    plain_of_toDocument hPlain hStorable hForms hf.isBool_locked hd
  -- The reader finds the entries of the document in another order.
  obtain ⟨text, y, hText, hRead, hReordered⟩ := Json.read_json hDocument
  obtain ⟨g, hg, hRereads⟩ := hBack y hReordered
  refine ⟨text, g, by rw [toJson, hd, ok_bind, hText], by rw [ofJson, hRead, ok_bind, hg],
    (same_iff (hRereads.wellFormed hWell fun _ _ => And.right) hWell).mpr
      ⟨hRereads.alike fun _ _ => And.left, ?_, ?_, ?_⟩⟩
  · exact hPlain.name.plain.comparable.same_of_reordered hRereads.name
  · obtain ⟨b, hb⟩ := hf.isBool_locked
    rw [hRereads.locked, hb]
    exact (Value.IsAtom.bool b).same_self
  · exact hPlain.extra.comparable.same_of_reordered hRereads.extra

/-- Saving a produced fragment and loading it produces it again: through its
document, and through JSON text if everything in it is plain data. -/
theorem Produced.round_trip :
    (∃ d g, f.toDocument = .ok d ∧ ofDocument d = .ok g ∧ g.Repeats f ∧
      (f.same f = true → g.same f = true)) ∧
    (f.IsPlain →
      ∃ text g, f.toJson = .ok text ∧ ofJson text = .ok g ∧ g.same f = true) :=
  ⟨hf.ofDocument_toDocument hStorable, hf.ofJson_toJson hStorable⟩

end Produced

/-- Releases of an artist in some years, with a clause that carries its line. -/
def releases : Fragment where
  name := .text "release"
  clauses :=
    [ .vec [.named "?r", .literal (.keyword ":release/artists"), .named "?a"]
        (some (.mapping [entry "line" (.int 3)])),
      .vector [.named "?r", .literal (.keyword ":release/year"), .named "?year"],
      .vector [.sequence [.named ">", .named "?year", .literal (.int 1960)]] ]
  provide := [Symbol.plain "?r"]
  require := [Symbol.plain "?a", Symbol.plain "$"]
  lets := [(.coll (.sym (Symbol.plain "?year")), .list [.int 1970, .int 1971])]
  mustLet := [Symbol.plain "?year"]
  selectivity := -2
  extra := [entry "source" (.text "catalogue")]

private theorem produced_releases : releases.lock.Produced := by
  have hMade : ofConfig { releases.describe with
      require := [Symbol.plain "?a"].map .ofName, locked := .bool false } = .ok releases :=
    ofConfig_describe [Symbol.plain "?a"] (.bool false)
      (by simp [releases, Term.vector]) ((valid_iff releases).mp rfl) (by simp) rfl rfl
  exact .changed (c := .lock) (.made hMade) rfl

private theorem storable_releases : releases.lock.Storable := by
  have hRestores : ∀ v ∈ [Value.keyword ":release/artists", .keyword ":release/year",
      .int 1960, .list [.int 1970, .int 1971]], v.Restores := by
    simp only [List.forall_mem_cons]
    exact ⟨⟨_, rfl, .inl rfl⟩, ⟨_, rfl, .inl rfl⟩, ⟨_, rfl, .inl rfl⟩,
      ⟨_, rfl, .inl rfl⟩, fun v hv => absurd hv List.not_mem_nil⟩
  simp only [List.forall_mem_cons] at hRestores
  constructor
  · simp [releases, lock, isLocked, Value.isTruthy, Term.vector, Term.sequence,
      Term.named, Term.literal, Symbol.plain, Value.IsMapping, hRestores]
  · simp [releases, lock, isLocked, Value.isTruthy, hRestores]

private theorem isPlain_releases : releases.lock.IsPlain := by
  constructor
  · exact .inr ⟨_, rfl⟩
  · simp [releases, lock, isLocked, Value.isTruthy, Term.vector, Term.sequence,
      Term.named, Term.literal, Symbol.plain, Value.toData, entry]
  · simp [releases, lock, isLocked, Value.isTruthy, Value.toData, Value.toDataAll]
  · simp [releases, lock, isLocked, Value.isTruthy, entry]

private theorem same_self_releases : releases.lock.same releases.lock = true := by
  simp [releases, lock, isLocked, same, Value.same, Value.sameItems, Value.sameTerms,
    Value.sameTerm, Value.sameNumbers, Value.number?, Number.same, Value.entriesWithin,
    Value.isTruthy, Term.vector, Term.sequence, Term.named, Term.literal, Symbol.plain,
    Form.toValue, Value.ofName, entry]

theorem Produced.round_trip_releases :
    releases.lock.Produced ∧ releases.lock.Storable ∧ releases.lock.IsPlain ∧
    (∃ d g, releases.lock.toDocument = .ok d ∧ ofDocument d = .ok g ∧
      g.Repeats releases.lock ∧ g.same releases.lock = true) ∧
    ∃ text g, releases.lock.toJson = .ok text ∧ ofJson text = .ok g ∧
      g.same releases.lock = true := by
  obtain ⟨⟨d, g, hd, hg, hRepeats, hSame⟩, hJson⟩ :=
    Produced.round_trip produced_releases storable_releases
  exact ⟨produced_releases, storable_releases, isPlain_releases,
    ⟨d, g, hd, hg, hRepeats, hSame same_self_releases⟩, hJson isPlain_releases⟩

/-- A fragment whose only clause is a sequence around a bare number. -/
def unwritable : Fragment where
  clauses := [.sequence [.stray (.int 5)]]

/-- Composites are built around anything, but only terms are written: a fragment
that has no values and no display information can lack a document. -/
theorem Produced.toDocument_unwritable :
    unwritable.Produced ∧ unwritable.lets = [] ∧
      unwritable.toDocument = .error (.notTerm (.int 5)) := by
  have hMade := ofConfig_describe (f := unwritable) [] (.bool false)
    (by simp [unwritable, Term.sequence]) ((valid_iff unwritable).mp rfl) List.nodup_nil
    rfl rfl
  exact ⟨.made hMade, rfl, rfl⟩

end Fragment

end DatalogFragments
