import DatalogFragments.Proofs.Document.Fragments

/-!
# Loading normalises once

A document may be written by hand: keys are missing or unknown, keywords lack
their colon, declarations repeat, implied specials are left out, and the lock is
any value.  Loading settles all of this.  Every value that was loaded is made of
plain data and keywords, and such values are written and read back as they are.
So the document of what was loaded is loaded as the same fragment, and has
itself for its document.

## Main definitions

* `Term.PartOf`, `Fragment.InfoFits` — the terms in a document and their display
  information.

## Main results

* `Term.over_of_ofDocument` — what clauses consist of that were loaded;
* `Fragment.recoverable_of_ofDocument` — what was loaded survives a document;
* `Fragment.ofDocument_settles` — loading, saving and loading again.
-/

namespace DatalogFragments

open Value (entry field?)

/-! ## Values -/

namespace Value

/-- A value that a document describes, and the same one again. -/
def SameCoded (w v : Value) : Prop := w = v ∧ v.Coded

theorem Coded.recovers {v : Value} (h : v.Coded) : v.Recovers Eq SameCoded := by
  rintro y rfl
  exact ⟨v, h.ofData_toData, rfl, h⟩

theorem SameCoded.same {w v : Value} (h : SameCoded w v) : w.Same v := by
  obtain ⟨rfl, hCoded⟩ := h
  exact hCoded.same_self

theorem SameCoded.fitsLike {w v : Value} (h : SameCoded w v) : w.FitsLike v := by
  rw [h.1]
  exact fun form hv => hv

end Value

/-! ## Clauses -/

namespace Term

/-- The document of a term within the document of a clause. -/
inductive PartOf : Value → Value → Prop
  | self (d : Value) : PartOf d d
  | item {es : Entries} {xs : List Value} {x d : Value}
      (hTag : tagOf es = .text "seq" ∨ tagOf es = .text "vec")
      (hItems : field? "items" es = some (.list xs)) (hx : x ∈ xs)
      (h : PartOf d x) : PartOf d (.mapping es)

/-- Every term of a clause document has a mapping for its display information, if
it has any. -/
def InfoFits (d : Value) : Prop :=
  ∀ es, PartOf (.mapping es) d → ∀ i, field? "meta" es = some i →
    i = .null ∨ i.IsMapping

section Reading

variable {d : Value} {es : Entries} {t : Clause}

theorem infoFits_mapping_iff : InfoFits (.mapping es) ↔
    (∀ i, field? "meta" es = some i → i = .null ∨ i.IsMapping) ∧
      (tagOf es = .text "seq" ∨ tagOf es = .text "vec" →
        ∀ xs, field? "items" es = some (.list xs) → ∀ x ∈ xs, InfoFits x) := by
  constructor
  · exact fun h => ⟨h es (.self _), fun hTag xs hxs x hx fs hPart =>
      h fs (.item hTag hxs hx hPart)⟩
  · rintro ⟨hSelf, hItems⟩ fs hPart
    cases hPart with
    | self => exact hSelf
    | item hTag hxs hx hPart => exact hItems hTag _ hxs _ hx fs hPart

theorem InfoFits.isMapping (h : InfoFits (.mapping es)) :
    ∀ i, infoOf es = some i → i.IsMapping := by
  intro i hi
  rw [infoOf] at hi
  split at hi
  · cases hi
  · cases hi
  · rename_i j hNull hj
    obtain rfl := Option.some.inj hi
    exact ((infoFits_mapping_iff.mp h).1 _ hj).resolve_left hNull

/-- What the entries of a clause document are read as, by their tag. -/
inductive Reading (es : Entries) : Clause → Prop
  | sym (n : String) : Reading es (.sym ⟨n, infoOf es⟩)
  | misnamed (n : Value) : Reading es (.stray (.misnamed n (infoOf es)))
  | seq {ts : List Clause} (hTag : tagOf es = .text "seq")
      (h : itemsOf es = .ok ts) : Reading es (.seq ts (infoOf es))
  | vec {ts : List Clause} (hTag : tagOf es = .text "vec")
      (h : itemsOf es = .ok ts) : Reading es (.vec ts (infoOf es))
  | lit {v : Value}
      (h : Value.ofData ((field? "value" es).getD .null) = .ok v) :
      Reading es (.lit v (infoOf es))

private theorem reading_of_symbolOf (h : symbolOf es = .ok t) : Reading es t := by
  rw [symbolOf] at h
  split at h
  · cases h
  · rename_i name _
    obtain rfl := Except.ok.inj h
    cases name with
    | text s => exact .sym s
    | _ => exact .misnamed _

theorem reading_of_ofDocument (h : ofDocument d = .ok t) :
    ∃ es, d = .mapping es ∧ Reading es t := by
  cases d with
  | mapping es =>
      refine ⟨es, rfl, ?_⟩
      rw [ofDocument] at h
      split at h
      · exact reading_of_symbolOf h
      · obtain ⟨v, hv, h⟩ := bind_eq_ok_iff.mp h
        obtain rfl := Except.ok.inj h
        exact .lit hv
      · rename_i hTag
        obtain ⟨ts, hts, h⟩ := bind_eq_ok_iff.mp h
        obtain rfl := Except.ok.inj h
        exact .seq hTag hts
      · rename_i hTag
        obtain ⟨ts, hts, h⟩ := bind_eq_ok_iff.mp h
        obtain rfl := Except.ok.inj h
        exact .vec hTag hts
      · cases h
  | _ => cases h

/-- Items are read from a list, or there are none. -/
private theorem itemsOf_cases {ts : List Clause} (hPlain : (Value.mapping es).Plain)
    (h : itemsOf es = .ok ts) : ts = [] ∨ ∃ xs, field? "items" es = some (.list xs) ∧
      List.Forall₂ (fun x t => ofDocument x = .ok t) xs ts := by
  rw [itemsOf_eq] at h
  split at h
  · exact .inl (Except.ok.inj h).symm
  · rename_i v hv
    cases hPlain.field hv with
    | atom hAtom =>
        cases hAtom with
        | text s =>
            rw [ofElements] at h
            split at h
            · exact .inl (Except.ok.inj h).symm
            · cases h
        | _ => cases h
    | @list xs _ =>
        rw [ofElements, ofDocuments_eq_mapM, mapM_eq_ok_iff] at h
        exact .inr ⟨xs, hv, h⟩
    | mapping _ _ =>
        rw [ofElements] at h
        split at h
        · exact .inl (Except.ok.inj h).symm
        · cases h

/-- Items that were read consist of what the single ones consist of. -/
private theorem over_of_itemsOf {ts : List Clause} (hPlain : (Value.mapping es).Plain)
    (hInfo : InfoFits (.mapping es))
    (hTag : tagOf es = .text "seq" ∨ tagOf es = .text "vec")
    (h : itemsOf es = .ok ts) (hNamed : misnamedNamesOf ts = [])
    (ih : ∀ t ∈ ts, ∀ {d : Value}, d.Plain → InfoFits d → ofDocument d = .ok t →
      misnamedNames t = [] → t.Over Value.IsMapping Value.Coded) :
    ∀ t ∈ ts, t.Over Value.IsMapping Value.Coded := by
  rw [misnamedNamesOf_eq_flatMap, List.flatMap_eq_nil_iff] at hNamed
  rcases itemsOf_cases hPlain h with rfl | ⟨xs, hxs, hRead⟩
  · exact fun t ht => absurd ht List.not_mem_nil
  · intro t ht
    obtain ⟨x, hx, hxt⟩ := exists_of_forall₂_right hRead ht
    have hItems := (hPlain.field hxs).elements rfl
    exact ih t ht (hItems x hx) ((infoFits_mapping_iff.mp hInfo).2 hTag xs hxs x hx) hxt
      (hNamed t ht)

/-- A clause that was loaded consists of terms only, and its values are made of
plain data and keywords. -/
theorem over_of_ofDocument (hPlain : d.Plain) (hInfo : InfoFits d)
    (h : ofDocument d = .ok t) (hNamed : misnamedNames t = []) :
    t.Over Value.IsMapping Value.Coded := by
  induction t using Term.induct generalizing d with
  | hSym s =>
      obtain ⟨es, rfl, hReading⟩ := reading_of_ofDocument h
      cases hReading with
      | sym n => exact .sym hInfo.isMapping
  | hSeq ts i ih =>
      obtain ⟨es, rfl, hReading⟩ := reading_of_ofDocument h
      cases hReading with
      | seq hTag hItems =>
          exact .seq (over_of_itemsOf hPlain hInfo (.inl hTag) hItems hNamed ih)
            hInfo.isMapping
  | hVec ts i ih =>
      obtain ⟨es, rfl, hReading⟩ := reading_of_ofDocument h
      cases hReading with
      | vec hTag hItems =>
          exact .vec (over_of_itemsOf hPlain hInfo (.inr hTag) hItems hNamed ih)
            hInfo.isMapping
  | hLit v i =>
      obtain ⟨es, rfl, hReading⟩ := reading_of_ofDocument h
      cases hReading with
      | lit hv => exact .lit (Value.coded_of_ofData hPlain.field_getD hv) hInfo.isMapping
  | hStray v =>
      obtain ⟨es, rfl, hReading⟩ := reading_of_ofDocument h
      cases hReading with
      | misnamed n => cases hNamed

/-- A clause that was loaded is taken from its value as it is. -/
theorem toTerm_toValue_of_ofDocument (h : ofDocument d = .ok t) :
    t.toValue.toTerm = t := by
  obtain ⟨es, -, hReading⟩ := reading_of_ofDocument h
  cases hReading <;> simp only [toValue, Value.toTerm]

end Reading

end Term

/-! ## Descriptions -/

namespace Config

/-- What the entries of a fragment document are read as, apart from declarations. -/
structure Reading (es : Entries) (ds : List Value) (ts : List Clause) (c : Config) :
    Prop where
  documents : elementsAt "where" es = .ok ds
  terms : ds.mapM Term.ofDocument = .ok ts
  clauses : c.clauses = ts.map Term.toValue
  name : c.name = (field? "name" es).getD .null
  lets : ∃ bs, elementsAt "let" es = .ok bs ∧ bs.mapM letOfDocument = .ok c.lets
  extra : c.extra = (field? "extra" es).getD (.mapping [])

theorem reading_of_ofDocument {d : Value} {c : Config} (h : ofDocument d = .ok c) :
    ∃ es ds ts, d = .mapping es ∧ Reading es ds ts c := by
  rw [ofDocument] at h
  obtain ⟨es, hes, h⟩ := bind_eq_ok_iff.mp h
  obtain ⟨ds, hds, h⟩ := bind_eq_ok_iff.mp h
  obtain ⟨ts, hts, h⟩ := bind_eq_ok_iff.mp h
  obtain ⟨provide, -, h⟩ := bind_eq_ok_iff.mp h
  obtain ⟨require, -, h⟩ := bind_eq_ok_iff.mp h
  obtain ⟨mustLet, -, h⟩ := bind_eq_ok_iff.mp h
  obtain ⟨bs, hbs, h⟩ := bind_eq_ok_iff.mp h
  obtain ⟨lets, hLets, h⟩ := bind_eq_ok_iff.mp h
  obtain rfl := Except.ok.inj h
  have hd : d = .mapping es := by
    cases d with
    | mapping fs => exact congrArg Value.mapping (Except.ok.inj hes)
    | _ => cases hes
  exact ⟨es, ds, ts, hd, hds, hts, rfl, rfl, ⟨bs, hbs, hLets⟩, rfl⟩

variable {es : Entries}

/-- The elements under a key of data are data. -/
theorem plain_of_elementsAt {key : String} {xs : List Value}
    (hPlain : (Value.mapping es).Plain) (h : elementsAt key es = .ok xs) :
    ∀ x ∈ xs, x.Plain := by
  rw [elementsAt] at h
  split at h
  · obtain rfl := Except.ok.inj h
    exact fun x hx => absurd hx List.not_mem_nil
  · rename_i v hv
    rw [Value.asElements] at h
    split at h
    · rename_i items hItems
      obtain rfl := Except.ok.inj h
      exact (hPlain.field hv).elements hItems
    · cases h

/-- An argument that was loaded is made of plain data and keywords. -/
theorem coded_of_letOfDocument {d : Value} {p : Value × Value} (hPlain : d.Plain)
    (h : letOfDocument d = .ok p) : p.2.Coded := by
  cases d with
  | mapping fs =>
      rw [letOfDocument] at h
      split at h
      · cases h
      · obtain ⟨form, -, h⟩ := bind_eq_ok_iff.mp h
        obtain ⟨value, hValue, h⟩ := bind_eq_ok_iff.mp h
        obtain rfl := Except.ok.inj h
        exact Value.coded_of_ofData hPlain.field_getD hValue
  | _ => cases h

end Config

/-! ## Fragments -/

namespace Fragment

/-- Every term in the clauses of a fragment document has a mapping for its display
information, if it has any. -/
def InfoFits (d : Value) : Prop :=
  ∀ es ds, d = .mapping es → Config.elementsAt "where" es = .ok ds →
    ∀ t ∈ ds, Term.InfoFits t

/-- Reading forms leaves the arguments as they are. -/
theorem map_snd_of_readForms {pairs : List (Value × Value)}
    {lets : List (Form × Value)} (h : readForms pairs = .ok lets) :
    lets.map Prod.snd = pairs.map Prod.snd := by
  induction pairs generalizing lets with
  | nil =>
      obtain rfl := Except.ok.inj h
      rfl
  | cons p pairs ih =>
      obtain ⟨data, value⟩ := p
      rw [readForms] at h
      obtain ⟨form, -, h⟩ := bind_eq_ok_iff.mp h
      obtain ⟨-, h⟩ := then_eq_ok_iff.mp h
      obtain ⟨rest, hRest, h⟩ := bind_eq_ok_iff.mp h
      obtain rfl := Except.ok.inj h
      rw [List.map_cons, List.map_cons, ih hRest]

section Loaded

variable {d : Value} {f : Fragment} (hPlain : d.Plain) (h : ofDocument d = .ok f)

include hPlain h

/-- What was loaded survives a document. -/
theorem recoverable_of_ofDocument (hInfo : InfoFits d) :
    f.Recoverable Eq Value.SameCoded := by
  obtain ⟨c, hRead, hMake⟩ := bind_eq_ok_iff.mp h
  obtain ⟨es, ds, ts, rfl, hReading⟩ := Config.reading_of_ofDocument hRead
  have hMakes := Config.makes_of_ofConfig hMake
  have hWell := wellFormed_of_ofConfig hMake
  have hTerms := mapM_eq_ok_iff.mp hReading.terms
  have hClauses : f.clauses = ts := by
    rw [hMakes.clauses, hReading.clauses, List.map_map]
    refine (List.map_congr_left fun t ht => ?_).trans (List.map_id' ts)
    obtain ⟨x, -, hx⟩ := exists_of_forall₂_right hTerms ht
    exact Term.toTerm_toValue_of_ofDocument hx
  have hNamed := hWell.wellNamed
  rw [Term.misnamedNamesOf_eq_flatMap, List.flatMap_eq_nil_iff] at hNamed
  refine
    { clauses := fun t ht => ?_
      forms := fun p hp => (hWell.forms_whole p hp).isProper
      arguments := fun p hp => ?_
      locked := ⟨_, hMakes.locked⟩ }
  · obtain ⟨x, hx, hxt⟩ := exists_of_forall₂_right hTerms (hClauses ▸ ht)
    have hOver := Term.over_of_ofDocument
      (Config.plain_of_elementsAt hPlain hReading.documents x hx)
      (hInfo es ds rfl hReading.documents x hx) hxt (hNamed t ht)
    exact hOver.imp (fun _ => id) fun _ => Value.Coded.recovers
  · obtain ⟨bs, hbs, hLets⟩ := hReading.lets
    have hArgument : p.2 ∈ c.lets.map Prod.snd := by
      rw [← map_snd_of_readForms hMakes.lets]
      exact List.mem_map_of_mem hp
    obtain ⟨q, hq, hEq⟩ := List.mem_map.mp hArgument
    obtain ⟨b, hb, hbq⟩ := exists_of_forall₂_right (mapM_eq_ok_iff.mp hLets) hq
    have hCoded := Config.coded_of_letOfDocument
      (Config.plain_of_elementsAt hPlain hbs b hb) hbq
    exact (hEq ▸ hCoded).recovers

/-- Name and bookkeeping entries that were loaded equal themselves. -/
theorem same_self_of_ofDocument :
    f.name.Same f.name ∧ (Value.mapping f.extra).Same (.mapping f.extra) := by
  obtain ⟨c, hRead, hMake⟩ := bind_eq_ok_iff.mp h
  obtain ⟨es, ds, ts, rfl, hReading⟩ := Config.reading_of_ofDocument hRead
  have hMakes := Config.makes_of_ofConfig hMake
  have hExtra : c.extra.Plain := by
    rw [hReading.extra]
    cases hField : field? "extra" es with
    | none => exact Value.plain_mapping_iff.mpr (by simp)
    | some v => exact hPlain.field hField
  constructor
  · rw [hMakes.name, hReading.name]
    exact hPlain.field_getD.same_self
  · refine Value.same_mapping_self fun e he => ?_
    obtain ⟨hKey, hValue⟩ := hExtra.asEntries hMakes.extra e he
    exact ⟨hKey.same_self, hValue.same_self⟩

/-- Whatever was loaded from data, its document is loaded as an equal fragment,
which is written in the same way. -/
theorem ofDocument_settles (hInfo : InfoFits d) :
    ∃ d' g, f.toDocument = .ok d' ∧ ofDocument d' = .ok g ∧ g.same f = true ∧
      g.toDocument = .ok d' := by
  obtain ⟨c, hRead, hMake⟩ := bind_eq_ok_iff.mp h
  have hWell := wellFormed_of_ofConfig hMake
  obtain ⟨d', hd', hBack⟩ := returns_document Value.faithful_eq
    (fun _ _ => Value.SameCoded.fitsLike) (recoverable_of_ofDocument hPlain h hInfo)
    hWell (declaresImplied_of_ofConfig hMake)
  obtain ⟨g, hg, hRereads⟩ := hBack d' rfl
  refine ⟨d', g, hd', hg, ?_, ?_⟩
  · obtain ⟨hName, hExtra⟩ := same_self_of_ofDocument hPlain h
    obtain ⟨b, hb⟩ := (recoverable_of_ofDocument hPlain h hInfo).locked
    have hAgain : g.WellFormed :=
      hRereads.wellFormed hWell fun _ _ => Value.SameCoded.fitsLike
    refine (same_iff hAgain hWell).mpr
      ⟨hRereads.alike fun _ _ => Value.SameCoded.same, ?_, ?_, ?_⟩
    · rwa [← hRereads.name]
    · rw [hRereads.locked, hb]
      exact (Value.IsAtom.bool b).same_self
    · rwa [← hRereads.extra]
  · rw [hRereads.toDocument_eq fun w v hwv => by rw [hwv.1], hd']

end Loaded

/-- A document with a keyword that lacks its colon, display information that is
null, a lock that is a number, and without the datasource that is required. -/
def handwritten : Value := .mapping
  [ entry "where" (.list [.mapping
      [ entry "type" (.text "vec"),
        entry "items" (.list
          [ .mapping
              [entry "type" (.text "sym"), entry "name" (.text "?x"), entry "meta" .null],
            .mapping
              [ entry "type" (.text "lit"),
                entry "value"
                  (.mapping [entry "type" (.text "kw"), entry "name" (.text "age")])],
            .mapping [entry "type" (.text "sym"), entry "name" (.text "?y")]])]]),
    entry "provide" (.list [.text "?x"]),
    entry "locked" (.int 1),
    entry "note" (.text "by hand")]

/-- What the document stands for. -/
def settled : Fragment where
  clauses := [.vector [.named "?x", .literal (.keyword ":age"), .named "?y"]]
  provide := [Symbol.plain "?x"]
  require := [Symbol.plain "$"]
  locked := .bool true

private theorem ofDocument_handwritten : ofDocument handwritten = .ok settled := by
  have hRead : Config.ofDocument handwritten =
      .ok { settled.describe with require := [], locked := .int 1 } := rfl
  rw [ofDocument, hRead, ok_bind]
  refine ofConfig_describe [] (.int 1) (by simp [settled, Term.vector])
    ((valid_iff settled).mp rfl) List.nodup_nil rfl rfl

theorem ofDocument_settles_handwritten :
    handwritten.Plain ∧ InfoFits handwritten ∧ ofDocument handwritten = .ok settled ∧
      ∃ d g, settled.toDocument = .ok d ∧ ofDocument d = .ok g ∧
        g.same settled = true ∧ g.toDocument = .ok d := by
  have hPlain : handwritten.Plain := by simp [handwritten, entry]
  have hInfo : InfoFits handwritten := by
    intro es ds hd hds t ht
    cases hd
    cases hds
    cases List.mem_singleton.mp ht
    simp [Term.infoFits_mapping_iff, entry, field?, Term.tagOf]
  exact ⟨hPlain, hInfo, ofDocument_handwritten,
    ofDocument_settles hPlain ofDocument_handwritten hInfo⟩

end Fragment

end DatalogFragments
