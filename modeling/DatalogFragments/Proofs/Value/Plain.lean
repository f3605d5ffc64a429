import DatalogFragments.Document
import DatalogFragments.Proofs.Fragment.Alike

/-!
# Plain data

Documents consist of null, booleans, integers, texts, lists and mappings with
text keys.  Writing such data to a text and reading it back gives the same data
up to the order of the entries of its mappings, and nothing that is read from a
mapping by key depends on that order.

What a document holds in its values may have keywords besides; such values are
equal to themselves, and to what differs in order only.

## Main definitions

* `Value.HasTextKeys`, `Value.Plain`, `Value.Coded`, `Value.Comparable` — the
  shapes of data;
* `Value.Reordered` — equality up to the order of entries.

## Main results

* `Value.field?_eq_some_iff` — looking up a text key;
* `Value.field?_rel` — entries under the same keys;
* `Value.Comparable.same_of_reordered` — equality does not look at the order;
* `Value.Plain.elements`, `Value.Plain.asEntries` — parts of data are data.
-/

namespace DatalogFragments

namespace Value

/-! ## Entries -/

/-- The keys of the entries are texts, each once. -/
structure HasTextKeys (es : Entries) : Prop where
  texts : ∀ e ∈ es, ∃ key, e.1 = .text key
  nodup : (es.map Prod.fst).Nodup

theorem HasTextKeys.congr {es fs : Entries} (h : HasTextKeys es)
    (hKeys : (es.map Prod.fst).Perm (fs.map Prod.fst)) : HasTextKeys fs where
  texts := by
    intro f hf
    have hKey := hKeys.symm.subset (List.mem_map_of_mem hf)
    obtain ⟨e, he, hEq⟩ := List.mem_map.mp hKey
    exact hEq ▸ h.texts e he
  nodup := hKeys.nodup_iff.mp h.nodup

theorem HasTextKeys.of_cons {e : Value × Value} {es : Entries}
    (h : HasTextKeys (e :: es)) : HasTextKeys es where
  texts := (List.forall_mem_cons.mp h.texts).2
  nodup := (List.nodup_cons.mp h.nodup).2

@[simp] theorem hasTextKeys_nil : HasTextKeys [] :=
  ⟨fun _ he => absurd he List.not_mem_nil, List.nodup_nil⟩

@[simp] theorem hasTextKeys_cons_iff {key : String} {v : Value} {es : Entries} :
    HasTextKeys ((.text key, v) :: es) ↔
      Value.text key ∉ es.map Prod.fst ∧ HasTextKeys es := by
  refine ⟨fun h => ⟨(List.nodup_cons.mp h.nodup).1, h.of_cons⟩, fun h => ?_⟩
  exact ⟨List.forall_mem_cons.mpr ⟨⟨key, rfl⟩, h.2.texts⟩,
    List.nodup_cons.mpr ⟨h.1, h.2.nodup⟩⟩

/-- A text key has the one value that stands under it. -/
theorem field?_eq_some_iff {es : Entries} (h : HasTextKeys es) (key : String)
    (v : Value) : field? key es = some v ↔ (.text key, v) ∈ es := by
  induction es with
  | nil => simp [field?]
  | cons e es ih =>
      obtain ⟨k, u⟩ := e
      obtain ⟨key', hKey⟩ := h.texts (k, u) List.mem_cons_self
      obtain rfl : k = .text key' := hKey
      rw [field?, List.mem_cons]
      by_cases hEq : key' = key
      · subst hEq
        rw [if_pos rfl, Option.some.injEq, Prod.mk.injEq]
        refine ⟨fun hv => .inl ⟨rfl, hv.symm⟩, ?_⟩
        rintro (⟨-, hv⟩ | hMem)
        · exact hv.symm
        · exact absurd (List.mem_map_of_mem hMem) (List.nodup_cons.mp h.nodup).1
      · rw [if_neg hEq, ih h.of_cons]
        refine ⟨.inr, ?_⟩
        rintro (hHead | hMem)
        · cases hHead
          exact absurd rfl hEq
        · exact hMem

theorem mem_of_field? {key : String} {es : Entries} {v : Value}
    (h : field? key es = some v) : (.text key, v) ∈ es := by
  induction es with
  | nil => cases h
  | cons e es ih =>
      have hLater : field? key es = some v → (.text key, v) ∈ e :: es :=
        fun hRest => List.mem_cons_of_mem _ (ih hRest)
      obtain ⟨k, u⟩ := e
      cases k with
      | text k =>
          rw [field?] at h
          split at h
          · rename_i hKey
            rw [hKey, Option.some.inj h]
            exact List.mem_cons_self
          · exact hLater h
      | _ => exact hLater h

/-- Entries under the same keys have related values under each key. -/
theorem field?_rel {T : Value → Value → Prop} {es fs : Entries}
    (h : List.Forall₂ (fun e f => f.1 = e.1 ∧ T e.2 f.2) es fs) (key : String) :
    Option.Rel T (field? key es) (field? key fs) := by
  induction h with
  | nil => exact .none
  | @cons e f es fs hef _ ih =>
      obtain ⟨k, u⟩ := e
      obtain ⟨k', u'⟩ := f
      obtain ⟨rfl, hT⟩ : k' = k ∧ T u u' := hef
      cases k' with
      | text k =>
          rw [field?, field?]
          split
          · exact .some hT
          · exact ih
      | _ => exact ih

/-! ## Shapes of data -/

/-- A constant of plain data. -/
inductive IsAtom : Value → Prop
  | null : IsAtom .null
  | bool (b : Bool) : IsAtom (.bool b)
  | int (i : Int) : IsAtom (.int i)
  | text (s : String) : IsAtom (.text s)

/-- Data that a document consists of. -/
inductive Plain : Value → Prop
  | atom {v : Value} (h : v.IsAtom) : Plain v
  | list {xs : List Value} (h : ∀ x ∈ xs, Plain x) : Plain (.list xs)
  | mapping {es : Entries} (hKeys : HasTextKeys es) (h : ∀ e ∈ es, Plain e.2) :
      Plain (.mapping es)

section Plain

variable {es : Entries}

theorem Plain.items {xs : List Value} (h : (Value.list xs).Plain) :
    ∀ x ∈ xs, x.Plain := by
  cases h with
  | atom hAtom => cases hAtom
  | list hxs => exact hxs

theorem Plain.mapping_cases (h : (Value.mapping es).Plain) :
    HasTextKeys es ∧ ∀ e ∈ es, e.2.Plain := by
  cases h with
  | atom hAtom => cases hAtom
  | mapping hKeys hes => exact ⟨hKeys, hes⟩

@[simp] theorem plain_null : Value.null.Plain := .atom .null

@[simp] theorem plain_bool (b : Bool) : (Value.bool b).Plain := .atom (.bool b)

@[simp] theorem plain_int (i : Int) : (Value.int i).Plain := .atom (.int i)

@[simp] theorem plain_text (s : String) : (Value.text s).Plain := .atom (.text s)

@[simp] theorem plain_list_iff {xs : List Value} :
    (Value.list xs).Plain ↔ ∀ x ∈ xs, x.Plain :=
  ⟨Plain.items, .list⟩

@[simp] theorem plain_mapping_iff :
    (Value.mapping es).Plain ↔ HasTextKeys es ∧ ∀ e ∈ es, e.2.Plain :=
  ⟨Plain.mapping_cases, fun h => .mapping h.1 h.2⟩

end Plain

/-- Values that documents describe: plain data with keywords, in which no
mapping looks like a keyword. -/
inductive Coded : Value → Prop
  | atom {v : Value} (h : v.IsAtom) : Coded v
  | ident (name : String) : Coded (keywordOf name)
  | list {xs : List Value} (h : ∀ x ∈ xs, Coded x) : Coded (.list xs)
  | mapping {es : Entries} (hKeys : HasTextKeys es)
      (hTag : hasTag "kw" es = false) (h : ∀ e ∈ es, Coded e.2) :
      Coded (.mapping es)

/-- Data with keywords, whatever its mappings look like. -/
inductive Comparable : Value → Prop
  | atom {v : Value} (h : v.IsAtom) : Comparable v
  | keyword (k : String) : Comparable (.keyword k)
  | list {xs : List Value} (h : ∀ x ∈ xs, Comparable x) : Comparable (.list xs)
  | mapping {es : Entries} (hKeys : HasTextKeys es)
      (h : ∀ e ∈ es, Comparable e.2) : Comparable (.mapping es)

theorem Plain.comparable {v : Value} (h : v.Plain) : v.Comparable := by
  induction h with
  | atom hAtom => exact .atom hAtom
  | list _ ih => exact .list ih
  | mapping hKeys _ ih => exact .mapping hKeys ih

theorem Coded.comparable {v : Value} (h : v.Coded) : v.Comparable := by
  induction h with
  | atom hAtom => exact .atom hAtom
  | ident name =>
      rw [keywordOf]
      split <;> exact .keyword _
  | list _ ih => exact .list ih
  | mapping hKeys _ _ ih => exact .mapping hKeys ih

/-- Equality up to the order of the entries of mappings. -/
inductive Reordered : Value → Value → Prop
  | refl (v : Value) : Reordered v v
  | list {xs ys : List Value} (h : List.Forall₂ Reordered xs ys) :
      Reordered (.list xs) (.list ys)
  | mapping {es fs : Entries} (hKeys : HasTextKeys es)
      (hPerm : (es.map Prod.fst).Perm (fs.map Prod.fst))
      (h : ∀ key v w, field? key es = some v → field? key fs = some w →
        Reordered v w) : Reordered (.mapping es) (.mapping fs)

/-- Reordered entries have related values under each key. -/
theorem field?_rel_of_perm {T : Value → Value → Prop} {es fs : Entries}
    (hKeys : HasTextKeys es)
    (hPerm : (es.map Prod.fst).Perm (fs.map Prod.fst))
    (h : ∀ key v w, field? key es = some v → field? key fs = some w → T v w)
    (key : String) : Option.Rel T (field? key es) (field? key fs) := by
  have hKeys' := hKeys.congr hPerm
  have hHas : ∀ {gs : Entries}, HasTextKeys gs →
      (Value.text key ∈ gs.map Prod.fst ↔ ∃ v, field? key gs = some v) := by
    intro gs hGs
    rw [List.mem_map]
    constructor
    · rintro ⟨⟨k, v⟩, he, rfl⟩
      exact ⟨v, (field?_eq_some_iff hGs key v).mpr he⟩
    · rintro ⟨v, hv⟩
      exact ⟨_, mem_of_field? hv, rfl⟩
  have hBoth := (hHas hKeys).symm.trans (hPerm.mem_iff.trans (hHas hKeys'))
  cases hv : field? key es with
  | none =>
      cases hw : field? key fs with
      | none => exact .none
      | some w =>
          obtain ⟨v, hv'⟩ := hBoth.mpr ⟨w, hw⟩
          rw [hv] at hv'
          cases hv'
  | some v =>
      obtain ⟨w, hw⟩ := hBoth.mp ⟨v, hv⟩
      rw [hw]
      exact .some (h key v w hv hw)

/-! ## Equality of data -/

theorem IsAtom.same_self {v : Value} (h : v.IsAtom) : v.Same v := by
  cases h with
  | null => simp [Same, same]
  | bool b => simp [Same, same, sameNumbers, number?, Number.same]
  | int i => simp [Same, same, sameNumbers, number?, Number.same]
  | text s => simp [Same, same]

theorem same_text (s : String) : (Value.text s).Same (.text s) :=
  (IsAtom.text s).same_self

theorem entriesWithin_eq_true_iff (es fs : Entries) :
    entriesWithin es fs = true ↔
      ∀ e ∈ es, ∃ f ∈ fs, e.1.Same f.1 ∧ e.2.Same f.2 := by
  induction es with
  | nil => simp [entriesWithin]
  | cons e es ih =>
      obtain ⟨k, v⟩ := e
      rw [entriesWithin, Bool.and_eq_true, ih, List.forall_mem_cons,
        List.any_eq_true]
      simp only [Bool.and_eq_true, Same]

theorem same_mapping_iff (es fs : Entries) :
    (Value.mapping es).Same (.mapping fs) ↔ es.length = fs.length ∧
      ∀ e ∈ es, ∃ f ∈ fs, e.1.Same f.1 ∧ e.2.Same f.2 := by
  rw [Same, same, Bool.and_eq_true, beq_iff_eq, entriesWithin_eq_true_iff]

/-- A mapping equals itself if its keys and values do. -/
theorem same_mapping_self {es : Entries}
    (h : ∀ e ∈ es, e.1.Same e.1 ∧ e.2.Same e.2) :
    (Value.mapping es).Same (.mapping es) :=
  (same_mapping_iff es es).mpr ⟨rfl, fun e he => ⟨e, he, h e he⟩⟩

theorem same_list_iff (xs ys : List Value) :
    (Value.list xs).Same (.list ys) ↔ List.Forall₂ Same xs ys := by
  rw [Same, same, sameItems_iff]

/-- Mappings are equal if the values under each key are. -/
theorem same_mapping_of_perm {es fs : Entries} (hKeys : HasTextKeys es)
    (hPerm : (es.map Prod.fst).Perm (fs.map Prod.fst))
    (hEach : ∀ key v w, field? key es = some v → field? key fs = some w → w.Same v) :
    (Value.mapping fs).Same (.mapping es) := by
  rw [same_mapping_iff]
  refine ⟨by simpa using hPerm.length_eq.symm, ?_⟩
  rintro ⟨k, w⟩ hf
  have hKeys' := hKeys.congr hPerm
  obtain ⟨key, hKey⟩ := hKeys'.texts _ hf
  obtain rfl : k = .text key := hKey
  have hw := (field?_eq_some_iff hKeys' key w).mpr hf
  have hRel := field?_rel_of_perm hKeys hPerm hEach key
  rw [hw] at hRel
  cases hv : field? key es with
  | none =>
      rw [hv] at hRel
      cases hRel
  | some v => exact ⟨_, mem_of_field? hv, same_text key, hEach key v w hv hw⟩

/-- Equality does not look at the order of entries. -/
theorem Comparable.same_of_reordered {v w : Value} (hv : v.Comparable)
    (h : v.Reordered w) : w.Same v := by
  induction hv generalizing w with
  | atom hAtom =>
      cases h with
      | refl => exact hAtom.same_self
      | list h => cases hAtom
      | mapping hKeys hPerm h => cases hAtom
  | keyword k =>
      cases h with
      | refl => simp [Same, same]
  | @list xs hxs ih =>
      have hAll : ∀ {ys}, List.Forall₂ Reordered xs ys →
          (Value.list ys).Same (.list xs) := by
        intro ys hys
        rw [same_list_iff]
        exact (forall₂_imp_of_mem hys fun x hx y _ hxy => ih x hx hxy).flip
      cases h with
      | refl => exact hAll (List.forall₂_same.mpr fun x _ => .refl x)
      | list h => exact hAll h
  | @mapping es hKeys hes ih =>
      cases h with
      | refl =>
          refine same_mapping_of_perm hKeys (.refl _) fun key v w hv hw => ?_
          rw [hv] at hw
          exact ih _ (mem_of_field? hv) (Option.some.inj hw ▸ .refl v)
      | mapping _ hPerm hEach =>
          exact same_mapping_of_perm hKeys hPerm fun key v w hv hw =>
            ih _ (mem_of_field? hv) (hEach key v w hv hw)

theorem Comparable.same_self {v : Value} (h : v.Comparable) : v.Same v :=
  h.same_of_reordered (.refl v)

theorem Plain.same_self {v : Value} (h : v.Plain) : v.Same v :=
  h.comparable.same_self

theorem Coded.same_self {v : Value} (h : v.Coded) : v.Same v :=
  h.comparable.same_self

/-! ## Parts of data -/

section Parts

variable {es : Entries}

theorem Plain.field {key : String} {v : Value} (h : (Value.mapping es).Plain)
    (hv : field? key es = some v) : v.Plain :=
  h.mapping_cases.2 _ (mem_of_field? hv)

/-- A missing field counts as null. -/
theorem Plain.field_getD {key : String} (h : (Value.mapping es).Plain) :
    ((field? key es).getD .null).Plain := by
  cases hv : field? key es with
  | none => exact .atom .null
  | some v => exact h.field hv

/-- Iterating over data yields data. -/
theorem Plain.elements {v : Value} {xs : List Value} (h : v.Plain)
    (hxs : v.elements? = some xs) : ∀ x ∈ xs, x.Plain := by
  cases h with
  | atom hAtom =>
      cases hAtom with
      | text s =>
          obtain rfl := Option.some.inj hxs
          rw [List.forall_mem_map]
          exact fun c _ => .atom (.text _)
      | _ => cases hxs
  | list h =>
      obtain rfl := Option.some.inj hxs
      exact h
  | mapping hKeys _ =>
      obtain rfl := Option.some.inj hxs
      rw [List.forall_mem_map]
      intro e he
      obtain ⟨key, hKey⟩ := hKeys.texts e he
      rw [hKey]
      exact .atom (.text key)

/-- Setting entries keeps what holds of all keys and of all values. -/
theorem forall_mem_put {p q : Value → Prop} {key value : Value} (hKey : p key)
    (hValue : q value) (h : ∀ e ∈ es, p e.1 ∧ q e.2) :
    ∀ e ∈ put key value es, p e.1 ∧ q e.2 := by
  induction es with
  | nil =>
      rw [put, List.forall_mem_singleton]
      exact ⟨hKey, hValue⟩
  | cons e es ih =>
      obtain ⟨k, v⟩ := e
      obtain ⟨hHead, hTail⟩ := List.forall_mem_cons.mp h
      rw [put]
      split
      · exact List.forall_mem_cons.mpr ⟨⟨hHead.1, hValue⟩, hTail⟩
      · exact List.forall_mem_cons.mpr ⟨hHead, ih hTail⟩

theorem forall_mem_entriesOf {p q : Value → Prop} {pairs : Entries}
    (h : ∀ e ∈ pairs, p e.1 ∧ q e.2) : ∀ e ∈ entriesOf pairs, p e.1 ∧ q e.2 := by
  have hFold : ∀ es : Entries, (∀ e ∈ es, p e.1 ∧ q e.2) →
      ∀ e ∈ pairs.foldl (fun es e => put e.1 e.2 es) es, p e.1 ∧ q e.2 := by
    induction pairs with
    | nil => exact fun es hes => hes
    | cons e pairs ih =>
        obtain ⟨hHead, hTail⟩ := List.forall_mem_cons.mp h
        exact fun es hes => ih hTail _ (forall_mem_put hHead.1 hHead.2 hes)
  exact hFold [] fun e he => absurd he List.not_mem_nil

/-- Setting entries with different text keys one after the other yields them. -/
theorem entriesOf_eq_self {es : Entries} (h : HasTextKeys es) : entriesOf es = es := by
  have hPut : ∀ (done : Entries) (e : Value × Value), HasTextKeys (done ++ [e]) →
      put e.1 e.2 done = done ++ [e] := by
    intro done e hKeys
    induction done with
    | nil => rfl
    | cons f done ih =>
        obtain ⟨k, v⟩ := f
        obtain ⟨key, hKey⟩ := hKeys.texts (k, v) (by simp)
        obtain ⟨key', hKey'⟩ := hKeys.texts e (by simp)
        obtain rfl : k = .text key := hKey
        have hApart : key ≠ key' := by
          rintro rfl
          have hNodup := hKeys.nodup
          simp [hKey'] at hNodup
        have hNot : (Value.text key).same e.1 = false := by
          rw [hKey', same]
          simpa using hApart
        rw [put, hNot, if_neg Bool.false_ne_true, ih hKeys.of_cons, List.cons_append]
  have hFold : ∀ done rest : Entries, HasTextKeys (done ++ rest) →
      rest.foldl (fun es e => put e.1 e.2 es) done = done ++ rest := by
    intro done rest hKeys
    induction rest generalizing done with
    | nil => rw [List.foldl_nil, List.append_nil]
    | cons e rest ih =>
        have hAppend : done ++ e :: rest = (done ++ [e]) ++ rest := by simp
        rw [hAppend] at hKeys ⊢
        have hFront : HasTextKeys (done ++ [e]) :=
          ⟨fun f hf => hKeys.texts f (List.mem_append_left _ hf), by
            have hNodup := hKeys.nodup
            rw [List.map_append] at hNodup
            exact (List.nodup_append.mp hNodup).1⟩
        rw [List.foldl_cons, hPut done e hFront]
        exact ih _ hKeys
  exact hFold [] es h

private theorem plain_of_pairsOf {items : List Value} (hItems : ∀ x ∈ items, x.Plain)
    (h : pairsOf items = .ok es) : ∀ e ∈ es, e.1.Plain ∧ e.2.Plain := by
  induction items generalizing es with
  | nil =>
      obtain rfl := Except.ok.inj h
      exact fun e he => absurd he List.not_mem_nil
  | cons item items ih =>
      obtain ⟨hHead, hTail⟩ := List.forall_mem_cons.mp hItems
      rw [pairsOf.eq_def] at h
      dsimp only at h
      split at h
      · cases h
      · rename_i k v hPair
        split at h
        · obtain ⟨rest, hRest, h⟩ := bind_eq_ok_iff.mp h
          obtain rfl := Except.ok.inj h
          have hBoth := hHead.elements hPair
          exact List.forall_mem_cons.mpr
            ⟨⟨hBoth k (by simp), hBoth v (by simp)⟩, ih hTail hRest⟩
        · cases h
      · cases h

/-- The entries that data stands for have data for keys and values. -/
theorem Plain.asEntries {v : Value} (h : v.Plain) (hes : v.asEntries = .ok es) :
    ∀ e ∈ es, e.1.Plain ∧ e.2.Plain := by
  have hPairs : ∀ items, (∀ x ∈ items, x.Plain) →
      (pairsOf items >>= fun es => pure (entriesOf es)) = .ok es →
      ∀ e ∈ es, e.1.Plain ∧ e.2.Plain := by
    intro items hItems hes
    obtain ⟨pairs, hPairs, hes⟩ := bind_eq_ok_iff.mp hes
    obtain rfl := Except.ok.inj hes
    exact forall_mem_entriesOf (plain_of_pairsOf hItems hPairs)
  cases h with
  | atom hAtom =>
      cases hAtom with
      | text s => exact hPairs _ (Plain.elements (.atom (.text s)) rfl) hes
      | _ => cases hes
  | list h => exact hPairs _ h hes
  | mapping hKeys h =>
      obtain rfl := Except.ok.inj hes
      intro e he
      obtain ⟨key, hKey⟩ := hKeys.texts e he
      rw [hKey]
      exact ⟨.atom (.text key), h e he⟩

end Parts

end Value

end DatalogFragments
