import DatalogFragments.Proofs.Value.Plain

/-!
# Values in documents

A keyword is written into a document as a mapping with the type `kw`, and a
tuple as a list.  Reading undoes the first, so a value survives a document
unless it holds a tuple or a mapping that looks like a keyword.  Whatever was
read from a document survives the next one.

## Main results

* `Value.coded_of_ofData`, `Value.Coded.ofData_toData` — what is read from plain
  data is written and read back as it is;
* `Value.ofData_reordered` — reading does not depend on the order of entries;
* `Value.eq_of_same_ofData` — a value whose writing is plain and that equals
  what is read back is what is read back;
* `Value.Restores.recovers`, `Value.Restores.recovers_reordered` — a value that
  survives is taken for what it was, as an argument and in a comparison.
-/

namespace DatalogFragments

namespace Value

/-! ## Both directions, item by item -/

theorem toDataAll_eq_map (xs : List Value) : toDataAll xs = xs.map toData := by
  induction xs with
  | nil => rfl
  | cons x xs ih => rw [toDataAll, ih, List.map_cons]

theorem toDataEntries_eq_map (es : Entries) :
    toDataEntries es = es.map fun e => (e.1, e.2.toData) := by
  induction es with
  | nil => rfl
  | cons e es ih =>
      obtain ⟨k, v⟩ := e
      rw [toDataEntries, ih, List.map_cons]

theorem ofDataAll_eq_mapM (xs : List Value) : ofDataAll xs = xs.mapM ofData := by
  induction xs with
  | nil => rfl
  | cons x xs ih =>
      rw [ofDataAll, ih, List.mapM_cons]

theorem ofDataEntries_eq_ok_iff {es fs : Entries} :
    ofDataEntries es = .ok fs ↔
      List.Forall₂ (fun e f => f.1 = e.1 ∧ ofData e.2 = .ok f.2) es fs := by
  induction es generalizing fs with
  | nil =>
      rw [ofDataEntries, List.forall₂_nil_left_iff]
      exact ⟨fun h => (Except.ok.inj h).symm, fun h => h ▸ rfl⟩
  | cons e es ih =>
      obtain ⟨k, v⟩ := e
      rw [ofDataEntries, bind_eq_ok_iff]
      constructor
      · rintro ⟨w, hw, h⟩
        obtain ⟨fs', hfs', h⟩ := bind_eq_ok_iff.mp h
        cases h
        exact .cons ⟨rfl, hw⟩ (ih.mp hfs')
      · intro h
        cases h with
        | @cons _ f _ fs' hf hfs =>
            obtain ⟨k', w⟩ := f
            obtain ⟨rfl, hw⟩ := hf
            exact ⟨w, hw, bind_eq_ok_iff.mpr ⟨fs', ih.mpr hfs, rfl⟩⟩

theorem ofData_list_eq_ok_iff {xs : List Value} {w : Value} :
    ofData (.list xs) = .ok w ↔ ∃ ws, w = .list ws ∧
      List.Forall₂ (fun x w => ofData x = .ok w) xs ws := by
  rw [ofData, ofDataAll_eq_mapM, bind_eq_ok_iff]
  simp only [mapM_eq_ok_iff]
  constructor
  · rintro ⟨ws, hws, h⟩
    exact ⟨ws, (Except.ok.inj h).symm, hws⟩
  · rintro ⟨ws, rfl, hws⟩
    exact ⟨ws, hws, rfl⟩

theorem ofData_mapping_eq_ok_iff {es : Entries} {w : Value}
    (hTag : hasTag "kw" es = false) :
    ofData (.mapping es) = .ok w ↔ ∃ fs, w = .mapping fs ∧
      List.Forall₂ (fun e f => f.1 = e.1 ∧ ofData e.2 = .ok f.2) es fs := by
  rw [ofData, hTag, if_neg Bool.false_ne_true, bind_eq_ok_iff]
  simp only [ofDataEntries_eq_ok_iff]
  constructor
  · rintro ⟨fs, hfs, h⟩
    exact ⟨fs, (Except.ok.inj h).symm, hfs⟩
  · rintro ⟨fs, rfl, hfs⟩
    exact ⟨fs, hfs, rfl⟩

/-! ## Keywords -/

theorem hasTag_eq_true_iff (tag : String) (es : Entries) :
    hasTag tag es = true ↔ field? "type" es = some (.text tag) := by
  rw [hasTag]
  split
  · rename_i t h
    rw [h, beq_iff_eq, Option.some.injEq, Value.text.injEq]
  · rename_i h
    exact iff_of_false Bool.false_ne_true (h tag)

theorem keywordOf_cases (name : String) :
    ∃ k, keywordOf name = .keyword k ∧ keywordOf k = .keyword k := by
  by_cases h : (name.toList.head? == some ':') = true
  · refine ⟨name, ?_, ?_⟩ <;> rw [keywordOf, if_pos h]
  · refine ⟨String.ofList (':' :: name.toList), ?_, ?_⟩
    · rw [keywordOf, if_neg h]
    · rw [keywordOf, String.toList_ofList, List.head?_cons, if_pos (by rfl)]

/-- What a written-out keyword is read as. -/
theorem ofData_mapping_of_tag {es : Entries} {w : Value}
    (hTag : hasTag "kw" es = true) :
    ofData (.mapping es) = .ok w ↔
      ∃ name, field? "name" es = some (.text name) ∧ w = keywordOf name := by
  rw [ofData, if_pos hTag, keywordOfEntries]
  split
  · rename_i h
    simp [h]
  · rename_i name h
    simp [h, eq_comm]
  · rename_i h
    simp [h]
  · rename_i v hText hBytes h
    refine iff_of_false (fun h' => nomatch h') ?_
    rintro ⟨name, hName, -⟩
    rw [h, Option.some.injEq] at hName
    exact hText name hName

/-- Nothing but a text is read as a text. -/
theorem ofData_eq_text_iff {v : Value} {s : String} :
    ofData v = .ok (.text s) ↔ v = .text s := by
  cases v with
  | list xs => simp [ofData_list_eq_ok_iff]
  | mapping es =>
      refine iff_of_false (fun h => ?_) (fun h => nomatch h)
      by_cases hTag : hasTag "kw" es = true
      · obtain ⟨name, -, h⟩ := (ofData_mapping_of_tag hTag).mp h
        obtain ⟨k, hk, -⟩ := keywordOf_cases name
        rw [hk] at h
        cases h
      · rw [Bool.not_eq_true] at hTag
        obtain ⟨fs, h, -⟩ := (ofData_mapping_eq_ok_iff hTag).mp h
        cases h
  | _ => simp [ofData]

/-- Entries look like a keyword iff they do so after reading. -/
theorem hasTag_ofData {es fs : Entries}
    (h : List.Forall₂ (fun e f => f.1 = e.1 ∧ ofData e.2 = .ok f.2) es fs) :
    hasTag "kw" fs = hasTag "kw" es := by
  rw [Bool.eq_iff_iff, hasTag_eq_true_iff, hasTag_eq_true_iff]
  have hRel := field?_rel (T := fun v w => ofData v = .ok w) h "type"
  generalize field? "type" es = v, field? "type" fs = w at hRel ⊢
  cases hRel with
  | none => simp
  | some hvw =>
      rw [Option.some.injEq, Option.some.injEq]
      constructor
      · rintro rfl
        exact ofData_eq_text_iff.mp hvw
      · rintro rfl
        exact (Except.ok.inj hvw).symm

/-! ## What is read from plain data -/

/-- What is read from plain data is plain data with keywords. -/
theorem coded_of_ofData {x v : Value} (hx : x.Plain) (h : ofData x = .ok v) :
    v.Coded := by
  induction hx generalizing v with
  | @atom x hAtom =>
      have hSame : ofData x = .ok x := by cases hAtom <;> rfl
      rw [hSame] at h
      exact Except.ok.inj h ▸ .atom hAtom
  | @list xs hxs ih =>
      obtain ⟨ws, rfl, hws⟩ := ofData_list_eq_ok_iff.mp h
      refine .list fun w hw => ?_
      obtain ⟨x, hx, hxw⟩ := exists_of_forall₂_right hws hw
      exact ih x hx hxw
  | @mapping es hKeys hes ih =>
      by_cases hTag : hasTag "kw" es = true
      · obtain ⟨name, -, rfl⟩ := (ofData_mapping_of_tag hTag).mp h
        exact .ident name
      · rw [Bool.not_eq_true] at hTag
        obtain ⟨fs, rfl, hfs⟩ := (ofData_mapping_eq_ok_iff hTag).mp h
        refine .mapping (hKeys.congr ?_) ((hasTag_ofData hfs).trans hTag) ?_
        · exact .of_eq (map_eq_of_forall₂ hfs fun _ _ _ hef => hef.1.symm)
        · intro f hf
          obtain ⟨e, he, -, hef⟩ := exists_of_forall₂_right hfs hf
          exact ih e he hef

/-- Writing a keyword makes a mapping that is read as the keyword. -/
private theorem ofData_toData_keyword {k : String} (h : keywordOf k = .keyword k) :
    ofData (toData (.keyword k)) = .ok (.keyword k) := by
  rw [toData, ofData_mapping_of_tag rfl]
  exact ⟨k, rfl, h.symm⟩

/-- What documents describe survives a document. -/
theorem Coded.ofData_toData {v : Value} (h : v.Coded) : ofData v.toData = .ok v := by
  induction h with
  | atom hAtom => cases hAtom <;> rfl
  | ident name =>
      obtain ⟨k, hk, hIdent⟩ := keywordOf_cases name
      rw [hk]
      exact ofData_toData_keyword hIdent
  | @list xs hxs ih =>
      rw [toData, toDataAll_eq_map, ofData_list_eq_ok_iff]
      exact ⟨xs, rfl, List.forall₂_map_left_iff.mpr (List.forall₂_same.mpr ih)⟩
  | @mapping es hKeys hTag hes ih =>
      have hRead : List.Forall₂ (fun e f => f.1 = e.1 ∧ ofData e.2 = .ok f.2)
          (toDataEntries es) es := by
        rw [toDataEntries_eq_map, List.forall₂_map_left_iff, List.forall₂_same]
        exact fun e he => ⟨rfl, ih e he⟩
      rw [toData, ofData_mapping_eq_ok_iff ((hasTag_ofData hRead).symm.trans hTag)]
      exact ⟨es, rfl, hRead⟩

/-- Data with keywords is written as plain data. -/
theorem Comparable.plain_toData {v : Value} (h : v.Comparable) : v.toData.Plain := by
  induction h with
  | atom hAtom => cases hAtom <;> simp [toData]
  | keyword k => simp [toData, entry]
  | list _ ih =>
      rw [toData, toDataAll_eq_map, plain_list_iff, List.forall_mem_map]
      exact ih
  | mapping hKeys _ ih =>
      rw [toData, toDataEntries_eq_map, plain_mapping_iff]
      refine ⟨hKeys.congr ?_, ?_⟩
      · rw [List.map_map]
        exact .refl _
      · rw [List.forall_mem_map]
        exact ih

/-! ## The order of entries -/

theorem Reordered.eq_of_text {s : String} {w : Value}
    (h : Reordered (.text s) w) : w = .text s := by
  cases h
  rfl

theorem Reordered.eq_of_eq_text {s : String} {v : Value}
    (h : Reordered v (.text s)) : v = .text s := by
  cases h
  rfl

/-- Entries whose values can all be read are read. -/
private theorem exists_ofDataEntries {fs : Entries}
    (h : ∀ f ∈ fs, ∃ w, ofData f.2 = .ok w) : ∃ gs : Entries,
      List.Forall₂ (fun f g => g.1 = f.1 ∧ ofData f.2 = .ok g.2) fs gs := by
  induction fs with
  | nil => exact ⟨[], .nil⟩
  | cons f fs ih =>
      obtain ⟨⟨w, hw⟩, hRest⟩ := List.forall_mem_cons.mp h
      obtain ⟨gs, hgs⟩ := ih hRest
      exact ⟨(f.1, w) :: gs, .cons ⟨rfl, hw⟩ hgs⟩

section Reordering

variable {es fs : Entries}

/-- Reordered entries have the same texts under each key. -/
private theorem field?_text_iff (hKeys : HasTextKeys es)
    (hPerm : (es.map Prod.fst).Perm (fs.map Prod.fst))
    (hEach : ∀ key v w, field? key es = some v → field? key fs = some w →
      Reordered v w) (key s : String) :
    field? key es = some (.text s) ↔ field? key fs = some (.text s) := by
  have hRel := field?_rel_of_perm hKeys hPerm hEach key
  generalize field? key es = v, field? key fs = w at hRel
  cases hRel with
  | none => simp
  | some hvw =>
      rw [Option.some.injEq, Option.some.injEq]
      constructor
      · rintro rfl
        exact hvw.eq_of_text
      · rintro rfl
        exact hvw.eq_of_eq_text

/-- Under every key of the reordered entries there is a value that is read. -/
private theorem exists_ofData_field (hKeys : HasTextKeys es)
    (hPerm : (es.map Prod.fst).Perm (fs.map Prod.fst))
    (hEach : ∀ key v w, field? key es = some v → field? key fs = some w →
      Reordered v w)
    (hRead : ∀ e ∈ es, ∀ v y, ofData e.2 = .ok v → Reordered e.2 y →
      ∃ w, ofData y = .ok w ∧ Reordered v w) {vs : Entries}
    (hvs : List.Forall₂ (fun e f => f.1 = e.1 ∧ ofData e.2 = .ok f.2) es vs)
    {key : String} {y : Value} (hy : field? key fs = some y) :
    ∃ v w, field? key vs = some v ∧ ofData y = .ok w ∧ Reordered v w := by
  have hx := field?_rel_of_perm hKeys hPerm hEach key
  have hv := field?_rel (T := fun v w => ofData v = .ok w) hvs key
  rw [hy] at hx
  cases hField : field? key es with
  | none =>
      rw [hField] at hx
      cases hx
  | some x =>
      rw [hField] at hx hv
      generalize field? key vs = v' at hv ⊢
      cases hx with
      | some hxy =>
          cases hv with
          | some hv =>
              obtain ⟨w, hw, hvw⟩ := hRead _ (mem_of_field? hField) _ y hv hxy
              exact ⟨_, w, rfl, hw, hvw⟩

/-- A mapping that is no keyword is read entry by entry, in any order. -/
private theorem ofData_mapping_reordered (hKeys : HasTextKeys es)
    (hPerm : (es.map Prod.fst).Perm (fs.map Prod.fst))
    (hEach : ∀ key v w, field? key es = some v → field? key fs = some w →
      Reordered v w)
    (hRead : ∀ e ∈ es, ∀ v y, ofData e.2 = .ok v → Reordered e.2 y →
      ∃ w, ofData y = .ok w ∧ Reordered v w) {vs : Entries}
    (hvs : List.Forall₂ (fun e f => f.1 = e.1 ∧ ofData e.2 = .ok f.2) es vs) :
    ∃ ws : Entries,
      List.Forall₂ (fun f g => g.1 = f.1 ∧ ofData f.2 = .ok g.2) fs ws ∧
      Reordered (.mapping vs) (.mapping ws) := by
  have hKeys' := hKeys.congr hPerm
  have hEntries : ∀ f ∈ fs, ∃ w, ofData f.2 = .ok w := by
    intro f hf
    obtain ⟨key, hKey⟩ := hKeys'.texts f hf
    have hMem : (.text key, f.2) ∈ fs := hKey ▸ hf
    obtain ⟨v, w, -, hw, -⟩ := exists_ofData_field hKeys hPerm hEach hRead hvs
      ((field?_eq_some_iff hKeys' key f.2).mpr hMem)
    exact ⟨w, hw⟩
  obtain ⟨ws, hws⟩ := exists_ofDataEntries hEntries
  have hVKeys : vs.map Prod.fst = es.map Prod.fst :=
    (map_eq_of_forall₂ hvs fun _ _ _ hef => hef.1.symm).symm
  have hWKeys : ws.map Prod.fst = fs.map Prod.fst :=
    (map_eq_of_forall₂ hws fun _ _ _ hfg => hfg.1.symm).symm
  refine ⟨ws, hws, .mapping (hKeys.congr (.of_eq hVKeys.symm)) ?_ ?_⟩
  · rw [hVKeys, hWKeys]
    exact hPerm
  · intro key v w hv hw
    have hRelW := field?_rel (T := fun v w => ofData v = .ok w) hws key
    rw [hw] at hRelW
    cases hy : field? key fs with
    | none =>
        rw [hy] at hRelW
        cases hRelW
    | some y =>
        rw [hy] at hRelW
        obtain ⟨v', w', hv', hw', hvw⟩ :=
          exists_ofData_field hKeys hPerm hEach hRead hvs hy
        cases hRelW with
        | some hyw =>
            obtain rfl : w' = w := Except.ok.inj (hw'.symm.trans hyw)
            obtain rfl : v' = v := Option.some.inj (hv'.symm.trans hv)
            exact hvw

end Reordering

/-- Reading does not depend on the order of entries. -/
theorem ofData_reordered {x y v : Value} (hx : x.Plain) (h : ofData x = .ok v)
    (hxy : x.Reordered y) : ∃ w, ofData y = .ok w ∧ v.Reordered w := by
  induction hx generalizing y v with
  | atom hAtom =>
      cases hxy with
      | refl => exact ⟨v, h, .refl v⟩
      | list h => cases hAtom
      | mapping hKeys hPerm h => cases hAtom
  | @list xs hxs ih =>
      cases hxy with
      | refl => exact ⟨v, h, .refl v⟩
      | @list _ ys hys =>
          obtain ⟨vs, rfl, hvs⟩ := ofData_list_eq_ok_iff.mp h
          obtain ⟨ws, hws, hvw⟩ := exists_forall₂_of_forall₂ hys hvs
            fun x hx y v hxy hv => ih x hx hv hxy
          exact ⟨.list ws, ofData_list_eq_ok_iff.mpr ⟨ws, rfl, hws⟩, .list hvw⟩
  | @mapping es hKeys hes ih =>
      cases hxy with
      | refl => exact ⟨v, h, .refl v⟩
      | @mapping _ fs _ hPerm hEach =>
          have hText := field?_text_iff hKeys hPerm hEach
          by_cases hTag : hasTag "kw" es = true
          · obtain ⟨name, hName, rfl⟩ := (ofData_mapping_of_tag hTag).mp h
            have hTag' : hasTag "kw" fs = true := by
              rw [hasTag_eq_true_iff] at hTag ⊢
              exact (hText _ _).mp hTag
            refine ⟨_, (ofData_mapping_of_tag hTag').mpr ⟨name, ?_, rfl⟩, .refl _⟩
            exact (hText _ _).mp hName
          · have hTag' : hasTag "kw" fs = false := by
              rw [hasTag_eq_true_iff, hText, ← hasTag_eq_true_iff,
                Bool.not_eq_true] at hTag
              exact hTag
            rw [Bool.not_eq_true] at hTag
            obtain ⟨vs, rfl, hvs⟩ := (ofData_mapping_eq_ok_iff hTag).mp h
            obtain ⟨ws, hws, hvw⟩ := ofData_mapping_reordered hKeys hPerm hEach
              (fun e he v y hv hxy => ih e he hv hxy) hvs
            exact ⟨_, (ofData_mapping_eq_ok_iff hTag').mpr ⟨ws, rfl, hws⟩, hvw⟩

/-! ## Values that survive a document -/

/-- The same value or an equal one, as items of lists and entries of mappings are
compared: a nan and a stream equal nothing, yet each is itself. -/
def Equals (w v : Value) : Prop := w = v ∨ w.Same v

/-- Reading what was written gives a value equal to the one at hand. -/
def Restores (v : Value) : Prop := ∃ w, ofData v.toData = .ok w ∧ w.Equals v

private theorem same_keyword_iff {w : Value} {k : String} :
    w.Same (.keyword k) ↔ w = .keyword k := by
  cases w <;> simp [Same, same, sameNumbers, number?]

private theorem same_mapping_cases {w : Value} {es : Entries}
    (h : w.Same (.mapping es)) : ∃ fs, w = .mapping fs := by
  cases w with
  | mapping fs => exact ⟨fs, rfl⟩
  | _ => simp [Same, same, sameNumbers, number?] at h

private theorem text_same_iff {s : String} {w : Value} :
    (Value.text s).Same w ↔ w = .text s := by
  cases w with
  | text t =>
      rw [Same, same, beq_iff_eq, Value.text.injEq]
      exact eq_comm
  | _ => simp [Same, same]

/-- Entries that are equal under the same text keys are the same. -/
private theorem entries_eq_of_same {es fs : Entries} (hKeys : HasTextKeys es)
    (hFields : List.Forall₂ (fun e f => f.1 = e.1 ∧ (f.2.Same e.2 → f.2 = e.2)) es fs)
    (h : ∀ f ∈ fs, ∃ e ∈ es, f.1.Same e.1 ∧ f.2.Same e.2) : fs = es := by
  have hEq : List.Forall₂ (fun e f => e = f) es fs := by
    refine forall₂_imp_of_mem hFields fun e he f hf hef => ?_
    obtain ⟨hKey, hValue⟩ := hef
    obtain ⟨e', he', hSameKey, hSameValue⟩ := h f hf
    obtain ⟨key, hText⟩ := hKeys.texts e he
    rw [hKey, hText, text_same_iff, ← hText] at hSameKey
    obtain rfl : e' = e := List.inj_on_of_nodup_map hKeys.nodup he' he hSameKey
    exact Prod.ext hKey.symm (hValue hSameValue).symm
  rw [List.forall₂_eq_eq_eq] at hEq
  exact hEq.symm

/-- Items that are each read back as equal values are the same. -/
private theorem items_eq_of_same {vs ws : List Value}
    (hRead : List.Forall₂ (fun v w => ofData v.toData = .ok w) vs ws)
    (hSame : List.Forall₂ Same ws vs)
    (hEach : ∀ v ∈ vs, ∀ w, ofData v.toData = .ok w → w.Same v → w = v) : ws = vs := by
  have hEq : List.Forall₂ (fun v w => v = w) vs ws := by
    refine forall₂_imp_of_mem (forall₂_and_iff.mpr ⟨hRead, hSame.flip⟩) ?_
    exact fun v hv w _ hvw => (hEach v hv w hvw.1 hvw.2).symm
  rw [List.forall₂_eq_eq_eq] at hEq
  exact hEq.symm

/-- A mapping is read from entries that do not look like a keyword. -/
private theorem forall₂_of_ofData_mapping {es fs : Entries}
    (h : ofData (.mapping es) = .ok (.mapping fs)) :
    List.Forall₂ (fun e f => f.1 = e.1 ∧ ofData e.2 = .ok f.2) es fs := by
  have hTag : hasTag "kw" es = false := by
    by_contra hTag
    rw [Bool.not_eq_false] at hTag
    obtain ⟨name, -, hName⟩ := (ofData_mapping_of_tag hTag).mp h
    obtain ⟨k, hk, -⟩ := keywordOf_cases name
    exact nomatch hName.trans hk
  obtain ⟨fs', hEq, hfs⟩ := (ofData_mapping_eq_ok_iff hTag).mp h
  rwa [Value.mapping.inj hEq]

/-- If the writing of a value is plain and what is read back equals the value,
it is the value. -/
theorem eq_of_same_ofData {v w : Value} (hPlain : v.toData.Plain)
    (h : ofData v.toData = .ok w) (hSame : w.Same v) : w = v := by
  generalize hx : v.toData = x at hPlain h
  induction hPlain generalizing v w with
  | @atom x hAtom =>
      have hRead : ofData x = .ok x := by cases hAtom <;> rfl
      have hSelf : v = x := by
        cases v <;> first
          | exact hx
          | (rw [toData] at hx; subst hx; cases hAtom)
      rw [hRead] at h
      rw [← Except.ok.inj h, hSelf]
  | @list xs hxs ih =>
      obtain ⟨ws, rfl, hws⟩ := ofData_list_eq_ok_iff.mp h
      cases v with
      | list vs =>
          rw [toData, toDataAll_eq_map, Value.list.injEq] at hx
          subst hx
          rw [List.forall₂_map_left_iff] at hws
          refine congrArg _ (items_eq_of_same hws ((same_list_iff ws vs).mp hSame) ?_)
          exact fun v hv w hw hSame => ih _ (List.mem_map_of_mem hv) hSame rfl hw
      | tuple vs => simp [Same, same] at hSame
      | _ => simp [toData] at hx
  | @mapping es hKeys hes ih =>
      cases v with
      | keyword k =>
          rw [← hx, toData, ofData_mapping_of_tag rfl] at h
          obtain ⟨name, hName, rfl⟩ := h
          obtain rfl : k = name := by simpa [field?, entry] using hName
          exact same_keyword_iff.mp hSame
      | mapping vs =>
          rw [toData, toDataEntries_eq_map, Value.mapping.injEq] at hx
          subst hx
          obtain ⟨fs, rfl⟩ := same_mapping_cases hSame
          have hfs := forall₂_of_ofData_mapping h
          rw [List.forall₂_map_left_iff] at hfs
          have hVKeys : HasTextKeys vs := hKeys.congr (by simp [Function.comp_def])
          refine congrArg _
            (entries_eq_of_same hVKeys ?_ ((same_mapping_iff fs vs).mp hSame).2)
          refine forall₂_imp_of_mem hfs fun e he f _ hef => ⟨hef.1, fun hSame => ?_⟩
          exact ih _ (List.mem_map_of_mem he) hSame rfl hef.2
      | _ => simp [toData] at hx

/-! ## What a value is taken for -/

section Fits

variable {T : Value → Value → Prop}

private theorem checkArguments_of_forall₂ {fs : List Form} {ws vs : List Value}
    (hEach : ∀ f ∈ fs, ∀ w v, T w v → f.checkArgument v = .ok () →
      f.checkArgument w = .ok ()) (h : List.Forall₂ T ws vs)
    (hv : Form.checkArguments fs vs = .ok ()) :
    Form.checkArguments fs ws = .ok () := by
  induction fs generalizing ws vs with
  | nil => rw [Form.checkArguments]
  | cons f fs ih =>
      obtain ⟨hHead, hTail⟩ := List.forall_mem_cons.mp hEach
      cases h with
      | nil => exact hv
      | cons hwv hRest =>
          rw [Form.checkArguments, then_eq_ok_iff] at hv ⊢
          exact ⟨hHead _ _ hwv hv.1, ih hTail hRest hv.2⟩

/-- A form looks at nothing but the lists in an argument, layer by layer: it
takes one argument like another one that agrees with it in these layers. -/
theorem fits_of_layered
    (hLayer : ∀ w v, T w v → v.isCollection = true →
      w = v ∨ ∃ ws vs, w = .list ws ∧ v = .list vs ∧ List.Forall₂ T ws vs)
    (form : Form) {w v : Value} (h : T w v) (hv : form.checkArgument v = .ok ()) :
    form.checkArgument w = .ok () := by
  induction form using Form.induct generalizing w v with
  | hSym s => rw [Form.checkArgument]
  | hStray x => rw [Form.checkArgument]
  | hColl f ih =>
      obtain ⟨hCollection, hEach⟩ := (Form.checkArgument_coll_eq_ok_iff f v).mp hv
      rcases hLayer w v h hCollection with rfl | ⟨ws, vs, rfl, rfl, hItems⟩
      · exact hv
      · refine (Form.checkArgument_coll_eq_ok_iff f _).mpr ⟨rfl, fun hSymbol w hw => ?_⟩
        obtain ⟨v, hv, hwv⟩ := exists_of_forall₂_right hItems.flip hw
        exact ih hwv (hEach hSymbol v hv)
  | hTup fs ih =>
      obtain ⟨hCollection, hArity, hEach⟩ := (Form.checkArgument_tup_eq_ok_iff fs v).mp hv
      rcases hLayer w v h hCollection with rfl | ⟨ws, vs, rfl, rfl, hItems⟩
      · exact hv
      · have hSize : (Value.list ws).size? = (Value.list vs).size? :=
          congrArg some hItems.length_eq
        refine (Form.checkArgument_tup_eq_ok_iff fs _).mpr ⟨rfl, ?_, ?_⟩
        · rw [hSize]
          exact hArity
        · exact checkArguments_of_forall₂ (fun f hf w v => ih f hf) hItems hEach

end Fits

/-- A value that every form takes that takes the other one. -/
def FitsLike (w v : Value) : Prop :=
  ∀ form : Form, form.checkArgument v = .ok () → form.checkArgument w = .ok ()

/-- Whatever a document makes of the writing of a value, what is read from it
is related to the value. -/
def Recovers (E R : Value → Value → Prop) (v : Value) : Prop :=
  ∀ y, E v.toData y → ∃ w, ofData y = .ok w ∧ R w v

/-- What is read back has the layers of what was written. -/
private theorem layers_of_ofData (w v : Value)
    (h : ofData v.toData = .ok w ∧ w.Equals v) (_ : v.isCollection = true) :
    w = v ∨ ∃ ws vs, w = .list ws ∧ v = .list vs ∧
      List.Forall₂ (fun w v => ofData v.toData = .ok w ∧ w.Equals v) ws vs := by
  obtain ⟨hRead, hEq | hSame⟩ := h
  · exact .inl hEq
  cases v with
  | list vs =>
      rw [toData, toDataAll_eq_map] at hRead
      obtain ⟨ws, rfl, hws⟩ := ofData_list_eq_ok_iff.mp hRead
      rw [List.forall₂_map_left_iff] at hws
      have hItems := (same_list_iff ws vs).mp hSame
      exact .inr ⟨ws, vs, rfl, rfl,
        forall₂_and_iff.mpr ⟨hws.flip, hItems.imp fun _ _ => .inr⟩⟩
  | tuple vs =>
      rw [toData] at hRead
      obtain ⟨ws, rfl, -⟩ := ofData_list_eq_ok_iff.mp hRead
      simp [Same, Value.same] at hSame
  | set _ | frozenSet _ | stream _ => exact .inl (Except.ok.inj hRead).symm
  | _ => contradiction

/-- A value that survives is recovered from a document that is handed over as
it is. -/
theorem Restores.recovers {v : Value} (h : v.Restores) :
    v.Recovers Eq fun w v => w.Equals v ∧ w.FitsLike v := by
  rintro y rfl
  obtain ⟨w, hRead, hEquals⟩ := h
  exact ⟨w, hRead, hEquals, fun form =>
    fits_of_layered layers_of_ofData form ⟨hRead, hEquals⟩⟩

private theorem layers_of_reordered (w v : Value) (h : Reordered v w)
    (_ : v.isCollection = true) :
    w = v ∨ ∃ ws vs, w = .list ws ∧ v = .list vs ∧
      List.Forall₂ (fun w v => Reordered v w) ws vs := by
  cases h with
  | refl => exact .inl rfl
  | list h => exact .inr ⟨_, _, rfl, rfl, h.flip⟩
  | mapping hKeys hPerm h => contradiction

/-- A rearranged value is taken by the forms that take the value. -/
theorem Reordered.fitsLike {v w : Value} (h : v.Reordered w) : w.FitsLike v :=
  fun form => fits_of_layered layers_of_reordered form h

/-- It is recovered from a reordered document if its writing is plain. -/
theorem Restores.recovers_reordered {v : Value} (h : v.Restores)
    (hPlain : v.toData.Plain) :
    v.Recovers Reordered fun w v => w.Same v ∧ w.FitsLike v := by
  intro y hy
  obtain ⟨w, hRead, hEquals⟩ := h
  obtain rfl : w = v := hEquals.elim id (eq_of_same_ofData hPlain hRead)
  obtain ⟨u, hu, hwu⟩ := ofData_reordered hPlain hRead hy
  have hComparable : w.Comparable := (coded_of_ofData hPlain hRead).comparable
  exact ⟨u, hu, hComparable.same_of_reordered hwu, hwu.fitsLike⟩

end Value

end DatalogFragments
