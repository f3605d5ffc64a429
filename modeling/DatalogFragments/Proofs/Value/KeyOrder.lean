import DatalogFragments.Proofs.Value.Codec
import Mathlib.Data.List.Sort
import Mathlib.Data.String.Basic

/-!
# Entries in the order of their keys

Rearranging the entries of mappings leaves a value equal to what it was, but its
written form may be another one.  Among the arrangements of a value there is one
at most with every mapping in the order of its keys, so a value that is in this
order already stays as it is.

## Main definitions

* `Value.KeysAscend`, `Value.KeySorted` — mappings in the order of their keys.

## Main results

* `Value.KeySorted.eq_of_reordered` — the arrangement is unique;
* `Value.keySorted_of_ofData` — reading keeps the order;
* `Value.Coded.recovers_keySorted` — what a sorted document gives back.
-/

namespace DatalogFragments

namespace Value

/-- The keys of the entries are texts in ascending order. -/
def KeysAscend (es : Entries) : Prop :=
  ∃ keys : List String, es.map Prod.fst = keys.map Value.text ∧ keys.Pairwise (· < ·)

/-- Data with keywords in which the keys of every mapping ascend. -/
inductive KeySorted : Value → Prop
  | atom {v : Value} (h : v.IsAtom) : KeySorted v
  | keyword (k : String) : KeySorted (.keyword k)
  | list {xs : List Value} (h : ∀ x ∈ xs, KeySorted x) : KeySorted (.list xs)
  | mapping {es : Entries} (hKeys : KeysAscend es) (h : ∀ e ∈ es, KeySorted e.2) :
      KeySorted (.mapping es)

theorem KeySorted.items {xs : List Value} (h : (Value.list xs).KeySorted) :
    ∀ x ∈ xs, x.KeySorted := by
  cases h with
  | atom hAtom => cases hAtom
  | list hxs => exact hxs

theorem KeySorted.mapping_cases {es : Entries} (h : (Value.mapping es).KeySorted) :
    KeysAscend es ∧ ∀ e ∈ es, e.2.KeySorted := by
  cases h with
  | atom hAtom => cases hAtom
  | mapping hKeys hes => exact ⟨hKeys, hes⟩

/-! ## One arrangement at most -/

/-- Ascending keys are determined by what they are. -/
theorem KeysAscend.keys_eq {es fs : Entries} (hes : KeysAscend es) (hfs : KeysAscend fs)
    (hPerm : (es.map Prod.fst).Perm (fs.map Prod.fst)) :
    es.map Prod.fst = fs.map Prod.fst := by
  obtain ⟨keys, hKeys, hAscend⟩ := hes
  obtain ⟨keys', hKeys', hAscend'⟩ := hfs
  have hTexts : Function.Injective Value.text := fun _ _ => Value.text.inj
  rw [hKeys, hKeys', List.map_perm_map_iff hTexts] at hPerm
  rw [hKeys, hKeys', hPerm.eq_of_pairwise (fun a b _ _ hab hba => absurd hba hab.asymm)
    hAscend hAscend']

/-- A rearrangement of entries is one of the entries in any order. -/
theorem Reordered.of_perm {es fs : Entries} {w : Value} (h : (Value.mapping fs).Reordered w)
    (hKeys : HasTextKeys es) (hPerm : es.Perm fs) : (Value.mapping es).Reordered w := by
  have hField : ∀ key v, field? key es = some v ↔ field? key fs = some v := by
    intro key v
    rw [field?_eq_some_iff hKeys, field?_eq_some_iff (hKeys.congr (hPerm.map _)),
      hPerm.mem_iff]
  cases h with
  | refl =>
      refine .mapping hKeys (hPerm.map _) fun key v w hv hw => ?_
      obtain rfl := Option.some.inj (((hField key v).mp hv).symm.trans hw)
      exact .refl v
  | mapping _ hPerm' hEach =>
      exact .mapping hKeys ((hPerm.map _).trans hPerm') fun key v w hv hw =>
        hEach key v w ((hField key v).mp hv) hw

/-- A value whose entries are in order, rearranged into order, is the value. -/
theorem KeySorted.eq_of_reordered {v w : Value} (hv : v.KeySorted) (hw : w.KeySorted)
    (h : v.Reordered w) : w = v := by
  induction hv generalizing w with
  | atom hAtom =>
      cases h with
      | refl => rfl
      | list h => cases hAtom
      | mapping hKeys hPerm h => cases hAtom
  | keyword k =>
      cases h
      rfl
  | @list xs hxs ih =>
      cases h with
      | refl => rfl
      | @list _ ys hys =>
          have hEq : List.Forall₂ (fun x y => x = y) xs ys :=
            forall₂_imp_of_mem hys fun x hx y hy hxy =>
              (ih x hx (hw.items y hy) hxy).symm
          rw [List.forall₂_eq_eq_eq] at hEq
          rw [hEq]
  | @mapping es hAscend hes ih =>
      cases h with
      | refl => rfl
      | @mapping _ fs hKeys hPerm hEach =>
          obtain ⟨hAscend', hfs⟩ := hw.mapping_cases
          have hSame : List.Forall₂ (fun e f : Value × Value => e.1 = f.1) es fs := by
            rw [← List.forall₂_map_right_iff, ← List.forall₂_map_left_iff,
              hAscend.keys_eq hAscend' hPerm, List.forall₂_same]
            exact fun _ _ => rfl
          have hEq : List.Forall₂ (fun e f : Value × Value => e = f) es fs := by
            refine forall₂_imp_of_mem hSame ?_
            rintro ⟨k, v⟩ he ⟨k', w⟩ hf hkk'
            obtain rfl : k = k' := hkk'
            obtain ⟨key, hKey⟩ := hKeys.texts _ he
            obtain rfl : k = .text key := hKey
            have hv := (field?_eq_some_iff hKeys key v).mpr he
            have hw := (field?_eq_some_iff (hKeys.congr hPerm) key w).mpr hf
            obtain rfl : w = v := ih _ he (hfs _ hf) (hEach key v w hv hw)
            rfl
          rw [List.forall₂_eq_eq_eq] at hEq
          rw [hEq]

/-! ## Documents -/

/-- Reading keeps the order of entries. -/
theorem keySorted_of_ofData {y w : Value} (hy : y.KeySorted) (h : ofData y = .ok w) :
    w.KeySorted := by
  induction hy generalizing w with
  | @atom y hAtom =>
      have hSame : ofData y = .ok y := by cases hAtom <;> rfl
      rw [hSame] at h
      exact Except.ok.inj h ▸ .atom hAtom
  | keyword k => exact Except.ok.inj h ▸ .keyword k
  | @list xs hxs ih =>
      obtain ⟨ws, rfl, hws⟩ := ofData_list_eq_ok_iff.mp h
      refine .list fun w hw => ?_
      obtain ⟨x, hx, hxw⟩ := exists_of_forall₂_right hws hw
      exact ih x hx hxw
  | @mapping es hKeys hes ih =>
      by_cases hTag : hasTag "kw" es = true
      · obtain ⟨name, -, rfl⟩ := (ofData_mapping_of_tag hTag).mp h
        obtain ⟨k, hk, -⟩ := keywordOf_cases name
        rw [hk]
        exact .keyword k
      · rw [Bool.not_eq_true] at hTag
        obtain ⟨fs, rfl, hfs⟩ := (ofData_mapping_eq_ok_iff hTag).mp h
        obtain ⟨keys, hTexts, hAscend⟩ := hKeys
        refine .mapping ⟨keys, ?_, hAscend⟩ ?_
        · rw [← hTexts]
          exact (map_eq_of_forall₂ hfs fun _ _ _ hef => hef.1.symm).symm
        · intro f hf
          obtain ⟨e, he, -, hef⟩ := exists_of_forall₂_right hfs hf
          exact ih e he hef

/-- What documents describe is written as plain data. -/
theorem Coded.plain_toData {v : Value} (h : v.Coded) : v.toData.Plain :=
  h.comparable.plain_toData

/-- What is read from a document in order is the value with its entries in
order. -/
theorem Coded.recovers_keySorted {v : Value} (h : v.Coded) :
    v.Recovers (fun x y => x.Reordered y ∧ y.KeySorted)
      fun w v => (v.Reordered w ∧ w.KeySorted) ∧ w.FitsLike v := by
  rintro y ⟨hReordered, hSorted⟩
  obtain ⟨w, hRead, hvw⟩ := ofData_reordered h.plain_toData h.ofData_toData hReordered
  exact ⟨w, hRead, ⟨hvw, keySorted_of_ofData hSorted hRead⟩, hvw.fitsLike⟩

end Value

end DatalogFragments
