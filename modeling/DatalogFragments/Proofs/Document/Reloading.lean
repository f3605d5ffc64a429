import DatalogFragments.Proofs.Document.RoundTrip

/-!
# Fragments through JSON text

JSON text is written with the entries of every mapping in the order of their
keys, so this is the order in which a literal value has them after loading.
Nothing else about a fragment changes but its display information.

## Main definitions

* `Fragment.JsonData` — fragments that JSON text can hold;
* `Fragment.Reloads` — a fragment is loaded from the JSON text of another one;
* `Fragment.SortedLiterals` — fragments whose literals are in order already.

## Main results

* `Fragment.Produced.exists_reloaded`, `Fragment.Produced.reloaded` — loading a
  saved fragment goes through, and what it gives;
* `Fragment.Reloaded.clauses_alike` — literals in order stay as they are.
-/

namespace DatalogFragments

namespace Value

/-- A value with the entries of its mappings brought into order. -/
def SortedFrom (w v : Value) : Prop := v.Reordered w ∧ w.KeySorted

/-- JSON text keeps constants, lists and fields, and sorts entries. -/
theorem faithful_keySorted : Faithful fun x y => x.Reordered y ∧ y.KeySorted where
  atom v y hAtom h := faithful_reordered.atom v y hAtom h.1
  list := by
    rintro xs y ⟨hReordered, hSorted⟩
    obtain ⟨ys, rfl, hys⟩ := faithful_reordered.list xs y hReordered
    exact ⟨ys, rfl, forall₂_imp_of_mem hys fun _ _ y hy hxy => ⟨hxy, hSorted.items y hy⟩⟩
  mapping es y h := faithful_reordered.mapping es y h.1
  fields := by
    rintro es fs hKeys ⟨hReordered, hSorted⟩ key
    have hField := faithful_reordered.fields es fs hKeys hReordered key
    have hEntries := hSorted.mapping_cases.2
    cases hw : field? key fs with
    | none =>
        rw [hw] at hField
        generalize field? key es = v at hField ⊢
        cases hField
        exact .none
    | some w =>
        rw [hw] at hField
        generalize field? key es = v at hField ⊢
        cases hField with
        | some hvw => exact .some ⟨hvw, hEntries _ (mem_of_field? hw)⟩

end Value

namespace Term

/-- Like clauses are as alike as what is known of one of them allows. -/
theorem Alike.imp_over {S P : Value → Value → Prop} {I V : Value → Prop} {t u : Clause}
    (ht : t.Over I V) (hSP : ∀ w v, S w v → V v → P w v) (h : u.Alike S t) :
    u.Alike P t := by
  induction ht generalizing u with
  | sym hInfo =>
      cases h with
      | sym h => exact .sym h
  | seq _ _ ih =>
      cases h with
      | seq h => exact .seq (forall₂_imp_of_mem h fun u _ t ht hut => ih t ht hut)
  | vec _ _ ih =>
      cases h with
      | vec h => exact .vec (forall₂_imp_of_mem h fun u _ t ht hut => ih t ht hut)
  | lit hv _ =>
      cases h with
      | lit h => exact .lit (hSP _ _ h hv)

theorem InfoRereads.isMapping {E : Value → Value → Prop} {i j : Option Value} {v : Value}
    (h : InfoRereads E i j) (hv : j = some v) : v.IsMapping := by
  cases h with
  | absent => cases hv
  | dropped => cases hv
  | kept _ _ => exact ⟨_, (Option.some.inj hv).symm⟩

/-- What was read back has mappings for display information. -/
theorem Rereads.infoIsMapping {E R : Value → Value → Prop} {I V : Value → Prop}
    {t u : Clause} (ht : t.Over I V) (h : t.Rereads E R u) :
    ∀ s ∈ u.symbols, ∀ i, s.info = some i → i.IsMapping := by
  induction ht generalizing u with
  | sym _ =>
      cases h with
      | @sym _ s' _ hInfo =>
          intro s hs i hi
          rw [symbols_sym, List.mem_singleton] at hs
          exact hInfo.isMapping (hs ▸ hi)
  | seq _ _ ih =>
      cases h with
      | seq hItems _ =>
          intro s hs
          rw [symbols_seq, symbolsOf_eq_flatMap, List.mem_flatMap] at hs
          obtain ⟨u, hu, hs⟩ := hs
          obtain ⟨t, ht, htu⟩ := exists_of_forall₂_right hItems hu
          exact ih t ht htu s hs
  | vec _ _ ih =>
      cases h with
      | vec hItems _ =>
          intro s hs
          rw [symbols_vec, symbolsOf_eq_flatMap, List.mem_flatMap] at hs
          obtain ⟨u, hu, hs⟩ := hs
          obtain ⟨t, ht, htu⟩ := exists_of_forall₂_right hItems hu
          exact ih t ht htu s hs
  | lit _ _ =>
      cases h with
      | lit _ _ =>
          intro s hs
          rw [symbols_lit] at hs
          exact absurd hs List.not_mem_nil

end Term

namespace Fragment

/-- What JSON text can hold: clauses that consist of terms, values that documents
describe, and plain data in display information and bookkeeping. -/
structure JsonData (f : Fragment) : Prop where
  name : f.IsNamed
  clauses : ∀ t ∈ f.clauses, t.Over (fun i => i.IsMapping ∧ i.Plain) Value.Coded
  arguments : ∀ p ∈ f.lets, p.2.Coded
  extra : (Value.mapping f.extra).Plain

/-- The second fragment is loaded from the JSON text of the first one. -/
def Reloads (f g : Fragment) : Prop :=
  ∃ text, f.toJson = .ok text ∧ ofJson text = .ok g

/-- The entries of every mapping in a literal of the clauses are in the order of
their keys. -/
def SortedLiterals (f : Fragment) : Prop :=
  ∀ t ∈ f.clauses, t.Over (fun _ => True) Value.KeySorted

/-- What is loaded from the JSON text of a fragment. -/
structure Reloaded (f g : Fragment) : Prop where
  wellFormed : g.WellFormed
  alike : g.Alike Value.SortedFrom f
  info : g.InfoIsMapping

/-- Literals that are in order are loaded as they were. -/
theorem Reloaded.clauses_alike {f g : Fragment} (h : f.Reloaded g)
    (hSorted : f.SortedLiterals) :
    List.Forall₂ (Term.Alike Eq) g.clauses f.clauses :=
  forall₂_imp_of_mem h.alike.clauses fun _ _ t ht hut =>
    hut.imp_over (hSorted t ht) fun _ _ hwv hv => hv.eq_of_reordered hwv.2 hwv.1

section Produced

variable {f : Fragment}

/-- A produced fragment is saved and loaded. -/
theorem Produced.exists_reloaded (hf : f.Produced) (hData : f.JsonData) :
    ∃ g, f.Reloads g ∧ f.Reloaded g := by
  have hWell := hf.constructed.wellFormed
  have hForms : ∀ p ∈ f.lets, p.1.isProper = true :=
    fun p hp => (hWell.forms_whole p hp).isProper
  have hRecoverable : f.Recoverable (fun x y => x.Reordered y ∧ y.KeySorted)
      fun w v => w.SortedFrom v ∧ w.FitsLike v :=
    { clauses := fun t ht =>
        (hData.clauses t ht).imp (fun _ => And.left) fun _ => Value.Coded.recovers_keySorted
      forms := hForms
      arguments := fun p hp => (hData.arguments p hp).recovers_keySorted
      locked := hf.isBool_locked }
  obtain ⟨d, hd, hBack⟩ := returns_document Value.faithful_keySorted
    (fun _ _ => And.right) hRecoverable hWell hf.declaresImplied
  have hStorable : f.Storable :=
    { clauses := fun t ht => (hData.clauses t ht).imp (fun _ => And.left)
        fun v hv => ⟨v, hv.ofData_toData, .inl rfl⟩
      arguments := fun p hp => ⟨p.2, (hData.arguments p hp).ofData_toData, .inl rfl⟩ }
  have hPlain : f.IsPlain :=
    { name := hData.name
      clauses := fun t ht => (hData.clauses t ht).imp (fun _ => And.right)
        fun _ => Value.Coded.plain_toData
      arguments := fun p hp => (hData.arguments p hp).plain_toData
      extra := hData.extra }
  obtain ⟨text, y, hText, hRead, hReordered, hSorted⟩ := Json.read_json_keySorted
    (plain_of_toDocument hPlain hStorable hForms hf.isBool_locked hd)
  obtain ⟨g, hg, hRereads⟩ := hBack y ⟨hReordered, hSorted⟩
  refine ⟨g, ⟨text, by rw [toJson, hd, ok_bind, hText], by rw [ofJson, hRead, ok_bind, hg]⟩,
    hRereads.wellFormed hWell fun _ _ => And.right, hRereads.alike fun _ _ => And.left, ?_⟩
  intro s hs
  rw [Term.mem_symbolsOf] at hs
  obtain ⟨u, hu, hs⟩ := hs
  obtain ⟨t, ht, htu⟩ := exists_of_forall₂_right hRereads.clauses hu
  exact htu.infoIsMapping (hData.clauses t ht) s hs

/-- What is loaded is determined by what was saved. -/
theorem Produced.reloaded (hf : f.Produced) (hData : f.JsonData) {g : Fragment}
    (h : f.Reloads g) : f.Reloaded g := by
  obtain ⟨g', ⟨text', hText', hLoad'⟩, hReloaded⟩ := hf.exists_reloaded hData
  obtain ⟨text, hText, hLoad⟩ := h
  obtain rfl := Except.ok.inj (hText'.symm.trans hText)
  obtain rfl := Except.ok.inj (hLoad'.symm.trans hLoad)
  exact hReloaded

end Produced

end Fragment

end DatalogFragments
