import DatalogFragments.Edn
import DatalogFragments.Proofs.Fragment.Alike
import DatalogFragments.Proofs.Listing

/-!
# The order of the members of a set

A set has no order of its own: its members may be enumerated in any order, and so
may those of the sets among them.  The text of a set has the texts of its members
sorted, and a sorted list of texts does not tell where it came from.  As the texts
of the parts of a value determine its text, the order of the members of a set
anywhere inside a value leaves no trace.

## Main definitions

* `Value.Reenumerated` — the same value with the members of its sets in any order.

## Main results

* `Value.sameResult_edn_set` — the members of one set in another order;
* `Value.sameResult_edn`, `Term.sameResult_edn` — the sets of a value and of a
  clause, at any depth;
* `Value.edn_reenumerated` — the text of a value.
-/

namespace DatalogFragments

namespace Value

/-- The same value, with the members of its sets enumerated in any order, at any
depth: in collections, in keys and values of mappings, in the literals of terms.
Display information, which is not written, does not count. -/
inductive Reenumerated : Value → Value → Prop
  | refl (v : Value) : Reenumerated v v
  | list {xs ys : List Value} (h : List.Forall₂ Reenumerated xs ys) :
      Reenumerated (.list xs) (.list ys)
  | tuple {xs ys : List Value} (h : List.Forall₂ Reenumerated xs ys) :
      Reenumerated (.tuple xs) (.tuple ys)
  | set {xs ys zs : List Value} (h : List.Forall₂ Reenumerated xs ys)
      (hOrder : ys.Perm zs) : Reenumerated (.set xs) (.set zs)
  | frozenSet {xs ys zs : List Value} (h : List.Forall₂ Reenumerated xs ys)
      (hOrder : ys.Perm zs) : Reenumerated (.frozenSet xs) (.frozenSet zs)
  | mapping {es fs : Entries}
      (hKeys : List.Forall₂ Reenumerated (es.map Prod.fst) (fs.map Prod.fst))
      (hValues : List.Forall₂ Reenumerated (es.map Prod.snd) (fs.map Prod.snd)) :
      Reenumerated (.mapping es) (.mapping fs)
  | term {t u : Clause} (h : t.Alike Reenumerated u) : Reenumerated (.term t) (.term u)

/-! ## Members in any order -/

theorem sortTexts_pair (a b : String) :
    sortTexts [a, b] = if a ≤ b then [a, b] else [b, a] := by
  simp [sortTexts, List.mergeSort, List.merge]

/-- The written form of a set with the given texts of its members. -/
def setText (texts : List String) : String :=
  "#\x7b" ++ Edn.spaced (sortTexts texts) ++ "\x7d"

theorem edn_set (xs : List Value) :
    (Value.set xs).edn = ednAll xs >>= fun texts => .ok (setText texts) := by
  rw [edn]
  rfl

theorem edn_frozenSet (xs : List Value) : (Value.frozenSet xs).edn = (Value.set xs).edn := by
  rw [edn, edn]

theorem ednAll_eq_mapM (xs : List Value) : ednAll xs = xs.mapM edn := by
  induction xs with
  | nil =>
      rw [ednAll, List.mapM_nil]
      rfl
  | cons x xs ih => rw [ednAll, ih, List.mapM_cons]

/-- Members in another order have the same texts in another order. -/
theorem exists_ednAll_perm {xs ys : List Value} (h : xs.Perm ys) {texts : List String}
    (hTexts : ednAll xs = .ok texts) :
    ∃ texts', ednAll ys = .ok texts' ∧ texts'.Perm texts := by
  rw [ednAll_eq_mapM, mapM_eq_ok_iff] at hTexts
  obtain ⟨texts', hTexts', hPerm⟩ := List.perm_comp_forall₂ h.symm hTexts
  exact ⟨texts', by rw [ednAll_eq_mapM, mapM_eq_ok_iff.mpr hTexts'], hPerm⟩

/-- Sorting the texts of the members takes away the order of the members. -/
theorem sameResult_edn_set {xs ys : List Value} (h : xs.Perm ys) :
    SameResult (Value.set xs).edn (Value.set ys).edn := by
  have hStep : ∀ {xs ys : List Value} {text : String}, xs.Perm ys →
      (Value.set xs).edn = .ok text → (Value.set ys).edn = .ok text := by
    intro xs ys text h hText
    rw [edn_set, bind_eq_ok_iff] at hText ⊢
    obtain ⟨texts, hTexts, hSorted⟩ := hText
    obtain ⟨texts', hTexts', hPerm⟩ := exists_ednAll_perm h hTexts
    refine ⟨texts', hTexts', ?_⟩
    rw [← hSorted, setText, setText, sortTexts_congr hPerm]
  exact fun text => ⟨hStep h, hStep h.symm⟩

end Value

/-! ## Any depth -/

open Value (Reenumerated)

mutual

theorem Value.sameResult_edn : ∀ v w : Value, v.Reenumerated w → SameResult v.edn w.edn
  | .list xs => by
      intro _ h
      cases h with
      | refl => exact .refl _
      | list h =>
          rw [Value.edn, Value.edn]
          exact (Value.sameResult_ednAll xs _ h).bind fun _ => .refl _
  | .tuple xs => by
      intro _ h
      cases h with
      | refl => exact .refl _
      | tuple h =>
          rw [Value.edn, Value.edn]
          exact (Value.sameResult_ednAll xs _ h).bind fun _ => .refl _
  | .set xs => by
      intro _ h
      cases h with
      | refl => exact .refl _
      | set h hOrder =>
          refine .trans ?_ (Value.sameResult_edn_set hOrder)
          rw [Value.edn_set, Value.edn_set]
          exact (Value.sameResult_ednAll xs _ h).bind fun _ => .refl _
  | .frozenSet xs => by
      intro _ h
      cases h with
      | refl => exact .refl _
      | frozenSet h hOrder =>
          rw [Value.edn_frozenSet, Value.edn_frozenSet]
          refine .trans ?_ (Value.sameResult_edn_set hOrder)
          rw [Value.edn_set, Value.edn_set]
          exact (Value.sameResult_ednAll xs _ h).bind fun _ => .refl _
  | .mapping es => by
      intro _ h
      cases h with
      | refl => exact .refl _
      | mapping hKeys hValues =>
          rw [Value.edn, Value.edn]
          exact (Value.sameResult_ednEntries es _ hKeys hValues).bind fun _ => .refl _
  | .term t => by
      intro _ h
      cases h with
      | refl => exact .refl _
      | term h =>
          rw [Value.edn, Value.edn]
          exact Term.sameResult_edn t _ h
  | .null | .bool _ | .int _ | .float _ | .text _ | .bytes _ | .keyword _ | .stream _
  | .date _ | .moment _ | .misnamed .. | .collForm _ | .tupForm _ => by
      intro _ h
      cases h
      exact .refl _

theorem Value.sameResult_ednAll : ∀ xs ys : List Value,
    List.Forall₂ Reenumerated xs ys → SameResult (Value.ednAll xs) (Value.ednAll ys)
  | [] => by
      intro _ h
      cases h
      exact .refl _
  | x :: xs => by
      intro _ h
      cases h with
      | cons hHead hTail =>
          rw [Value.ednAll, Value.ednAll]
          exact (Value.sameResult_edn x _ hHead).bind fun _ =>
            (Value.sameResult_ednAll xs _ hTail).bind fun _ => .refl _

theorem Value.sameResult_ednEntries : ∀ es fs : Entries,
    List.Forall₂ Reenumerated (es.map Prod.fst) (fs.map Prod.fst) →
    List.Forall₂ Reenumerated (es.map Prod.snd) (fs.map Prod.snd) →
    SameResult (Value.ednEntries es) (Value.ednEntries fs)
  | [] => by
      intro fs hKeys _
      obtain rfl : fs = [] := by simpa using hKeys
      exact .refl _
  | (k, v) :: es => by
      intro fs hKeys hValues
      match fs with
      | [] => cases hKeys
      | (k', v') :: fs =>
          rw [List.map_cons, List.map_cons, List.forall₂_cons] at hKeys hValues
          rw [Value.ednEntries, Value.ednEntries]
          exact (Value.sameResult_edn k _ hKeys.1).bind fun _ =>
            (Value.sameResult_edn v _ hValues.1).bind fun _ =>
              (Value.sameResult_ednEntries es _ hKeys.2 hValues.2).bind fun _ => .refl _

theorem Term.sameResult_edn : ∀ t u : Clause,
    t.Alike Reenumerated u → SameResult t.edn u.edn
  | .sym s => by
      intro _ h
      cases h with
      | sym h =>
          rw [Term.edn, Term.edn, h]
          exact .refl _
  | .seq xs _ => by
      intro _ h
      cases h with
      | seq h =>
          rw [Term.edn, Term.edn]
          exact (Term.sameResult_ednItems xs _ h).bind fun _ => .refl _
  | .vec xs _ => by
      intro _ h
      cases h with
      | vec h =>
          rw [Term.edn, Term.edn]
          exact (Term.sameResult_ednItems xs _ h).bind fun _ => .refl _
  | .lit v _ => by
      intro _ h
      cases h with
      | lit h =>
          rw [Term.edn, Term.edn]
          exact Value.sameResult_edn v _ h
  | .stray v => by
      intro _ h
      cases h with
      | stray h =>
          rw [Term.edn, Term.edn]
          exact Value.sameResult_edn v _ h

theorem Term.sameResult_ednItems : ∀ ts us : List Clause,
    List.Forall₂ (Term.Alike Reenumerated) ts us →
    SameResult (Term.ednItems ts) (Term.ednItems us)
  | [] => by
      intro _ h
      cases h
      exact .refl _
  | t :: ts => by
      intro _ h
      cases h with
      | cons hHead hTail =>
          rw [Term.ednItems, Term.ednItems]
          exact (Term.sameResult_edn t _ hHead).bind fun _ =>
            (Term.sameResult_ednItems ts _ hTail).bind fun _ => .refl _

end

/-- Two values that differ in the order of the members of their sets only are both
written as the same text, if they have a text at all. -/
theorem Value.edn_reenumerated {v w : Value} (h : v.Reenumerated w) (text : String) :
    v.edn = .ok text ↔ w.edn = .ok text :=
  Value.sameResult_edn v w h text

namespace Value

/-- A set in a set, a set as a key, and a set in a literal of a clause. -/
def nestedSets : Value :=
  .list [.set [.frozenSet [.int 1, .int 2], .text "a"],
    .mapping [(.frozenSet [.text "x", .text "y"],
      .term (.vector [.named "?e", .literal (.set [.bool true, .null])]))]]

/-- The same sets, each enumerated the other way round. -/
def nestedSetsReversed : Value :=
  .list [.set [.text "a", .frozenSet [.int 2, .int 1]],
    .mapping [(.frozenSet [.text "y", .text "x"],
      .term (.vector [.named "?e", .literal (.set [.null, .bool true])]))]]

/-- How both are written: members go by their texts. -/
def nestedSetsText : String :=
  "[#\x7b\"a\" #\x7b1 2\x7d\x7d \x7b#\x7b\"x\" \"y\"\x7d [?e #\x7bnil true\x7d]\x7d]"

theorem edn_reenumerated_nestedSets :
    nestedSets.Reenumerated nestedSetsReversed ∧
      nestedSets.edn = .ok nestedSetsText ∧ nestedSetsReversed.edn = .ok nestedSetsText := by
  have hPair : ∀ x y : Value, List.Forall₂ Reenumerated [x, y] [x, y] :=
    fun x y => List.forall₂_same.mpr fun v _ => .refl v
  have hFrozen : ∀ x y : Value, (Value.frozenSet [x, y]).Reenumerated (.frozenSet [y, x]) :=
    fun x y => .frozenSet (hPair x y) (.swap ..)
  have hOuter : (Value.set [.frozenSet [.int 1, .int 2], .text "a"]).Reenumerated
      (.set [.text "a", .frozenSet [.int 2, .int 1]]) :=
    .set (.cons (hFrozen _ _) (.cons (.refl _) .nil)) (.swap ..)
  have hClause : (Term.vector [.named "?e", .literal (.set [.bool true, .null])]).Alike
      Reenumerated (.vector [.named "?e", .literal (.set [.null, .bool true])]) :=
    .vec (.cons (.sym rfl) (.cons (.lit (.set (hPair _ _) (.swap ..))) .nil))
  have hSets : nestedSets.Reenumerated nestedSetsReversed :=
    .list (.cons hOuter (.cons (.mapping (.cons (hFrozen _ _) .nil)
      (.cons (.term hClause) .nil)) .nil))
  have hText : nestedSets.edn = .ok nestedSetsText := by
    simp only [nestedSets, edn, ednAll, ednEntries, Term.edn, Term.ednItems, Term.vector,
      Term.named, Term.literal, Symbol.plain, ok_bind, pure_bind, sortTexts_pair]
    rfl
  exact ⟨hSets, hText, (edn_reenumerated hSets _).mp hText⟩

end Value

end DatalogFragments
