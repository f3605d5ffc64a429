import DatalogFragments.Proofs.Fragment.RenamingRun
import Mathlib.Data.List.Forall2

/-!
# Fragments that differ in bookkeeping only

Equality of terms does not look at display information, and it goes by the
equality of the values in literals.  `Term.Alike R` says this for any relation
`R` in the place of that equality: with `Value.Same` it is the equality of
terms, and with a larger relation it also covers values that only their owner
can tell to be equal, such as one source handed over twice.  Fragments are
alike when their clauses, declarations, bindings and selectivities are; name,
lock and entries of the caller do not count.

Like fragments have the same names in the same places, so every class of names
is the same, and they are drawn the same fresh names.

## Main results

* `Value.sameTerms_iff`, `Fragment.same_iff` — alike and equal;
* `Fragment.Alike.privateNames_eq` — the private variables, in order;
* `Fragment.Alike.renamed` — like fragments stay alike under a map of names;
* `renamingOf_eq_of_alike` — the maps that are drawn for like lists.
-/

namespace DatalogFragments

/-! ## Lists, entry by entry -/

section Entrywise

variable {α β γ δ : Type} {T : α → β → Prop} {S : γ → δ → Prop}
  {l : List α} {l' : List β}

theorem forall₂_imp_of_mem {S : α → β → Prop} (h : List.Forall₂ T l l')
    (hEach : ∀ a ∈ l, ∀ b ∈ l', T a b → S a b) : List.Forall₂ S l l' := by
  induction h with
  | nil => exact .nil
  | cons hab _ ih =>
      refine .cons (hEach _ List.mem_cons_self _ List.mem_cons_self hab)
        (ih fun a ha b hb => ?_)
      exact hEach a (List.mem_cons_of_mem _ ha) b (List.mem_cons_of_mem _ hb)

theorem forall₂_congr_of_mem {S : α → β → Prop}
    (hEach : ∀ a ∈ l, ∀ b ∈ l', T a b ↔ S a b) :
    List.Forall₂ T l l' ↔ List.Forall₂ S l l' :=
  ⟨fun h => forall₂_imp_of_mem h fun a ha b hb => (hEach a ha b hb).mp,
    fun h => forall₂_imp_of_mem h fun a ha b hb => (hEach a ha b hb).mpr⟩

theorem forall₂_and_iff {S : α → β → Prop} :
    List.Forall₂ (fun a b => T a b ∧ S a b) l l' ↔
      List.Forall₂ T l l' ∧ List.Forall₂ S l l' := by
  constructor
  · exact fun h => ⟨h.imp fun _ _ => And.left, h.imp fun _ _ => And.right⟩
  · rintro ⟨hT, hS⟩
    induction hT with
    | nil => exact .nil
    | cons hab _ ih =>
        cases hS with
        | cons hab' hS => exact .cons ⟨hab, hab'⟩ (ih hS)

theorem forall₂_map_of_mem {f : α → γ} {g : β → δ} (h : List.Forall₂ T l l')
    (hEach : ∀ a ∈ l, ∀ b, T a b → S (f a) (g b)) :
    List.Forall₂ S (l.map f) (l'.map g) := by
  rw [List.forall₂_map_left_iff, List.forall₂_map_right_iff]
  exact forall₂_imp_of_mem h fun a ha b _ => hEach a ha b

theorem map_eq_of_forall₂ {f : α → γ} {g : β → γ} (h : List.Forall₂ T l l')
    (hEach : ∀ a ∈ l, ∀ b, T a b → f a = g b) : l.map f = l'.map g :=
  List.forall₂_eq_eq_eq ▸ forall₂_map_of_mem h hEach

theorem forall_mem_iff_of_forall₂ {P : α → Prop} {Q : β → Prop}
    (h : List.Forall₂ T l l') (hEach : ∀ a b, T a b → (P a ↔ Q b)) :
    (∀ a ∈ l, P a) ↔ ∀ b ∈ l', Q b := by
  induction h with
  | nil => simp
  | cons hab _ ih => rw [List.forall_mem_cons, List.forall_mem_cons, hEach _ _ hab, ih]

theorem flatMap_eq_of_forall₂ {f : α → List γ} {g : β → List γ}
    (h : List.Forall₂ T l l') (hEach : ∀ a ∈ l, ∀ b, T a b → f a = g b) :
    l.flatMap f = l'.flatMap g := by
  rw [List.flatMap_def, List.flatMap_def, map_eq_of_forall₂ h hEach]

/-- Every entry of the second list has its counterpart. -/
theorem exists_of_forall₂_right (h : List.Forall₂ T l l') {b : β} (hb : b ∈ l') :
    ∃ a ∈ l, T a b := by
  obtain ⟨k, hk, rfl⟩ := List.mem_iff_getElem.mp hb
  exact ⟨_, List.getElem_mem (h.length_eq ▸ hk), h.get _ hk⟩

theorem exists_forall₂_of_mem {R : α → γ → Prop} (h : ∀ a ∈ l, ∃ c, R a c) :
    ∃ cs, List.Forall₂ R l cs := by
  induction l with
  | nil => exact ⟨[], .nil⟩
  | cons a l ih =>
      obtain ⟨⟨c, hc⟩, hTail⟩ := List.forall_mem_cons.mp h
      obtain ⟨cs, hcs⟩ := ih hTail
      exact ⟨c :: cs, .cons hc hcs⟩

/-- Entries that two lists have in common are completed one by one. -/
theorem exists_forall₂_of_forall₂ {R : α → γ → Prop} {U : γ → δ → Prop}
    {V : β → δ → Prop} {l'' : List γ} (h : List.Forall₂ T l l')
    (h' : List.Forall₂ R l l'') (hEach : ∀ a ∈ l, ∀ b c, T a b → R a c →
      ∃ d, V b d ∧ U c d) : ∃ ds, List.Forall₂ V l' ds ∧ List.Forall₂ U l'' ds := by
  induction h generalizing l'' with
  | nil =>
      cases h'
      exact ⟨[], .nil, .nil⟩
  | cons hab _ ih =>
      cases h' with
      | cons hac h' =>
          obtain ⟨hHead, hTail⟩ := List.forall_mem_cons.mp hEach
          obtain ⟨d, hb, hc⟩ := hHead _ _ hab hac
          obtain ⟨ds, hbs, hcs⟩ := ih h' hTail
          exact ⟨d :: ds, .cons hb hbs, .cons hc hcs⟩

/-- Entries that are images have their originals. -/
theorem exists_map_eq_of_forall₂ {f : γ → β} {R : α → γ → Prop}
    (h : List.Forall₂ (fun a b => ∃ c, b = f c ∧ R a c) l l') :
    ∃ cs, l' = cs.map f ∧ List.Forall₂ R l cs := by
  induction h with
  | nil => exact ⟨[], rfl, .nil⟩
  | cons hab _ ih =>
      obtain ⟨c, rfl, hac⟩ := hab
      obtain ⟨cs, rfl, hcs⟩ := ih
      exact ⟨c :: cs, rfl, .cons hac hcs⟩

theorem forall₂_mapIdx {f : Nat → α → γ} {g : Nat → β → δ}
    (h : List.Forall₂ T l l') (hEach : ∀ k a b, T a b → S (f k a) (g k b)) :
    List.Forall₂ S (l.mapIdx f) (l'.mapIdx g) := by
  induction h generalizing f g with
  | nil => exact .nil
  | cons hab _ ih =>
      rw [List.mapIdx_cons, List.mapIdx_cons]
      exact .cons (hEach 0 _ _ hab) (ih fun k => hEach (k + 1))

end Entrywise

/-! ## Terms -/

/-- Equality of values, as a relation. -/
def Value.Same (a b : Value) : Prop := a.same b = true

namespace Term

variable {R : Value → Value → Prop}

/-- Terms of one shape with the same names, and with values related by `R`.
Display information does not count. -/
inductive Alike (R : Value → Value → Prop) : Clause → Clause → Prop
  | sym {s s' : Name} (h : s.name = s'.name) : Alike R (.sym s) (.sym s')
  | seq {xs ys : List Clause} {i j : Option Value}
      (h : List.Forall₂ (Alike R) xs ys) : Alike R (.seq xs i) (.seq ys j)
  | vec {xs ys : List Clause} {i j : Option Value}
      (h : List.Forall₂ (Alike R) xs ys) : Alike R (.vec xs i) (.vec ys j)
  | lit {v w : Value} {i j : Option Value} (h : R v w) :
      Alike R (.lit v i) (.lit w j)
  | stray {v w : Value} (h : R v w) : Alike R (.stray v) (.stray w)

section Cases

variable {xs ys : List Clause} {v w : Value} {i j : Option Value}

theorem alike_sym_iff {s s' : Name} :
    Alike R (.sym s) (.sym s') ↔ s.name = s'.name := by
  refine ⟨fun h => ?_, .sym⟩
  cases h
  assumption

theorem alike_seq_iff :
    Alike R (.seq xs i) (.seq ys j) ↔ List.Forall₂ (Alike R) xs ys := by
  refine ⟨fun h => ?_, .seq⟩
  cases h
  assumption

theorem alike_vec_iff :
    Alike R (.vec xs i) (.vec ys j) ↔ List.Forall₂ (Alike R) xs ys := by
  refine ⟨fun h => ?_, .vec⟩
  cases h
  assumption

theorem alike_lit_iff : Alike R (.lit v i) (.lit w j) ↔ R v w := by
  refine ⟨fun h => ?_, .lit⟩
  cases h
  assumption

theorem alike_stray_iff : Alike R (.stray v) (.stray w) ↔ R v w := by
  refine ⟨fun h => ?_, .stray⟩
  cases h
  assumption

end Cases

/-- Like terms have the same names from left to right. -/
theorem Alike.names_eq {t u : Clause} (h : t.Alike R u) :
    t.symbols.map Symbol.name = u.symbols.map Symbol.name := by
  induction t using Term.induct generalizing u with
  | hSym s =>
      cases h with
      | sym h => exact congrArg (fun n => [n]) h
  | hSeq xs i ih =>
      cases h with
      | seq h =>
          rw [symbols_seq, symbols_seq, symbolsOf_eq_flatMap,
            symbolsOf_eq_flatMap, List.map_flatMap, List.map_flatMap]
          exact flatMap_eq_of_forall₂ h fun x hx y hxy => ih x hx hxy
  | hVec xs i ih =>
      cases h with
      | vec h =>
          rw [symbols_vec, symbols_vec, symbolsOf_eq_flatMap,
            symbolsOf_eq_flatMap, List.map_flatMap, List.map_flatMap]
          exact flatMap_eq_of_forall₂ h fun x hx y hxy => ih x hx hxy
  | hLit v i =>
      cases h with
      | lit h => rfl
  | hStray v =>
      cases h with
      | stray h => rfl

/-- Like terms stay alike under a map of names. -/
theorem Alike.renamed {t u : Clause} (h : t.Alike R u) (ρ : String → String) :
    (t.renamed ρ).Alike R (u.renamed ρ) := by
  induction t using Term.induct generalizing u with
  | hSym s =>
      cases h with
      | sym h =>
          rw [renamed_sym, renamed_sym]
          refine .sym ?_
          rw [Symbol.name_renamed, Symbol.name_renamed, h]
  | hSeq xs i ih =>
      cases h with
      | seq h =>
          rw [renamed_seq, renamed_seq]
          exact .seq (forall₂_map_of_mem h fun x hx y hxy => ih x hx hxy)
  | hVec xs i ih =>
      cases h with
      | vec h =>
          rw [renamed_vec, renamed_vec]
          exact .vec (forall₂_map_of_mem h fun x hx y hxy => ih x hx hxy)
  | hLit v i =>
      cases h with
      | lit h =>
          rw [renamed_lit, renamed_lit]
          exact .lit h
  | hStray v =>
      cases h with
      | stray h =>
          rw [renamed_stray, renamed_stray]
          exact .stray h

/-- What holds of related values, the second of which are related to themselves,
holds of the values of like terms. -/
theorem Alike.imp_self {S T : Value → Value → Prop}
    (hT : ∀ v w, R v w → S w w → T v w) {t u : Clause} (h : t.Alike R u)
    (hSelf : u.Alike S u) : t.Alike T u := by
  have hItems : ∀ {xs ys : List Clause}, List.Forall₂ (Alike R) xs ys →
      List.Forall₂ (Alike S) ys ys →
      (∀ x ∈ xs, ∀ {y : Clause}, x.Alike R y → y.Alike S y → x.Alike T y) →
      List.Forall₂ (Alike T) xs ys := by
    intro xs ys hxy hys hEach
    rw [List.forall₂_same] at hys
    exact forall₂_imp_of_mem hxy fun x hx y hy hAlike => hEach x hx hAlike (hys y hy)
  induction t using Term.induct generalizing u with
  | hSym s =>
      cases h with
      | sym h => exact .sym h
  | hSeq xs i ih =>
      cases h with
      | seq h => exact .seq (hItems h (alike_seq_iff.mp hSelf) ih)
  | hVec xs i ih =>
      cases h with
      | vec h => exact .vec (hItems h (alike_vec_iff.mp hSelf) ih)
  | hLit v i =>
      cases h with
      | lit h => exact .lit (hT _ _ h (alike_lit_iff.mp hSelf))
  | hStray v =>
      cases h with
      | stray h => exact .stray (hT _ _ h (alike_stray_iff.mp hSelf))

/-- Clauses are like themselves. -/
theorem alike_refl (hR : ∀ v, R v v) (t : Clause) : t.Alike R t := by
  induction t using Term.induct with
  | hSym s => exact .sym rfl
  | hSeq xs i ih => exact .seq (List.forall₂_same.mpr ih)
  | hVec xs i ih => exact .vec (List.forall₂_same.mpr ih)
  | hLit v i => exact .lit (hR v)
  | hStray v => exact .stray (hR v)

/-- Clauses are no less alike for a wider relation. -/
theorem Alike.imp {S : Value → Value → Prop} (hRS : ∀ v w, R v w → S v w) {t u : Clause}
    (h : t.Alike R u) : t.Alike S u :=
  h.imp_self (fun v w hvw _ => hRS v w hvw) (u.alike_refl (R := fun _ _ => True) fun _ => trivial)

end Term

/-! ## Equality of terms -/

namespace Value

theorem sameItems_iff (xs ys : List Value) :
    sameItems xs ys = true ↔ List.Forall₂ Same xs ys := by
  induction xs generalizing ys with
  | nil => cases ys <;> simp [sameItems]
  | cons x xs ih =>
      cases ys with
      | nil => simp [sameItems]
      | cons y ys =>
          rw [sameItems, Bool.and_eq_true, ih, List.forall₂_cons, Same]

private theorem sameTerms_iff_of {xs : List Clause}
    (h : ∀ x ∈ xs, ∀ u, sameTerm x u = true ↔ x.Alike Same u)
    (ys : List Clause) :
    sameTerms xs ys = true ↔ List.Forall₂ (Term.Alike Same) xs ys := by
  induction xs generalizing ys with
  | nil => cases ys <;> simp [sameTerms]
  | cons x xs ih =>
      obtain ⟨hHead, hTail⟩ := List.forall_mem_cons.mp h
      cases ys with
      | nil => simp [sameTerms]
      | cons y ys =>
          rw [sameTerms, Bool.and_eq_true, ih hTail, List.forall₂_cons, hHead]

/-- Terms are equal iff they are alike up to equality of values. -/
theorem sameTerm_iff (t u : Clause) :
    sameTerm t u = true ↔ t.Alike Same u := by
  induction t using Term.induct generalizing u with
  | hSym s =>
      cases u with
      | sym s' =>
          rw [sameTerm, beq_iff_eq, Term.alike_sym_iff]
      | _ => exact iff_of_false (by simp [sameTerm]) (by rintro ⟨⟩)
  | hSeq xs i ih =>
      cases u with
      | seq ys j =>
          rw [sameTerm, sameTerms_iff_of ih, Term.alike_seq_iff]
      | _ => exact iff_of_false (by simp [sameTerm]) (by rintro ⟨⟩)
  | hVec xs i ih =>
      cases u with
      | vec ys j =>
          rw [sameTerm, sameTerms_iff_of ih, Term.alike_vec_iff]
      | _ => exact iff_of_false (by simp [sameTerm]) (by rintro ⟨⟩)
  | hLit v i =>
      cases u with
      | lit w j =>
          rw [sameTerm, Term.alike_lit_iff, Same]
      | _ => exact iff_of_false (by simp [sameTerm]) (by rintro ⟨⟩)
  | hStray v =>
      cases u with
      | stray w =>
          rw [sameTerm, Term.alike_stray_iff, Same]
      | _ => exact iff_of_false (by simp [sameTerm]) (by rintro ⟨⟩)

theorem sameTerms_iff (xs ys : List Clause) :
    sameTerms xs ys = true ↔ List.Forall₂ (Term.Alike Same) xs ys :=
  sameTerms_iff_of (fun x _ => sameTerm_iff x) ys

end Value

/-! ## Binding forms -/

namespace Form

/-- Forms of one shape with the same names. -/
inductive Alike : Form → Form → Prop
  | sym {s s' : Name} (h : s.name = s'.name) : Alike (.sym s) (.sym s')
  | coll {f g : Form} (h : Alike f g) : Alike (.coll f) (.coll g)
  | tup {fs gs : List Form} (h : List.Forall₂ Alike fs gs) :
      Alike (.tup fs) (.tup gs)

theorem alike_sym_iff {s s' : Name} :
    Alike (.sym s) (.sym s') ↔ s.name = s'.name := by
  refine ⟨fun h => ?_, .sym⟩
  cases h
  assumption

theorem alike_coll_iff {f g : Form} : Alike (.coll f) (.coll g) ↔ Alike f g := by
  refine ⟨fun h => ?_, .coll⟩
  cases h
  assumption

theorem alike_tup_iff {fs gs : List Form} :
    Alike (.tup fs) (.tup gs) ↔ List.Forall₂ Alike fs gs := by
  refine ⟨fun h => ?_, .tup⟩
  cases h
  assumption

/-- Like forms bind the same names from left to right. -/
theorem Alike.names_eq {f g : Form} (h : f.Alike g) : f.names = g.names := by
  induction f using Form.induct generalizing g with
  | hSym s =>
      cases h with
      | sym h =>
          rw [names, names, symbols, symbols, h]
          split
          · rfl
          · exact congrArg (fun n => [n]) h
  | hColl f ih =>
      cases h with
      | coll h =>
          rw [names, names, symbols_coll, symbols_coll]
          exact ih h
  | hTup fs ih =>
      cases h with
      | tup h =>
          rw [names, names, symbols_tup, symbols_tup, symbolsOf_eq_flatMap,
            symbolsOf_eq_flatMap, List.map_flatMap, List.map_flatMap]
          exact flatMap_eq_of_forall₂ h fun f hf g hfg => ih f hf hfg
  | hStray v => cases h

/-- Like forms stay alike under a map of names. -/
theorem Alike.renamed {f g : Form} (h : f.Alike g) (ρ : String → String) :
    (f.renamed ρ).Alike (g.renamed ρ) := by
  induction f using Form.induct generalizing g with
  | hSym s =>
      cases h with
      | sym h =>
          rw [renamed_sym, renamed_sym]
          refine .sym ?_
          rw [Symbol.name_replaced, Symbol.name_replaced, h]
  | hColl f ih =>
      cases h with
      | coll h =>
          rw [renamed_coll, renamed_coll]
          exact .coll (ih h)
  | hTup fs ih =>
      cases h with
      | tup h =>
          rw [renamed_tup, renamed_tup]
          exact .tup (forall₂_map_of_mem h fun f hf g hfg => ih f hf hfg)
  | hStray v => cases h

theorem Alike.isTuple_eq {f g : Form} (h : f.Alike g) :
    f.isTuple = g.isTuple := by
  cases h <;> rfl

/-- Like forms have like declarations. -/
theorem Alike.render {f g : Form} (h : f.Alike g) (R : Value → Value → Prop) :
    f.render.Alike R g.render := by
  induction f using Form.induct generalizing g with
  | hSym s =>
      cases h with
      | sym h => exact .sym h
  | hColl f ih =>
      cases h with
      | coll h =>
          rw [Form.render, Form.render, h.isTuple_eq]
          split
          · exact .vec (.cons (ih h) .nil)
          · exact .vec (.cons (ih h) (.cons (.sym rfl) .nil))
  | hTup fs ih =>
      cases h with
      | tup h =>
          rw [Form.render, Form.render, renderAll_eq_map, renderAll_eq_map]
          exact .vec (forall₂_map_of_mem h fun f hf g hfg => ih f hf hfg)
  | hStray v => cases h

/-- Forms are equal iff they are alike. -/
theorem alike_iff_same {f g : Form} (hf : f.isProper = true)
    (hg : g.isProper = true) : f.Alike g ↔ f.toValue.Same g.toValue := by
  induction f using Form.induct generalizing g with
  | hSym s =>
      cases g with
      | sym s' =>
          simp only [toValue, Value.ofName, Value.Same, Value.same,
            Value.sameTerm, beq_iff_eq, alike_sym_iff]
      | stray v => cases hg
      | _ => exact iff_of_false (by rintro ⟨⟩) (by simp [toValue, Value.ofName,
          Value.Same, Value.same])
  | hColl f ih =>
      cases g with
      | coll g =>
          rw [toValue, toValue, Value.Same, Value.same, alike_coll_iff]
          exact @ih g hf hg
      | stray v => cases hg
      | _ => exact iff_of_false (by rintro ⟨⟩) (by simp [toValue, Value.ofName,
          Value.Same, Value.same])
  | hTup fs ih =>
      cases g with
      | tup gs =>
          have hfs := (areProper_eq_true_iff fs).mp hf
          have hgs := (areProper_eq_true_iff gs).mp hg
          rw [toValue, toValue, Value.Same, Value.same, Value.sameItems_iff,
            toValues_eq_map, toValues_eq_map, List.forall₂_map_left_iff,
            List.forall₂_map_right_iff, alike_tup_iff]
          exact forall₂_congr_of_mem fun f hf g hg =>
            ih f hf (hfs f hf) (hgs g hg)
      | stray v => cases hg
      | _ => exact iff_of_false (by rintro ⟨⟩) (by simp [toValue, Value.ofName,
          Value.Same, Value.same])
  | hStray v => cases hf

/-- Forms are like themselves. -/
theorem alike_refl {f : Form} (h : f.isProper = true) : f.Alike f := by
  induction f using Form.induct with
  | hSym s => exact .sym rfl
  | hColl f ih => exact .coll (ih h)
  | hTup fs ih =>
      rw [isProper, areProper_eq_true_iff] at h
      exact .tup (List.forall₂_same.mpr fun f hf => ih f hf (h f hf))
  | hStray v => cases h

end Form

/-! ## Lists of symbols with the same names -/

section SameNames

variable {l l' : List Name}

theorem isIn_congr {s s' : Name} (hName : s.name = s'.name)
    (h : l.map Symbol.name = l'.map Symbol.name) : s.isIn l = s'.isIn l' := by
  rw [Bool.eq_iff_iff, isIn_iff, isIn_iff, hName, h]

theorem map_name_eq_iff : l.map Symbol.name = l'.map Symbol.name ↔
    List.Forall₂ (fun s s' : Name => s.name = s'.name) l l' := by
  rw [← List.forall₂_eq_eq_eq, List.forall₂_map_left_iff,
    List.forall₂_map_right_iff]

theorem names_filter_congr {p q : Name → Bool}
    (h : l.map Symbol.name = l'.map Symbol.name)
    (hTest : ∀ s s' : Name, s.name = s'.name → p s = q s') :
    (l.filter p).map Symbol.name = (l'.filter q).map Symbol.name := by
  rw [map_name_eq_iff] at h ⊢
  exact List.rel_filter (fun s s' hs => Bool.eq_iff_iff.mp (hTest s s' hs)) h

theorem names_distinctNames_congr (h : l.map Symbol.name = l'.map Symbol.name) :
    (distinctNames l).map Symbol.name = (distinctNames l').map Symbol.name := by
  rw [map_name_distinctNames, map_name_distinctNames, h]

end SameNames

/-! ## Fragments -/

namespace Fragment

/-- Fragments that differ in bookkeeping only: in display information, name,
lock and the entries of the caller.  Values are compared by `R`. -/
structure Alike (R : Value → Value → Prop) (f g : Fragment) : Prop where
  clauses : List.Forall₂ (Term.Alike R) f.clauses g.clauses
  provide : f.provideNames = g.provideNames
  require : f.requireNames = g.requireNames
  lets : List.Forall₂ (fun p q => p.1.Alike q.1 ∧ R p.2 q.2) f.lets g.lets
  mustLet : f.mustLetNames = g.mustLetNames
  selectivity : f.selectivity = g.selectivity

/-- Fragments are like themselves. -/
theorem alike_refl {R : Value → Value → Prop} (hR : ∀ v, R v v) {f : Fragment}
    (hf : f.WellFormed) : f.Alike R f where
  clauses := List.forall₂_same.mpr fun t _ => t.alike_refl hR
  provide := rfl
  require := rfl
  lets := List.forall₂_same.mpr fun p hp =>
    ⟨Form.alike_refl (hf.forms_whole p hp).isProper, hR p.2⟩
  mustLet := rfl
  selectivity := rfl

/-- Fragments are no less alike for a wider relation. -/
theorem Alike.imp {R S : Value → Value → Prop} (hRS : ∀ v w, R v w → S v w)
    {f g : Fragment} (h : f.Alike R g) : f.Alike S g where
  clauses := h.clauses.imp fun _ _ htu => htu.imp hRS
  provide := h.provide
  require := h.require
  lets := h.lets.imp fun p q hpq => ⟨hpq.1, hRS p.2 q.2 hpq.2⟩
  mustLet := h.mustLet
  selectivity := h.selectivity

/-- Valid fragments are equal iff they are alike and their bookkeeping, apart
from display information, is equal. -/
theorem same_iff {f g : Fragment} (hf : f.WellFormed) (hg : g.WellFormed) :
    f.same g = true ↔ f.Alike Value.Same g ∧ f.name.Same g.name ∧
      f.locked.Same g.locked ∧
      (Value.mapping f.extra).Same (.mapping g.extra) := by
  have hForms : List.Forall₂ (fun p q => p.1.Alike q.1) f.lets g.lets ↔
      List.Forall₂ Value.Same (f.lets.map fun p => p.1.toValue)
        (g.lets.map fun p => p.1.toValue) := by
    rw [List.forall₂_map_left_iff, List.forall₂_map_right_iff]
    exact forall₂_congr_of_mem fun p hp q hq =>
      Form.alike_iff_same (hf.forms_whole p hp).isProper
        (hg.forms_whole q hq).isProper
  have hArguments : List.Forall₂ (fun p q => p.2.Same q.2) f.lets g.lets ↔
      List.Forall₂ Value.Same (f.lets.map Prod.snd) (g.lets.map Prod.snd) := by
    rw [List.forall₂_map_left_iff, List.forall₂_map_right_iff]
  simp only [same, Bool.and_eq_true, beq_iff_eq, Value.sameTerms_iff,
    Value.sameItems_iff, ← hForms, ← hArguments, and_assoc]
  constructor
  · rintro ⟨hName, hClauses, hProvide, hRequire, hLets, hArgs, hMustLet,
      hSelectivity, hLocked, hExtra⟩
    exact ⟨⟨hClauses, hProvide, hRequire, forall₂_and_iff.mpr ⟨hLets, hArgs⟩,
      hMustLet, hSelectivity⟩, hName, hLocked, hExtra⟩
  · rintro ⟨h, hName, hLocked, hExtra⟩
    obtain ⟨hLets, hArgs⟩ := forall₂_and_iff.mp h.lets
    exact ⟨hName, h.clauses, h.provide, h.require, hLets, hArgs, h.mustLet,
      h.selectivity, hLocked, hExtra⟩

namespace Alike

variable {R : Value → Value → Prop} {f g : Fragment}

theorem clauseNames_eq (h : f.Alike R g) : f.clauseNames = g.clauseNames := by
  rw [clauseNames, clauseNames, Term.symbolsOf_eq_flatMap,
    Term.symbolsOf_eq_flatMap, List.map_flatMap, List.map_flatMap]
  exact flatMap_eq_of_forall₂ h.clauses fun _ _ _ htu => htu.names_eq

theorem letNames_eq (h : f.Alike R g) : f.letNames = g.letNames := by
  rw [letNames, letNames, letSymbols, letSymbols, List.map_flatMap,
    List.map_flatMap]
  exact flatMap_eq_of_forall₂ h.lets fun _ _ _ hpq => hpq.1.names_eq

/-- What holds of related values, the second of which are related to themselves,
holds of the values of like fragments. -/
theorem imp_self {S T : Value → Value → Prop} (hT : ∀ v w, R v w → S w w → T v w)
    (h : f.Alike R g) (hSelf : g.Alike S g) : f.Alike T g where
  clauses := forall₂_imp_of_mem h.clauses fun _ _ u hu htu =>
    htu.imp_self hT (List.forall₂_same.mp hSelf.clauses u hu)
  provide := h.provide
  require := h.require
  lets := forall₂_imp_of_mem h.lets fun _ _ q hq hpq =>
    ⟨hpq.1, hT _ _ hpq.2 (List.forall₂_same.mp hSelf.lets q hq).2⟩
  mustLet := h.mustLet
  selectivity := h.selectivity

/-- Like fragments have the same names, in order. -/
theorem names_eq (h : f.Alike R g) : f.names = g.names := by
  rw [names_eq_append, names_eq_append, h.clauseNames_eq, h.provide, h.require, h.mustLet,
    h.letNames_eq]

/-- Like fragments keep the same variables to themselves, in order. -/
theorem privateNames_eq (h : f.Alike R g) : f.privateNames = g.privateNames := by
  have hFirst : (Term.firstSymbols f.clauses).map Symbol.name =
      (Term.firstSymbols g.clauses).map Symbol.name :=
    names_distinctNames_congr h.clauseNames_eq
  have hFree : f.freeNames = g.freeNames :=
    names_filter_congr hFirst fun s s' hs => by
      rw [Symbol.isDeclarable_eq, Symbol.isDeclarable_eq, hs]
  have hAll : (f.freeSymbols ++ f.letSymbols).map Symbol.name =
      (g.freeSymbols ++ g.letSymbols).map Symbol.name := by
    rw [List.map_append, List.map_append]
    exact congrArg₂ (· ++ ·) hFree h.letNames_eq
  refine names_filter_congr (names_distinctNames_congr hAll) fun s s' hs => ?_
  rw [Symbol.isVariable, Symbol.isVariable, hs, isIn_congr hs h.provide,
    isIn_congr hs h.require]

/-- Like fragments stay alike under a map of names. -/
theorem renamed (h : f.Alike R g) (ρ : String → String) :
    (f.renamed ρ).Alike R (g.renamed ρ) where
  clauses := forall₂_map_of_mem h.clauses fun _ _ _ htu => htu.renamed ρ
  provide := h.provide
  require := h.require
  lets := forall₂_map_of_mem h.lets fun _ _ _ hpq => ⟨hpq.1.renamed ρ, hpq.2⟩
  mustLet := by rw [mustLetNames_renamed, mustLetNames_renamed, h.mustLet]
  selectivity := h.selectivity

/-- Like fragments are given the same fresh names. -/
theorem privateRenaming_eq (h : f.Alike R g) (base : Nat → String → String)
    (taken : List String) :
    f.privateRenaming base taken = g.privateRenaming base taken := by
  have hNames : f.privateSymbols.map Symbol.name =
      g.privateSymbols.map Symbol.name := h.privateNames_eq
  rw [privateRenaming, privateRenaming, hNames]

end Alike

end Fragment

/-! ## Lists of fragments -/

section Lists

variable {R : Value → Value → Prop} {fs gs : List Fragment}

theorem usedNames_eq_of_alike (h : List.Forall₂ (Fragment.Alike R) fs gs) :
    usedNames fs = usedNames gs := by
  rw [usedNames, usedNames, List.map_flatMap, List.map_flatMap]
  exact congrArg _ (flatMap_eq_of_forall₂ h fun _ _ _ hfg => hfg.names_eq)

/-- Like lists are drawn the same maps. -/
theorem renamingOf_eq_of_alike (base : Nat → Nat → String → String)
    (slice : Nat) (taken : List String)
    (h : List.Forall₂ (Fragment.Alike R) fs gs) :
    renamingOf base slice taken fs = renamingOf base slice taken gs := by
  induction h generalizing slice taken with
  | nil => rfl
  | cons hfg _ ih =>
      funext k
      cases k with
      | zero => rw [renamingOf, renamingOf, hfg.privateRenaming_eq]
      | succ k => rw [renamingOf, renamingOf, hfg.privateRenaming_eq, ih]

end Lists

end DatalogFragments
