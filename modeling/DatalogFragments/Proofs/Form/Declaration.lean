import DatalogFragments.Proofs.Form.Arguments
import DatalogFragments.Proofs.Fragment.Alike

/-!
# What a declaration tells about its form

The declaration of a form marks its collections with `...`, all but those of
tuples: these are written as a tuple around a tuple.  So a declaration is that
of a form without such collections (`Form.unmarked`), and it determines this
form.  It determines the form itself if no tuple of the form stands alone in
another tuple.

## Main definitions

* `Form.unmarked` — a form as its declaration shows it;
* `Form.Separated` — forms in which no tuple stands alone in a tuple;
* `Form.remarked` — a shown form with its relations read back.

## Main results

* `render_eq_marked` — a declaration marks every collection that it shows;
* `render_same_iff` — which valid forms have equal declarations;
* `Separated.remarked_unmarked` — a separated form is read back;
* `render_determines` — both for valid forms;
* `render_nested_tuple` — a tuple alone in a tuple is declared as a relation.
-/

namespace DatalogFragments

namespace Form

/-! ## Declarations with every collection marked -/

mutual

/-- The form as its declaration shows it: a collection of tuples is a tuple
around a tuple. -/
def unmarked : Form → Form
  | .sym s => .sym s
  | .coll f => if f.isTuple then .tup [unmarked f] else .coll (unmarked f)
  | .tup fs => .tup (unmarkedAll fs)
  | .stray v => .stray v

/-- Every form as its declaration shows it. -/
def unmarkedAll : List Form → List Form
  | [] => []
  | f :: fs => unmarked f :: unmarkedAll fs

end

theorem unmarkedAll_eq_map (fs : List Form) : unmarkedAll fs = fs.map unmarked := by
  induction fs with
  | nil => rfl
  | cons f fs ih => rw [unmarkedAll, ih, List.map_cons]

mutual

/-- The declaration of a form that marks all of its collections. -/
def marked : Form → Clause
  | .sym s => .sym s
  | .coll f => .vector [marked f, .named ellipsisName]
  | .tup fs => .vector (markedAll fs)
  | .stray v => .stray v

/-- The declarations that mark all collections. -/
def markedAll : List Form → List Clause
  | [] => []
  | f :: fs => marked f :: markedAll fs

end

theorem markedAll_eq_map (fs : List Form) : markedAll fs = fs.map marked := by
  induction fs with
  | nil => rfl
  | cons f fs ih => rw [markedAll, ih, List.map_cons]

/-- A declaration marks every collection that it shows. -/
theorem render_eq_marked (f : Form) : f.render = f.unmarked.marked := by
  induction f using Form.induct with
  | hSym s => rfl
  | hColl f ih =>
      rw [render, unmarked]
      split
      · rw [ih, marked, markedAll_eq_map, List.map_singleton]
      · rw [ih, marked]
  | hTup fs ih =>
      rw [render, unmarked, marked, renderAll_eq_map, unmarkedAll_eq_map,
        markedAll_eq_map, List.map_map]
      exact congrArg Term.vector (List.map_congr_left ih)
  | hStray v => rfl

/-! ## Forms without the mark -/

/-- No symbol of the form is the mark of a collection, and all of its parts are
forms. -/
inductive Markless : Form → Prop
  | sym {s : Name} (h : s.name ≠ ellipsisName) : Markless (.sym s)
  | coll {f : Form} (h : Markless f) : Markless (.coll f)
  | tup {fs : List Form} (h : ∀ f ∈ fs, Markless f) : Markless (.tup fs)

theorem Inner.markless {f : Form} (h : f.Inner) : f.Markless := by
  induction h with
  | @scalar s h =>
      have hDeclarable : s.isDeclarable = true := by rw [Symbol.isDeclarable, h, Bool.true_or]
      exact .sym (name_ne_of_declarable hDeclarable (by decide))
  | skip h => exact .sym (by rw [h]; decide)
  | coll _ ih => exact .coll ih
  | tup _ _ ih => exact .tup ih

theorem Whole.markless {f : Form} (h : f.Whole) : f.Markless := by
  cases h with
  | symbol h => exact .sym (name_ne_of_declarable h (by decide))
  | coll h => exact .coll h.markless
  | tup h => exact h.markless

theorem Markless.unmarked {f : Form} (h : f.Markless) : f.unmarked.Markless := by
  induction h with
  | sym h => exact .sym h
  | coll _ ih =>
      rw [Form.unmarked]
      split
      · exact .tup (List.forall_mem_singleton.mpr ih)
      · exact .coll ih
  | tup _ ih =>
      rw [Form.unmarked, unmarkedAll_eq_map]
      exact .tup (List.forall_mem_map.mpr ih)

theorem Markless.isProper {f : Form} (h : f.Markless) : f.isProper = true := by
  induction h with
  | sym _ => rfl
  | coll _ ih => exact ih
  | tup _ ih => exact (areProper_eq_true_iff _).mpr ih

section Marked

variable {R : Value → Value → Prop}

/-- No form without the mark is declared by the mark. -/
private theorem Markless.not_alike_mark {f : Form} (h : f.Markless) :
    ¬ f.marked.Alike R (Term.named ellipsisName) ∧
      ¬ (Term.named ellipsisName).Alike R f.marked := by
  cases h with
  | sym h => exact ⟨fun hMark => h (Term.alike_sym_iff.mp hMark),
      fun hMark => h (Term.alike_sym_iff.mp hMark).symm⟩
  | coll _ => constructor <;> rintro ⟨⟩
  | tup _ => constructor <;> rintro ⟨⟩

/-- A tuple form without the mark is not declared like a collection form. -/
private theorem not_alike_marked_coll {fs : List Form} (h : ∀ f ∈ fs, f.Markless)
    (g : Form) : ¬ (Form.tup fs).marked.Alike R (Form.coll g).marked ∧
      ¬ (Form.coll g).marked.Alike R (Form.tup fs).marked := by
  rw [marked, marked, markedAll_eq_map, Term.vector, Term.vector, Term.alike_vec_iff,
    Term.alike_vec_iff, List.forall₂_map_left_iff, List.forall₂_map_right_iff]
  -- Only a tuple of two can have as many items, and its second one is no mark.
  constructor
  · rintro (_ | ⟨-, _ | ⟨hMark, ⟨⟩⟩⟩)
    exact (h _ (by simp)).not_alike_mark.1 hMark
  · rintro (_ | ⟨-, _ | ⟨hMark, ⟨⟩⟩⟩)
    exact (h _ (by simp)).not_alike_mark.2 hMark

/-- Declarations that mark all collections tell forms apart. -/
theorem marked_alike_iff {f g : Form} (hf : f.Markless) (hg : g.Markless) :
    f.marked.Alike R g.marked ↔ f.Alike g := by
  induction f using Form.induct generalizing g with
  | hSym s =>
      cases hg with
      | sym _ => rw [marked, marked, Term.alike_sym_iff, alike_sym_iff]
      | coll _ => constructor <;> rintro ⟨⟩
      | tup _ => constructor <;> rintro ⟨⟩
  | hColl f ih =>
      cases hf with
      | coll hf =>
          cases hg with
          | sym _ => constructor <;> rintro ⟨⟩
          | coll hg =>
              have hMark : (Term.named ellipsisName).Alike R (Term.named ellipsisName) :=
                .sym rfl
              rw [marked, marked, Term.vector, Term.vector, Term.alike_vec_iff,
                List.forall₂_cons, List.forall₂_cons, ih hf hg, alike_coll_iff]
              exact and_iff_left ⟨hMark, .nil⟩
          | tup hg => exact iff_of_false (not_alike_marked_coll hg f).2 (by rintro ⟨⟩)
  | hTup fs ih =>
      cases hf with
      | tup hf =>
          cases hg with
          | sym _ => constructor <;> rintro ⟨⟩
          | @coll g hg => exact iff_of_false (not_alike_marked_coll hf g).1 (by rintro ⟨⟩)
          | tup hg =>
              rw [marked, marked, markedAll_eq_map, markedAll_eq_map, Term.vector,
                Term.vector, Term.alike_vec_iff, List.forall₂_map_left_iff,
                List.forall₂_map_right_iff, alike_tup_iff]
              exact forall₂_congr_of_mem fun f hfs g hgs =>
                ih f hfs (hf f hfs) (hg g hgs)
  | hStray v => cases hf

end Marked

/-- Forms have equal declarations iff their declarations show the same form. -/
theorem render_same_iff {f g : Form} (hf : f.Markless) (hg : g.Markless) :
    Value.sameTerm f.render g.render = true ↔ f.unmarked.Alike g.unmarked := by
  rw [Value.sameTerm_iff, render_eq_marked, render_eq_marked,
    marked_alike_iff hf.unmarked hg.unmarked]

/-! ## Separated forms -/

/-- No tuple of the form stands alone in another tuple. -/
inductive Separated : Form → Prop
  | sym {s : Name} : Separated (.sym s)
  | coll {f : Form} (h : Separated f) : Separated (.coll f)
  | tup {fs : List Form} (h : ∀ f ∈ fs, Separated f)
      (hAlone : ∀ f, fs = [f] → f.isTuple = false) : Separated (.tup fs)

/-- The tuple of the forms, or the collection of the only one if that is a
tuple. -/
def relationOrTuple : List Form → Form
  | [f] => if f.isTuple then .coll f else .tup [f]
  | fs => .tup fs

mutual

/-- The form with each tuple that stands alone in a tuple read as the rows of a
relation. -/
def remarked : Form → Form
  | .sym s => .sym s
  | .coll f => .coll (remarked f)
  | .tup fs => relationOrTuple (remarkedAll fs)
  | .stray v => .stray v

/-- Every form with its relations read so. -/
def remarkedAll : List Form → List Form
  | [] => []
  | f :: fs => remarked f :: remarkedAll fs

end

private theorem remarkedAll_eq_map (fs : List Form) :
    remarkedAll fs = fs.map remarked := by
  induction fs with
  | nil => rfl
  | cons f fs ih => rw [remarkedAll, ih, List.map_cons]

private theorem relationOrTuple_of_not_alone {fs : List Form}
    (h : ∀ f, fs = [f] → f.isTuple = false) : relationOrTuple fs = .tup fs := by
  match fs, h with
  | [], _ => rfl
  | [f], h =>
      rw [relationOrTuple, h f rfl]
      rfl
  | _ :: _ :: _, _ => rfl

/-- A separated form is read back from what its declaration shows. -/
theorem Separated.remarked_unmarked {f : Form} (h : f.Separated) :
    f.unmarked.remarked = f := by
  induction h with
  | sym => rfl
  | @coll f _ ih =>
      rw [unmarked]
      split
      · rename_i hTuple
        rw [remarked, remarkedAll, remarkedAll, ih, relationOrTuple, if_pos hTuple]
      · rw [remarked, ih]
  | @tup fs _ hAlone ih =>
      have hBack : (fs.map unmarked).map remarked = fs := by
        rw [List.map_map]
        exact (List.map_congr_left ih).trans (List.map_id' _)
      rw [unmarked, remarked, unmarkedAll_eq_map, remarkedAll_eq_map, hBack,
        relationOrTuple_of_not_alone hAlone]

private theorem alike_relationOrTuple {fs gs : List Form}
    (h : List.Forall₂ Alike fs gs) : (relationOrTuple fs).Alike (relationOrTuple gs) := by
  match fs, gs, h with
  | [], _, .nil => exact .tup .nil
  | [f], _, .cons hfg .nil =>
      rw [relationOrTuple, relationOrTuple, hfg.isTuple_eq]
      split
      · exact .coll hfg
      · exact .tup (.cons hfg .nil)
  | _ :: _ :: _, _, .cons hfg (.cons hNext hRest) => exact .tup (.cons hfg (.cons hNext hRest))

/-- Like forms are read alike. -/
theorem Alike.remarked {f g : Form} (h : f.Alike g) : f.remarked.Alike g.remarked := by
  induction f using Form.induct generalizing g with
  | hSym s =>
      cases h with
      | sym h => exact .sym h
  | hColl f ih =>
      cases h with
      | coll h => exact .coll (ih h)
  | hTup fs ih =>
      cases h with
      | tup h =>
          rw [Form.remarked, Form.remarked, remarkedAll_eq_map, remarkedAll_eq_map]
          exact alike_relationOrTuple (forall₂_map_of_mem h fun f hf g hfg => ih f hf hfg)
  | hStray v => cases h

/-- Separated forms are alike if their declarations show like forms. -/
theorem Separated.alike_of_unmarked {f g : Form} (hf : f.Separated) (hg : g.Separated)
    (h : f.unmarked.Alike g.unmarked) : f.Alike g := by
  have hRead := h.remarked
  rwa [hf.remarked_unmarked, hg.remarked_unmarked] at hRead

/-! ## Valid forms -/

/-- Which valid forms have equal declarations: those of which the declaration
shows the same form.  Separated forms have equal declarations only if they are
equal. -/
theorem render_determines {f g : Form} (hf : f.check true = .ok ())
    (hg : g.check true = .ok ()) :
    (Value.sameTerm f.render g.render = true ↔
      f.unmarked.toValue.same g.unmarked.toValue = true) ∧
    (f.Separated → g.Separated →
      (Value.sameTerm f.render g.render = true ↔ f.toValue.same g.toValue = true)) := by
  rw [check_true_iff] at hf hg
  have hShown := render_same_iff hf.markless hg.markless
  have hEqual : f.Alike g ↔ f.toValue.same g.toValue = true :=
    alike_iff_same hf.isProper hg.isProper
  refine ⟨?_, fun hLeft hRight => ?_⟩
  · rw [hShown]
    exact alike_iff_same hf.markless.unmarked.isProper hg.markless.unmarked.isProper
  · rw [← hEqual]
    constructor
    · exact fun h => hLeft.alike_of_unmarked hRight (hShown.mp h)
    · exact fun h => (Value.sameTerm_iff _ _).mpr (h.render Value.Same)

/-- A value with one part, which is a relation. -/
def soleRelation : Form := .tup [pairRows]

/-- The same form, with a note on its first column. -/
def notedRelation : Form :=
  .tup [.coll (.tup [.sym ⟨"?a", some (.text "first")⟩, .sym (Symbol.plain "?b")])]

theorem render_determines_notedRelation :
    (soleRelation.check true = .ok () ∧ notedRelation.check true = .ok () ∧
      soleRelation.Separated ∧ notedRelation.Separated) ∧
    Value.sameTerm soleRelation.render notedRelation.render = true ∧
    soleRelation.toValue.same notedRelation.toValue = true := by
  have hSole : soleRelation.check true = .ok () := rfl
  have hNoted : notedRelation.check true = .ok () := rfl
  have hSeparated : ∀ s s' : Name,
      (Form.tup [.coll (.tup [.sym s, .sym s'])]).Separated := by
    intro s s'
    refine .tup (List.forall_mem_singleton.mpr (.coll (.tup ?_ ?_))) ?_
    · simp [Separated.sym]
    · rintro f ⟨⟩
    · rintro f ⟨⟩
      rfl
  have hSame : Value.sameTerm soleRelation.render notedRelation.render = true := by
    simp [soleRelation, notedRelation, pairRows, render, renderAll, isTuple, Term.vector,
      Symbol.plain, Value.sameTerm, Value.sameTerms]
  exact ⟨⟨hSole, hNoted, hSeparated _ _, hSeparated _ _⟩, hSame,
    ((render_determines hSole hNoted).2 (hSeparated _ _) (hSeparated _ _)).mp hSame⟩

/-- A tuple that stands alone in a tuple. -/
def lonePair : Form :=
  .tup [.tup [.sym (Symbol.plain "?a"), .sym (Symbol.plain "?b")]]

/-- Two rows. -/
def twoPairs : List Value := [.tuple [.int 1, .int 2], .tuple [.int 3, .int 4]]

/-- A tuple that stands alone in a tuple is declared as a relation, and takes
other arguments than a relation does.  A source of two rows goes unread and is
handed over under that declaration. -/
theorem render_nested_tuple :
    pairRows.check true = .ok () ∧ lonePair.check true = .ok () ∧
    Value.sameTerm pairRows.render lonePair.render = true ∧
    pairRows.toValue.same lonePair.toValue = false ∧
    pairRows.checkArgument (.list twoPairs) = .ok () ∧
    lonePair.checkArgument (.list twoPairs) ≠ .ok () ∧
    lonePair.checkArgument (.stream twoPairs) = .ok () := by
  have hSame : Value.sameTerm pairRows.render lonePair.render = true := by
    simp [pairRows, lonePair, render, renderAll, isTuple, Term.vector, Symbol.plain,
      Value.sameTerm, Value.sameTerms]
  have hDiffer : pairRows.toValue.same lonePair.toValue = false := by
    simp [pairRows, lonePair, toValue, toValues, Value.same]
  have hRefused : lonePair.checkArgument (.list twoPairs) ≠ .ok () := by rintro ⟨⟩
  exact ⟨rfl, rfl, hSame, hDiffer, rfl, hRefused, rfl⟩

end Form

end DatalogFragments
