import DatalogFragments.Proofs.Form.Validity
import DatalogFragments.Proofs.Fragment.Alike

/-!
# Reading declarations back

Nested lists of names are plain data that forms are read from.  What such data
stand for is given by one rule for each kind of form, and a list falls under one
rule only: the mark `...` and a list that stands alone are no part of a tuple.
The declaration of a form follows the same rules, although it spells a collection
in one way where data may spell it in two.  So, taken as data, a declaration is
read as the form that it declares.

## Main definitions

* `Value.NestedNames` — a name, or a list of such data;
* `Form.Denotes` — the form that such data stand for;
* `Term.datum` — a term as plain data.

## Main results

* `Form.exists_denotes`, `Form.Denotes.ofData_eq` — nested names stand for a
  form, and it is the one that is read from them;
* `Form.Denotes.render` — a declaration stands for its form;
* `Form.ofData_render` — reading a declaration gives the form back.
-/

namespace DatalogFragments

/-- A name, or a list of nested names. -/
inductive Value.NestedNames : Value → Prop
  | name (n : String) : NestedNames (.text n)
  | list {xs : List Value} (h : ∀ x ∈ xs, NestedNames x) : NestedNames (.list xs)

namespace Value

@[simp] theorem nestedNames_text (n : String) : (Value.text n).NestedNames := .name n

@[simp] theorem nestedNames_list_iff {xs : List Value} :
    (Value.list xs).NestedNames ↔ ∀ x ∈ xs, x.NestedNames := by
  refine ⟨fun h => ?_, .list⟩
  cases h
  assumption

end Value

/-! ## Terms as plain data -/

namespace Term

mutual

/-- A term as plain data: a symbol is its name, a vector the list of its items, a
sequence the tuple of its items, and a literal its value. -/
def datum : Clause → Value
  | .sym s => .text s.name
  | .vec xs _ => .list (data xs)
  | .seq xs _ => .tuple (data xs)
  | .lit v _ => v
  | .stray v => v

/-- Terms as plain data. -/
def data : List Clause → List Value
  | [] => []
  | t :: ts => t.datum :: data ts

end

theorem data_eq_map (ts : List Clause) : data ts = ts.map datum := by
  induction ts with
  | nil => rfl
  | cons t ts ih => rw [data, ih, List.map_cons]

end Term

namespace Form

/-! ## What data stand for -/

/-- The form that nested names stand for. -/
inductive Denotes : Value → Form → Prop
  | name (n : String) : Denotes (.text n) (.sym (Symbol.plain n))
  | marked {x : Value} {f : Form} (h : Denotes x f) :
      Denotes (.list [x, .text ellipsisName]) (.coll f)
  | alone {xs : List Value} {f : Form} (h : Denotes (.list xs) f) :
      Denotes (.list [.list xs]) (.coll f)
  | tuple {xs : List Value} {fs : List Form} (h : List.Forall₂ Denotes xs fs)
      (hAlone : ∀ ys, xs ≠ [.list ys])
      (hMark : ∀ x, xs ≠ [x, .text ellipsisName]) : Denotes (.list xs) (.tup fs)

/-- Nested names always stand for a form. -/
theorem exists_denotes {d : Value} (h : d.NestedNames) : ∃ f, Denotes d f := by
  induction h with
  | name n => exact ⟨_, .name n⟩
  | @list xs _ ih =>
      by_cases hAlone : ∃ ys, xs = [.list ys]
      · obtain ⟨ys, rfl⟩ := hAlone
        obtain ⟨f, hf⟩ := ih _ List.mem_cons_self
        exact ⟨_, .alone hf⟩
      · by_cases hMark : ∃ x, xs = [x, .text ellipsisName]
        · obtain ⟨x, rfl⟩ := hMark
          obtain ⟨f, hf⟩ := ih _ List.mem_cons_self
          exact ⟨_, .marked hf⟩
        · obtain ⟨fs, hfs⟩ := exists_forall₂_of_mem ih
          exact ⟨_, .tuple hfs (not_exists.mp hAlone) (not_exists.mp hMark)⟩

/-- Data that stand for a form are a name or a list. -/
theorem Denotes.name_or_list {d : Value} {f : Form} (h : Denotes d f) :
    (∃ n, d = .text n) ∨ ∃ xs, d = .list xs := by
  cases h with
  | name n => exact .inl ⟨n, rfl⟩
  | marked _ | alone _ | tuple _ _ _ => exact .inr ⟨_, rfl⟩

/-- A form is spelled by one name, or by lists. -/
theorem Denotes.eq_or_lists {d d' : Value} {f : Form} (h : Denotes d f)
    (h' : Denotes d' f) : d = d' ∨ (∃ xs, d = .list xs) ∧ ∃ ys, d' = .list ys := by
  cases h with
  | name n =>
      cases h' with
      | name => exact .inl rfl
  | marked _ | alone _ =>
      cases h' with
      | marked _ | alone _ => exact .inr ⟨⟨_, rfl⟩, _, rfl⟩
  | tuple _ _ _ =>
      cases h' with
      | tuple _ _ _ => exact .inr ⟨⟨_, rfl⟩, _, rfl⟩

/-! ## Reading -/

theorem ofEach_eq_mapM (xs : List Value) : ofEach xs = xs.mapM ofData := by
  induction xs with
  | nil =>
      rw [ofEach, List.mapM_nil]
      rfl
  | cons x xs ih => rw [ofEach, ih, List.mapM_cons]

/-- A list that is neither marked nor a list standing alone is read item by item. -/
private theorem ofItems_eq_tup {xs : List Value} {fs : List Form}
    (h : List.Forall₂ (fun x f => ofData x = .ok f) xs fs)
    (hAlone : ∀ x, xs = [x] → isGroup x = false)
    (hMark : ∀ x y, xs = [x, y] → isEllipsis y = false) : ofItems xs = .ok (.tup fs) := by
  have hEach : ofEach xs = .ok fs := by
    rw [ofEach_eq_mapM]
    exact mapM_eq_ok_iff.mpr h
  match xs, fs, h with
  | [x], [f], .cons hx .nil =>
      rw [ofItems, hx, ok_bind, hAlone x rfl]
      rfl
  | [x, y], [f, g], .cons hx (.cons hy .nil) =>
      rw [ofItems, hx, ok_bind, hMark x y rfl, hy]
      rfl
  | [], fs, _ | _ :: _ :: _ :: _, fs, _ =>
      rw [ofItems, hEach]
      · rfl
      · simp
      · simp

/-- The form that data stand for is read from them. -/
theorem Denotes.ofData_eq {d : Value} {f : Form} (h : Denotes d f) : ofData d = .ok f := by
  induction f using Form.induct generalizing d with
  | hSym s =>
      cases h with
      | name n => rw [ofData]
  | hColl f ih =>
      cases h with
      | marked h =>
          rw [ofData, ofItems, ih h]
          rfl
      | alone h =>
          rw [ofData, ofItems, ih h]
          rfl
  | hTup fs ih =>
      cases h with
      | @tuple xs _ hItems hAlone hMark =>
          have hRead : List.Forall₂ (fun x f => ofData x = .ok f) xs fs :=
            forall₂_imp_of_mem hItems fun x _ f hf hxf => ih f hf hxf
          have hEach : ∀ x ∈ xs, (∃ n, x = .text n) ∨ ∃ ys, x = .list ys := by
            intro x hx
            obtain ⟨f, -, hxf⟩ := exists_of_forall₂_right hItems.flip hx
            exact hxf.name_or_list
          rw [ofData]
          refine ofItems_eq_tup hRead ?_ ?_
          · rintro x rfl
            rcases hEach x (by simp) with ⟨n, rfl⟩ | ⟨ys, rfl⟩
            · rfl
            · exact absurd rfl (hAlone ys)
          · rintro x y rfl
            rcases hEach y (by simp) with ⟨n, rfl⟩ | ⟨ys, rfl⟩
            · refine beq_eq_false_iff_ne.mpr ?_
              rintro rfl
              exact hMark x rfl
            · rfl
  | hStray v => cases h

/-! ## Declarations -/

/-- The declaration of a form stands for the form, as the data do that it was
read from. -/
theorem Denotes.render {d : Value} {f : Form} (h : Denotes d f) :
    Denotes f.render.datum f := by
  induction f using Form.induct generalizing d with
  | hSym s =>
      cases h with
      | name n => exact .name n
  | hColl f ih =>
      have hInner : Denotes f.render.datum f := by
        cases h with
        | marked h | alone h => exact ih h
      rw [Form.render]
      split
      · -- The brackets of a tuple inside stand alone, so no mark is needed.
        cases f with
        | tup fs => exact .alone hInner
        | _ => contradiction
      · exact .marked hInner
  | hTup fs ih =>
      cases h with
      | @tuple xs _ hItems hAlone hMark =>
          have hData : (Form.tup fs).render.datum =
              .list (fs.map fun f => f.render.datum) := by
            rw [Form.render, Term.vector, Term.datum, Term.data_eq_map, renderAll_eq_map,
              List.map_map]
            rfl
          have hEach : ∀ f ∈ fs, Denotes f.render.datum f := by
            intro f hf
            obtain ⟨x, -, hx⟩ := exists_of_forall₂_right hItems hf
            exact ih f hf hx
          rw [hData]
          refine .tuple ?_ ?_ ?_
          · rw [List.forall₂_map_left_iff, List.forall₂_same]
            exact hEach
          · intro ys hys
            obtain ⟨f, rfl, hf⟩ := List.map_eq_singleton_iff.mp hys
            rcases hItems with _ | ⟨hx, _ | _⟩
            rcases hx.eq_or_lists (hf ▸ hEach f (by simp)) with rfl | ⟨⟨zs, rfl⟩, -⟩
            · exact hAlone ys rfl
            · exact hAlone zs rfl
          · intro x hys
            obtain ⟨f, gs, rfl, -, hgs⟩ := List.map_eq_cons_iff.mp hys
            obtain ⟨g, rfl, hg⟩ := List.map_eq_singleton_iff.mp hgs
            rcases hItems with _ | ⟨_, _ | ⟨hy, _ | _⟩⟩
            rcases hy.eq_or_lists (hg ▸ hEach g (by simp)) with rfl | ⟨-, zs, ⟨⟩⟩
            exact hMark _ rfl
  | hStray v => cases h

/-- What nested names stand for is read from them, and read again from its
declaration. -/
theorem ofData_render {d : Value} (h : d.NestedNames) :
    ∃ f, Denotes d f ∧ ofData d = .ok f ∧ ofData f.render.datum = .ok f := by
  obtain ⟨f, hf⟩ := exists_denotes h
  exact ⟨f, hf, hf.ofData_eq, hf.render.ofData_eq⟩

/-- The rows of a relation, spelled with the mark; the mark on its own in a list;
an empty list; and the mark as the last of four items. -/
def strayMarks : Value :=
  .list [.list [.list [.text "?a", .text "?b"], .text ellipsisName],
    .list [.text ellipsisName], .list [], .text ellipsisName]

/-- The form of the stray marks: a tuple of four. -/
def strayMarksForm : Form :=
  .tup [.coll (.tup [.sym (Symbol.plain "?a"), .sym (Symbol.plain "?b")]),
    .tup [.sym (Symbol.plain ellipsisName)], .tup [], .sym (Symbol.plain ellipsisName)]

theorem ofData_render_strayMarks :
    strayMarks.NestedNames ∧ ofData strayMarks = .ok strayMarksForm ∧
      ofData strayMarksForm.render.datum = .ok strayMarksForm := by
  have hNested : strayMarks.NestedNames := by simp [strayMarks]
  have hForm : ofData strayMarks = .ok strayMarksForm := by
    simp [strayMarks, strayMarksForm, ofData, ofItems, ofEach, isGroup, isEllipsis,
      ellipsisName, pure, Except.pure]
  obtain ⟨f, -, hf, hBack⟩ := ofData_render hNested
  obtain rfl := Except.ok.inj (hf.symm.trans hForm)
  exact ⟨hNested, hForm, hBack⟩

end Form

end DatalogFragments
