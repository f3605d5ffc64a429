import DatalogFragments.Proofs.Form.Validity
import Mathlib.Data.List.Forall2

/-!
# Which arguments fit a form

An argument fits a form if it has its shape all the way down.  The check of an
argument looks into lists and tuples only: it takes a set as it is, whatever its
members are.  Both are one relation, `Form.FitsBy`, with different eyes.

## Main definitions

* `Form.Fits` — the arguments that have the shape of a form;
* `Form.Admits` — the same, with no member of a set looked at;
* `Form.pairings` — the parts of a form with the parts of an argument that they
  are matched with.

## Main results

* `checkArgument_eq_ok_iff` — the check accepts what the form admits;
* `fits_iff` — what is admitted fits, apart from members of sets;
* `checkArgument_exact` — both for a valid form;
* `checkArgument_rowsInSet` — a row of the wrong length passes in a set.
-/

namespace DatalogFragments

/-! ## Collections -/

namespace Value

/-- The members of a set. -/
def setMembers? : Value → Option (List Value)
  | .set xs | .frozenSet xs => some xs
  | _ => none

/-- The members of a collection that is there as a whole. -/
def members? (v : Value) : Option (List Value) := v.positions?.or v.setMembers?

/-- The members of a collection that the check of an argument looks at. -/
def seen? (v : Value) : Option (List Value) :=
  v.positions?.or (v.setMembers?.map fun _ => [])

/-- Whether the value is a one-pass source. -/
def isStream : Value → Bool
  | .stream _ => true
  | _ => false

section Members

variable {v : Value} {xs : List Value}

theorem members?_of_positions (h : v.positions? = some xs) : v.members? = some xs := by
  rw [members?, h, Option.some_or]

theorem seen?_of_positions (h : v.positions? = some xs) : v.seen? = some xs := by
  rw [seen?, h, Option.some_or]

theorem members?_of_no_positions (h : v.positions? = none) :
    v.members? = v.setMembers? := by
  rw [members?, h, Option.none_or]

theorem seen?_of_no_positions (h : v.positions? = none) :
    v.seen? = v.setMembers?.map fun _ => [] := by
  rw [seen?, h, Option.none_or]

end Members

/-- A collection is a list or tuple, a set, or a one-pass source. -/
theorem collection_cases (v : Value) :
    (v.isCollection = true ∧ ∃ xs, v.positions? = some xs ∧ v.size? = some xs.length ∧
        v.setMembers? = none) ∨
      (v.isCollection = true ∧ v.positions? = none ∧ ∃ xs, v.setMembers? = some xs) ∨
      v.isStream = true ∨
      (v.isCollection = false ∧ v.positions? = none ∧ v.setMembers? = none) := by
  cases v with
  | list xs | tuple xs => exact .inl ⟨rfl, xs, rfl, rfl, rfl⟩
  | set xs | frozenSet xs => exact .inr (.inl ⟨rfl, rfl, xs, rfl⟩)
  | stream xs => exact .inr (.inr (.inl rfl))
  | _ => exact .inr (.inr (.inr ⟨rfl, rfl, rfl⟩))

end Value

namespace Form

/-! ## Shapes of arguments -/

/-- An argument has the shape of a form, as far as `look` shows the members of
collections. -/
inductive FitsBy (look : Value → Option (List Value)) : Form → Value → Prop
  | scalar {s : Name} {v : Value} : FitsBy look (.sym s) v
  | each {f : Form} {v : Value} {xs : List Value} (h : look v = some xs)
      (hEach : ∀ x ∈ xs, FitsBy look f x) : FitsBy look (.coll f) v
  | row {fs : List Form} {v : Value} {xs : List Value} (h : v.positions? = some xs)
      (hEach : List.Forall₂ (FitsBy look) fs xs) : FitsBy look (.tup fs) v

/-- The argument has the shape of the form: a symbol takes anything, a
collection form any list, tuple or set all of whose members fit, a tuple form a
list or tuple that fits it position by position. -/
def Fits : Form → Value → Prop := FitsBy Value.members?

/-- The argument has the shape of the form, but for members of sets. -/
def Admits : Form → Value → Prop := FitsBy Value.seen?

section FitsBy

variable {look : Value → Option (List Value)} {v : Value}

theorem fitsBy_coll_iff {f : Form} :
    FitsBy look (.coll f) v ↔ ∃ xs, look v = some xs ∧ ∀ x ∈ xs, FitsBy look f x := by
  constructor
  · rintro ⟨⟩
    exact ⟨_, ‹_›, ‹_›⟩
  · rintro ⟨xs, h, hEach⟩
    exact .each h hEach

theorem fitsBy_tup_iff {fs : List Form} :
    FitsBy look (.tup fs) v ↔ ∃ xs, v.positions? = some xs ∧
      fs.length = xs.length ∧ ∀ p ∈ fs.zip xs, FitsBy look p.1 p.2 := by
  constructor
  · intro h
    cases h with
    | row h hEach =>
        obtain ⟨hLength, hZip⟩ := List.forall₂_iff_zip.mp hEach
        exact ⟨_, h, hLength, fun p hp => hZip hp⟩
  · rintro ⟨xs, h, hLength, hZip⟩
    exact .row h (List.forall₂_iff_zip.mpr ⟨hLength, fun hp => hZip _ hp⟩)

end FitsBy

/-! ## Parts that are matched -/

mutual

/-- The parts of the form, each with a part of the argument that is matched with
it. -/
def pairings : Form → Value → List (Form × Value)
  | .sym s, v => [(.sym s, v)]
  | .coll f, v => (.coll f, v) :: (v.members?.getD []).flatMap (pairings f)
  | .tup fs, v => (.tup fs, v) :: pairingsOf fs (v.positions?.getD [])
  | .stray u, v => [(.stray u, v)]

/-- The parts that are matched position by position. -/
def pairingsOf : List Form → List Value → List (Form × Value)
  | f :: fs, v :: vs => pairings f v ++ pairingsOf fs vs
  | _, _ => []

end

section Pairings

variable {v x : Value} {xs : List Value}

theorem self_mem_pairings (f : Form) (v : Value) : (f, v) ∈ f.pairings v := by
  cases f <;> exact List.mem_cons_self

theorem pairings_subset_coll (h : v.members? = some xs) (hx : x ∈ xs) (f : Form) :
    f.pairings x ⊆ (Form.coll f).pairings v := by
  intro p hp
  rw [pairings, h, Option.getD_some]
  exact List.mem_cons_of_mem _ (List.mem_flatMap.mpr ⟨x, hx, hp⟩)

private theorem pairings_subset_of_mem_zip {q : Form × Value} {fs : List Form}
    (hq : q ∈ fs.zip xs) : q.1.pairings q.2 ⊆ pairingsOf fs xs := by
  induction fs generalizing xs with
  | nil => cases hq
  | cons f fs ih =>
      cases xs with
      | nil => cases hq
      | cons y ys =>
          rw [pairingsOf]
          rcases List.mem_cons.mp hq with rfl | hq
          · exact List.subset_append_left _ _
          · exact List.subset_append_of_subset_right _ (ih hq)

theorem pairings_subset_tup {q : Form × Value} {fs : List Form}
    (h : v.positions? = some xs) (hq : q ∈ fs.zip xs) :
    q.1.pairings q.2 ⊆ (Form.tup fs).pairings v := by
  intro p hp
  rw [pairings, h, Option.getD_some]
  exact List.mem_cons_of_mem _ (pairings_subset_of_mem_zip hq hp)

private theorem exists_zip_of_mem_pairingsOf {p : Form × Value} {fs : List Form}
    (h : p ∈ pairingsOf fs xs) : ∃ q ∈ fs.zip xs, p ∈ q.1.pairings q.2 := by
  induction fs generalizing xs with
  | nil => cases h
  | cons f fs ih =>
      cases xs with
      | nil => cases h
      | cons y ys =>
          rw [pairingsOf] at h
          rcases List.mem_append.mp h with h | h
          · exact ⟨(f, y), List.mem_cons_self, h⟩
          · obtain ⟨q, hq, hp⟩ := ih h
            exact ⟨q, List.mem_cons_of_mem _ hq, hp⟩

end Pairings

/-! ## What the check accepts -/

private theorem checkArgument_coll_iff {f : Form} {v : Value}
    (hStream : v.isStream = false)
    (ih : ∀ xs, v.members? = some xs → ∀ x ∈ xs,
      (f.checkArgument x = .ok () ↔ f.Admits x)) :
    (Form.coll f).checkArgument v = .ok () ↔ (Form.coll f).Admits v := by
  rw [checkArgument_coll_eq_ok_iff, Admits, fitsBy_coll_iff]
  obtain ⟨hColl, xs, hxs, -, hSet⟩ | ⟨hColl, hxs, ys, hSet⟩ | hSource | ⟨hColl, hxs, hSet⟩ :=
    v.collection_cases
  · have hSeen := Value.seen?_of_positions hxs
    have hMembers := Value.members?_of_positions hxs
    simp only [hColl, hSeen, hxs, true_and, Option.some.injEq, exists_eq_left',
      Option.getD_some]
    cases hSymbol : f.isSymbol with
    | true =>
        refine iff_of_true (fun h => nomatch h) fun x _ => ?_
        cases f with
        | sym s => exact .scalar
        | _ => cases hSymbol
    | false =>
        rw [forall_prop_of_true rfl]
        exact forall₂_congr (ih xs hMembers)
  · have hSeen : v.seen? = some [] := by
      rw [Value.seen?_of_no_positions hxs, hSet, Option.map_some]
    simp [hColl, hSeen, hxs]
  · rw [hStream] at hSource
    cases hSource
  · have hSeen : v.seen? = none := by
      rw [Value.seen?_of_no_positions hxs, hSet, Option.map_none]
    simp [hColl, hSeen]

private theorem checkArgument_tup_iff {fs : List Form} {v : Value}
    (hStream : v.isStream = false) (hSet : v.setMembers? = none)
    (ih : ∀ xs, v.positions? = some xs → ∀ p ∈ fs.zip xs,
      (p.1.checkArgument p.2 = .ok () ↔ p.1.Admits p.2)) :
    (Form.tup fs).checkArgument v = .ok () ↔ (Form.tup fs).Admits v := by
  rw [checkArgument_tup_eq_ok_iff, Admits, fitsBy_tup_iff]
  obtain ⟨hColl, xs, hxs, hSize, -⟩ | ⟨-, -, ys, hys⟩ | hSource | ⟨hColl, hxs, -⟩ :=
    v.collection_cases
  · simp only [hColl, hxs, hSize, true_and, Option.some.injEq, exists_eq_left',
      Option.getD_some, Option.any_some, bne_eq_false_iff_eq]
    rw [checkArguments_eq_ok_iff, forall₂_congr (ih xs hxs), eq_comm]
    rfl
  · rw [hSet] at hys
    cases hys
  · rw [hStream] at hSource
    cases hSource
  · simp [hColl, hxs]

/-- The check accepts an argument iff the form admits it, as long as no one-pass
source is matched and no set is matched with a tuple form. -/
theorem checkArgument_eq_ok_iff {f : Form} (hProper : f.isProper = true) (v : Value)
    (hStream : ∀ p ∈ f.pairings v, p.2.isStream = false)
    (hSets : ∀ p ∈ f.pairings v, p.1.isTuple = true → p.2.setMembers? = none) :
    f.checkArgument v = .ok () ↔ f.Admits v := by
  induction f using Form.induct generalizing v with
  | hSym s =>
      rw [checkArgument]
      exact iff_of_true rfl .scalar
  | hColl f ih =>
      refine checkArgument_coll_iff (hStream _ (self_mem_pairings _ v))
        fun xs hxs x hx => ?_
      have hPart := pairings_subset_coll hxs hx f
      exact ih hProper x (fun p hp => hStream p (hPart hp)) fun p hp => hSets p (hPart hp)
  | hTup fs ih =>
      have hEach := (areProper_eq_true_iff fs).mp hProper
      have hSelf := self_mem_pairings (.tup fs) v
      refine checkArgument_tup_iff (hStream _ hSelf) (hSets _ hSelf rfl)
        fun xs hxs q hq => ?_
      have hf : q.1 ∈ fs := (List.of_mem_zip hq).1
      have hPart := pairings_subset_tup hxs hq
      exact ih q.1 hf (hEach q.1 hf) q.2 (fun p hp => hStream p (hPart hp))
        fun p hp => hSets p (hPart hp)
  | hStray v => cases hProper

/-! ## Members of sets -/

/-- What fits is admitted. -/
theorem Fits.admits {f : Form} {v : Value} (h : f.Fits v) : f.Admits v := by
  rw [Fits] at h
  rw [Admits]
  induction f using Form.induct generalizing v with
  | hSym s => exact .scalar
  | hColl f ih =>
      obtain ⟨xs, hxs, hEach⟩ := fitsBy_coll_iff.mp h
      rw [fitsBy_coll_iff]
      cases hPositions : v.positions? with
      | some ys =>
          rw [Value.members?_of_positions hPositions] at hxs
          obtain rfl := Option.some.inj hxs
          exact ⟨ys, Value.seen?_of_positions hPositions, fun x hx => ih (hEach x hx)⟩
      | none =>
          rw [Value.members?_of_no_positions hPositions] at hxs
          exact ⟨[], by rw [Value.seen?_of_no_positions hPositions, hxs, Option.map_some],
            by simp⟩
  | hTup fs ih =>
      obtain ⟨xs, hxs, hLength, hEach⟩ := fitsBy_tup_iff.mp h
      exact fitsBy_tup_iff.mpr ⟨xs, hxs, hLength, fun p hp =>
        ih p.1 (List.of_mem_zip hp).1 (hEach p hp)⟩
  | hStray w => cases h

/-- Every part of what fits fits the part of the form that it is matched with. -/
theorem Fits.of_mem_pairings {f : Form} {v : Value} (h : f.Fits v) :
    ∀ p ∈ f.pairings v, p.1.Fits p.2 := by
  induction f using Form.induct generalizing v with
  | hSym s =>
      intro p hp
      rw [pairings, List.mem_singleton] at hp
      exact hp ▸ h
  | hColl f ih =>
      obtain ⟨xs, hxs, hEach⟩ := fitsBy_coll_iff.mp h
      rw [pairings, hxs, Option.getD_some, List.forall_mem_cons, List.forall_mem_flatMap]
      exact ⟨h, fun x hx => ih (hEach x hx)⟩
  | hTup fs ih =>
      obtain ⟨xs, hxs, -, hEach⟩ := fitsBy_tup_iff.mp h
      rw [pairings, hxs, Option.getD_some, List.forall_mem_cons]
      refine ⟨h, fun p hp => ?_⟩
      obtain ⟨q, hq, hp⟩ := exists_zip_of_mem_pairingsOf hp
      exact ih q.1 (List.of_mem_zip hq).1 (hEach q hq) p hp
  | hStray w => cases h

/-- Every member of a set that is matched with a collection form fits. -/
def SetsFit (f : Form) (v : Value) : Prop :=
  ∀ g w xs, (.coll g, w) ∈ f.pairings v → w.setMembers? = some xs → ∀ x ∈ xs, g.Fits x

/-- An argument fits iff it is admitted and the members of its sets fit. -/
theorem fits_iff (f : Form) (v : Value) : f.Fits v ↔ f.Admits v ∧ f.SetsFit v := by
  constructor
  · refine fun h => ⟨h.admits, fun g w xs hPart hxs x hx => ?_⟩
    obtain ⟨ys, hys, hEach⟩ := fitsBy_coll_iff.mp (h.of_mem_pairings _ hPart)
    cases w with
    | set zs | frozenSet zs =>
        obtain rfl := Option.some.inj hxs
        obtain rfl := Option.some.inj hys
        exact hEach x hx
    | _ => cases hxs
  · rintro ⟨hAdmits, hSets⟩
    rw [Fits]
    rw [Admits] at hAdmits
    induction f using Form.induct generalizing v with
    | hSym s => exact .scalar
    | hColl f ih =>
        obtain ⟨xs, hxs, hEach⟩ := fitsBy_coll_iff.mp hAdmits
        rw [fitsBy_coll_iff]
        cases hPositions : v.positions? with
        | some ys =>
            have hMembers := Value.members?_of_positions hPositions
            rw [Value.seen?_of_positions hPositions] at hxs
            obtain rfl := Option.some.inj hxs
            exact ⟨ys, hMembers, fun x hx => ih x (hEach x hx) fun g w zs hPart =>
              hSets g w zs (pairings_subset_coll hMembers hx f hPart)⟩
        | none =>
            rw [Value.seen?_of_no_positions hPositions, Option.map_eq_some_iff] at hxs
            obtain ⟨ys, hys, -⟩ := hxs
            exact ⟨ys, (Value.members?_of_no_positions hPositions).trans hys,
              hSets f v ys (self_mem_pairings _ v) hys⟩
    | hTup fs ih =>
        obtain ⟨xs, hxs, hLength, hEach⟩ := fitsBy_tup_iff.mp hAdmits
        exact fitsBy_tup_iff.mpr ⟨xs, hxs, hLength, fun q hq =>
          ih q.1 (List.of_mem_zip hq).1 q.2 (hEach q hq) fun g w zs hPart =>
            hSets g w zs (pairings_subset_tup hxs hq hPart)⟩
    | hStray w => cases hAdmits

/-- The exact acceptance of an argument by a valid form: what has the shape of
the form is accepted, and what is accepted has it, except that no member of a
set is looked at. -/
theorem checkArgument_exact {f : Form} (hForm : f.check true = .ok ()) (v : Value)
    (hStream : ∀ p ∈ f.pairings v, p.2.isStream = false)
    (hSets : ∀ p ∈ f.pairings v, p.1.isTuple = true → p.2.setMembers? = none) :
    (f.checkArgument v = .ok () ↔ f.Admits v) ∧
    (f.Fits v ↔ f.checkArgument v = .ok () ∧ f.SetsFit v) ∧
    ((∀ g w xs, (.coll g, w) ∈ f.pairings v → w.setMembers? = some xs →
        g.isSymbol = true) → (f.checkArgument v = .ok () ↔ f.Fits v)) := by
  have hAdmits := checkArgument_eq_ok_iff ((check_true_iff f).mp hForm).isProper v
    hStream hSets
  have hFits := fits_iff f v
  rw [← hAdmits] at hFits
  refine ⟨hAdmits, hFits, fun hScalar => ?_⟩
  rw [hFits]
  refine (and_iff_left fun g w xs hPart hxs x _ => ?_).symm
  cases g with
  | sym s => exact .scalar
  | _ => cases hScalar _ _ _ hPart hxs

/-- The form of rows that hold a key and several values. -/
def keyedValues : Form :=
  .coll (.tup [.sym (Symbol.plain "?k"), .coll (.sym (Symbol.plain "?v"))])

/-- One row, with its values in a set. -/
def valuesInSet : Value := .list [.tuple [.text "a", .set [.int 1, .int 2]]]

theorem checkArgument_exact_valuesInSet :
    (keyedValues.check true = .ok () ∧
      (∀ p ∈ keyedValues.pairings valuesInSet, p.2.isStream = false) ∧
      (∀ p ∈ keyedValues.pairings valuesInSet,
        p.1.isTuple = true → p.2.setMembers? = none) ∧
      ∀ g w xs, (.coll g, w) ∈ keyedValues.pairings valuesInSet →
        w.setMembers? = some xs → g.isSymbol = true) ∧
    (keyedValues.checkArgument valuesInSet = .ok () ↔ keyedValues.Fits valuesInSet) := by
  have hForm : keyedValues.check true = .ok () := rfl
  have hStream : ∀ p ∈ keyedValues.pairings valuesInSet, p.2.isStream = false := by
    decide
  have hSets : ∀ p ∈ keyedValues.pairings valuesInSet,
      p.1.isTuple = true → p.2.setMembers? = none := by
    simp [keyedValues, valuesInSet, pairings, pairingsOf, Value.members?,
      Value.positions?, Value.setMembers?, isTuple]
  have hScalar : ∀ g w xs, (.coll g, w) ∈ keyedValues.pairings valuesInSet →
      w.setMembers? = some xs → g.isSymbol = true := by
    intro g w xs hPart hxs
    have hParts : (.tup [.sym (Symbol.plain "?k"), .coll (.sym (Symbol.plain "?v"))] = g ∧
          valuesInSet = w) ∨
        (.sym (Symbol.plain "?v") = g ∧ Value.set [.int 1, .int 2] = w) := by
      simpa [keyedValues, valuesInSet, pairings, pairingsOf, Value.members?,
        Value.positions?, Value.setMembers?, eq_comm] using hPart
    rcases hParts with ⟨rfl, rfl⟩ | ⟨rfl, rfl⟩
    · cases hxs
    · rfl
  exact ⟨⟨hForm, hStream, hSets, hScalar⟩,
    (checkArgument_exact hForm valuesInSet hStream hSets).2.2 hScalar⟩

/-- The form of rows with two columns. -/
def pairRows : Form :=
  .coll (.tup [.sym (Symbol.plain "?a"), .sym (Symbol.plain "?b")])

/-- A set that holds a row with one column. -/
def rowsInSet : Value := .set [.tuple [.text "a"]]

/-- A row of the wrong length passes in a set. -/
theorem checkArgument_rowsInSet :
    pairRows.check true = .ok () ∧
    (∀ p ∈ pairRows.pairings rowsInSet, p.2.isStream = false) ∧
    (∀ p ∈ pairRows.pairings rowsInSet, p.1.isTuple = true → p.2.setMembers? = none) ∧
    pairRows.checkArgument rowsInSet = .ok () ∧ ¬ pairRows.Fits rowsInSet := by
  refine ⟨rfl, by decide, ?_, rfl, ?_⟩
  · simp [pairRows, rowsInSet, pairings, pairingsOf, Value.members?,
      Value.positions?, Value.setMembers?, isTuple]
  · intro h
    obtain ⟨xs, hxs, hEach⟩ := fitsBy_coll_iff.mp h
    cases hxs
    obtain ⟨ys, hys, hLength, -⟩ := fitsBy_tup_iff.mp (hEach _ List.mem_cons_self)
    cases hys
    cases hLength

end Form

end DatalogFragments
