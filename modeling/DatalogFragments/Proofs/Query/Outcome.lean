import DatalogFragments.Proofs.Query.Compilation

/-!
# What compilation answers

Compilation of valid fragments has five outcomes, and the plan decides which
one it is: a requirement that no other fragment provides, a must-let variable
that is not bound, display information of a private variable that is no
mapping, a variable that two fragments export, or a query.

## Main results

* `firstBlamed_outcome` — the first position with symbols to blame;
* `Query.compile_sameVerdict` — what a comparison of two plans amounts to;
* `Query.ExactOutcome` — the five outcomes and when they occur;
* `Query.compile_outcome` — they are the outcomes of compilation;
* `Query.compile_unreadable` — the third one does occur.
-/

namespace DatalogFragments

/-! ## Positions to blame -/

/-- Some position of a plan declares a symbol that is to blame. -/
def HasBlame (slices : List Fragment) (declared : Fragment → List Name)
    (blame : Nat → Fragment → Name → Prop) : Prop :=
  ∃ (k : Nat) (f : Fragment), slices[k]? = some f ∧ ∃ s ∈ declared f, blame k f s

/-- The first position that does, with all the symbols to blame there, in the
order of their declaration. -/
structure BlamesFirst (slices : List Fragment) (declared : Fragment → List Name)
    (blame : Nat → Fragment → Name → Prop) (k : Nat) (f : Fragment)
    (names : List Name) : Prop where
  position : slices[k]? = some f
  nonempty : names ≠ []
  in_order : names.Sublist (declared f)
  mem_iff : ∀ s, s ∈ names ↔ s ∈ declared f ∧ blame k f s
  first : ∀ (j : Nat) (g : Fragment), j < k → slices[j]? = some g →
    ∀ s ∈ declared g, ¬blame j g s

private theorem findSome?_zipIdx {α β : Type} (l : List α) (n : Nat)
    (p : α × Nat → Option β) :
    ((l.zipIdx n).findSome? p = none ∧
      ∀ (i : Nat) (a : α), l[i]? = some a → p (a, n + i) = none) ∨
    ∃ (i : Nat) (a : α) (b : β), (l.zipIdx n).findSome? p = some b ∧
      l[i]? = some a ∧ p (a, n + i) = some b ∧
      ∀ (j : Nat) (c : α), j < i → l[j]? = some c → p (c, n + j) = none := by
  induction l generalizing n with
  | nil => exact .inl ⟨rfl, by simp⟩
  | cons x l ih =>
      rw [List.zipIdx_cons, List.findSome?_cons]
      cases hx : p (x, n) with
      | some b =>
          refine .inr ⟨0, x, b, rfl, rfl, hx, ?_⟩
          intro j c hj
          exact absurd hj (Nat.not_lt_zero j)
      | none =>
          have hZero : ∀ c, (x :: l)[0]? = some c → p (c, n + 0) = none := by
            intro c hc
            obtain rfl : x = c := by simpa using hc
            exact hx
          have hShift : ∀ i, n + 1 + i = n + (i + 1) := by
            intro i
            omega
          rcases ih (n + 1) with ⟨hNone, hAll⟩ | ⟨i, a, b, hSome, hi, hb, hBefore⟩
          · refine .inl ⟨hNone, fun i a hi => ?_⟩
            cases i with
            | zero => exact hZero a hi
            | succ i => exact hShift i ▸ hAll i a hi
          · refine .inr ⟨i + 1, a, b, hSome, hi, hShift i ▸ hb, ?_⟩
            intro j c hj hc
            cases j with
            | zero => exact hZero c hc
            | succ j => exact hShift j ▸ hBefore j c (by omega) hc

/-- A position with its symbols to blame, if there are any. -/
def blamedAt (blamed : Nat → Fragment → List Name)
    (p : Fragment × Nat) : Option (Nat × Fragment × List Name) :=
  match blamed p.2 p.1 with
  | [] => none
  | names => some (p.2, p.1, names)

theorem blamedAt_eq_none {blamed : Nat → Fragment → List Name}
    {p : Fragment × Nat} (h : blamedAt blamed p = none) :
    blamed p.2 p.1 = [] := by
  unfold blamedAt at h
  cases hBlamed : blamed p.2 p.1 with
  | nil => rfl
  | cons s ss =>
      rw [hBlamed] at h
      cases h

theorem blamedAt_eq_some {blamed : Nat → Fragment → List Name}
    {p : Fragment × Nat} {b : Nat × Fragment × List Name}
    (h : blamedAt blamed p = some b) :
    blamed p.2 p.1 ≠ [] ∧ b = (p.2, p.1, blamed p.2 p.1) := by
  unfold blamedAt at h
  cases hBlamed : blamed p.2 p.1 with
  | nil =>
      rw [hBlamed] at h
      cases h
  | cons s ss =>
      rw [hBlamed] at h
      exact ⟨List.cons_ne_nil s ss, (Option.some.inj h).symm⟩

/-- Looking for symbols to blame finds the first position that has any. -/
theorem firstBlamed_outcome (slices : List Fragment)
    (declared : Fragment → List Name) (test : Nat → Fragment → Name → Bool)
    {blame : Nat → Fragment → Name → Prop}
    (hTest : ∀ k f s, test k f s = true ↔ blame k f s) :
    (firstBlamed slices (fun k f => (declared f).filter (test k f)) = none ∧
      ¬HasBlame slices declared blame) ∨
    ∃ k f names, firstBlamed slices
        (fun k f => (declared f).filter (test k f)) = some (k, f, names) ∧
      BlamesFirst slices declared blame k f names := by
  let blamed : Nat → Fragment → List Name :=
    fun k f => (declared f).filter (test k f)
  have hNone : ∀ k f, blamedAt blamed (f, 0 + k) = none →
      ∀ s ∈ declared f, ¬blame k f s := by
    intro k f h
    rw [Nat.zero_add] at h
    have hNil := List.filter_eq_nil_iff.mp (blamedAt_eq_none h)
    exact fun s hs hBlame => hNil s hs ((hTest k f s).mpr hBlame)
  have hSearch : firstBlamed slices blamed =
      slices.zipIdx.findSome? (blamedAt blamed) := rfl
  rw [hSearch]
  rcases findSome?_zipIdx slices 0 (blamedAt blamed) with
    ⟨hFound, hAll⟩ | ⟨k, f, b, hFound, hk, hHere, hBefore⟩
  · refine .inl ⟨hFound, ?_⟩
    rintro ⟨k, f, hk, s, hs, hBlame⟩
    exact hNone k f (hAll k f hk) s hs hBlame
  · right
    rw [Nat.zero_add] at hHere
    obtain ⟨hNonempty, rfl⟩ := blamedAt_eq_some hHere
    refine ⟨k, f, _, hFound, hk, hNonempty, List.filter_sublist, ?_, ?_⟩
    · intro s
      rw [List.mem_filter, hTest]
    · exact fun j g hj hg => hNone j g (hBefore j g hj hg)

/-! ## The two checks of a plan -/

/-- No fragment at another position provides the symbol. -/
def LacksProvider (slices : List Fragment) (k : Nat) (_ : Fragment)
    (s : Name) : Prop :=
  ∀ (j : Nat) (g : Fragment), j ≠ k → slices[j]? = some g →
    s.name ∉ g.provideNames

/-- The fragment does not bind the symbol. -/
def LeftUnbound (_ : Nat) (f : Fragment) (s : Name) : Prop :=
  s.name ∉ f.letNames

/-- The failure of a check at a position of a plan. -/
def planFailure (cause : Cause) (k : Nat) (f : Fragment) (unmet : List Name) :
    Failure where
  cause := cause
  fragment := some f.snapshot
  unmet := unmet.map .ofName
  context := [(.text "position", .int k)]

theorem lacksProvider_iff (slices : List Fragment) (k : Nat) (f : Fragment)
    (s : Name) :
    (!s.isIn ((slices.eraseIdx k).flatMap Fragment.provide)) = true ↔
      LacksProvider slices k f s := by
  rw [Bool.not_eq_true', isIn_eq_false_iff, List.map_flatMap, List.mem_flatMap]
  constructor
  · intro h j g hj hg hs
    exact h ⟨g, List.mem_eraseIdx_iff_getElem?.mpr ⟨j, hj, hg⟩, hs⟩
  · rintro h ⟨g, hg, hs⟩
    obtain ⟨j, hj, hg⟩ := List.mem_eraseIdx_iff_getElem?.mp hg
    exact h j g hj hg hs

theorem leftUnbound_iff (k : Nat) (f : Fragment) (s : Name) :
    (!s.isIn f.letSymbols) = true ↔ LeftUnbound k f s := by
  rw [Bool.not_eq_true', isIn_eq_false_iff, LeftUnbound, Fragment.letNames]

/-- A check that looks for symbols to blame refuses the first position with any. -/
private theorem blame_outcome (slices : List Fragment) (declared : Fragment → List Name)
    (test : Nat → Fragment → Name → Bool) {blame : Nat → Fragment → Name → Prop}
    (hTest : ∀ k f s, test k f s = true ↔ blame k f s) (cause : Fragment → Cause)
    {result : Except Fault Unit}
    (hResult : result =
      match firstBlamed slices (fun k f => (declared f).filter (test k f)) with
      | some (k, f, unmet) => refuseAt k f (cause f) unmet
      | none => .ok ()) :
    (result = .ok () ∧ ¬HasBlame slices declared blame) ∨
    ∃ k f unmet, BlamesFirst slices declared blame k f unmet ∧
      result = .error (.failure (planFailure (cause f) k f unmet)) := by
  rcases firstBlamed_outcome slices declared test hTest with
    ⟨hNone, hBlame⟩ | ⟨k, f, unmet, hSome, hFirst⟩
  · rw [hNone] at hResult
    exact .inl ⟨hResult, hBlame⟩
  · rw [hSome] at hResult
    exact .inr ⟨k, f, unmet, hFirst, hResult⟩

theorem checkSatisfied_outcome (slices : List Fragment) :
    (checkSatisfied slices = .ok () ∧
      ¬HasBlame slices Fragment.require (LacksProvider slices)) ∨
    ∃ k f unmet,
      BlamesFirst slices Fragment.require (LacksProvider slices) k f unmet ∧
      checkSatisfied slices =
        .error (.failure (planFailure (.requirementsUnmet f.name) k f unmet)) :=
  blame_outcome slices Fragment.require _ (lacksProvider_iff slices)
    (fun f => .requirementsUnmet f.name) rfl

theorem checkMustLet_outcome (slices : List Fragment) :
    (checkMustLet slices = .ok () ∧
      ¬HasBlame slices Fragment.mustLet LeftUnbound) ∨
    ∃ k f unmet,
      BlamesFirst slices Fragment.mustLet LeftUnbound k f unmet ∧
      checkMustLet slices =
        .error (.failure (planFailure (.mustLetUnbound f.name) k f unmet)) :=
  blame_outcome slices Fragment.mustLet _ leftUnbound_iff (fun f => .mustLetUnbound f.name)
    rfl

theorem checkSatisfied_eq_error {slices : List Fragment}
    (h : checkSatisfied slices ≠ .ok ()) : ∃ w : Failure,
      checkSatisfied slices = .error (.failure w) ∧ w.kind = .requirement := by
  rcases checkSatisfied_outcome slices with ⟨hOk, -⟩ | ⟨k, f, unmet, -, hError⟩
  · exact absurd hOk h
  · exact ⟨_, hError, rfl⟩

theorem checkMustLet_eq_error {slices : List Fragment}
    (h : checkMustLet slices ≠ .ok ()) : ∃ w : Failure,
      checkMustLet slices = .error (.failure w) ∧ w.kind = .mustLet := by
  rcases checkMustLet_outcome slices with ⟨hOk, -⟩ | ⟨k, f, unmet, -, hError⟩
  · exact absurd hOk h
  · exact ⟨_, hError, rfl⟩

/-- A plan of well-formed fragments is satisfied iff every requirement is
provided: no fragment provides what it requires itself. -/
theorem checkSatisfied_eq_ok_iff {slices : List Fragment}
    (h : ∀ f ∈ slices, f.WellFormed) : checkSatisfied slices = .ok () ↔
      ∀ f ∈ slices, ∀ n ∈ f.requireNames, ∃ g ∈ slices, n ∈ g.provideNames := by
  rcases checkSatisfied_outcome slices with
    ⟨hOk, hBlame⟩ | ⟨k, f, unmet, hFirst, hError⟩
  · refine iff_of_true hOk fun f hf n hn => ?_
    obtain ⟨k, hk⟩ := List.mem_iff_getElem?.mp hf
    obtain ⟨s, hs, rfl⟩ := List.mem_map.mp hn
    by_contra hNone
    refine hBlame ⟨k, f, hk, s, hs, fun j g _ hg hMem => hNone ?_⟩
    exact ⟨g, List.mem_of_getElem? hg, hMem⟩
  · rw [hError]
    refine iff_of_false (fun h' => nomatch h') fun hAll => ?_
    obtain ⟨s, hs⟩ := List.exists_mem_of_ne_nil unmet hFirst.nonempty
    obtain ⟨hRequire, hLacks⟩ := (hFirst.mem_iff s).mp hs
    have hMem := List.mem_of_getElem? hFirst.position
    have hName : s.name ∈ f.requireNames := List.mem_map_of_mem hRequire
    obtain ⟨g, hg, hProvide⟩ := hAll f hMem s.name hName
    obtain ⟨j, hj⟩ := List.mem_iff_getElem?.mp hg
    by_cases hjk : j = k
    · rw [hjk, hFirst.position] at hj
      rw [← Option.some.inj hj] at hProvide
      exact (h f hMem).disjoint s.name hProvide hName
    · exact hLacks j g hjk hj hProvide

/-- The must-let symbols of a plan are bound iff every fragment binds its
own. -/
theorem checkMustLet_eq_ok_iff (slices : List Fragment) :
    checkMustLet slices = .ok () ↔
      ∀ f ∈ slices, ∀ n ∈ f.mustLetNames, n ∈ f.letNames := by
  rcases checkMustLet_outcome slices with
    ⟨hOk, hBlame⟩ | ⟨k, f, unmet, hFirst, hError⟩
  · refine iff_of_true hOk fun f hf n hn => ?_
    obtain ⟨k, hk⟩ := List.mem_iff_getElem?.mp hf
    obtain ⟨s, hs, rfl⟩ := List.mem_map.mp hn
    by_contra hNot
    exact hBlame ⟨k, f, hk, s, hs, hNot⟩
  · rw [hError]
    refine iff_of_false (fun h' => nomatch h') fun hAll => ?_
    obtain ⟨s, hs⟩ := List.exists_mem_of_ne_nil unmet hFirst.nonempty
    obtain ⟨hMustLet, hUnbound⟩ := (hFirst.mem_iff s).mp hs
    exact hUnbound (hAll f (List.mem_of_getElem? hFirst.position) s.name
      (List.mem_map_of_mem hMustLet))

/-! ## The outcome -/

namespace Query

/-- Two plans get the same verdict if they agree on everything that decides a
compilation. -/
theorem compile_sameVerdict {slices slices' : List Fragment} {find : Value}
    {S : Query → Query → Prop} (hWell : ∀ f ∈ slices, f.WellFormed)
    (hWell' : ∀ f ∈ slices', f.WellFormed)
    (hSatisfied : checkSatisfied slices = .ok () ↔ checkSatisfied slices' = .ok ())
    (hMustLet : checkMustLet slices = .ok () ↔ checkMustLet slices' = .ok ())
    (hInfo : (orderSlices slices).findSome? Fragment.infoFault? =
      (orderSlices slices').findSome? Fragment.infoFault?)
    (hClash : ∀ n, ClashesOn slices n ↔ ClashesOn slices' n)
    (hQueries : ∀ q q', compile find slices = .ok q →
      compile find slices' = .ok q' → S q q') :
    SameVerdict S (compile find slices) (compile find slices') := by
  by_cases hOk : checkSatisfied slices = .ok ()
  · have hOk' := hSatisfied.mp hOk
    by_cases hBound : checkMustLet slices = .ok ()
    · have hBound' := hMustLet.mp hBound
      cases hFault : (orderSlices slices).findSome? Fragment.infoFault? with
      | some e =>
          rw [compile_eq_error_of_infoFault hWell find hOk hBound hFault,
            compile_eq_error_of_infoFault hWell' find hOk' hBound'
              (hInfo.symm.trans hFault)]
          exact .error e.sameKind_refl
      | none =>
          have hFault' := hInfo.symm.trans hFault
          by_cases hTwice : ∃ n, ClashesOn slices n
          · obtain ⟨e, f, n, hError, ⟨s, first, -, hRefuse⟩, -⟩ :=
              exists_compile_eq_error hWell find hOk hBound hFault hTwice
            obtain ⟨e', f', n', hError', ⟨s', first', -, hRefuse'⟩, -⟩ :=
              exists_compile_eq_error hWell' find hOk' hBound' hFault'
                ((exists_congr hClash).mp hTwice)
            rw [hError, hError', Except.error.inj hRefuse,
              Except.error.inj hRefuse']
            exact .error rfl
          · obtain ⟨q, hq⟩ := exists_compile_eq_ok hWell find hOk hBound hFault
              (not_exists.mp hTwice)
            obtain ⟨q', hq'⟩ := exists_compile_eq_ok hWell' find hOk' hBound'
              hFault' (not_exists.mp (mt (exists_congr hClash).mpr hTwice))
            rw [hq, hq']
            exact .ok (hQueries q q' hq hq')
    · obtain ⟨w, hError, hKind⟩ := checkMustLet_eq_error hBound
      obtain ⟨w', hError', hKind'⟩ := checkMustLet_eq_error (mt hMustLet.mpr hBound)
      rw [compile_eq hWell, compile_eq hWell', hOk, hOk', hError, hError']
      exact .error (hKind.trans hKind'.symm)
  · obtain ⟨w, hError, hKind⟩ := checkSatisfied_eq_error hOk
    obtain ⟨w', hError', hKind'⟩ := checkSatisfied_eq_error (mt hSatisfied.mpr hOk)
    rw [compile_eq hWell, compile_eq hWell', hError, hError']
    exact .error (hKind.trans hKind'.symm)

/-- The five outcomes of a compilation, each with what decides for it. -/
structure ExactOutcome (find : Value) (slices : List Fragment) : Prop where
  /-- A requirement that no other position provides is refused first. -/
  unmet_requirement :
    HasBlame slices Fragment.require (LacksProvider slices) →
    ∃ k f unmet,
      BlamesFirst slices Fragment.require (LacksProvider slices) k f unmet ∧
      compile find slices =
        .error (.failure (planFailure (.requirementsUnmet f.name) k f unmet))
  /-- Then a must-let variable that is not bound. -/
  unbound_mustLet :
    ¬HasBlame slices Fragment.require (LacksProvider slices) →
    HasBlame slices Fragment.mustLet LeftUnbound →
    ∃ k f unmet,
      BlamesFirst slices Fragment.mustLet LeftUnbound k f unmet ∧
      compile find slices =
        .error (.failure (planFailure (.mustLetUnbound f.name) k f unmet))
  /-- Then the fault of reading display information of a private variable, in
  compiled order. -/
  unreadable_info :
    ¬HasBlame slices Fragment.require (LacksProvider slices) →
    ¬HasBlame slices Fragment.mustLet LeftUnbound →
    ∀ e, (orderSlices slices).findSome? Fragment.infoFault? = some e →
      compile find slices = .error e
  /-- Mappings can be read, so this does not happen to them. -/
  mapping_info : (∀ f ∈ slices, f.InfoIsMapping) →
    (orderSlices slices).findSome? Fragment.infoFault? = none
  /-- Then a name that two positions provide and bind. -/
  clash :
    ¬HasBlame slices Fragment.require (LacksProvider slices) →
    ¬HasBlame slices Fragment.mustLet LeftUnbound →
    (orderSlices slices).findSome? Fragment.infoFault? = none →
    (∃ n, ClashesOn slices n) →
    ∃ (w : Failure) (s : Name) (first last : Value),
      compile find slices = .error (.failure w) ∧ w.kind = .bindingForm ∧
      w.cause = .declaredTwice s.name first last ∧ w.unmet = [.ofName s] ∧
      ClashesOn slices s.name
  /-- Nothing else stops a compilation. -/
  success :
    ¬HasBlame slices Fragment.require (LacksProvider slices) →
    ¬HasBlame slices Fragment.mustLet LeftUnbound →
    (orderSlices slices).findSome? Fragment.infoFault? = none →
    (∀ n, ¬ClashesOn slices n) → ∃ q, compile find slices = .ok q

private theorem checkSatisfied_eq_ok {slices : List Fragment}
    (h : ¬HasBlame slices Fragment.require (LacksProvider slices)) :
    checkSatisfied slices = .ok () := by
  rcases checkSatisfied_outcome slices with ⟨hOk, -⟩ | ⟨k, f, unmet, hFirst, -⟩
  · exact hOk
  · obtain ⟨s, hs⟩ := List.exists_mem_of_ne_nil unmet hFirst.nonempty
    exact absurd ⟨k, f, hFirst.position, s, (hFirst.mem_iff s).mp hs⟩ h

private theorem checkMustLet_eq_ok {slices : List Fragment}
    (h : ¬HasBlame slices Fragment.mustLet LeftUnbound) :
    checkMustLet slices = .ok () := by
  rcases checkMustLet_outcome slices with ⟨hOk, -⟩ | ⟨k, f, unmet, hFirst, -⟩
  · exact hOk
  · obtain ⟨s, hs⟩ := List.exists_mem_of_ne_nil unmet hFirst.nonempty
    exact absurd ⟨k, f, hFirst.position, s, (hFirst.mem_iff s).mp hs⟩ h

/-- Compilation of valid fragments answers as the plan decides; what renaming
makes of a fragment is never refused. -/
theorem compile_outcome (find : Value) (slices : List Fragment)
    (hValid : ∀ f ∈ slices, f.Valid) : ExactOutcome find slices := by
  have hWell : ∀ f ∈ slices, f.WellFormed :=
    fun f hf => f.valid_iff.mp (hValid f hf)
  refine ⟨?_, ?_, ?_, ?_, ?_, ?_⟩
  · intro hBlame
    rcases checkSatisfied_outcome slices with
      ⟨-, hNot⟩ | ⟨k, f, unmet, hFirst, hError⟩
    · exact absurd hBlame hNot
    · refine ⟨k, f, unmet, hFirst, ?_⟩
      rw [compile_eq hWell, hError, error_bind]
  · intro hSatisfied hBlame
    rcases checkMustLet_outcome slices with
      ⟨-, hNot⟩ | ⟨k, f, unmet, hFirst, hError⟩
    · exact absurd hBlame hNot
    · refine ⟨k, f, unmet, hFirst, ?_⟩
      rw [compile_eq hWell, checkSatisfied_eq_ok hSatisfied, hError, ok_bind,
        error_bind]
  · intro hSatisfied hMustLet e he
    rw [compile_eq hWell, checkSatisfied_eq_ok hSatisfied,
      checkMustLet_eq_ok hMustLet, he, okUnless_some, ok_bind, ok_bind,
      error_bind]
  · intro hMapping
    exact Fragment.findSome?_infoFault?_eq_none
      fun f hf => hMapping f (mem_orderSlices.mp hf)
  · intro hSatisfied hMustLet hInfo hClash
    obtain ⟨e, f, n, hError, ⟨s, first, rfl, hRefuse⟩, hClashes⟩ :=
      exists_compile_eq_error hWell find (checkSatisfied_eq_ok hSatisfied)
        (checkMustLet_eq_ok hMustLet) hInfo hClash
    obtain rfl := Except.error.inj hRefuse
    exact ⟨_, s, first, f.name, hError, rfl, rfl, rfl, hClashes⟩
  · intro hSatisfied hMustLet hInfo hApart
    exact exists_compile_eq_ok hWell find (checkSatisfied_eq_ok hSatisfied)
      (checkMustLet_eq_ok hMustLet) hInfo hApart

/-- Two fragments that both provide and bind `?x`. -/
def namesakes : List Fragment :=
  [ { clauses := [.vector [.named "?x", .named ":a"]]
      provide := [Symbol.plain "?x"]
      lets := [(.sym (Symbol.plain "?x"), .int 1)] }
  , { clauses := [.vector [.named "?x", .named ":b"]]
      provide := [Symbol.plain "?x"]
      lets := [(.sym (Symbol.plain "?x"), .int 2)] } ]

theorem compile_outcome_namesakes :
    (∀ f ∈ namesakes, f.Valid) ∧ ClashesOn namesakes "?x" ∧
      ExactOutcome .null namesakes := by
  have hValid : ∀ f ∈ namesakes, f.Valid := by
    rw [namesakes, List.forall_mem_cons, List.forall_mem_singleton]
    exact ⟨rfl, rfl⟩
  refine ⟨hValid, ?_, compile_outcome .null namesakes hValid⟩
  exact ⟨0, 1, _, _, by decide, rfl, rfl, ⟨by decide, by decide, by decide⟩,
    ⟨by decide, by decide, by decide⟩⟩

/-- A fragment whose only variable is private and carries the number five as
display information. -/
def unreadable : Fragment where
  clauses := [.sym ⟨"?x", some (.int 5)⟩]

/-- The fragment is valid and nothing is wrong with the plan that it makes,
but renaming reads its display information and stops. -/
theorem compile_unreadable :
    unreadable.Valid ∧
      ¬HasBlame [unreadable] Fragment.require (LacksProvider [unreadable]) ∧
      ¬HasBlame [unreadable] Fragment.mustLet LeftUnbound ∧
      (∀ n, ¬ClashesOn [unreadable] n) ∧
      compile .null [unreadable] = .error .wrongShape := by
  have hValid : unreadable.Valid := rfl
  have hOnly : ∀ {k : Nat} {f : Fragment}, [unreadable][k]? = some f →
      f = unreadable :=
    fun hk => List.mem_singleton.mp (List.mem_of_getElem? hk)
  have hWell : ∀ f ∈ [unreadable], f.WellFormed := by
    rw [List.forall_mem_singleton]
    exact unreadable.valid_iff.mp hValid
  have hFault : [unreadable].findSome? Fragment.infoFault? =
      some .wrongShape := rfl
  have hSatisfied : checkSatisfied [unreadable] = .ok () := rfl
  have hMustLet : checkMustLet [unreadable] = .ok () := rfl
  refine ⟨hValid, ?_, ?_, ?_, ?_⟩
  · rintro ⟨k, f, hk, s, hs, -⟩
    rw [hOnly hk] at hs
    exact absurd hs List.not_mem_nil
  · rintro ⟨k, f, hk, s, hs, -⟩
    rw [hOnly hk] at hs
    exact absurd hs List.not_mem_nil
  · intro n
    rw [not_clashesOn_iff]
    exact List.pairwise_singleton _ _
  · rw [compile_eq hWell, hSatisfied, hMustLet, orderSlices_singleton, hFault]
    rfl

end Query

end DatalogFragments
