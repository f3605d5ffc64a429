import DatalogFragments.Proofs.Fragment.WellFormed

/-!
# The life of a fragment

A fragment is never altered.  Every call makes another one, which is checked
as a whole, or is refused, and then the caller keeps the fragment at hand.
What a sequence of calls can do to a fragment follows from what one call can
do: it replaces all bindings, or it leaves clauses, declarations and bindings
alone, and it never unlocks.

The checks look at clauses, declarations and bindings only.  So what earlier
calls bound, and how they changed the bookkeeping, has no influence on whether
new bindings are accepted.

## Main definitions

* `Fragment.Change`, `Fragment.apply` — the calls and what they return;
* `Fragment.run` — a sequence of calls;
* `Fragment.acceptedBindings` — what the accepted calls of a sequence bound.

## Main results

* `Fragment.check_sameVerdict` — what the checks depend on;
* `Fragment.apply_cases` — what an accepted call does;
* `Fragment.isLocked_run`, `Fragment.lets_run` — what a sequence does;
* `Fragment.LifeCycle`, `Fragment.lifeCycle_run` — the whole.
-/

namespace DatalogFragments

namespace Fragment

/-! ## What the checks depend on -/

/-- Fragments with the same clauses and declarations. -/
structure SameBody (f g : Fragment) : Prop where
  clauses : f.clauses = g.clauses
  provide : f.provide = g.provide
  require : f.require = g.require
  mustLet : f.mustLet = g.mustLet

theorem SameBody.refl (f : Fragment) : f.SameBody f where
  clauses := rfl
  provide := rfl
  require := rfl
  mustLet := rfl

theorem SameBody.trans {f g h : Fragment} (hfg : f.SameBody g)
    (hgh : g.SameBody h) : f.SameBody h where
  clauses := hfg.clauses.trans hgh.clauses
  provide := hfg.provide.trans hgh.provide
  require := hfg.require.trans hgh.require
  mustLet := hfg.mustLet.trans hgh.mustLet

section Verdict

variable {f g : Fragment}

theorem SameBody.freeSymbols_eq (h : f.SameBody g) :
    f.freeSymbols = g.freeSymbols := by
  rw [freeSymbols, freeSymbols, h.clauses]

theorem SameBody.bindableSymbols_eq (h : f.SameBody g) :
    f.bindableSymbols = g.bindableSymbols := by
  rw [bindableSymbols, bindableSymbols, h.freeSymbols_eq, h.provide, h.require]

private theorem refuse_sameVerdict {α : Type} {S : α → α → Prop}
    {cause cause' : Cause} (hKind : cause.kind = cause'.kind) (unmet : List Name) :
    SameVerdict S (f.refuse cause unmet) (g.refuse cause' unmet) :=
  .error hKind

/-- Refusing a list of symbols unless it is empty. -/
private theorem blaming_sameVerdict {cause cause' : Cause}
    (hKind : cause.kind = cause'.kind) (l : List Name) :
    SameVerdict Eq
      (match l with
        | [] => Except.ok ()
        | blamed => f.refuse cause blamed)
      (match l with
        | [] => Except.ok ()
        | blamed => g.refuse cause' blamed) := by
  cases l with
  | nil => exact .ok rfl
  | cons s ss => exact refuse_sameVerdict hKind _

private theorem checkDeclared_sameVerdict (f g : Fragment) (declaration : String)
    (names : List Name) :
    SameVerdict Eq (f.checkDeclared declaration names)
      (g.checkDeclared declaration names) := by
  rw [checkDeclared, checkDeclared]
  cases names.find? fun s => !s.isDeclarable with
  | none => exact .ok rfl
  | some s => exact refuse_sameVerdict (by rfl) _

private theorem checkBound_sameVerdict (h : f.SameBody g) (bound l : List Name) :
    SameVerdict Eq (f.checkBound bound l) (g.checkBound bound l) := by
  induction l generalizing bound with
  | nil => exact .ok rfl
  | cons s l ih =>
      rw [checkBound, checkBound, h.bindableSymbols_eq]
      split
      · exact refuse_sameVerdict (by rfl) _
      · split
        · exact refuse_sameVerdict (by rfl) _
        · exact ih _

private theorem checkLets_sameVerdict (h : f.SameBody g) (bound : List Name)
    (lets : List (Form × Value)) :
    SameVerdict Eq (f.checkLets bound lets) (g.checkLets bound lets) := by
  induction lets generalizing bound with
  | nil => exact .ok rfl
  | cons p lets ih =>
      rw [checkLets, checkLets]
      refine (SameVerdict.refl _).bind fun _ _ _ => ?_
      refine (checkBound_sameVerdict h bound _).bind fun bound' _ hBound => ?_
      rw [← hBound]
      exact (SameVerdict.refl _).bind fun _ _ _ => ih bound'

/-- The verdict on a fragment depends on its clauses, its declarations and its
bindings only. -/
theorem check_sameVerdict (h : f.SameBody g) (hLets : f.lets = g.lets) :
    SameVerdict Eq f.check g.check := by
  have hOverlap : SameVerdict Eq f.checkOverlap g.checkOverlap := by
    rw [checkOverlap, checkOverlap, h.provide, h.require]
    exact blaming_sameVerdict (by rfl) _
  have hSpecials : SameVerdict Eq f.checkSpecials g.checkSpecials := by
    rw [checkSpecials, checkSpecials, h.freeSymbols_eq, h.provide, h.require]
    exact blaming_sameVerdict (by rfl) _
  have hMustLet : SameVerdict Eq f.checkMustLet g.checkMustLet := by
    rw [checkMustLet, checkMustLet, h.mustLet, h.bindableSymbols_eq]
    exact blaming_sameVerdict (by rfl) _
  rw [check, check, h.clauses, h.provide, h.require, h.mustLet, hLets]
  refine (checkDeclared_sameVerdict f g _ _).bind fun _ _ _ => ?_
  refine (checkDeclared_sameVerdict f g _ _).bind fun _ _ _ => ?_
  refine (checkDeclared_sameVerdict f g _ _).bind fun _ _ _ => ?_
  refine hOverlap.bind fun _ _ _ => ?_
  refine (SameVerdict.refl _).bind fun _ _ _ => ?_
  refine hSpecials.bind fun _ _ _ => ?_
  exact hMustLet.bind fun _ _ _ => checkLets_sameVerdict h [] _

/-- New bindings are judged by the clauses and declarations of a fragment,
whatever it binds already. -/
theorem bindAll_sameVerdict (h : f.SameBody g) (hf : f.isLocked = false)
    (hg : g.isLocked = false) (pairs : List (Value × Value)) :
    SameVerdict (fun f' g' => f'.lets = g'.lets) (f.bindAll pairs)
      (g.bindAll pairs) := by
  rw [bindAll, bindAll, hf, hg]
  refine (SameVerdict.refl (readForms pairs)).bind fun lets _ hLets => ?_
  rw [← hLets, checked, checked]
  have hBody : ({ f with lets } : Fragment).distinct.SameBody
      ({ g with lets } : Fragment).distinct := by
    rw [distinct, distinct, h.provide, h.require, h.mustLet]
    exact ⟨h.clauses, rfl, rfl, rfl⟩
  exact (check_sameVerdict hBody rfl).bind fun _ _ _ => .ok rfl

end Verdict

/-! ## One call -/

/-- A call that makes another fragment of a fragment. -/
inductive Change where
  | bind (form value : Value)
  | bindAll (pairs : List (Value × Value))
  | withSelectivity (selectivity : Value)
  | withName (name : Value)
  | withExtra (entries : Entries)
  | lock

/-- The bindings that a call asks for, if it asks for any. -/
def Change.pairs? : Change → Option (List (Value × Value))
  | .bind form value => some [(form, value)]
  | .bindAll pairs => some pairs
  | _ => none

/-- What a call returns. -/
def apply (f : Fragment) : Change → Except Fault Fragment
  | .bind form value => f.bindOne form value
  | .bindAll pairs => f.bindAll pairs
  | .withSelectivity selectivity => f.withSelectivity selectivity
  | .withName name => .ok (f.withName name)
  | .withExtra entries => .ok (f.withExtra entries)
  | .lock => .ok f.lock

variable {f g : Fragment} {c : Change}

theorem apply_eq_bindAll {pairs : List (Value × Value)}
    (h : c.pairs? = some pairs) (f : Fragment) : f.apply c = f.bindAll pairs := by
  cases c with
  | bind form value =>
      cases h
      rfl
  | bindAll _ =>
      cases h
      rfl
  | _ => cases h

/-- A locked fragment refuses all bindings. -/
theorem apply_of_locked {pairs : List (Value × Value)}
    (h : f.isLocked = true) (hPairs : c.pairs? = some pairs) :
    f.apply c = f.refuse (.fragmentLocked f.name) [] := by
  rw [apply_eq_bindAll hPairs, bindAll, if_pos h]

/-- What accepted bindings do: they replace all others. -/
theorem bindAll_eq_ok {pairs : List (Value × Value)} (hf : f.WellFormed)
    (h : f.bindAll pairs = .ok g) :
    f.isLocked = false ∧ ∃ lets, readForms pairs = .ok lets ∧
      g = { f with lets } ∧ g.WellFormed := by
  rw [bindAll] at h
  split at h
  · cases h
  · rename_i hLocked
    obtain ⟨lets, hRead, hChecked⟩ := bind_eq_ok_iff.mp h
    obtain ⟨hEq, hWell⟩ := (checked_eq_ok_iff _ g).mp hChecked
    -- The declarations are distinct before, so they stay as they are.
    have hDistinct : ({ f with lets } : Fragment).distinct = { f with lets } :=
      (distinct_eq_self_iff { f with lets }).mpr
        ⟨hf.provide_nodup, hf.require_nodup, hf.mustLet_nodup⟩
    exact ⟨by simpa using hLocked, lets, hRead, hEq.trans hDistinct, hWell⟩

/-- A fragment with the clauses, declarations and bindings of a well-formed one
is well formed. -/
private theorem WellFormed.congr (hf : f.WellFormed) (h : g.SameBody f)
    (hLets : g.lets = f.lets) : g.WellFormed := by
  obtain ⟨name, clauses, provide, require, lets, mustLet, selectivity, locked,
    extra⟩ := g
  obtain ⟨hClauses, hProvide, hRequire, hMustLet⟩ := h
  dsimp only at hClauses hProvide hRequire hMustLet hLets
  subst hClauses hProvide hRequire hMustLet hLets
  exact { hf with }

/-- An accepted call that asks for no bindings keeps them, and leaves the lock alone
or sets it. -/
theorem apply_of_pairs?_eq_none (h : f.apply c = .ok g) (hPairs : c.pairs? = none) :
    g.SameBody f ∧ g.lets = f.lets ∧ (g.locked = f.locked ∨ g.locked = .bool true) := by
  cases c with
  | bind form value => cases hPairs
  | bindAll pairs => cases hPairs
  | withSelectivity selectivity =>
      cases selectivity with
      | int i =>
          cases h
          exact ⟨⟨rfl, rfl, rfl, rfl⟩, rfl, .inl rfl⟩
      | _ => cases h
  | withName name =>
      cases h
      exact ⟨⟨rfl, rfl, rfl, rfl⟩, rfl, .inl rfl⟩
  | withExtra entries =>
      cases h
      exact ⟨⟨rfl, rfl, rfl, rfl⟩, rfl, .inl rfl⟩
  | lock =>
      cases h
      rw [lock]
      split
      · exact ⟨.refl f, rfl, .inl rfl⟩
      · exact ⟨⟨rfl, rfl, rfl, rfl⟩, rfl, .inr rfl⟩

/-- What an accepted call does.  It replaces the bindings of a fragment that is
not locked, or it keeps the bindings, and a lock. -/
theorem apply_cases (hf : f.WellFormed) (h : f.apply c = .ok g) :
    g.WellFormed ∧ g.SameBody f ∧
      ((∃ pairs, c.pairs? = some pairs ∧ f.isLocked = false ∧
          readForms pairs = .ok g.lets) ∨
        c.pairs? = none ∧ g.lets = f.lets ∧
          (f.isLocked = true → g.isLocked = true)) := by
  cases hPairs : c.pairs? with
  | some pairs =>
      rw [apply_eq_bindAll hPairs] at h
      obtain ⟨hLocked, lets, hRead, rfl, hWell⟩ := bindAll_eq_ok hf h
      exact ⟨hWell, ⟨rfl, rfl, rfl, rfl⟩, .inl ⟨pairs, rfl, hLocked, hRead⟩⟩
  | none =>
      obtain ⟨hBody, hLets, hLocked⟩ := apply_of_pairs?_eq_none h hPairs
      have hStays : f.isLocked = true → g.isLocked = true := by
        intro hLock
        rcases hLocked with hSame | hTrue
        · rw [isLocked, hSame]
          exact hLock
        · rw [isLocked, hTrue]
          rfl
      exact ⟨hf.congr hBody hLets, hBody, .inr ⟨rfl, hLets, hStays⟩⟩

/-! ## A sequence of calls -/

/-- The fragment that a caller has after a call.  A refused call leaves the one
at hand in place. -/
def step (f : Fragment) (c : Change) : Fragment :=
  match f.apply c with
  | .ok g => g
  | .error _ => f

/-- The bindings that a call asks for, if it is accepted. -/
def accepted? (f : Fragment) (c : Change) : Option (List (Value × Value)) :=
  match f.apply c with
  | .ok _ => c.pairs?
  | .error _ => none

/-- The fragment after a sequence of calls. -/
def run (f : Fragment) (cs : List Change) : Fragment := cs.foldl step f

/-- The bindings that the accepted calls of a sequence ask for, in order. -/
def acceptedBindings (f : Fragment) : List Change → List (List (Value × Value))
  | [] => []
  | c :: cs => (f.accepted? c).toList ++ (f.step c).acceptedBindings cs

/-- What a call does, accepted or not. -/
theorem step_cases (hf : f.WellFormed) (c : Change) :
    (f.step c).WellFormed ∧ (f.step c).SameBody f ∧
      ((∃ pairs, f.accepted? c = some pairs ∧ f.isLocked = false ∧
          readForms pairs = .ok (f.step c).lets) ∨
        f.accepted? c = none ∧ (f.step c).lets = f.lets ∧
          (f.isLocked = true → (f.step c).isLocked = true)) := by
  rw [step, accepted?]
  cases h : f.apply c with
  | ok g => exact apply_cases hf h
  | error e => exact ⟨hf, .refl f, .inr ⟨rfl, rfl, id⟩⟩

theorem run_cons (f : Fragment) (c : Change) (cs : List Change) :
    f.run (c :: cs) = (f.step c).run cs := rfl

theorem run_append (f : Fragment) (cs later : List Change) :
    f.run (cs ++ later) = (f.run cs).run later :=
  List.foldl_append

theorem wellFormed_run (hf : f.WellFormed) (cs : List Change) :
    (f.run cs).WellFormed := by
  induction cs generalizing f with
  | nil => exact hf
  | cons c cs ih => exact ih (step_cases hf c).1

theorem sameBody_run (hf : f.WellFormed) (cs : List Change) :
    (f.run cs).SameBody f := by
  induction cs generalizing f with
  | nil => exact .refl f
  | cons c cs ih =>
      obtain ⟨hWell, hBody, -⟩ := step_cases hf c
      exact (ih hWell).trans hBody

/-- A lock stays, and so do the bindings from then on. -/
theorem isLocked_run (hf : f.WellFormed) (hLocked : f.isLocked = true)
    (cs : List Change) :
    (f.run cs).isLocked = true ∧ (f.run cs).lets = f.lets := by
  induction cs generalizing f with
  | nil => exact ⟨hLocked, rfl⟩
  | cons c cs ih =>
      obtain ⟨hWell, -, ⟨pairs, -, hOpen, -⟩ | ⟨-, hLets, hLock⟩⟩ := step_cases hf c
      · rw [hLocked] at hOpen
        cases hOpen
      · rw [run_cons, ← hLets]
        exact ih hWell (hLock hLocked)

/-- The bindings are those of the last accepted call that asks for any, and
otherwise those from before. -/
theorem lets_run (hf : f.WellFormed) (cs : List Change) :
    (f.acceptedBindings cs = [] → (f.run cs).lets = f.lets) ∧
      ∀ pairs, (f.acceptedBindings cs).getLast? = some pairs →
        readForms pairs = .ok (f.run cs).lets := by
  induction cs generalizing f with
  | nil => exact ⟨fun _ => rfl, fun pairs h => nomatch h⟩
  | cons c cs ih =>
      obtain ⟨hWell, -, hCall⟩ := step_cases hf c
      obtain ⟨hNone, hLast⟩ := ih hWell
      rw [acceptedBindings, run_cons]
      rcases hCall with ⟨pairs, hAccepted, -, hRead⟩ | ⟨hAccepted, hLets, -⟩
      · rw [hAccepted]
        refine ⟨fun h => absurd h (List.cons_ne_nil _ _), fun last h => ?_⟩
        -- Either a later call is accepted, or this one was the last.
        cases hLater : (f.step c).acceptedBindings cs with
        | nil =>
            rw [hLater] at h
            obtain rfl : pairs = last := by simpa using h
            rw [hNone hLater]
            exact hRead
        | cons next rest =>
            refine hLast last ?_
            rw [hLater] at h ⊢
            rwa [Option.toList_some, List.singleton_append,
              List.getLast?_cons_cons] at h
      · rw [hAccepted, ← hLets]
        exact ⟨hNone, hLast⟩

/-! ## The whole -/

/-- What holds after any sequence of calls on a fragment. -/
structure LifeCycle (f : Fragment) (cs : List Change) : Prop where
  valid : (f.run cs).Valid
  body : (f.run cs).SameBody f
  lets_kept : f.acceptedBindings cs = [] → (f.run cs).lets = f.lets
  /-- Nothing is left of earlier bindings. -/
  lets_last : ∀ pairs, (f.acceptedBindings cs).getLast? = some pairs →
    readForms pairs = .ok (f.run cs).lets
  /-- Once locked, a fragment stays so with the bindings that it has. -/
  locked_stays : (f.run cs).isLocked = true → ∀ later,
    (f.run (cs ++ later)).isLocked = true ∧
      (f.run (cs ++ later)).lets = (f.run cs).lets
  /-- From then on all bindings are refused, whatever they are. -/
  locked_refuses : (f.run cs).isLocked = true → ∀ later c pairs,
    c.pairs? = some pairs → ∃ w : Failure,
      (f.run (cs ++ later)).apply c = .error (.failure w) ∧ w.kind = .locked
  /-- Until then bindings are judged as if they were the first ones. -/
  unlocked_verdict : (f.run cs).isLocked = false → ∀ pairs,
    SameVerdict (fun g h => g.lets = h.lets) ((f.run cs).bindAll pairs)
      (f.bindAll pairs)

/-- Every sequence of calls on a valid fragment, some of which may be refused,
keeps to the life cycle. -/
theorem lifeCycle_run (f : Fragment) (cs : List Change) (hValid : f.Valid) :
    LifeCycle f cs := by
  have hf := f.valid_iff.mp hValid
  have hWell := wellFormed_run hf cs
  obtain ⟨hKept, hLast⟩ := lets_run hf cs
  have hLater : (f.run cs).isLocked = true → ∀ later,
      (f.run (cs ++ later)).isLocked = true ∧
        (f.run (cs ++ later)).lets = (f.run cs).lets := by
    intro hLocked later
    rw [run_append]
    exact isLocked_run hWell hLocked later
  refine ⟨(valid_iff _).mpr hWell, sameBody_run hf cs, hKept, hLast, hLater, ?_, ?_⟩
  · intro hLocked later c pairs hPairs
    exact ⟨_, apply_of_locked (hLater hLocked later).1 hPairs, rfl⟩
  · intro hOpen pairs
    refine bindAll_sameVerdict (sameBody_run hf cs) hOpen ?_ pairs
    by_contra hLocked
    rw [Bool.not_eq_false] at hLocked
    rw [(isLocked_run hf hLocked cs).1] at hOpen
    cases hOpen

/-- A fragment that wants `?y` bound. -/
def wanting : Fragment where
  clauses := [.vector [.named "?x", .literal (.keyword ":a"), .named "?y"]]
  provide := [Symbol.plain "?x"]
  mustLet := [Symbol.plain "?y"]

/-- A binding of `?y`, one of a variable that does not occur, and another one
of `?y` after a lock. -/
def attempts : List Change :=
  [ .bindAll [(.text "?y", .int 1)]
  , .bind (.text "?z") (.int 2)
  , .lock
  , .bind (.text "?y") (.int 3) ]

private theorem readForms_text {n : String} (h : isDeclarableName n = true)
    (value : Value) : readForms [(.text n, value)] =
      .ok [(.sym (Symbol.plain n), value)] := by
  have hWhole : (Form.sym (Symbol.plain n)).Whole := .symbol h
  rw [readForms, Form.ofData, ok_bind, (Form.check_true_iff _).mpr hWhole]
  rfl

private theorem acceptedBindings_attempts :
    wanting.acceptedBindings attempts = [[(.text "?y", .int 1)]] := by
  have hFirst : wanting.apply (.bindAll [(.text "?y", .int 1)]) =
      .ok { wanting with lets := [(.sym (Symbol.plain "?y"), .int 1)] } := by
    rw [apply, bindAll, readForms_text (by decide)]
    rfl
  obtain ⟨e, hSecond⟩ : ∃ e, ({ wanting with
      lets := [(.sym (Symbol.plain "?y"), .int 1)] } : Fragment).apply
        (.bind (.text "?z") (.int 2)) = .error e := by
    rw [apply, bindOne, bindAll, readForms_text (by decide)]
    exact ⟨_, rfl⟩
  simp only [attempts, acceptedBindings, accepted?, step, hFirst, hSecond]
  rfl

theorem lifeCycle_run_attempts : wanting.Valid ∧
    wanting.acceptedBindings attempts = [[(.text "?y", .int 1)]] ∧
    LifeCycle wanting attempts := by
  have hValid : wanting.Valid := rfl
  exact ⟨hValid, acceptedBindings_attempts, lifeCycle_run wanting attempts hValid⟩

end Fragment

end DatalogFragments
