import DatalogFragments.Proofs.FreshName.Numbering

/-!
# The search for a fresh name ends

A search looks at one candidate after the other and stops at the first one that
is not taken; nothing in it bounds how long it goes on.  What does is that the
candidates behind it are pairwise different and all taken.  With every step
there is one more of them, so a search passes over at most as many candidates
as there are taken names, however often one of these is listed.

## Main definitions

* `Search.Ends` — the runs of the search, a loop without a bound;
* `Draws`, `DrawsAll` — calls that add the name they find to the taken names.

## Main results

* `Search.Reached.next`, `Search.Reached.of_ends` — what a step and a run keep;
* `Search.Reached.exists_ends` — the loop ends;
* `drawsAll_iff` — calls one after the other draw `freshNames`;
* `draws_least_unused` — what calls return and leave.
-/

namespace DatalogFragments

/-! ## The loop -/

/-- The state of a search: the suffix tried last, and the candidate that it
made. -/
structure Search where
  suffix : Nat
  candidate : String

namespace Search

/-- A search starts with the base itself. -/
def start (base : String) : Search := ⟨0, base⟩

/-- The next candidate has the next suffix. -/
def next (base : String) (s : Search) : Search where
  suffix := s.suffix + 1
  candidate := base ++ "_" ++ intText ((s.suffix + 1 : Nat) : Int)

/-- The loop goes on as long as the candidate is taken: how many candidates it
looks at, and the state that it stops in.  A loop without an end has no run. -/
inductive Ends (base : String) (taken : List String) : Search → Nat → Search → Prop where
  | stop {s : Search} (hFree : s.candidate ∉ taken) : Ends base taken s 1 s
  | step {s last : Search} {looked : Nat} (hTaken : s.candidate ∈ taken)
      (hRest : Ends base taken (s.next base) looked last) :
      Ends base taken s (looked + 1) last

variable {base : String} {taken : List String}

theorem Ends.unique {s last last' : Search} {looked looked' : Nat}
    (h : Ends base taken s looked last) (h' : Ends base taken s looked' last') :
    looked = looked' ∧ last = last' := by
  induction h generalizing looked' with
  | stop hFree =>
      cases h' with
      | stop => exact ⟨rfl, rfl⟩
      | step hTaken => exact absurd hTaken hFree
  | step hTaken _ ih =>
      cases h' with
      | stop hFree => exact absurd hTaken hFree
      | step _ hRest' =>
          obtain ⟨hLooked, hLast⟩ := ih hRest'
          exact ⟨congrArg (· + 1) hLooked, hLast⟩

/-- A state that a search can come to: the candidates before this one are
taken. -/
structure Reached (base : String) (taken : List String) (s : Search) : Prop where
  candidate_eq : s.candidate = candidateName base s.suffix
  taken_before : ∀ m < s.suffix, candidateName base m ∈ taken

theorem reached_start (base : String) (taken : List String) :
    Reached base taken (start base) where
  candidate_eq := rfl
  taken_before := fun m hm => absurd hm (Nat.not_lt_zero m)

namespace Reached

variable {s : Search}

/-- A step of the loop. -/
theorem next (h : Reached base taken s) (hTaken : s.candidate ∈ taken) :
    Reached base taken (s.next base) where
  candidate_eq := rfl
  taken_before := by
    intro m hm
    rcases Nat.lt_succ_iff_lt_or_eq.mp hm with hBefore | rfl
    · exact h.taken_before m hBefore
    · rw [← h.candidate_eq]
      exact hTaken

/-- A whole run, which looks at one candidate more than it passes over. -/
theorem of_ends {last : Search} {looked : Nat} (h : Reached base taken s)
    (hEnds : Ends base taken s looked last) :
    Reached base taken last ∧ last.candidate ∉ taken ∧
      s.suffix + looked = last.suffix + 1 := by
  induction hEnds with
  | stop hFree => exact ⟨h, hFree, rfl⟩
  | @step s last looked hTaken _ ih =>
      obtain ⟨hLast, hFree, hCount⟩ := ih (h.next hTaken)
      have hNext : (s.next base).suffix = s.suffix + 1 := rfl
      exact ⟨hLast, hFree, by omega⟩

/-- The suffix counts the taken names that were passed over. -/
theorem suffix_le (h : Reached base taken s) : s.suffix ≤ taken.toFinset.card :=
  le_card_of_candidates_mem h.taken_before

/-- From every state that it can come to, the loop goes on to an end. -/
theorem exists_ends (h : Reached base taken s) :
    ∃ looked last, Ends base taken s looked last := by
  -- By induction on how many taken names are left to be passed over.
  induction hLeft : taken.toFinset.card - s.suffix generalizing s with
  | zero =>
      refine ⟨1, s, .stop fun hTaken => ?_⟩
      have hMore : s.suffix + 1 ≤ taken.toFinset.card := (h.next hTaken).suffix_le
      omega
  | succ left ih =>
      by_cases hTaken : s.candidate ∈ taken
      · have hNext : taken.toFinset.card - (s.next base).suffix = left := by
          have hSuffix : (s.next base).suffix = s.suffix + 1 := rfl
          omega
        obtain ⟨looked, last, hRest⟩ := ih (h.next hTaken) hNext
        exact ⟨looked + 1, last, .step hTaken hRest⟩
      · exact ⟨1, s, .stop hTaken⟩

end Reached

/-- A whole search finds the fresh name. -/
theorem Ends.of_start {last : Search} {looked : Nat}
    (h : Ends base taken (start base) looked last) :
    looked ≤ taken.toFinset.card + 1 ∧ last.candidate = freshName base taken := by
  obtain ⟨hLast, hFree, hCount⟩ := (reached_start base taken).of_ends h
  constructor
  · have hSuffix := hLast.suffix_le
    have hStart : (start base).suffix = 0 := rfl
    omega
  · rw [hLast.candidate_eq] at hFree ⊢
    exact (leastUnused_candidateName hFree hLast.taken_before).unique
      (leastUnused_freshName base taken)

end Search

/-! ## Calls -/

/-- What a call returns and what it leaves. -/
structure Drawn where
  /-- How many candidates the search looked at. -/
  looked : Nat
  name : String
  /-- The taken names afterwards. -/
  taken : List String

/-- A call searches for a name that is not taken, and takes it. -/
inductive Draws (base : String) (taken : List String) : Drawn → Prop where
  | found {looked : Nat} {last : Search}
      (hEnds : Search.Ends base taken (.start base) looked last) :
      Draws base taken ⟨looked, last.candidate, last.candidate :: taken⟩

/-- Calls one after the other, on the same taken names: the names that they
return, and the taken names after the last one. -/
inductive DrawsAll : List String → List String → List String → List String → Prop where
  | nil {taken : List String} : DrawsAll [] taken [] taken
  | cons {base : String} {bases taken names grown : List String} {d : Drawn}
      (hFirst : Draws base taken d) (hRest : DrawsAll bases d.taken names grown) :
      DrawsAll (base :: bases) taken (d.name :: names) grown

/-- A call has one outcome. -/
theorem exists_draws_iff (base : String) (taken : List String) :
    ∃ looked ≤ taken.toFinset.card + 1, ∀ d, Draws base taken d ↔
      d = ⟨looked, freshName base taken, freshName base taken :: taken⟩ := by
  obtain ⟨looked, last, hEnds⟩ := (Search.reached_start base taken).exists_ends
  obtain ⟨hLooked, hName⟩ := hEnds.of_start
  refine ⟨looked, hLooked, fun d => ⟨?_, ?_⟩⟩
  · rintro ⟨hEnds'⟩
    obtain ⟨rfl, rfl⟩ := hEnds.unique hEnds'
    rw [hName]
  · rintro rfl
    rw [← hName]
    exact .found hEnds

/-- Calls one after the other end, and draw the fresh names. -/
theorem drawsAll_iff {bases taken names grown : List String} :
    DrawsAll bases taken names grown ↔ freshNames bases taken = (names, grown) := by
  constructor
  · intro h
    induction h with
    | nil => rfl
    | @cons base bases taken names grown d hFirst _ ih =>
        obtain ⟨looked, -, hOutcome⟩ := exists_draws_iff base taken
        obtain rfl := (hOutcome d).mp hFirst
        rw [freshNames_cons, ih]
  · intro h
    induction bases generalizing taken names grown with
    | nil =>
        obtain ⟨rfl, rfl⟩ := Prod.mk.inj h
        exact .nil
    | cons base bases ih =>
        rw [freshNames_cons] at h
        obtain ⟨rfl, rfl⟩ := Prod.mk.inj h
        obtain ⟨looked, -, hOutcome⟩ := exists_draws_iff base taken
        exact .cons ((hOutcome _).mpr rfl) (ih rfl)

/-- A call ends soon, with the least unused name, and takes that name only. -/
structure Drawn.Settles (base : String) (taken : List String) (d : Drawn) : Prop where
  looked_le : d.looked ≤ taken.toFinset.card + 1
  name_eq : d.name = freshName base taken
  least : LeastUnused taken base d.name
  taken_eq : d.taken.toFinset = insert d.name taken.toFinset

/-- Names drawn by calls on the same taken names are new, pairwise different,
and taken afterwards. -/
structure DrawnApart (bases taken names grown : List String) : Prop where
  drawn : freshNames bases taken = (names, grown)
  length_eq : names.length = bases.length
  nodup : names.Nodup
  unused : ∀ n ∈ names, n ∉ taken
  grown_eq : grown.toFinset = taken.toFinset ∪ names.toFinset

theorem drawnApart_freshNames (bases taken : List String) :
    DrawnApart bases taken (freshNames bases taken).1 (freshNames bases taken).2 where
  drawn := rfl
  length_eq := length_freshNames bases taken
  nodup := nodup_freshNames bases taken
  unused := freshNames_not_mem bases taken
  grown_eq := by
    rw [freshNames_taken, List.toFinset_append, List.toFinset_reverse, Finset.union_comm]

/-- Whatever names are taken, every call ends, after one candidate more than
there are taken names at the latest, and so does every sequence of calls. -/
theorem draws_least_unused :
    (∀ base taken, ∃ d : Drawn, (∀ e, Draws base taken e ↔ e = d) ∧ d.Settles base taken) ∧
    ∀ bases taken, ∃ names grown,
      (∀ ns g, DrawsAll bases taken ns g ↔ (ns, g) = (names, grown)) ∧
        DrawnApart bases taken names grown := by
  constructor
  · intro base taken
    obtain ⟨looked, hLooked, hOutcome⟩ := exists_draws_iff base taken
    exact ⟨_, hOutcome,
      { looked_le := hLooked
        name_eq := rfl
        least := leastUnused_freshName base taken
        taken_eq := List.toFinset_cons }⟩
  · intro bases taken
    exact ⟨_, _, fun ns g => drawsAll_iff.trans eq_comm, drawnApart_freshNames bases taken⟩

/-- Two names are taken, one of them is listed twice. -/
example : freshNames ["?x", "?x", "?y"] ["?x", "?x_1", "?x"] =
    (["?x_2", "?x_3", "?y"], ["?y", "?x_3", "?x_2", "?x", "?x_1", "?x"]) := by decide

end DatalogFragments
