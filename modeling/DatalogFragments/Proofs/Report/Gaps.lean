import DatalogFragments.Report
import DatalogFragments.Proofs.Disjunction.Composite
import DatalogFragments.Proofs.FreshName
import DatalogFragments.Proofs.Query.Outcome
import Mathlib.Data.List.Induction

/-!
# The gaps of a report

A report and a compilation look for the same gaps: requirements that no other
fragment provides and must-let variables that are not bound.  The compilation
stops at the first one, the report sets a row for every position that has one,
under a label made of the position and of the name of the fragment.

Names are arbitrary, but everything before the first colon of a label is the
position.  So no row is ever set twice, and the first row of the report is what
the compilation stops at.

## Main results

* `Table.ofRows_eq_self` — setting rows of pairwise different keys;
* `Report.sliceLabel_injective` — a label tells the position;
* `Report.gapsAgree` — the gaps of a report and a check of the compilation;
* `Report.agrees_of_ofSlices` — the whole report.
-/

namespace DatalogFragments

/-! ## Setting rows -/

theorem Table.put_of_not_mem {key : String} {table : Table}
    (h : key ∉ table.map Prod.fst) (items : List String) :
    table.put key items = table ++ [(key, items)] := by
  induction table with
  | nil => rfl
  | cons row rest ih =>
      rw [List.map_cons, List.mem_cons, not_or] at h
      rw [Table.put, if_neg (Ne.symm h.1), ih h.2]
      rfl

private theorem foldl_put_eq_append (rows table : Table)
    (h : ((table ++ rows).map Prod.fst).Nodup) :
    rows.foldl (fun t row => Table.put row.1 row.2 t) table = table ++ rows := by
  induction rows generalizing table with
  | nil => rw [List.foldl_nil, List.append_nil]
  | cons row rows ih =>
      have hApart := h
      rw [List.map_append, List.map_cons, List.nodup_append] at hApart
      have hNew : row.1 ∉ table.map Prod.fst := fun hMem =>
        hApart.2.2 row.1 hMem row.1 List.mem_cons_self rfl
      rw [List.append_cons] at h ⊢
      rw [List.foldl_cons, Table.put_of_not_mem hNew, ih _ h]

/-- Rows of pairwise different keys are all kept, in their order. -/
theorem Table.ofRows_eq_self {rows : Table} (h : (rows.map Prod.fst).Nodup) :
    Table.ofRows rows = rows :=
  foldl_put_eq_append rows [] h

namespace Report

/-! ## Labels -/

/-- What stands before the first colon of a label is the position. -/
private theorem takeWhile_sliceLabel (k : Nat) (f : Fragment) :
    (sliceLabel k f).toList.takeWhile (· ≠ ':') = digitsOf k := by
  have hDigits : ∀ c ∈ digitsOf k, (decide (c ≠ ':')) = true := by
    intro c hc
    have hDigit : c.isDigit = true :=
      Nat.isDigit_of_mem_toDigits (by decide) (by decide) hc
    refine decide_eq_true fun hColon => ?_
    rw [hColon] at hDigit
    exact absurd hDigit (by decide)
  have hText : (sliceLabel k f).toList =
      digitsOf k ++ ':' :: f.name.labelText.toList := by
    rw [sliceLabel, intText_natCast]
    simp
  rw [hText, List.takeWhile_append_of_pos hDigits]
  simp

theorem sliceLabel_injective {j k : Nat} {f g : Fragment}
    (h : sliceLabel j f = sliceLabel k g) : j = k := by
  apply intText_natCast_injective
  rw [intText_natCast, intText_natCast, ← takeWhile_sliceLabel j f, h,
    takeWhile_sliceLabel k g]

/-! ## Rows of ascending positions -/

/-- Positions of a plan with a list of names each. -/
abbrev Listing := List (Nat × Fragment × List Name)

/-- The rows of a listing. -/
def Listing.rows (listing : Listing) : Table :=
  listing.map fun (k, f, names) => sliceRow k f names

theorem Listing.nodup_keys {listing : Listing}
    (h : listing.Pairwise fun a b => a.1 < b.1) :
    (listing.rows.map Prod.fst).Nodup := by
  rw [Listing.rows, List.map_map, List.Nodup, List.pairwise_map]
  exact h.imp fun hLt hLabel => absurd (sliceLabel_injective hLabel) (Nat.ne_of_lt hLt)

private theorem pairwise_zipIdx (slices : List Fragment) :
    slices.zipIdx.Pairwise fun a b => a.2 < b.2 := by
  rw [← List.pairwise_map, List.zipIdx_map_snd]
  exact List.pairwise_lt_range'

/-! ## Gaps -/

/-- The symbols to blame at a position of a plan, of which there is one at
least: all of them, in the order of their declaration. -/
structure GapAt (slices : List Fragment) (declared : Fragment → List Name)
    (blame : Nat → Fragment → Name → Prop) (k : Nat) (f : Fragment)
    (names : List Name) : Prop where
  position : slices[k]? = some f
  nonempty : names ≠ []
  listed : ∃ test : Name → Bool, (∀ s, test s = true ↔ blame k f s) ∧
    names = (declared f).filter test

theorem GapAt.exists_blame {slices : List Fragment}
    {declared : Fragment → List Name} {blame : Nat → Fragment → Name → Prop}
    {k : Nat} {f : Fragment} {names : List Name}
    (h : GapAt slices declared blame k f names) :
    ∃ s ∈ declared f, blame k f s := by
  obtain ⟨test, hTest, hNames⟩ := h.listed
  obtain ⟨s, hs⟩ := List.exists_mem_of_ne_nil names h.nonempty
  rw [hNames, List.mem_filter, hTest] at hs
  exact ⟨s, hs⟩

/-- A table of gaps and a check for gaps speak of one and the same thing. -/
structure GapsAgree (slices : List Fragment) (declared : Fragment → List Name)
    (blame : Nat → Fragment → Name → Prop) (cause : Value → Cause)
    (check : Except Fault Unit) (table : Table) : Prop where
  /-- There is one row for each position with a symbol to blame, by position. -/
  rows : ∃ positions : List Nat, positions.Pairwise (· < ·) ∧
    (∀ k, k ∈ positions ↔
      ∃ f, slices[k]? = some f ∧ ∃ s ∈ declared f, blame k f s) ∧
    List.Forall₂ (fun k row => ∃ f names,
      GapAt slices declared blame k f names ∧ row = sliceRow k f names)
      positions table
  /-- No row is in the place of another one. -/
  nodup_keys : (table.map Prod.fst).Nodup
  /-- The check goes through iff the table is empty. -/
  silent_iff : check = .ok () ↔ table = []
  /-- Otherwise it stops at the position and with the symbols of the first
  row. -/
  first : ∀ row ∈ table.head?, ∃ k f names,
    GapAt slices declared blame k f names ∧ row = sliceRow k f names ∧
    check = .error (.failure (planFailure (cause f.name) k f names))

/-- The positions for which a list of names is not empty. -/
private def gapListing (slices : List Fragment)
    (blamed : Nat → Fragment → List Name) : Listing :=
  slices.zipIdx.filterMap (blamedAt blamed)

private theorem pairwise_gapListing (slices : List Fragment)
    (blamed : Nat → Fragment → List Name) :
    (gapListing slices blamed).Pairwise fun a b => a.1 < b.1 := by
  refine List.Pairwise.filterMap _ ?_ (pairwise_zipIdx slices)
  intro p q hLt a ha b hb
  obtain ⟨-, rfl⟩ := blamedAt_eq_some ha
  obtain ⟨-, rfl⟩ := blamedAt_eq_some hb
  exact hLt

private theorem gapsOf_eq_rows (slices : List Fragment)
    (blamed : Nat → Fragment → List Name) :
    gapsOf slices blamed = (gapListing slices blamed).rows := by
  rw [gapsOf]
  refine Eq.trans (congrArg Table.ofRows ?_)
    (Table.ofRows_eq_self (Listing.nodup_keys (pairwise_gapListing slices blamed)))
  rw [Listing.rows, gapListing, List.map_filterMap]
  refine List.filterMap_congr fun p _ => ?_
  obtain ⟨f, index⟩ := p
  dsimp only [blamedAt]
  cases blamed index f with
  | nil => rfl
  | cons s ss => rfl

private theorem firstBlamed_eq_head? (slices : List Fragment)
    (blamed : Nat → Fragment → List Name) :
    firstBlamed slices blamed = (gapListing slices blamed).head? :=
  List.head?_filterMap.symm

section

variable {slices : List Fragment} {declared : Fragment → List Name}
  {test : Nat → Fragment → Name → Bool} {blame : Nat → Fragment → Name → Prop}

private theorem gapAt_of_mem (hTest : ∀ k f s, test k f s = true ↔ blame k f s)
    {k : Nat} {f : Fragment} {names : List Name}
    (h : (k, f, names) ∈
      gapListing slices fun k f => (declared f).filter (test k f)) :
    GapAt slices declared blame k f names := by
  obtain ⟨⟨g, j⟩, hMem, hBlamed⟩ := List.mem_filterMap.mp h
  obtain ⟨hNonempty, hEq⟩ := blamedAt_eq_some hBlamed
  obtain ⟨rfl, rfl, rfl⟩ : k = j ∧ f = g ∧ names = (declared g).filter (test j g) := by
    simpa using hEq
  exact
    { position := List.mem_zipIdx_iff_getElem?.mp hMem
      nonempty := hNonempty
      listed := ⟨test k f, hTest k f, rfl⟩ }

private theorem mem_positions_iff
    (hTest : ∀ k f s, test k f s = true ↔ blame k f s) (k : Nat) :
    k ∈ (gapListing slices fun k f => (declared f).filter (test k f)).map Prod.fst ↔
      ∃ f, slices[k]? = some f ∧ ∃ s ∈ declared f, blame k f s := by
  constructor
  · intro h
    obtain ⟨⟨j, f, names⟩, hMem, rfl⟩ := List.mem_map.mp h
    have hGap := gapAt_of_mem hTest hMem
    exact ⟨f, hGap.position, hGap.exists_blame⟩
  · rintro ⟨f, hk, s, hs, hBlame⟩
    have hNonempty : (declared f).filter (test k f) ≠ [] :=
      List.ne_nil_of_mem (List.mem_filter.mpr ⟨hs, (hTest k f s).mpr hBlame⟩)
    refine List.mem_map.mpr ⟨(k, f, (declared f).filter (test k f)), ?_, rfl⟩
    refine List.mem_filterMap.mpr ⟨(f, k), List.mem_zipIdx_iff_getElem?.mpr hk, ?_⟩
    rw [blamedAt]
    split
    · contradiction
    · rfl

/-- The gaps that a report lists for a condition on declared symbols are those
that a check of the condition stops at. -/
theorem gapsAgree (hTest : ∀ k f s, test k f s = true ↔ blame k f s)
    (cause : Value → Cause) {check : Except Fault Unit}
    (hCheck : check =
      match firstBlamed slices fun k f => (declared f).filter (test k f) with
      | some (k, f, names) => refuseAt k f (cause f.name) names
      | none => .ok ()) :
    GapsAgree slices declared blame cause check
      (gapsOf slices fun k f => (declared f).filter (test k f)) := by
  have hAscending := pairwise_gapListing slices
    fun k f => (declared f).filter (test k f)
  have hMem : ∀ k, k ∈ (gapListing slices
      fun k f => (declared f).filter (test k f)).map Prod.fst ↔
      ∃ f, slices[k]? = some f ∧ ∃ s ∈ declared f, blame k f s :=
    mem_positions_iff hTest
  have hGap : ∀ k f names, (k, f, names) ∈ gapListing slices
      (fun k f => (declared f).filter (test k f)) →
      GapAt slices declared blame k f names := fun k f names => gapAt_of_mem hTest
  rw [firstBlamed_eq_head?] at hCheck
  rw [gapsOf_eq_rows]
  generalize gapListing slices (fun k f => (declared f).filter (test k f)) =
    listing at hAscending hMem hGap hCheck
  exact
    { rows := by
        refine ⟨listing.map Prod.fst, List.pairwise_map.mpr hAscending, hMem, ?_⟩
        rw [Listing.rows, List.forall₂_map_left_iff, List.forall₂_map_right_iff,
          List.forall₂_same]
        rintro ⟨k, f, names⟩ hIn
        exact ⟨f, names, hGap k f names hIn, rfl⟩
      nodup_keys := Listing.nodup_keys hAscending
      silent_iff := by
        cases listing with
        | nil => exact iff_of_true hCheck rfl
        | cons entry rest =>
            refine iff_of_false ?_ (List.cons_ne_nil _ _)
            rw [hCheck]
            exact fun h => nomatch h
      first := by
        cases listing with
        | nil => exact fun row h => nomatch h
        | cons entry rest =>
            obtain ⟨k, f, names⟩ := entry
            intro row hRow
            obtain rfl : sliceRow k f names = row := Option.some.inj hRow
            exact ⟨k, f, names, hGap k f names List.mem_cons_self, rfl, hCheck⟩ }

end

theorem gapsAgree_unmetAt (slices : List Fragment) :
    GapsAgree slices Fragment.require (LacksProvider slices) .requirementsUnmet
      (checkSatisfied slices) (gapsOf slices (unmetAt slices)) :=
  gapsAgree (lacksProvider_iff slices) .requirementsUnmet rfl

theorem gapsAgree_unboundMustLet (slices : List Fragment) :
    GapsAgree slices Fragment.mustLet LeftUnbound .mustLetUnbound
      (checkMustLet slices) (gapsOf slices fun _ f => f.unboundMustLet) :=
  gapsAgree leftUnbound_iff .mustLetUnbound rfl

/-! ## The report -/

/-- Warnings are added once each. -/
theorem foldl_addWarning (ws : List String) (r : Report) (h : r.warnings.Nodup) :
    ws.foldl (fun r w => r.addWarning w) r =
      { r with warnings := firstsBy id (r.warnings ++ ws) } := by
  induction ws using List.reverseRecOn with
  | nil =>
      have hId : (r.warnings.map id).Nodup := by rwa [List.map_id]
      rw [List.foldl_nil, List.append_nil, firstsBy_eq_self hId]
  | append_singleton ws w ih =>
      have hMem : (firstsBy id (r.warnings ++ ws)).contains w = true ↔
          w ∈ (r.warnings ++ ws).map id := by
        rw [List.contains_iff_mem, ← mem_map_firstsBy, List.map_id]
      rw [List.foldl_append, ih, List.foldl_cons, List.foldl_nil, addWarning,
        ← List.append_assoc, firstsBy_concat, id_eq]
      by_cases hw : w ∈ (r.warnings ++ ws).map id
      · rw [if_pos (hMem.mpr hw), if_pos hw]
      · rw [if_neg (mt hMem.mp hw), if_neg hw]

theorem ofSlices_eq_ok {slices : List Fragment} {r : Report}
    (h : ofSlices slices = .ok r) : ∃ duplicates,
      duplicateNames slices = .ok duplicates ∧
      r = { inventory slices with
            warnings := firstsBy id ((inventory slices).warningsOf slices duplicates) } := by
  obtain ⟨duplicates, hDuplicates, hReport⟩ := bind_eq_ok_iff.mp h
  refine ⟨duplicates, hDuplicates, ?_⟩
  rw [← Except.ok.inj hReport, foldl_addWarning _ _ List.nodup_nil]
  rfl

/-- Usable names can be searched for duplicates. -/
private theorem exists_duplicateNames_eq_ok {slices : List Fragment}
    (h : ∀ f ∈ slices, f.IsNamed) :
    ∃ duplicates, duplicateNames slices = .ok duplicates := by
  rw [duplicateNames]
  refine (exists_mapM_eq_ok fun n hn => ?_).elim fun texts hTexts =>
    ⟨_, bind_eq_ok_iff.mpr ⟨texts, hTexts, rfl⟩⟩
  obtain ⟨hMem, hNotNull⟩ := List.mem_filter.mp (List.mem_of_mem_filter hn)
  obtain ⟨f, hf, rfl⟩ := List.mem_map.mp hMem
  rcases h f hf with hName | ⟨s, hName⟩
  · rw [hName] at hNotNull
    exact absurd hNotNull (by decide)
  · exact ⟨s, by rw [hName]⟩

/-- Fragments with usable names have a report. -/
theorem exists_ofSlices_eq_ok {slices : List Fragment}
    (h : ∀ f ∈ slices, f.IsNamed) : ∃ r, ofSlices slices = .ok r := by
  obtain ⟨duplicates, hDuplicates⟩ := exists_duplicateNames_eq_ok h
  exact ⟨_, by rw [ofSlices, hDuplicates]; rfl⟩

/-- Every position has its row of owned variables. -/
theorem ownedOf_eq (slices : List Fragment) :
    ownedOf slices =
      Listing.rows (slices.zipIdx.map fun p => (p.2, p.1, p.1.ownedSymbols)) := by
  rw [ownedOf]
  refine Eq.trans (congrArg Table.ofRows ?_) (Table.ofRows_eq_self
    (Listing.nodup_keys (List.pairwise_map.mpr (pairwise_zipIdx slices))))
  rw [Listing.rows, List.map_map]
  rfl

/-- A report finds the gaps that a compilation stops at, and loses nothing. -/
structure Agrees (slices : List Fragment) (r : Report) : Prop where
  unsatisfied : GapsAgree slices Fragment.require (LacksProvider slices)
    .requirementsUnmet (checkSatisfied slices) r.unsatisfied
  unboundMustLet : GapsAgree slices Fragment.mustLet LeftUnbound
    .mustLetUnbound (checkMustLet slices) r.unboundMustLet
  /-- Every position has its row of owned variables, and there is no other. -/
  length_ownedVars : r.ownedVars.length = slices.length
  ownedVars_at : ∀ k f, slices[k]? = some f →
    r.ownedVars[k]? = some (sliceRow k f f.ownedSymbols)
  nodup_ownedVars : (r.ownedVars.map Prod.fst).Nodup
  labels : ∀ j k f g, sliceLabel j f = sliceLabel k g → j = k

theorem agrees_inventory (slices : List Fragment) (warnings : List String) :
    Agrees slices { inventory slices with warnings } where
  unsatisfied := gapsAgree_unmetAt slices
  unboundMustLet := gapsAgree_unboundMustLet slices
  length_ownedVars := by
    change (ownedOf slices).length = slices.length
    rw [ownedOf_eq, Listing.rows, List.length_map, List.length_map,
      List.length_zipIdx]
  ownedVars_at := by
    intro k f hk
    change (ownedOf slices)[k]? = _
    rw [ownedOf_eq, Listing.rows, List.getElem?_map, List.getElem?_map,
      List.getElem?_zipIdx, hk]
    simp
  nodup_ownedVars := by
    change ((ownedOf slices).map Prod.fst).Nodup
    rw [ownedOf_eq]
    exact Listing.nodup_keys (List.pairwise_map.mpr (pairwise_zipIdx slices))
  labels := fun _ _ _ _ => sliceLabel_injective

/-- Any fragments with usable names have a report, and any report there is
agrees with the checks of a compilation. -/
theorem agrees_of_ofSlices (slices : List Fragment) :
    ((∀ f ∈ slices, f.IsNamed) → ∃ r, ofSlices slices = .ok r) ∧
    ∀ r, ofSlices slices = .ok r → r.Agrees slices := by
  refine ⟨exists_ofSlices_eq_ok, fun r h => ?_⟩
  obtain ⟨duplicates, -, rfl⟩ := ofSlices_eq_ok h
  exact agrees_inventory slices _

/-- A fragment named `1:p` that requires `?x`. -/
def expectant : Fragment where
  name := .text "1:p"
  clauses := [.vector [.named "?x"]]
  require := [Symbol.plain "?x"]

/-- Listed twice, it has two rows. -/
theorem agrees_of_ofSlices_relisted :
    (∀ f ∈ [expectant, expectant], f.Valid) ∧
    ∃ r, ofSlices [expectant, expectant] = .ok r ∧
      r.Agrees [expectant, expectant] ∧
      r.unsatisfied = [("0:1:p", ["?x"]), ("1:1:p", ["?x"])] := by
  have hEach : ∀ f ∈ [expectant, expectant], f = expectant := by simp
  have hNamed : ∀ f ∈ [expectant, expectant], f.IsNamed := fun f hf =>
    .inr ⟨"1:p", by rw [hEach f hf]; rfl⟩
  obtain ⟨hReport, hAgrees⟩ := agrees_of_ofSlices [expectant, expectant]
  obtain ⟨r, hr⟩ := hReport hNamed
  refine ⟨fun f hf => hEach f hf ▸ rfl, r, hr, hAgrees r hr, ?_⟩
  obtain ⟨duplicates, -, rfl⟩ := ofSlices_eq_ok hr
  rfl

end Report

end DatalogFragments
