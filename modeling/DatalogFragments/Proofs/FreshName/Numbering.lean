import DatalogFragments.Proofs.FreshName

/-!
# Numbered names do not meet

A base ends in a number, and so does a base with a suffix.  The last number of
a name and the character before it can be read off the name, whatever digits
and underscores the variable has that the name was made from.  No candidate for
one base is therefore a candidate for another one, and names that were drawn
for other bases never stand in the way: every fresh name is the one that the
names taken at the start ask for.

## Main results

* `candidateName_privateBase`, `candidateName_armBase` — a candidate determines
  the variable and the place it was made for;
* `freshNames_eq_map` — names drawn one after the other are drawn independently;
* `leastUnused_freshName` — which name is drawn, in closed form.
-/

namespace DatalogFragments

/-! ## The last number of a name -/

/-- A name with a number behind it. -/
def numbered (stem : String) (n : Nat) : String := stem ++ "_" ++ intText (n : Int)

/-- The number at the end of a text and the character before it. -/
private theorem append_digitsOf_inj {u v : List Char} {c d : Char} {m n : Nat}
    (hc : c.isDigit = false) (hd : d.isDigit = false)
    (h : u ++ c :: digitsOf m = v ++ d :: digitsOf n) : u = v ∧ c = d ∧ m = n := by
  -- A longer stem would move the character before the number among the digits.
  rcases List.append_eq_append_iff.mp h with ⟨w, hv, hw⟩ | ⟨w, hu, hw⟩ <;>
    cases w with
    | nil => ?_
    | cons x w => ?_
  · obtain ⟨rfl, hDigits⟩ := List.cons.inj hw
    refine ⟨by rw [hv, List.append_nil], rfl, intText_natCast_injective ?_⟩
    rw [intText_natCast, intText_natCast, hDigits]
  · have hMem : d ∈ digitsOf m := by
      rw [(List.cons.inj hw).2]
      exact List.mem_append_right _ List.mem_cons_self
    rw [isDigit_of_mem_digitsOf d hMem] at hd
    cases hd
  · obtain ⟨rfl, hDigits⟩ := List.cons.inj hw
    refine ⟨by rw [hu, List.append_nil], rfl, intText_natCast_injective ?_⟩
    rw [intText_natCast, intText_natCast, hDigits]
  · have hMem : c ∈ digitsOf n := by
      rw [(List.cons.inj hw).2]
      exact List.mem_append_right _ List.mem_cons_self
    rw [isDigit_of_mem_digitsOf c hMem] at hc
    cases hc

theorem toList_numbered (stem : String) (n : Nat) :
    (numbered stem n).toList = stem.toList ++ '_' :: digitsOf n := by
  simp [numbered, intText_natCast, String.toList_append]

theorem toList_armBase (name : String) (branch : Nat) :
    (armBase name branch).toList =
      (name.toList ++ ['_', '_', 'o']) ++ 'r' :: digitsOf branch := by
  simp [armBase, intText_natCast, String.toList_append]

theorem numbered_inj {s t : String} {m n : Nat} (h : numbered s m = numbered t n) :
    s = t ∧ m = n := by
  have hList := congrArg String.toList h
  rw [toList_numbered, toList_numbered] at hList
  obtain ⟨hStem, -, hNumber⟩ := append_digitsOf_inj (by decide) (by decide) hList
  exact ⟨String.toList_injective hStem, hNumber⟩

theorem armBase_inj {s t : String} {m n : Nat}
    (h : armBase s m = armBase t n) : s = t ∧ m = n := by
  have hList := congrArg String.toList h
  rw [toList_armBase, toList_armBase] at hList
  obtain ⟨hStem, -, hNumber⟩ := append_digitsOf_inj (by decide) (by decide) hList
  exact ⟨String.toList_injective (List.append_cancel_right hStem), hNumber⟩

theorem numbered_ne_armBase (s t : String) (m n : Nat) :
    numbered s m ≠ armBase t n := by
  intro h
  have hList := congrArg String.toList h
  rw [toList_numbered, toList_armBase] at hList
  obtain ⟨-, hChar, -⟩ := append_digitsOf_inj (by decide) (by decide) hList
  exact absurd hChar (by decide)

/-- A numbered name does not end in an underscore. -/
theorem numbered_ne_underscored (s t : String) (n : Nat) : numbered s n ≠ t ++ "_" := by
  intro h
  obtain ⟨ds, c, hDigits⟩ : ∃ ds c, digitsOf n = ds ++ [c] :=
    (List.eq_nil_or_concat' _).resolve_left Nat.toDigits_ne_nil
  have hList := congrArg String.toList h
  rw [toList_numbered, String.toList_append, hDigits, ← List.cons_append,
    ← List.append_assoc] at hList
  have hLast : [c] = ['_'] := List.append_inj_right' hList rfl
  have hDigit : c.isDigit = true :=
    Nat.isDigit_of_mem_toDigits (by decide) (by decide)
      (show c ∈ digitsOf n from hDigits ▸ List.mem_append_right _ List.mem_cons_self)
  rw [(List.cons.inj hLast).1] at hDigit
  exact absurd hDigit (by decide)

/-! ## Candidates for different bases -/

theorem privateBase_eq (name : String) (slice position : Nat) :
    privateBase name slice position =
      numbered (numbered (name ++ "_") slice) position := by
  have hSeparator : name ++ "__" = name ++ "_" ++ "_" := by
    rw [String.append_assoc]
    rfl
  rw [privateBase, hSeparator]
  rfl

theorem privateBase_inj {s t : String} {k j p i : Nat}
    (h : privateBase s k p = privateBase t j i) : k = j ∧ p = i ∧ s = t := by
  rw [privateBase_eq, privateBase_eq] at h
  obtain ⟨hRest, rfl⟩ := numbered_inj h
  obtain ⟨hName, rfl⟩ := numbered_inj hRest
  refine ⟨rfl, rfl, String.toList_injective ?_⟩
  have hList := congrArg String.toList hName
  rw [String.toList_append, String.toList_append] at hList
  exact List.append_cancel_right hList

/-- A base with a suffix is no base. -/
theorem privateBase_ne_numbered (s t : String) (k j p i n : Nat) :
    privateBase s k p ≠ numbered (privateBase t j i) n := by
  intro h
  rw [privateBase_eq, privateBase_eq] at h
  obtain ⟨hStem, -⟩ := numbered_inj h
  exact numbered_ne_underscored _ s j (numbered_inj hStem).1.symm

/-- Bases are apart if a candidate tells the place and the variable that it was
made for. -/
def KeepsApart (base : Nat → Nat → String → String) : Prop :=
  ∀ ⦃k p j i : Nat⦄ ⦃s t : String⦄ ⦃m n : Nat⦄,
    candidateName (base k p s) m = candidateName (base j i t) n → k = j ∧ s = t

theorem candidateName_privateBase :
    KeepsApart fun slice position name => privateBase name slice position := by
  intro k p j i s t m n h
  cases m with
  | zero =>
      cases n with
      | zero =>
          obtain ⟨hSlice, -, hName⟩ := privateBase_inj h
          exact ⟨hSlice, hName⟩
      | succ n => exact absurd h (privateBase_ne_numbered s t k j p i (n + 1))
  | succ m =>
      cases n with
      | zero => exact absurd h.symm (privateBase_ne_numbered t s j k i p (m + 1))
      | succ n =>
          obtain ⟨hSlice, -, hName⟩ := privateBase_inj (numbered_inj h).1
          exact ⟨hSlice, hName⟩

theorem candidateName_armBase :
    KeepsApart fun branch _ name => armBase name branch := by
  intro k p j i s t m n h
  cases m with
  | zero =>
      cases n with
      | zero => exact (armBase_inj h).symm
      | succ n => exact absurd h.symm (numbered_ne_armBase _ s (n + 1) k)
  | succ m =>
      cases n with
      | zero => exact absurd h (numbered_ne_armBase _ t (m + 1) j)
      | succ n => exact (armBase_inj (numbered_inj h).1).symm

/-! ## Drawing names independently -/

/-- Names that are no candidates for a base make no difference to it. -/
theorem freshName_eq {base : String} {used taken : List String}
    (hUsed : ∀ n ∈ used, n ∈ taken)
    (hTaken : ∀ n ∈ taken, n ∈ used ∨ ∀ m, candidateName base m ≠ n) :
    freshName base taken = freshName base used := by
  refine freshName_mono hUsed fun hMem => ?_
  rcases hTaken _ hMem with hOld | hOther
  · exact freshName_not_mem base used hOld
  · obtain ⟨m, -, hm, -⟩ := freshName_spec base used
    exact hOther m hm.symm

/-- Of names drawn one after the other each is the one that the names used at
the start ask for. -/
theorem freshNames_eq_map {bases used taken : List String}
    (hUsed : ∀ n ∈ used, n ∈ taken)
    (hTaken : ∀ n ∈ taken, n ∈ used ∨ ∀ b ∈ bases, ∀ m, candidateName b m ≠ n)
    (hApart : bases.Pairwise fun a b => ∀ m n, candidateName a m ≠ candidateName b n) :
    (freshNames bases taken).1 = bases.map (freshName · used) := by
  induction bases generalizing taken with
  | nil => rfl
  | cons base bases ih =>
      obtain ⟨hHead, hTail⟩ := List.pairwise_cons.mp hApart
      have hDrawn : freshName base taken = freshName base used :=
        freshName_eq hUsed fun n hn =>
          (hTaken n hn).imp_right fun h => h base List.mem_cons_self
      rw [freshNames_cons, List.map_cons, hDrawn, ih _ _ hTail]
      · exact fun n hn => List.mem_cons_of_mem _ (hUsed n hn)
      · intro n hn
        rcases List.mem_cons.mp hn with rfl | hn
        · obtain ⟨m, -, hm, -⟩ := freshName_spec base used
          refine .inr fun b hb i heq => hHead b hb m i ?_
          rw [← hm, heq]
        · exact (hTaken n hn).imp_right fun h b hb => h b (List.mem_cons_of_mem _ hb)

/-! ## The closed form -/

/-- The name is the base itself if that is unused, and otherwise the base with
the least positive suffix that makes it unused. -/
inductive LeastUnused (used : List String) (base : String) : String → Prop where
  | base (hFree : base ∉ used) : LeastUnused used base base
  | suffix (n : Nat) (hPositive : 0 < n) (hTaken : base ∈ used)
      (hFree : base ++ "_" ++ intText (n : Int) ∉ used)
      (hLeast : ∀ m, 0 < m → m < n → base ++ "_" ++ intText (m : Int) ∈ used) :
      LeastUnused used base (base ++ "_" ++ intText (n : Int))

/-- The first candidate that is unused. -/
theorem leastUnused_candidateName {used : List String} {base : String} {n : Nat}
    (hFree : candidateName base n ∉ used)
    (hLeast : ∀ m < n, candidateName base m ∈ used) :
    LeastUnused used base (candidateName base n) := by
  cases n with
  | zero => exact .base hFree
  | succ n =>
      refine .suffix (n + 1) (Nat.succ_pos n) (hLeast 0 (Nat.succ_pos n)) hFree ?_
      intro m hPositive hLess
      cases m with
      | zero => exact absurd hPositive (Nat.lt_irrefl 0)
      | succ m => exact hLeast (m + 1) hLess

theorem leastUnused_freshName (base : String) (used : List String) :
    LeastUnused used base (freshName base used) := by
  obtain ⟨n, -, hName, hFree, hLeast⟩ := freshName_spec base used
  rw [hName]
  exact leastUnused_candidateName hFree hLeast

/-- The closed form leaves no choice. -/
theorem LeastUnused.unique {used : List String} {base a b : String}
    (ha : LeastUnused used base a) (hb : LeastUnused used base b) : a = b := by
  cases ha with
  | base hFree =>
      cases hb with
      | base => rfl
      | suffix _ _ hTaken => exact absurd hTaken hFree
  | suffix m hm hTaken hFreeM hLeastM =>
      cases hb with
      | base hFree => exact absurd hTaken hFree
      | suffix n hn _ hFreeN hLeastN =>
          have hmn : ¬m < n := fun hLess => hFreeM (hLeastN m hm hLess)
          have hnm : ¬n < m := fun hLess => hFreeN (hLeastM n hn hLess)
          rw [show m = n by omega]

end DatalogFragments
