import DatalogFragments.Value

/-!
# The same data

Equality of values (`Value.same`) identifies `1` with `true` and terms that differ in display
information, and a nan equals nothing. Where data is handed on as it is, what counts is whether
two values are the same, part by part: that is plain equality, and it is decidable.

## Main definitions

* `Value.identical`: whether two values have the same parts.

## Main results

* `Value.identical_iff`: two values have the same parts just if they are one value.
-/

namespace DatalogFragments.Value

mutual

/-- Whether two values have the same parts. -/
def identical : Value → Value → Bool
  | .null, w => match w with | .null => true | _ => false
  | .bool b, w => match w with | .bool c => b == c | _ => false
  | .int i, w => match w with | .int j => i == j | _ => false
  | .float x, w => match w with | .float y => x == y | _ => false
  | .text s, w => match w with | .text t => s == t | _ => false
  | .bytes bs, w => match w with | .bytes cs => bs == cs | _ => false
  | .keyword k, w => match w with | .keyword l => k == l | _ => false
  | .list xs, w => match w with | .list ys => identicalItems xs ys | _ => false
  | .tuple xs, w => match w with | .tuple ys => identicalItems xs ys | _ => false
  | .mapping es, w => match w with | .mapping fs => identicalEntries es fs | _ => false
  | .set xs, w => match w with | .set ys => identicalItems xs ys | _ => false
  | .frozenSet xs, w => match w with | .frozenSet ys => identicalItems xs ys | _ => false
  | .stream xs, w => match w with | .stream ys => identicalItems xs ys | _ => false
  | .date d, w => match w with | .date e => d == e | _ => false
  | .moment t, w => match w with | .moment u => t == u | _ => false
  | .term t, w => match w with | .term u => identicalTerm t u | _ => false
  | .misnamed n i, w =>
    match w with
    | .misnamed m j => identical n m && identicalInfo i j
    | _ => false
  | .collForm v, w => match w with | .collForm u => identical v u | _ => false
  | .tupForm xs, w => match w with | .tupForm ys => identicalItems xs ys | _ => false

/-- Whether two pieces of display information have the same parts. -/
def identicalInfo : Option Value → Option Value → Bool
  | none, j => j.isNone
  | some v, j => match j with | some w => identical v w | none => false

/-- Whether two lists have the same items. -/
def identicalItems : List Value → List Value → Bool
  | [], ys => ys.isEmpty
  | x :: xs, ys => match ys with | [] => false | y :: ys => identical x y && identicalItems xs ys

/-- Whether two lists have the same entries. -/
def identicalEntries : Entries → Entries → Bool
  | [], fs => fs.isEmpty
  | (k, v) :: es, fs =>
    match fs with
    | [] => false
    | (l, w) :: fs => identical k l && identical v w && identicalEntries es fs

/-- Whether two clauses have the same parts, display information included. -/
def identicalTerm : Clause → Clause → Bool
  | .sym ⟨n, i⟩, u =>
    match u with
    | .sym s => n == s.name && identicalInfo i s.info
    | _ => false
  | .seq xs i, u =>
    match u with
    | .seq ys j => identicalTerms xs ys && identicalInfo i j
    | _ => false
  | .vec xs i, u =>
    match u with
    | .vec ys j => identicalTerms xs ys && identicalInfo i j
    | _ => false
  | .lit v i, u =>
    match u with
    | .lit w j => identical v w && identicalInfo i j
    | _ => false
  | .stray v, u => match u with | .stray w => identical v w | _ => false

/-- Whether two lists have the same clauses. -/
def identicalTerms : List Clause → List Clause → Bool
  | [], us => us.isEmpty
  | t :: ts, us =>
    match us with
    | [] => false
    | u :: us => identicalTerm t u && identicalTerms ts us

end

mutual

theorem identical_iff : ∀ v w : Value, identical v w = true ↔ v = w
  | .null, w => by cases w <;> simp [identical]
  | .bool b, w => by cases w <;> simp [identical]
  | .int i, w => by cases w <;> simp [identical]
  | .float x, w => by cases w <;> simp [identical]
  | .text s, w => by cases w <;> simp [identical]
  | .bytes bs, w => by cases w <;> simp [identical]
  | .keyword k, w => by cases w <;> simp [identical]
  | .list xs, w => by cases w <;> simp [identical, identicalItems_iff xs]
  | .tuple xs, w => by cases w <;> simp [identical, identicalItems_iff xs]
  | .mapping es, w => by cases w <;> simp [identical, identicalEntries_iff es]
  | .set xs, w => by cases w <;> simp [identical, identicalItems_iff xs]
  | .frozenSet xs, w => by cases w <;> simp [identical, identicalItems_iff xs]
  | .stream xs, w => by cases w <;> simp [identical, identicalItems_iff xs]
  | .date d, w => by cases w <;> simp [identical]
  | .moment t, w => by cases w <;> simp [identical]
  | .term t, w => by cases w <;> simp [identical, identicalTerm_iff t]
  | .misnamed n i, w => by cases w <;> simp [identical, identical_iff n, identicalInfo_iff i]
  | .collForm v, w => by cases w <;> simp [identical, identical_iff v]
  | .tupForm xs, w => by cases w <;> simp [identical, identicalItems_iff xs]

theorem identicalInfo_iff : ∀ i j : Option Value, identicalInfo i j = true ↔ i = j
  | none, j => by cases j <;> simp [identicalInfo]
  | some v, j => by cases j <;> simp [identicalInfo, identical_iff v]

theorem identicalItems_iff : ∀ xs ys : List Value, identicalItems xs ys = true ↔ xs = ys
  | [], ys => by cases ys <;> simp [identicalItems]
  | x :: xs, ys => by cases ys <;> simp [identicalItems, identical_iff x, identicalItems_iff xs]

theorem identicalEntries_iff : ∀ es fs : Entries, identicalEntries es fs = true ↔ es = fs
  | [], fs => by cases fs <;> simp [identicalEntries]
  | (k, v) :: es, [] => by simp [identicalEntries]
  | (k, v) :: es, (l, w) :: fs => by
    simp [identicalEntries, identical_iff k, identical_iff v, identicalEntries_iff es]

theorem identicalTerm_iff : ∀ t u : Clause, identicalTerm t u = true ↔ t = u
  | .sym ⟨n, i⟩, u => by
    cases u with
    | sym s => cases s; simp [identicalTerm, identicalInfo_iff i]
    | _ => simp [identicalTerm]
  | .seq xs i, u => by cases u <;> simp [identicalTerm, identicalTerms_iff xs, identicalInfo_iff i]
  | .vec xs i, u => by cases u <;> simp [identicalTerm, identicalTerms_iff xs, identicalInfo_iff i]
  | .lit v i, u => by cases u <;> simp [identicalTerm, identical_iff v, identicalInfo_iff i]
  | .stray v, u => by cases u <;> simp [identicalTerm, identical_iff v]

theorem identicalTerms_iff : ∀ ts us : List Clause, identicalTerms ts us = true ↔ ts = us
  | [], us => by cases us <;> simp [identicalTerms]
  | t :: ts, us => by
    cases us <;> simp [identicalTerms, identicalTerm_iff t, identicalTerms_iff ts]

end

instance : DecidableEq Value := fun v w => decidable_of_iff _ (identical_iff v w)

end DatalogFragments.Value
