import DatalogFragments.Number.Decimal

/-!
# Fresh names

A name that is taken gets the smallest numeric suffix that makes it free. The candidates for
one base are pairwise different, so among one more candidates than there are taken names one
is free.

## Main definitions

* `freshName`: the base, or the base with the least suffix that is not taken;
* `freshNames`: fresh names for several bases, each of which is taken for the next;
* `privateBase`, `armBase`: the bases for private variables of fragments and of arms.
-/

namespace DatalogFragments

/-- The candidates for a base: the base itself, then the base with the suffixes 1, 2, …. -/
def candidateName (base : String) (n : Nat) : String :=
  if n = 0 then base else base ++ "_" ++ intText n

/-- The first candidate that is not taken. -/
def freshName (base : String) (taken : List String) : String :=
  let free := (List.range (taken.length + 1)).find? fun n => !taken.contains (candidateName base n)
  candidateName base (free.getD 0)

/-- Fresh names for the bases in order, and the taken names afterwards. -/
def freshNames : List String → List String → List String × List String
  | [], taken => ([], taken)
  | base :: bases, taken =>
    let name := freshName base taken
    let (names, taken) := freshNames bases (name :: taken)
    (name :: names, taken)

/-- The base for a private variable: its name, the slice and the position within the slice. -/
def privateBase (name : String) (slice position : Int) : String :=
  name ++ "__" ++ intText slice ++ "_" ++ intText position

/-- The base for a private variable of an arm of a disjunction. -/
def armBase (name : String) (branch : Int) : String :=
  name ++ "__or" ++ intText branch

end DatalogFragments
