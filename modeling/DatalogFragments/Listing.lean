/-!
# Lists that keep their order

Declarations, names and clauses are lists in which the first occurrence counts, and texts are
put into code-point order before they are shown.

## Main definitions

* `firstsBy`: the first entry of every key, in order;
* `total`: the sum of numbers;
* `sortTexts`: texts in code-point order.
-/

namespace DatalogFragments

variable {α β : Type}

/-- Of the entries with one key, keeps the first. -/
def firstsBy [BEq β] (key : α → β) : List α → List α
  | [] => []
  | x :: xs => x :: (firstsBy key xs).filter fun y => !(key x == key y)

@[simp] theorem firstsBy_nil [BEq β] (key : α → β) : firstsBy key [] = [] := rfl

@[simp] theorem firstsBy_cons [BEq β] (key : α → β) (x : α) (xs : List α) :
    firstsBy key (x :: xs) = x :: (firstsBy key xs).filter (fun y => !(key x == key y)) := rfl

/-- The sum of numbers. -/
def total (ns : List Nat) : Nat := ns.foldr (· + ·) 0

/-- Texts in code-point order. -/
def sortTexts (texts : List String) : List String :=
  texts.mergeSort fun a b => decide (a ≤ b)

/-- Texts joined by a separator. -/
def joinTexts (separator : String) (texts : List String) : String :=
  separator.intercalate texts

end DatalogFragments
