import DatalogFragments.Listing
import DatalogFragments.Term

/-!
# Symbols of terms

## Main definitions

* `Term.symbols`: the symbol leaves from left to right, with repetitions;
* `Term.firstSymbols`: the symbols of several terms in the order of their first occurrence;
* `Term.drain`: the same leaves, gathered from a list of pending terms;
* `Term.gathered`: the symbols of several terms, gathered term by term and noted when they
  are new.

## Main results

* `drain_eq_symbolsOf`: gathering from pending terms visits the leaves from left to right.
-/

namespace DatalogFragments.Term

variable {α : Type}

mutual

/-- The symbol leaves from left to right; literals contribute none. -/
def symbols : Term α → List (Symbol α)
  | .sym s => [s]
  | .seq xs _ => symbolsOf xs
  | .vec xs _ => symbolsOf xs
  | .lit .. | .stray _ => []

/-- The symbol leaves of terms from left to right. -/
def symbolsOf : List (Term α) → List (Symbol α)
  | [] => []
  | t :: ts => symbols t ++ symbolsOf ts

end

/-- The symbols of terms in the order of their first occurrence. -/
def firstSymbols (ts : List (Term α)) : List (Symbol α) :=
  firstsBy Symbol.name (symbolsOf ts)

/-- The names of the symbols of a term, each once. -/
def names (t : Term α) : List String := (firstSymbols [t]).map Symbol.name

@[simp] theorem symbols_sym (s : Symbol α) : (Term.sym s).symbols = [s] := rfl

@[simp] theorem symbols_seq (xs : List (Term α)) (i : Option α) :
    (Term.seq xs i).symbols = symbolsOf xs := rfl

@[simp] theorem symbols_vec (xs : List (Term α)) (i : Option α) :
    (Term.vec xs i).symbols = symbolsOf xs := rfl

@[simp] theorem symbols_lit (v : α) (i : Option α) : (Term.lit v i).symbols = [] := rfl

@[simp] theorem symbols_stray (v : α) : (Term.stray v).symbols = [] := rfl

@[simp] theorem symbolsOf_nil : symbolsOf ([] : List (Term α)) = [] := rfl

@[simp] theorem symbolsOf_cons (t : Term α) (ts : List (Term α)) :
    symbolsOf (t :: ts) = t.symbols ++ symbolsOf ts := rfl

@[simp] theorem symbolsOf_append (xs ys : List (Term α)) :
    symbolsOf (xs ++ ys) = symbolsOf xs ++ symbolsOf ys := by
  induction xs with
  | nil => rfl
  | cons x xs ih => simp [ih, List.append_assoc]

/-! ## Sizes -/

mutual

/-- The number of nodes of a term. -/
def size : Term α → Nat
  | .seq xs _ => sizeOfAll xs + 1
  | .vec xs _ => sizeOfAll xs + 1
  | .sym _ | .lit .. | .stray _ => 1

/-- The number of nodes of terms. -/
def sizeOfAll : List (Term α) → Nat
  | [] => 0
  | t :: ts => size t + sizeOfAll ts

end

theorem sizeOfAll_append (xs ys : List (Term α)) :
    sizeOfAll (xs ++ ys) = sizeOfAll xs + sizeOfAll ys := by
  induction xs with
  | nil => simp [sizeOfAll]
  | cons x xs ih => simp only [List.cons_append, sizeOfAll, ih]; omega

theorem size_pos (t : Term α) : 0 < t.size := by
  cases t <;> simp [size]

/-! ## Gathering from pending terms -/

/--
Gathers symbol leaves from a list of pending terms: the items of a composite are put in front
of the terms that still wait.
-/
def drain : List (Term α) → List (Symbol α)
  | [] => []
  | .sym s :: rest => s :: drain rest
  | .seq xs _ :: rest => drain (xs ++ rest)
  | .vec xs _ :: rest => drain (xs ++ rest)
  | .lit .. :: rest => drain rest
  | .stray _ :: rest => drain rest
termination_by pending => sizeOfAll pending
decreasing_by all_goals simp [sizeOfAll, size, sizeOfAll_append]; try omega

/-- Gathering from pending terms visits the leaves from left to right. -/
theorem drain_eq_symbolsOf (ts : List (Term α)) : drain ts = symbolsOf ts := by
  fun_induction drain ts <;> simp_all

/-- Notes a symbol behind those that were seen, unless one of its name is among them. -/
def note (seen : List (Symbol α)) (s : Symbol α) : List (Symbol α) :=
  if s.name ∈ seen.map Symbol.name then seen else seen ++ [s]

/-- Gathers the symbols of one term after the other, and notes those that are new. -/
def gathered (ts : List (Term α)) : List (Symbol α) :=
  ts.foldl (fun seen t => (drain [t]).foldl note seen) []

end DatalogFragments.Term
