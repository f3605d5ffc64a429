import DatalogFragments.Term.Walk

/-!
# Walks with an explicit stack

The walk of `Term.postwalk` as a loop over two stacks, so that nesting is not bounded by the
depth of a recursion: one of the nodes that wait, one of the results that wait for the
composite they belong to. The loop also records the nodes that the function is given. It stops
where display information cannot be handed on.

## Main definitions

* `Term.Task`: a node to visit, or a composite to rebuild from the results of its items;
* `Term.stackWalk`: the result of the walk and the nodes given to the function, in order.
-/

namespace DatalogFragments.Term

/-- What waits on the stack of a walk. -/
inductive Task where
  /-- A node that was not looked at yet. -/
  | visit (t : Clause)
  /-- A composite whose items are done. -/
  | rebuild (t : Clause)

namespace Task

/-- How many steps a task takes at most. -/
def weight : Task → Nat
  | .visit t => 2 * t.size
  | .rebuild _ => 1

/-- How many steps the tasks take at most. -/
def totalWeight : List Task → Nat
  | [] => 0
  | t :: ts => t.weight + totalWeight ts

theorem totalWeight_visits (ts : List Clause) (rest : List Task) :
    totalWeight (ts.map .visit ++ rest) = 2 * sizeOfAll ts + totalWeight rest := by
  induction ts with
  | nil => simp [sizeOfAll]
  | cons t ts ih => simp only [List.map_cons, List.cons_append, totalWeight, weight, sizeOfAll, ih]; omega

end Task

/-- The composite of the same class and information with other items. -/
def withItems (items : List Clause) : Clause → Clause
  | .seq _ i => .seq items i
  | .vec _ i => .vec items i
  | t => t

/-- The state of a walk: results, the latest first, and the nodes given so far, likewise. -/
structure WalkState where
  results : List Clause := []
  given : List Clause := []

/-- Gives a node over the results of its items to the function and keeps the outcome. -/
def WalkState.apply (fn : Clause → Clause) (t node : Clause) (count : Nat) (s : WalkState) :
    Except Fault WalkState := do
  let outcome ← inherit t (fn node)
  return { results := outcome :: s.results.drop count, given := node :: s.given }

/-- Works off the tasks. -/
def runTasks (fn : Clause → Clause) : List Task → WalkState → Except Fault WalkState
  | [], s => .ok s
  | .rebuild t :: rest, s => do
    let count := t.items.length
    let node := t.withItems (s.results.take count).reverse
    runTasks fn rest (← s.apply fn t node count)
  | .visit t :: rest, s =>
    if t.isComposite then
      runTasks fn (t.items.map .visit ++ .rebuild t :: rest) s
    else do runTasks fn rest (← s.apply fn t t 0)
termination_by tasks => Task.totalWeight tasks
decreasing_by
  · simp [Task.totalWeight, Task.weight]
  · rename_i h
    cases t <;>
      simp_all [isComposite, items, Task.totalWeight_visits, Task.totalWeight, Task.weight, size] <;>
      omega
  · have := size_pos t
    simp [Task.totalWeight, Task.weight]
    omega

/-- Walks a clause with an explicit stack: the result, and the nodes given to the function. -/
def stackWalk (fn : Clause → Clause) (t : Clause) : Except Fault (Clause × List Clause) := do
  let s ← runTasks fn [.visit t] {}
  return (s.results.headD t, s.given.reverse)

end DatalogFragments.Term
