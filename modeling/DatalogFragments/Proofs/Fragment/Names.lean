import DatalogFragments.Proofs.Distinct
import DatalogFragments.Proofs.NameKind

/-!
# The names of a fragment

The library compares symbols by name, so the derived classification of a
fragment is a classification of names.  This file says which names belong to
each class.

## Main results

* `Fragment.mem_freeNames`, `Fragment.mem_bindableNames`,
  `Fragment.mem_privateNames` — the derived classes;
* `Fragment.nodup_privateNames` — a private variable is listed once;
* `mem_usedNames` — the names of several fragments.
-/

namespace DatalogFragments

/-- A name that a fragment can declare. -/
def isDeclarableName (n : String) : Bool := isVariableName n || isSpecialName n

theorem Symbol.isDeclarable_eq (s : Name) :
    s.isDeclarable = isDeclarableName s.name := rfl

theorem isDeclarableName_of_variable {n : String}
    (h : isVariableName n = true) : isDeclarableName n = true := by
  rw [isDeclarableName, h, Bool.true_or]

theorem isDeclarableName_of_special {n : String}
    (h : isSpecialName n = true) : isDeclarableName n = true := by
  rw [isDeclarableName, h, Bool.or_true]

/-- The names of the symbols that pass a test of their names. -/
theorem mem_names_filter {p : Name → Bool} {q : String → Prop} {l : List Name}
    {n : String} (h : ∀ s : Name, p s = true ↔ q s.name) :
    n ∈ (l.filter p).map Symbol.name ↔ n ∈ l.map Symbol.name ∧ q n := by
  simp only [List.mem_map, List.mem_filter, h]
  constructor
  · rintro ⟨s, ⟨hs, hq⟩, rfl⟩
    exact ⟨⟨s, hs, rfl⟩, hq⟩
  · rintro ⟨⟨s, hs, rfl⟩, hq⟩
    exact ⟨s, ⟨hs, hq⟩, rfl⟩

namespace Fragment

/-- The names of the provided symbols. -/
def provideNames (f : Fragment) : List String := f.provide.map Symbol.name

/-- The names of the required symbols. -/
def requireNames (f : Fragment) : List String := f.require.map Symbol.name

/-- The names of the must-let symbols. -/
def mustLetNames (f : Fragment) : List String := f.mustLet.map Symbol.name

/-- The names that the bindings bind. -/
def letNames (f : Fragment) : List String := f.letSymbols.map Symbol.name

/-- The names in the clauses, with repetitions. -/
def clauseNames (f : Fragment) : List String :=
  (Term.symbolsOf f.clauses).map Symbol.name

/-- The names of the variables and specials of the clauses, each once. -/
def freeNames (f : Fragment) : List String := f.freeSymbols.map Symbol.name

/-- The names that can be bound here. -/
def bindableNames (f : Fragment) : List String :=
  f.bindableSymbols.map Symbol.name

/-- The names of the private variables, each once. -/
def privateNames (f : Fragment) : List String :=
  f.privateSymbols.map Symbol.name

/-- The names that occur in the fragment or are declared by it. -/
def names (f : Fragment) : List String := f.usedSymbols.map Symbol.name

theorem mem_freeNames (f : Fragment) (n : String) :
    n ∈ f.freeNames ↔ n ∈ f.clauseNames ∧ isDeclarableName n = true := by
  have hTest : ∀ s : Name,
      s.isDeclarable = true ↔ isDeclarableName s.name = true := fun _ => Iff.rfl
  rw [freeNames, freeSymbols, clauseNames, Term.firstSymbols,
    mem_names_filter (q := (isDeclarableName · = true)) hTest, mem_map_firstsBy]

theorem mem_bindableNames (f : Fragment) (n : String) :
    n ∈ f.bindableNames ↔
      (n ∈ f.freeNames ∨ n ∈ f.provideNames) ∧ n ∉ f.requireNames := by
  have hTest : ∀ s : Name,
      (!s.isIn f.require) = true ↔ s.name ∉ f.requireNames := by
    intro s
    rw [Bool.not_eq_true', isIn_eq_false_iff, requireNames]
  rw [bindableNames, bindableSymbols,
    mem_names_filter (q := (· ∉ f.requireNames)) hTest, mem_names_distinctNames,
    List.map_append, List.mem_append, freeNames, provideNames]

theorem mem_privateNames (f : Fragment) (n : String) :
    n ∈ f.privateNames ↔
      (n ∈ f.clauseNames ∨ n ∈ f.letNames) ∧ isVariableName n = true ∧
        n ∉ f.provideNames ∧ n ∉ f.requireNames := by
  have hTest : ∀ s : Name,
      (s.isVariable && !s.isIn f.provide && !s.isIn f.require) = true ↔
        isVariableName s.name = true ∧ s.name ∉ f.provideNames ∧
          s.name ∉ f.requireNames := by
    intro s
    rw [Bool.and_eq_true, Bool.and_eq_true, Bool.not_eq_true', Bool.not_eq_true',
      isIn_eq_false_iff, isIn_eq_false_iff, requireNames, provideNames, and_assoc,
      Symbol.isVariable]
  rw [privateNames, privateSymbols,
    mem_names_filter (q := fun m => isVariableName m = true ∧
      m ∉ f.provideNames ∧ m ∉ f.requireNames) hTest,
    mem_names_distinctNames, List.map_append, List.mem_append, ← freeNames,
    ← letNames, mem_freeNames]
  -- A variable of the clauses is declarable, hence free.
  constructor
  · rintro ⟨h | h, hv⟩
    · exact ⟨.inl h.1, hv⟩
    · exact ⟨.inr h, hv⟩
  · rintro ⟨h | h, hv⟩
    · exact ⟨.inl ⟨h, isDeclarableName_of_variable hv.1⟩, hv⟩
    · exact ⟨.inr h, hv⟩

theorem nodup_privateNames (f : Fragment) : f.privateNames.Nodup :=
  (List.filter_sublist.map Symbol.name).nodup (nodup_names_distinctNames _)

theorem isVariableName_of_private {f : Fragment} {n : String}
    (h : n ∈ f.privateNames) : isVariableName n = true :=
  ((mem_privateNames f n).mp h).2.1

theorem names_eq_append (f : Fragment) :
    f.names = f.clauseNames ++ f.provideNames ++ f.requireNames ++
      f.mustLetNames ++ f.letNames := by
  simp only [names, usedSymbols, List.map_append]
  rfl

theorem mem_names (f : Fragment) (n : String) :
    n ∈ f.names ↔ n ∈ f.clauseNames ∨ n ∈ f.provideNames ∨
      n ∈ f.requireNames ∨ n ∈ f.mustLetNames ∨ n ∈ f.letNames := by
  rw [names_eq_append]
  simp only [List.mem_append, or_assoc]

theorem mem_names_of_clause (f : Fragment) {n : String}
    (h : n ∈ f.clauseNames) : n ∈ f.names :=
  (mem_names f n).mpr (.inl h)

theorem mem_names_of_let (f : Fragment) {n : String} (h : n ∈ f.letNames) :
    n ∈ f.names :=
  (mem_names f n).mpr (.inr (.inr (.inr (.inr h))))

theorem mem_names_of_mustLet (f : Fragment) {n : String}
    (h : n ∈ f.mustLetNames) : n ∈ f.names :=
  (mem_names f n).mpr (.inr (.inr (.inr (.inl h))))

theorem mem_names_of_exposed (f : Fragment) {n : String}
    (h : n ∈ f.provideNames ∨ n ∈ f.requireNames) : n ∈ f.names := by
  rw [mem_names]
  rcases h with h | h
  · exact .inr (.inl h)
  · exact .inr (.inr (.inl h))

theorem mem_names_of_private {f : Fragment} {n : String}
    (h : n ∈ f.privateNames) : n ∈ f.names := by
  rcases ((mem_privateNames f n).mp h).1 with h | h
  · exact f.mem_names_of_clause h
  · exact f.mem_names_of_let h

end Fragment

/-- The names of several fragments. -/
theorem mem_usedNames (fs : List Fragment) (n : String) :
    n ∈ usedNames fs ↔ ∃ f ∈ fs, n ∈ f.names := by
  have hKeys := mem_map_firstsBy id
    ((fs.flatMap Fragment.usedSymbols).map Symbol.name) n
  rw [List.map_id, List.map_id] at hKeys
  rw [usedNames, hKeys, List.map_flatMap, List.mem_flatMap]
  rfl

theorem names_subset_usedNames (fs : List Fragment) :
    ∀ f ∈ fs, ∀ n ∈ f.names, n ∈ usedNames fs :=
  fun f hf n hn => (mem_usedNames fs n).mpr ⟨f, hf, hn⟩

end DatalogFragments
