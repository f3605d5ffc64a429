import DatalogFragments.Proofs.Query.Compilation

/-!
# No capture in a compiled query

The fragments of a query are written independently of each other, so a
variable that one of them keeps to itself must not meet a variable of another
one.  Compilation moves every fragment along a map of names of its own; this
file says what the maps guarantee for all names that occur in the query.

## Main results

* `Query.SeparatesNames` — the guarantee;
* `Query.compile_capture_free` — every compiled query comes with it.
-/

namespace DatalogFragments

namespace Query

/-- A query is made of fragments that were moved along maps of names, one for
each compiled position, under which a private variable meets no other name. -/
structure SeparatesNames (slices : List Fragment) (q : Query)
    (ρ : Nat → String → String) : Prop where
  /-- The fragment at a position is the sorted one there, moved along its map. -/
  slices_eq : q.slices = (orderSlices slices).mapIdx fun k f => f.renamed (ρ k)
  clauses_eq : q.clauses = q.slices.flatMap Fragment.clauses
  /-- A declaration mentions what the compiled fragments bind. -/
  params_bound : ∀ c ∈ q.params, ∀ n ∈ c.symbols.map Symbol.name,
    n = placeholderName ∨ n = ellipsisName ∨ ∃ g ∈ q.slices, n ∈ g.letNames
  names_eq : ∀ (k : Nat) (f : Fragment), (orderSlices slices)[k]? = some f →
    (f.renamed (ρ k)).names = f.names.map (ρ k)
  /-- Private variables get new variables that no fragment uses; every other
  name stays. -/
  freshens : ∀ (k : Nat) (f : Fragment), (orderSlices slices)[k]? = some f →
    f.Freshens (ρ k) (usedNames slices)
  /-- The new name of a private variable is the new name of nothing else. -/
  private_apart : ∀ (k j : Nat) (f g : Fragment),
    (orderSlices slices)[k]? = some f → (orderSlices slices)[j]? = some g →
    ∀ s ∈ f.privateNames, ∀ t ∈ g.names, ρ k s = ρ j t → k = j ∧ s = t
  /-- Two names of the query coincide only if they were one name, within a
  fragment or outside the private variables of both. -/
  coincidence : ∀ (k j : Nat) (f g : Fragment),
    (orderSlices slices)[k]? = some f → (orderSlices slices)[j]? = some g →
    ∀ s ∈ f.names, ∀ t ∈ g.names, ρ k s = ρ j t →
      s = t ∧ (k = j ∨ s ∉ f.privateNames ∧ t ∉ g.privateNames)

private theorem params_bound_of_ofSlices {fs : List Fragment} {a : Assembly}
    (h : Assembly.ofSlices fs = .ok a) :
    ∀ c ∈ a.allParams, ∀ n ∈ c.symbols.map Symbol.name,
      n = placeholderName ∨ n = ellipsisName ∨ ∃ g ∈ fs, n ∈ g.letNames := by
  intro c hc n hn
  obtain ⟨f, hf, p, hp, rfl⟩ := Assembly.mem_allParams_ofSlices h c hc
  by_cases hPlaceholder : n = placeholderName
  · exact .inl hPlaceholder
  by_cases hEllipsis : n = ellipsisName
  · exact .inr (.inl hEllipsis)
  rw [Form.mem_names_render hPlaceholder hEllipsis] at hn
  refine .inr (.inr ⟨f, hf, ?_⟩)
  rw [Fragment.letNames, Fragment.letSymbols, List.map_flatMap]
  exact List.mem_flatMap.mpr ⟨p, hp, hn⟩

/-- Compilation captures no variable: whatever valid fragments are compiled,
private variables stay apart from all names of all fragments. -/
theorem compile_capture_free (find : Value) (slices : List Fragment)
    (q : Query) (hValid : ∀ f ∈ slices, f.Valid)
    (hCompile : compile find slices = .ok q) :
    ∃ ρ : Nat → String → String, SeparatesNames slices q ρ := by
  have hWell : ∀ f ∈ slices, f.WellFormed :=
    fun f hf => f.valid_iff.mp (hValid f hf)
  have hApart := freshenedApart_compiledMap slices
  have hUsed := usedNames_of_mem_orderSlices slices
  obtain ⟨a, ha, rfl⟩ := exists_of_compile_eq_ok hWell hCompile
  refine ⟨compiledMap slices, ?_⟩
  exact
    { slices_eq := rfl
      clauses_eq := rfl
      params_bound := params_bound_of_ofSlices ha
      names_eq := fun k f hk => Fragment.names_renamed (hApart.freshens k f hk)
      freshens := hApart.freshens
      private_apart := fun _ _ _ _ hk hj _ hs _ ht =>
        hApart.capture_free hUsed hk hj hs ht
      coincidence := fun _ _ _ _ hk hj _ hs _ ht =>
        hApart.coincidence hUsed hk hj hs ht }

/-- Two fragments that share `?x` and use `?y` each for itself. -/
def rivals : List Fragment :=
  [ { clauses := [.vector [.named "?x", .named ":a", .named "?y"]]
      provide := [Symbol.plain "?x"] }
  , { clauses := [.vector [.named "?x", .named ":b", .named "?y"]]
      require := [Symbol.plain "?x"] } ]

theorem rivals_valid : ∀ f ∈ rivals, f.Valid := by
  rw [rivals, List.forall_mem_cons, List.forall_mem_singleton]
  exact ⟨rfl, rfl⟩

private theorem exists_compile_rivals : ∃ q, compile .null rivals = .ok q := by
  refine exists_compile_of_valid rivals_valid .null rfl rfl ?_ fun n => ?_
  · rw [rivals, List.forall_mem_cons, List.forall_mem_singleton]
    exact ⟨rfl, rfl⟩
  · rw [rivals, List.pairwise_pair]
    rintro ⟨⟨-, -, hLet⟩, -⟩
    exact absurd hLet List.not_mem_nil

theorem compile_capture_free_rivals :
    (∀ f ∈ rivals, f.Valid) ∧ ∃ q, compile .null rivals = .ok q ∧
      ∃ ρ : Nat → String → String, SeparatesNames rivals q ρ := by
  obtain ⟨q, hq⟩ := exists_compile_rivals
  exact ⟨rivals_valid, q, hq, compile_capture_free .null rivals q rivals_valid hq⟩

end Query

end DatalogFragments
