import DatalogFragments.Fragment
import Mathlib.Data.List.Nodup

/-!
# Distinct entries

`firstsBy` keeps the first entry of every key.  The keys of what it keeps are
the keys of the list, each once, so a list without repeated keys is left as it
is.  Declarations are compared by name; the second half states membership and
distinctness of symbols in terms of their names.

## Main results

* `mem_map_firstsBy`, `nodup_map_firstsBy` — the keys that are kept;
* `firstsBy_eq_self`, `firstsBy_eq_self_iff` — lists with pairwise different
  keys;
* `firstsBy_map`, `firstsBy_filter` — what commutes with keeping first entries;
* `firstsBy_append`, `firstsBy_concat` — more entries behind those of a list;
* `find?_firstsBy`, `find?_of_mem_firstsBy` — looking an entry up;
* `map_name_filter`, `map_name_distinctNames` — lists of symbols as lists of
  names.
-/

namespace DatalogFragments

section FirstsBy

variable {α β γ : Type}

theorem firstsBy_sublist [BEq β] (key : α → β) (l : List α) :
    (firstsBy key l).Sublist l := by
  induction l with
  | nil => exact List.Sublist.refl _
  | cons x xs ih =>
      rw [firstsBy_cons]
      exact (List.filter_sublist.trans ih).cons_cons x

theorem mem_of_mem_firstsBy [BEq β] {key : α → β} {l : List α} {x : α}
    (h : x ∈ firstsBy key l) : x ∈ l :=
  (firstsBy_sublist key l).subset h

/-- Keeping first entries commutes with a map along which the keys of the two
lists are equal for the same entries. -/
theorem firstsBy_map {δ : Type} [BEq β] [BEq δ] (key : γ → β) (key' : α → δ)
    (g : α → γ) (l : List α)
    (h : ∀ x ∈ l, ∀ y ∈ l, (key (g x) == key (g y)) = (key' x == key' y)) :
    firstsBy key (l.map g) = (firstsBy key' l).map g := by
  induction l with
  | nil => rfl
  | cons x xs ih =>
      have htail := ih fun y hy z hz =>
        h y (List.mem_cons_of_mem _ hy) z (List.mem_cons_of_mem _ hz)
      rw [List.map_cons, firstsBy_cons, firstsBy_cons, htail, List.map_cons,
        List.filter_map]
      congr 2
      apply List.filter_congr
      intro y hy
      have hxy := h x List.mem_cons_self y
        (List.mem_cons_of_mem _ (mem_of_mem_firstsBy hy))
      simp [hxy]

variable [DecidableEq β]

/-- The keys of the kept entries are the keys of the list. -/
theorem mem_map_firstsBy (key : α → β) (l : List α) (k : β) :
    k ∈ (firstsBy key l).map key ↔ k ∈ l.map key := by
  induction l with
  | nil => simp
  | cons x xs ih =>
      by_cases hk : k = key x
      · simp [hk]
      · have hne : ¬key x = k := fun h => hk h.symm
        rw [firstsBy_cons, List.map_cons, List.map_cons, List.mem_cons,
          List.mem_cons, ← ih]
        simp only [hk, false_or, List.mem_map, List.mem_filter]
        constructor
        · rintro ⟨y, ⟨hy, -⟩, rfl⟩
          exact ⟨y, hy, rfl⟩
        · rintro ⟨y, hy, rfl⟩
          exact ⟨y, ⟨hy, by simpa using hne⟩, rfl⟩

/-- No key is kept twice. -/
theorem nodup_map_firstsBy (key : α → β) (l : List α) :
    ((firstsBy key l).map key).Nodup := by
  induction l with
  | nil => simp
  | cons x xs ih =>
      rw [firstsBy_cons, List.map_cons, List.nodup_cons]
      constructor
      · intro h
        obtain ⟨y, hy, hkey⟩ := List.mem_map.mp h
        have hne := (List.mem_filter.mp hy).2
        simp [hkey] at hne
      · exact (List.filter_sublist.map key).nodup ih

/-- Entries with pairwise different keys are all kept. -/
theorem firstsBy_eq_self {key : α → β} {l : List α} (h : (l.map key).Nodup) :
    firstsBy key l = l := by
  induction l with
  | nil => rfl
  | cons x xs ih =>
      rw [List.map_cons, List.nodup_cons] at h
      rw [firstsBy_cons, ih h.2]
      congr 1
      rw [List.filter_eq_self]
      intro y hy
      have hne : key x ≠ key y := fun heq =>
        h.1 (heq ▸ List.mem_map_of_mem hy)
      simpa using hne

theorem firstsBy_eq_self_iff (key : α → β) (l : List α) :
    firstsBy key l = l ↔ (l.map key).Nodup := by
  constructor
  · intro h
    rw [← h]
    exact nodup_map_firstsBy key l
  · exact firstsBy_eq_self

/-- Keeping first entries commutes with a condition on keys. -/
theorem firstsBy_filter (key : α → β) (p : β → Bool) (l : List α) :
    firstsBy key (l.filter fun x => p (key x)) =
      (firstsBy key l).filter fun x => p (key x) := by
  induction l with
  | nil => rfl
  | cons x xs ih =>
      by_cases hp : p (key x) = true
      · rw [List.filter_cons_of_pos (by exact hp), firstsBy_cons, firstsBy_cons,
          ih, List.filter_cons_of_pos (by exact hp), List.filter_filter,
          List.filter_filter]
        congr 2
        funext y
        exact Bool.and_comm _ _
      · rw [List.filter_cons_of_neg (by exact hp), firstsBy_cons, ih,
          List.filter_cons_of_neg (by exact hp), List.filter_filter]
        apply List.filter_congr
        intro y _
        by_cases hxy : key x = key y
        · have hy : p (key y) = false := by simpa [hxy] using hp
          simp [hxy, hy]
        · simp [hxy]

/-- What is kept of two lists, one behind the other. -/
theorem firstsBy_append (key : α → β) (l m : List α) :
    firstsBy key (l ++ m) =
      firstsBy key l ++ (firstsBy key m).filter fun x => decide (key x ∉ l.map key) := by
  induction l with
  | nil => simp
  | cons x xs ih =>
      rw [List.cons_append, firstsBy_cons, ih, List.filter_append, List.filter_filter,
        firstsBy_cons, List.cons_append]
      congr 2
      refine List.filter_congr fun y _ => ?_
      by_cases hxy : key y = key x
      · simp [hxy]
      · have hyx : ¬key x = key y := fun h => hxy h.symm
        simp [hxy, hyx]

/-- Keeping the first entries of each list beforehand makes no difference. -/
theorem firstsBy_append_firstsBy (key : α → β) (l m : List α) :
    firstsBy key (firstsBy key l ++ firstsBy key m) = firstsBy key (l ++ m) := by
  rw [firstsBy_append, firstsBy_append, firstsBy_eq_self (nodup_map_firstsBy key l),
    firstsBy_eq_self (nodup_map_firstsBy key m)]
  simp only [mem_map_firstsBy]

/-- An entry at the end is kept iff its key is new. -/
theorem firstsBy_concat (key : α → β) (l : List α) (x : α) :
    firstsBy key (l ++ [x]) =
      if key x ∈ l.map key then firstsBy key l else firstsBy key l ++ [x] := by
  have hSingle : firstsBy key [x] = [x] := rfl
  rw [firstsBy_append, hSingle, List.filter_singleton]
  by_cases hx : key x ∈ l.map key
  · rw [if_pos hx, decide_eq_false (not_not_intro hx)]
    exact List.append_nil _
  · rw [if_neg hx, decide_eq_true hx]
    rfl

/-- The first entry of a key is found among the kept ones. -/
theorem find?_firstsBy (key : α → β) (l : List α) (k : β) :
    (firstsBy key l).find? (fun x => key x == k) =
      l.find? fun x => key x == k := by
  induction l with
  | nil => rfl
  | cons x xs ih =>
      rw [firstsBy_cons, List.find?_cons, List.find?_cons]
      cases hxk : key x == k with
      | true => rfl
      | false =>
          dsimp only
          rw [← ih, List.find?_filter]
          congr 1
          funext y
          by_cases hyk : key y = k
          · have hxk' : ¬key x = k := by simpa using hxk
            simp [hyk, hxk']
          · simp [hyk]

theorem find?_key_eq_none_iff (key : α → β) (l : List α) (k : β) :
    (l.find? fun x => key x == k) = none ↔ k ∉ l.map key := by
  rw [List.find?_eq_none, List.mem_map, not_exists]
  refine forall_congr' fun x => ?_
  rw [beq_iff_eq, not_and]

/-- Whatever `firstsBy` keeps is the first entry of its key. -/
theorem find?_of_mem_firstsBy {key : α → β} {l : List α} {x : α} (hx : x ∈ firstsBy key l) :
    l.find? (fun y => key y == key x) = some x := by
  rw [← find?_firstsBy]
  cases hFind : (firstsBy key l).find? fun y => key y == key x with
  | none => exact absurd (List.mem_map_of_mem hx) ((find?_key_eq_none_iff ..).mp hFind)
  | some y =>
      have hy := List.mem_of_find?_eq_some hFind
      have hKey : key y = key x := by simpa using List.find?_some hFind
      rw [List.inj_on_of_nodup_map (nodup_map_firstsBy key l) hy hx hKey]

end FirstsBy

/-! ## Symbols by name -/

theorem isIn_iff (s : Name) (l : List Name) :
    s.isIn l = true ↔ s.name ∈ l.map Symbol.name := by
  simp [Symbol.isIn, List.any_eq_true]

theorem isIn_eq_false_iff (s : Name) (l : List Name) :
    s.isIn l = false ↔ s.name ∉ l.map Symbol.name := by
  rw [← isIn_iff, Bool.not_eq_true]

theorem not_isIn_eq (s : Name) (l : List Name) :
    (!s.isIn l) = decide (s.name ∉ l.map Symbol.name) := by
  rw [Bool.eq_iff_iff, Bool.not_eq_true', isIn_eq_false_iff, decide_eq_true_eq]

/-- A test of names picks the names of the symbols that pass it. -/
theorem map_name_filter {p : Name → Bool} (q : String → Bool)
    (h : ∀ s, p s = q s.name) (l : List Name) :
    (l.filter p).map Symbol.name = (l.map Symbol.name).filter q := by
  rw [List.filter_map]
  exact congrArg _ (List.filter_congr fun s _ => h s)

theorem map_name_filter_not_isIn (l m : List Name) :
    (l.filter fun s => !s.isIn m).map Symbol.name =
      (l.map Symbol.name).filter (· ∉ m.map Symbol.name) :=
  map_name_filter (· ∉ m.map Symbol.name) (fun s => not_isIn_eq s m) l

theorem map_name_distinctNames (l : List Name) :
    (distinctNames l).map Symbol.name = firstsBy id (l.map Symbol.name) :=
  (firstsBy_map id Symbol.name Symbol.name l fun _ _ _ _ => rfl).symm

theorem mem_names_distinctNames (l : List Name) (n : String) :
    n ∈ (distinctNames l).map Symbol.name ↔ n ∈ l.map Symbol.name :=
  mem_map_firstsBy Symbol.name l n

theorem nodup_names_distinctNames (l : List Name) :
    ((distinctNames l).map Symbol.name).Nodup :=
  nodup_map_firstsBy Symbol.name l

theorem distinctNames_eq_self_iff (l : List Name) :
    distinctNames l = l ↔ (l.map Symbol.name).Nodup :=
  firstsBy_eq_self_iff Symbol.name l

theorem distinctNames_twice (l : List Name) :
    distinctNames (distinctNames l) = distinctNames l :=
  (distinctNames_eq_self_iff _).mpr (nodup_names_distinctNames l)

end DatalogFragments
