import DatalogFragments.Term.Specials

/-!
# Kinds of names

A variable is neither a special, nor a placeholder, nor the head of a nested
form, and it stays a variable when text is added behind it.  A map of names
that moves variables to variables only therefore keeps every distinction that
the library makes between names.

## Main results

* `isVariableName_append` — longer names;
* `isSpecialName_eq_false_of_variable`, `ne_placeholder_of_variable` — what a
  variable is not;
* `KeepsKinds` — maps of names that move variables to variables and nothing
  else, with what they preserve.
-/

namespace DatalogFragments

theorem isVariableName_iff (n : String) :
    isVariableName n = true ↔ ∃ c cs, n.toList = '?' :: c :: cs := by
  unfold isVariableName
  split
  · rename_i c cs heq
    exact iff_of_true rfl ⟨c, cs, heq⟩
  · rename_i hne
    refine iff_of_false (by simp) ?_
    rintro ⟨c, cs, h⟩
    exact hne c cs h

/-- A variable stays one when text is added behind its name. -/
theorem isVariableName_append {n : String} (h : isVariableName n = true)
    (m : String) : isVariableName (n ++ m) = true := by
  obtain ⟨c, cs, hn⟩ := (isVariableName_iff n).mp h
  rw [isVariableName_iff]
  exact ⟨c, cs ++ m.toList, by rw [String.toList_append, hn]; rfl⟩

private theorem ne_of_variable {n m : String} (h : isVariableName n = true)
    (hm : isVariableName m = false) : n ≠ m := by
  rintro rfl
  rw [h] at hm
  exact Bool.noConfusion hm

theorem isDatasourceName_eq_false_of_variable {n : String}
    (h : isVariableName n = true) : isDatasourceName n = false := by
  obtain ⟨c, cs, hn⟩ := (isVariableName_iff n).mp h
  simp [isDatasourceName, hn]

theorem isRulesetName_eq_false_of_variable {n : String}
    (h : isVariableName n = true) : isRulesetName n = false := by
  obtain ⟨c, cs, hn⟩ := (isVariableName_iff n).mp h
  simp [isRulesetName, hn]

theorem isSpecialName_eq_false_of_variable {n : String}
    (h : isVariableName n = true) : isSpecialName n = false := by
  rw [isSpecialName, isDatasourceName_eq_false_of_variable h,
    isRulesetName_eq_false_of_variable h]
  rfl

theorem isVariableName_eq_false_of_special {n : String}
    (h : isSpecialName n = true) : isVariableName n = false := by
  cases hv : isVariableName n with
  | false => rfl
  | true =>
      rw [isSpecialName_eq_false_of_variable hv] at h
      exact Bool.noConfusion h

theorem ne_placeholder_of_variable {n : String}
    (h : isVariableName n = true) : n ≠ placeholderName :=
  ne_of_variable h (by decide)

theorem nestedForms_not_contains_of_variable {n : String}
    (h : isVariableName n = true) : Term.nestedForms.contains n = false := by
  have hnot : n ≠ "not" := ne_of_variable h (by decide)
  have hor : n ≠ "or" := ne_of_variable h (by decide)
  have hand : n ≠ "and" := ne_of_variable h (by decide)
  simp [Term.nestedForms, hnot, hor, hand]

theorem joinForms_not_contains_of_variable {n : String}
    (h : isVariableName n = true) : Term.joinForms.contains n = false := by
  have hnot : n ≠ "not-join" := ne_of_variable h (by decide)
  have hor : n ≠ "or-join" := ne_of_variable h (by decide)
  simp [Term.joinForms, hnot, hor]

/-! ## Maps of names -/

/-- A map of names that moves variables to variables and nothing else. -/
def KeepsKinds (ρ : String → String) : Prop :=
  ∀ n, ρ n = n ∨ isVariableName n = true ∧ isVariableName (ρ n) = true

namespace KeepsKinds

variable {ρ : String → String}

theorem isVariableName_eq (h : KeepsKinds ρ) (n : String) :
    isVariableName (ρ n) = isVariableName n := by
  rcases h n with heq | ⟨hn, hρ⟩
  · rw [heq]
  · rw [hn, hρ]

/-- What holds of no variable is kept. -/
theorem congr_of_variable (h : KeepsKinds ρ) {p : String → Bool}
    (hp : ∀ m, isVariableName m = true → p m = false) (n : String) :
    p (ρ n) = p n := by
  rcases h n with heq | ⟨hn, hρ⟩
  · rw [heq]
  · rw [hp n hn, hp (ρ n) hρ]

theorem isSpecialName_eq (h : KeepsKinds ρ) (n : String) :
    isSpecialName (ρ n) = isSpecialName n :=
  h.congr_of_variable (fun _ => isSpecialName_eq_false_of_variable) n

theorem isDatasourceName_eq (h : KeepsKinds ρ) (n : String) :
    isDatasourceName (ρ n) = isDatasourceName n :=
  h.congr_of_variable (fun _ => isDatasourceName_eq_false_of_variable) n

theorem isRulesetName_eq (h : KeepsKinds ρ) (n : String) :
    isRulesetName (ρ n) = isRulesetName n :=
  h.congr_of_variable (fun _ => isRulesetName_eq_false_of_variable) n

theorem nestedForms_contains_eq (h : KeepsKinds ρ) (n : String) :
    Term.nestedForms.contains (ρ n) = Term.nestedForms.contains n :=
  h.congr_of_variable (p := Term.nestedForms.contains)
    (fun _ => nestedForms_not_contains_of_variable) n

theorem joinForms_contains_eq (h : KeepsKinds ρ) (n : String) :
    Term.joinForms.contains (ρ n) = Term.joinForms.contains n :=
  h.congr_of_variable (p := Term.joinForms.contains)
    (fun _ => joinForms_not_contains_of_variable) n

theorem eq_placeholder_iff (h : KeepsKinds ρ) (n : String) :
    ρ n = placeholderName ↔ n = placeholderName := by
  rcases h n with heq | ⟨hn, hρ⟩
  · rw [heq]
  · exact iff_of_false (ne_placeholder_of_variable hρ)
      (ne_placeholder_of_variable hn)

/-- A name that is no variable stays where it is. -/
theorem eq_of_not_variable (h : KeepsKinds ρ) {n : String}
    (hn : isVariableName n = false) : ρ n = n := by
  rcases h n with heq | ⟨hv, -⟩
  · exact heq
  · rw [hn] at hv
    exact Bool.noConfusion hv

end KeepsKinds

end DatalogFragments
