import DatalogFragments.Query
import DatalogFragments.Proofs.Attempt
import DatalogFragments.Proofs.Fragment.WellFormed
import Mathlib.Data.List.Duplicate

/-!
# Declarations of a query

Bindings are added one after the other.  A special bound as a whole is
declared once, whoever binds it; every other binding declares the symbols of
its form, none of which may be declared already.  So what can stop the
assembly is a name that occurs twice among these symbols, and nothing else.

## Main results

* `Assembly.addAll_outcome` — adding bindings, whatever is declared already;
* `Assembly.ofSlices_outcome` — for well-formed fragments the names are the
  bound ones that are no specials;
* `Assembly.mem_allParams_ofSlices` — every declaration is a rendered form.
-/

namespace DatalogFragments

namespace Assembly

/-- The names that a binding declares, unless it is a special as a whole. -/
def declaredBy (form : Form) : List String :=
  match wholeSpecial? form with
  | some _ => []
  | none => form.names

/-- The names that bindings declare, in order. -/
def declaredNames (bs : List (Fragment × Form × Value)) : List String :=
  bs.flatMap fun b => declaredBy b.2.1

/-- The names that are declared so far. -/
def taken (a : Assembly) : List String := a.declared.map Prod.fst

/-- The refusal of a name that a fragment declares although it is declared
already. -/
def RefusesTwice (f : Fragment) (n : String) (e : Fault) : Prop :=
  ∃ (s : Name) (first : Value), s.name = n ∧
    (.error e : Except Fault Unit) = f.refuse (.declaredTwice n first f.name) [s]

/-! ## One binding -/

theorem lookup_eq_none_iff_not_mem (l : List (String × Value))
    (n : String) : l.lookup n = none ↔ n ∉ l.map Prod.fst := by
  rw [List.lookup_eq_none_iff, List.mem_map, not_exists]
  refine forall_congr' fun p => ?_
  rw [not_and, bne_iff_ne]
  exact forall_congr' fun _ => ne_comm

private theorem duplicate_of_perm {n : String} {l l' : List String}
    (h : List.Duplicate n l) (hPerm : l.Perm l') : List.Duplicate n l' := by
  rw [List.duplicate_iff_two_le_count] at h ⊢
  rwa [hPerm.count_eq] at h

/-- Declaring symbols goes through when their names are new and different, and
stops with a name that is not. -/
theorem declareAll_outcome (f : Fragment) (declared : List (String × Value))
    (l : List Name) (hNodup : (declared.map Prod.fst).Nodup) :
    (∃ d, declareAll f declared l = .ok d ∧
      (d.map Prod.fst).Perm (declared.map Prod.fst ++ l.map Symbol.name) ∧
      (declared.map Prod.fst ++ l.map Symbol.name).Nodup) ∨
    ∃ e n, declareAll f declared l = .error e ∧ RefusesTwice f n e ∧
      List.Duplicate n (declared.map Prod.fst ++ l.map Symbol.name) := by
  induction l generalizing declared with
  | nil => exact .inl ⟨declared, rfl, by simp, by simpa using hNodup⟩
  | cons s l ih =>
      have hPerm : (s.name :: (declared.map Prod.fst ++ l.map Symbol.name)).Perm
          (declared.map Prod.fst ++ (s :: l).map Symbol.name) :=
        List.perm_middle.symm
      rw [declareAll]
      cases hLookup : declared.lookup s.name with
      | some first =>
          have hMem : s.name ∈ declared.map Prod.fst := by
            by_contra hNot
            rw [(lookup_eq_none_iff_not_mem declared s.name).mpr hNot] at hLookup
            cases hLookup
          exact .inr ⟨_, s.name, rfl, ⟨s, first, rfl, rfl⟩, duplicate_of_perm
            (List.mem_append_left _ hMem).duplicate_cons_self hPerm⟩
      | none =>
          have hNew := (lookup_eq_none_iff_not_mem declared s.name).mp hLookup
          have hCons : (((s.name, f.name) :: declared).map Prod.fst).Nodup :=
            List.nodup_cons.mpr ⟨hNew, hNodup⟩
          rcases ih ((s.name, f.name) :: declared) hCons with
            ⟨d, hOk, hNames, hAll⟩ | ⟨e, n, hError, hRefuses, hTwice⟩
          · exact .inl ⟨d, hOk, hNames.trans hPerm, hPerm.nodup hAll⟩
          · exact .inr ⟨e, n, hError, hRefuses, duplicate_of_perm hTwice hPerm⟩

/-- What one binding does to the names declared so far. -/
theorem add_outcome (a : Assembly) (f : Fragment) (form : Form) (value : Value)
    (hNodup : a.taken.Nodup) :
    (∃ a', a.add f form value = .ok a' ∧
      a'.taken.Perm (a.taken ++ declaredBy form) ∧
      (a.taken ++ declaredBy form).Nodup) ∨
    ∃ e n, a.add f form value = .error e ∧ RefusesTwice f n e ∧
      List.Duplicate n (a.taken ++ declaredBy form) := by
  rw [add, declaredBy]
  cases hSpecial : wholeSpecial? form with
  | some s =>
      left
      dsimp only
      rw [List.append_nil]
      cases a.specials.find? fun b => b.symbol.name == s.name with
      | none => exact ⟨_, rfl, .refl _, hNodup⟩
      | some b =>
          dsimp only
          split
          · exact ⟨_, rfl, .refl _, hNodup⟩
          · exact ⟨_, rfl, .refl _, hNodup⟩
  | none =>
      rcases declareAll_outcome f a.declared form.symbols hNodup with
        ⟨d, hOk, hNames, hAll⟩ | ⟨e, n, hError, hRefuses, hTwice⟩
      · left
        dsimp only
        rw [hOk]
        exact ⟨_, rfl, hNames, hAll⟩
      · right
        dsimp only
        rw [hError]
        exact ⟨e, n, rfl, hRefuses, hTwice⟩

/-! ## All bindings -/

/-- Adding bindings goes through when no name is declared twice, and stops
with a name that is. -/
theorem addAll_outcome (a : Assembly) (bs : List (Fragment × Form × Value))
    (hNodup : a.taken.Nodup) :
    ((∃ a', a.addAll bs = .ok a') ∧ (a.taken ++ declaredNames bs).Nodup) ∨
    ∃ e f n, a.addAll bs = .error e ∧ f ∈ bs.map Prod.fst ∧
      RefusesTwice f n e ∧ List.Duplicate n (a.taken ++ declaredNames bs) := by
  induction bs generalizing a with
  | nil => exact .inl ⟨⟨a, rfl⟩, by simpa [declaredNames] using hNodup⟩
  | cons b bs ih =>
      obtain ⟨f, form, value⟩ := b
      have hNames : declaredNames ((f, form, value) :: bs) =
          declaredBy form ++ declaredNames bs := rfl
      rw [addAll, hNames, ← List.append_assoc]
      rcases add_outcome a f form value hNodup with
        ⟨a', hOk, hPerm, hAll⟩ | ⟨e, n, hError, hRefuses, hTwice⟩
      · have hRest := hPerm.append_right (declaredNames bs)
        rw [hOk]
        rcases ih a' (hPerm.symm.nodup hAll) with
          ⟨hGoes, hDistinct⟩ | ⟨e, g, n, hError, hg, hRefuses, hTwice⟩
        · exact .inl ⟨hGoes, hRest.nodup hDistinct⟩
        · exact .inr ⟨e, g, n, hError, List.mem_cons_of_mem _ hg, hRefuses,
            duplicate_of_perm hTwice hRest⟩
      · rw [hError]
        exact .inr ⟨e, f, n, rfl, List.mem_cons_self, hRefuses,
          hTwice.mono_sublist (List.sublist_append_left _ _)⟩

/-! ## Bindings of well-formed fragments -/

/-- A valid form declares what it binds, besides specials. -/
theorem declaredBy_eq {form : Form} (h : form.Whole) :
    declaredBy form = form.names.filter fun n => !isSpecialName n := by
  rw [declaredBy]
  rcases h.variables with ⟨s, rfl, hs⟩ | ⟨hNone, hVariables⟩
  · have hSpecial : isSpecialName s.name = true := hs
    rw [wholeSpecial?, if_pos hs, Form.names, Form.symbols_of_special hs]
    simp [hSpecial]
  · have hWhole : wholeSpecial? form = none := by
      cases form with
      | sym s =>
          rw [wholeSpecial?, if_neg]
          intro hs
          rw [Form.special?, if_pos hs] at hNone
          cases hNone
      | _ => rfl
    rw [hWhole]
    refine (List.filter_eq_self.mpr fun n hn => ?_).symm
    obtain ⟨s, hs, rfl⟩ := List.mem_map.mp hn
    rw [isSpecialName_eq_false_of_variable (hVariables s hs)]
    rfl

/-- The bound names of a fragment that are no specials. -/
def parameterNames (f : Fragment) : List String :=
  f.letNames.filter fun n => !isSpecialName n

theorem declaredNames_bindingsOf {fs : List Fragment}
    (h : ∀ f ∈ fs, f.WellFormed) :
    declaredNames (bindingsOf fs) = fs.flatMap parameterNames := by
  rw [declaredNames, bindingsOf, List.flatMap_assoc]
  refine List.flatMap_congr fun f hf => ?_
  rw [List.flatMap_map, parameterNames, Fragment.letNames, Fragment.letSymbols,
    List.map_flatMap, List.filter_flatMap]
  exact List.flatMap_congr fun p hp => declaredBy_eq ((h f hf).forms_whole p hp)

/-- Declarations of well-formed fragments are put together when no name that
is no special is bound twice, and refused for a name that is. -/
theorem ofSlices_outcome {fs : List Fragment} (h : ∀ f ∈ fs, f.WellFormed) :
    ((∃ a, ofSlices fs = .ok a) ∧ (fs.flatMap parameterNames).Nodup) ∨
    ∃ e f n, ofSlices fs = .error e ∧ f ∈ fs ∧ RefusesTwice f n e ∧
      List.Duplicate n (fs.flatMap parameterNames) := by
  rcases addAll_outcome {} (bindingsOf fs) List.nodup_nil with
    ⟨hOk, hNodup⟩ | ⟨e, f, n, hError, hf, hRefuses, hTwice⟩
  · left
    rw [declaredNames_bindingsOf h] at hNodup
    exact ⟨hOk, hNodup⟩
  · right
    rw [declaredNames_bindingsOf h] at hTwice
    refine ⟨e, f, n, hError, ?_, hRefuses, hTwice⟩
    rw [bindingsOf, List.map_flatMap, List.mem_flatMap] at hf
    obtain ⟨g, hg, hf⟩ := hf
    rw [List.map_map, List.mem_map] at hf
    obtain ⟨p, -, rfl⟩ := hf
    exact hg

/-! ## What is declared -/

theorem eq_sym_of_wholeSpecial {form : Form} {s : Name}
    (h : wholeSpecial? form = some s) : form = .sym s := by
  cases form with
  | sym t =>
      rw [wholeSpecial?] at h
      split at h
      · rw [Option.some.inj h]
      · cases h
  | _ => cases h

theorem mem_allParams_add {a a' : Assembly} {f : Fragment} {form : Form}
    {value : Value} (h : a.add f form value = .ok a') :
    ∀ c ∈ a'.allParams, c ∈ a.allParams ∨ c = form.render := by
  intro c hc
  rw [add] at h
  cases hSpecial : wholeSpecial? form with
  | some s =>
      obtain rfl := eq_sym_of_wholeSpecial hSpecial
      rw [hSpecial] at h
      dsimp only at h
      split at h
      · split at h <;> cases h <;> exact .inl hc
      · cases h
        simp only [allParams, List.map_append, List.map_singleton,
          List.mem_append, List.mem_singleton] at hc ⊢
        rw [Form.render]
        tauto
  | none =>
      rw [hSpecial] at h
      dsimp only at h
      obtain ⟨d, -, hEq⟩ := bind_eq_ok_iff.mp h
      cases hEq
      simp only [allParams, List.mem_append, List.mem_singleton] at hc ⊢
      tauto

theorem mem_allParams_addAll {a a' : Assembly}
    {bs : List (Fragment × Form × Value)} (h : a.addAll bs = .ok a') :
    ∀ c ∈ a'.allParams, c ∈ a.allParams ∨ ∃ b ∈ bs, c = b.2.1.render := by
  induction bs generalizing a with
  | nil =>
      cases h
      exact fun c hc => .inl hc
  | cons b bs ih =>
      obtain ⟨f, form, value⟩ := b
      rw [addAll] at h
      obtain ⟨a₁, hAdd, hRest⟩ := bind_eq_ok_iff.mp h
      intro c hc
      rcases ih hRest c hc with hc | ⟨b, hb, rfl⟩
      · rcases mem_allParams_add hAdd c hc with hc | rfl
        · exact .inl hc
        · exact .inr ⟨_, List.mem_cons_self, rfl⟩
      · exact .inr ⟨b, List.mem_cons_of_mem _ hb, rfl⟩

/-- A declaration of a query is a form that one of the fragments binds. -/
theorem mem_allParams_ofSlices {fs : List Fragment} {a : Assembly}
    (h : ofSlices fs = .ok a) :
    ∀ c ∈ a.allParams, ∃ f ∈ fs, ∃ p ∈ f.lets, c = p.1.render := by
  intro c hc
  rcases mem_allParams_addAll h c hc with hc | ⟨b, hb, rfl⟩
  · exact absurd hc List.not_mem_nil
  · rw [bindingsOf, List.mem_flatMap] at hb
    obtain ⟨f, hf, hb⟩ := hb
    obtain ⟨p, hp, rfl⟩ := List.mem_map.mp hb
    exact ⟨f, hf, p, hp, rfl⟩

end Assembly

end DatalogFragments
