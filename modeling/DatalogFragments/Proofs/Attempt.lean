import DatalogFragments.Failure
import Mathlib.Data.List.Forall2

/-!
# Computations that may stop

What it takes for a sequence of steps to go through, step by step.  Every
checker of the library is such a sequence, so its acceptance condition is read
off from these equivalences without opening the monad.

## Main results

* `bind_eq_ok_iff`, `then_eq_ok_iff` — two steps;
* `forM_eq_ok_iff`, `mapM_eq_ok`, `mapM_eq_ok_iff`, `exists_mapM_eq_ok` — one step
  for every entry of a list;
* `okUnless` — a result, or the fault that stops it;
* `mapM_eq_okUnless` — of the faults of the entries, the first one counts;
* `Returns` — a step there and a step back;
* `SameVerdict` — two computations that go through together, or stop with
  faults of one kind;
* `SameResult` — two computations that go through together, or stop.
-/

namespace DatalogFragments

variable {ε α β : Type}

/-- Two steps go through iff the first one does and the second one does with
its result. -/
theorem bind_eq_ok_iff {x : Except ε α} {f : α → Except ε β} {b : β} :
    (x >>= f) = .ok b ↔ ∃ a, x = .ok a ∧ f a = .ok b := by
  cases x with
  | error e =>
      refine iff_of_false (fun h => ?_) ?_
      · cases h
      · rintro ⟨a, h, -⟩
        cases h
  | ok a =>
      constructor
      · intro h
        exact ⟨a, rfl, h⟩
      · rintro ⟨a', h, hf⟩
        cases h
        exact hf

/-- A check and what follows it. -/
theorem then_eq_ok_iff {x : Except ε Unit} {y : Except ε β} {b : β} :
    (x >>= fun _ => y) = .ok b ↔ x = .ok () ∧ y = .ok b := by
  rw [bind_eq_ok_iff]
  exact ⟨fun ⟨_, hx, hy⟩ => ⟨hx, hy⟩, fun ⟨hx, hy⟩ => ⟨(), hx, hy⟩⟩

@[simp] theorem ok_bind (a : α) (f : α → Except ε β) :
    (Except.ok a >>= f) = f a := rfl

@[simp] theorem error_bind (e : ε) (f : α → Except ε β) :
    (Except.error e >>= f) = .error e := rfl

/-- A check of every entry goes through iff every single one does. -/
theorem forM_eq_ok_iff {l : List α} {f : α → Except ε PUnit} :
    l.forM f = .ok () ↔ ∀ x ∈ l, f x = .ok () := by
  induction l with
  | nil => simp [List.forM, pure, Except.pure]
  | cons x xs ih =>
      rw [List.forM, then_eq_ok_iff, ih, List.forall_mem_cons]

/-- What stops a computation, if anything does. -/
def faultOf? : Except ε α → Option ε
  | .error e => some e
  | .ok _ => none

theorem faultOf?_eq_none_iff {x : Except ε α} : faultOf? x = none ↔ ∃ a, x = .ok a := by
  cases x <;> simp [faultOf?]

/-- A result, unless something stops the computation. -/
def okUnless (fault : Option ε) (a : α) : Except ε α :=
  match fault with
  | some e => .error e
  | none => .ok a

@[simp] theorem okUnless_none (a : α) :
    okUnless (none : Option ε) a = .ok a := rfl

@[simp] theorem okUnless_some (e : ε) (a : α) :
    okUnless (some e) a = .error e := rfl

theorem okUnless_eq_ok_iff {fault : Option ε} {a b : α} :
    okUnless fault a = .ok b ↔ fault = none ∧ a = b := by
  cases fault with
  | none => simp
  | some e => simp

theorem okUnless_map (fault : Option ε) (a : α) (f : α → β) :
    (okUnless fault a).map f = okUnless fault (f a) := by
  cases fault <;> rfl

/-- A step for every entry stops with the fault of the first entry that has one. -/
theorem mapM_eq_okUnless {l : List α} {f : α → Except ε β} {fault : α → Option ε}
    {g : α → β} (h : ∀ x ∈ l, f x = okUnless (fault x) (g x)) :
    l.mapM f = okUnless (l.findSome? fault) (l.map g) := by
  induction l with
  | nil => rfl
  | cons x xs ih =>
      obtain ⟨hHead, hTail⟩ := List.forall_mem_cons.mp h
      rw [List.mapM_cons, hHead, ih hTail, List.findSome?_cons]
      cases fault x with
      | some e => rfl
      | none => cases xs.findSome? fault <;> rfl

/-- A step for every entry that always goes through. -/
theorem mapM_eq_ok {l : List α} {f : α → Except ε β} {g : α → β}
    (h : ∀ x ∈ l, f x = .ok (g x)) : l.mapM f = .ok (l.map g) := by
  induction l with
  | nil => rfl
  | cons x xs ih =>
      rw [List.mapM_cons, h x List.mem_cons_self, ok_bind,
        ih fun y hy => h y (List.mem_cons_of_mem _ hy)]
      rfl

/-- A step for every entry goes through iff every single one does. -/
theorem mapM_eq_ok_iff {l : List α} {f : α → Except ε β} {bs : List β} :
    l.mapM f = .ok bs ↔ List.Forall₂ (fun x b => f x = .ok b) l bs := by
  induction l generalizing bs with
  | nil =>
      rw [List.mapM_nil, List.forall₂_nil_left_iff]
      exact ⟨fun h => (Except.ok.inj h).symm, fun h => h ▸ rfl⟩
  | cons x xs ih =>
      rw [List.mapM_cons, bind_eq_ok_iff]
      constructor
      · rintro ⟨b, hb, h⟩
        obtain ⟨bs', hbs', h⟩ := bind_eq_ok_iff.mp h
        cases h
        exact .cons hb (ih.mp hbs')
      · intro h
        cases h with
        | cons hb hbs =>
            exact ⟨_, hb, bind_eq_ok_iff.mpr ⟨_, ih.mpr hbs, rfl⟩⟩

/-- A step that does the same for each two entries does so for the lists. -/
theorem mapM_congr_of_forall₂ {T : α → α → Prop} {l l' : List α}
    {f : α → Except ε β} (h : List.Forall₂ T l l')
    (hEach : ∀ a ∈ l, ∀ {b}, T a b → f b = f a) : l'.mapM f = l.mapM f := by
  induction h with
  | nil => rfl
  | cons hab _ ih =>
      rw [List.mapM_cons, List.mapM_cons, hEach _ List.mem_cons_self hab,
        ih fun a ha => hEach a (List.mem_cons_of_mem _ ha)]

theorem exists_mapM_eq_ok {l : List α} {f : α → Except ε β}
    (h : ∀ x ∈ l, ∃ b, f x = .ok b) : ∃ bs, l.mapM f = .ok bs := by
  induction l with
  | nil => exact ⟨[], rfl⟩
  | cons x xs ih =>
      obtain ⟨b, hb⟩ := h x List.mem_cons_self
      obtain ⟨bs, hbs⟩ := ih fun y hy => h y (List.mem_cons_of_mem _ hy)
      refine ⟨b :: bs, ?_⟩
      rw [List.mapM_cons, hb, hbs]
      rfl

/-! ## There and back -/

/-- The first step goes through, and whatever becomes of its result, the second
one goes through with what `S` asks for. -/
def Returns {γ δ : Type} (f : α → Except ε β) (E : β → γ → Prop)
    (g : γ → Except ε δ) (S : α → δ → Prop) (a : α) : Prop :=
  ∃ b, f a = .ok b ∧ ∀ c, E b c → ∃ d, g c = .ok d ∧ S a d

/-- What returns entry by entry returns as a list. -/
theorem Returns.mapM {γ δ : Type} {f : α → Except ε β} {E : β → γ → Prop}
    {g : γ → Except ε δ} {S : α → δ → Prop} {l : List α}
    (h : ∀ a ∈ l, Returns f E g S a) :
    ∃ bs, l.mapM f = .ok bs ∧ ∀ cs, List.Forall₂ E bs cs →
      ∃ ds, cs.mapM g = .ok ds ∧ List.Forall₂ S l ds := by
  induction l with
  | nil =>
      refine ⟨[], rfl, fun cs hcs => ?_⟩
      cases hcs
      exact ⟨[], rfl, .nil⟩
  | cons a l ih =>
      obtain ⟨hHead, hTail⟩ := List.forall_mem_cons.mp h
      obtain ⟨b, hb, hBack⟩ := hHead
      obtain ⟨bs, hbs, hBacks⟩ := ih hTail
      refine ⟨b :: bs, mapM_eq_ok_iff.mpr (.cons hb (mapM_eq_ok_iff.mp hbs)), ?_⟩
      intro cs hcs
      cases hcs with
      | cons hc hcs =>
          obtain ⟨d, hd, hS⟩ := hBack _ hc
          obtain ⟨ds, hds, hSs⟩ := hBacks _ hcs
          exact ⟨d :: ds, mapM_eq_ok_iff.mpr (.cons hd (mapM_eq_ok_iff.mp hds)),
            .cons hS hSs⟩

/-! ## Two computations -/

/-- Failures of one class, or one and the same other fault. -/
def Fault.SameKind : Fault → Fault → Prop
  | .failure f, .failure g => f.kind = g.kind
  | e, e' => e = e'

theorem Fault.sameKind_refl (e : Fault) : e.SameKind e := by
  cases e <;> exact rfl

/-- Both computations go through, with results related by `S`, or both stop
with faults of one kind. -/
inductive SameVerdict {α β : Type} (S : α → β → Prop) :
    Except Fault α → Except Fault β → Prop
  | ok {a : α} {b : β} (h : S a b) : SameVerdict S (.ok a) (.ok b)
  | error {e e' : Fault} (h : e.SameKind e') : SameVerdict S (.error e) (.error e')

namespace SameVerdict

variable {γ δ : Type} {S : α → β → Prop} {T : γ → δ → Prop}

theorem refl (x : Except Fault α) : SameVerdict Eq x x := by
  cases x with
  | ok a => exact .ok rfl
  | error e => exact .error e.sameKind_refl

theorem bind {x : Except Fault α} {y : Except Fault β}
    {f : α → Except Fault γ} {g : β → Except Fault δ} (h : SameVerdict S x y)
    (hRest : ∀ a b, S a b → SameVerdict T (f a) (g b)) :
    SameVerdict T (x >>= f) (y >>= g) := by
  cases h with
  | ok h => exact hRest _ _ h
  | error h => exact .error h

end SameVerdict

/-- Both computations come to the same result, or both stop, with whatever
fault. -/
def SameResult (x y : Except ε α) : Prop := ∀ a, x = .ok a ↔ y = .ok a

namespace SameResult

theorem refl (x : Except ε α) : SameResult x x := fun _ => .rfl

theorem trans {x y z : Except ε α} (h : SameResult x y) (h' : SameResult y z) :
    SameResult x z := fun a => (h a).trans (h' a)

theorem bind {x y : Except ε α} {f g : α → Except ε β} (h : SameResult x y)
    (hRest : ∀ a, SameResult (f a) (g a)) : SameResult (x >>= f) (y >>= g) := by
  intro b
  rw [bind_eq_ok_iff, bind_eq_ok_iff]
  exact exists_congr fun a => and_congr (h a) (hRest a b)

end SameResult

end DatalogFragments
