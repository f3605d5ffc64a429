import DatalogFragments.Proofs.Edn.Reader
import DatalogFragments.Proofs.Term.StackWalk

/-!
# Replacing symbols by symbols

A substitution looks every symbol leaf up once.  What it finds stands in the
place of the leaf and takes over the display information of the leaf, under its
own; what it does not find, and everything that is no symbol leaf, stays.  So a
substitution is one map applied to the symbol leaves (`SymbolMap.leaf`), and its
laws are laws of that map.  It stops at the first leaf that it cannot hand the
information of on, which notes never do.

## Main definitions

* `SymbolMap` — a replacement of symbols by symbols;
* `SymbolMap.Replaces` — what may become of a symbol leaf;
* `SymbolMap.infoFault?` — what stops a substitution at a leaf;
* `Term.holed` — a clause with its symbol leaves blanked out;
* `SymbolMap.after`, `SymbolMap.Inverts` — two maps, one after the other or one
  against the other.

## Main results

* `substitute_clauses` — a substitution works leaf by leaf;
* `postwalk_replace` — it is the walk that replaces symbols;
* `exists_substitute` — notes are handed on;
* `exists_substitute_after` — two substitutions are one;
* `substitute_inverts` — a renaming to new names is undone;
* `substitute_simultaneous` — all of this for one substitution.
-/

namespace DatalogFragments

open Value (HasTextKeys field?)

/-! ## Display information -/

namespace Value

variable {given own : Option Value}

/-- The information of an outcome; none where it cannot be handed on. -/
def handedOn (given own : Option Value) : Option Value :=
  match inheritInfo given own with
  | .ok info => info
  | .error _ => none

theorem handedOn_of_ok {info : Option Value} (h : inheritInfo given own = .ok info) :
    handedOn given own = info := by
  rw [handedOn, h]

/-- Information is handed on where the outcome has it already, and otherwise
where there are entries on both sides. -/
theorem exists_inheritInfo_iff {i : Value} :
    (∃ info, inheritInfo (some i) own = .ok info) ↔
      own = some i ∨ (∃ es, i.asEntries = .ok es) ∧ ∃ es, broughtAlong own = .ok es := by
  rw [inheritInfo]
  by_cases hSame : own = some i
  · rw [if_pos hSame]
    exact iff_of_true ⟨own, rfl⟩ (.inl hSame)
  · rw [if_neg hSame]
    constructor
    · rintro ⟨info, h⟩
      obtain ⟨es, hEs, h⟩ := bind_eq_ok_iff.mp h
      obtain ⟨added, hAdded, -⟩ := bind_eq_ok_iff.mp h
      exact .inr ⟨⟨es, hEs⟩, ⟨added, hAdded⟩⟩
    · rintro (hOwn | ⟨⟨es, hEs⟩, ⟨added, hAdded⟩⟩)
      · exact absurd hOwn hSame
      · exact ⟨some (.mapping (overlaid es added)), by rw [hEs, hAdded]; rfl⟩

/-- Information that is handed on in two steps is handed on in one. -/
theorem exists_inheritInfo_trans {own' info info' : Option Value}
    (h : inheritInfo given own = .ok info) (h' : inheritInfo info own' = .ok info') :
    ∃ merged, inheritInfo given own' = .ok merged := by
  cases given with
  | none => exact ⟨own', rfl⟩
  | some i =>
      by_cases hSame : own = some i
      · rw [hSame, inheritInfo_self] at h
        exact ⟨info', Except.ok.inj h ▸ h'⟩
      · rw [inheritInfo, if_neg hSame] at h
        obtain ⟨es, hEs, h⟩ := bind_eq_ok_iff.mp h
        obtain ⟨added, -, h⟩ := bind_eq_ok_iff.mp h
        obtain rfl := Except.ok.inj h
        -- What the first step leaves is a mapping, so the second stops at its own outcome only.
        refine exists_inheritInfo_iff.mpr (.inr ⟨⟨es, hEs⟩, ?_⟩)
        rcases exists_inheritInfo_iff.mp ⟨info', h'⟩ with rfl | ⟨-, hBrought⟩
        · exact ⟨_, broughtAlong_mapping _⟩
        · exact hBrought

end Value

/-- An outcome that has the information of the node stays as it is. -/
theorem Term.inherit_of_info?_eq {u r : Clause} (hNode : ∀ v, u ≠ .stray v)
    (h : r.info? = u.info?) : inherit u r = .ok r := by
  by_cases hResult : ∃ v, r = .stray v
  · obtain ⟨v, rfl⟩ := hResult
    exact inherit_stray u v
  · rw [inherit_eq hNode (not_exists.mp hResult), ← h, Value.inheritInfo_self]
    exact congrArg Except.ok (withInfo_info? r)

/-! ## Maps of symbols -/

/-- A replacement of symbols, which go by their names, by symbols. -/
abbrev SymbolMap := String → Option Name

namespace SymbolMap

variable {m : SymbolMap}

/-- The map as a replacement of symbols by clauses. -/
def clauses (m : SymbolMap) (name : String) : Option Clause := (m name).map .sym

/-- What the walk does to a node. -/
def replace (m : SymbolMap) : Clause → Clause
  | .sym s => .sym ((m s.name).getD s)
  | t => t

/-- What becomes of a symbol leaf. -/
def leaf (m : SymbolMap) (s : Name) : Name :=
  match m s.name with
  | none => s
  | some r => ⟨r.name, Value.handedOn s.info r.info⟩

/-- What stops a substitution at a symbol leaf. -/
def infoFault? (m : SymbolMap) (s : Name) : Option Fault :=
  (m s.name).bind fun r => faultOf? (Value.inheritInfo s.info r.info)

/-- The leaf `u` is what `m` makes of the leaf `s`: the symbol that `m` has for
it, with the information of both.  A key that both have has the value that it
has in the replacement. -/
structure Replaces (m : SymbolMap) (s u : Name) : Prop where
  kept : m s.name = none → u = s
  name : ∀ r, m s.name = some r → u.name = r.name
  handed_on : ∀ r, m s.name = some r → r.info = none → Value.IsNote s.info →
    u.info = s.info
  brought_along : ∀ r, m s.name = some r → s.info = none → u.info = r.info
  merged : ∀ r es own, m s.name = some r → s.info = some (.mapping es) →
    r.info = some (.mapping own) → HasTextKeys es → HasTextKeys own →
    ∃ both, u.info = some (.mapping both) ∧ HasTextKeys both ∧
      ∀ key, field? key both = (field? key own).or (field? key es)

theorem leaf_of_none {s : Name} (h : m s.name = none) : m.leaf s = s := by
  rw [leaf, h]

theorem leaf_of_some {s r : Name} (h : m s.name = some r) :
    m.leaf s = ⟨r.name, Value.handedOn s.info r.info⟩ := by
  rw [leaf, h]

theorem name_leaf {s r : Name} (h : m s.name = some r) :
    (m.leaf s).name = r.name := by
  rw [leaf_of_some h]

theorem leaf_of_ok {s r : Name} {info : Option Value} (h : m s.name = some r)
    (hInfo : Value.inheritInfo s.info r.info = .ok info) :
    m.leaf s = ⟨r.name, info⟩ := by
  rw [leaf_of_some h, Value.handedOn_of_ok hInfo]

/-- A replacement without information takes over that of the leaf. -/
theorem leaf_of_plain {s r : Name} (h : m s.name = some r) (hPlain : r.info = none)
    (hInfo : Value.IsNote s.info) : m.leaf s = ⟨r.name, s.info⟩ := by
  refine leaf_of_ok h ?_
  rw [hPlain]
  rcases Value.isNote_cases hInfo with hs | ⟨es, hs, -⟩
  · rw [hs]
    rfl
  · rw [hs]
    rfl

theorem replaces_leaf (m : SymbolMap) (s : Name) : m.Replaces s (m.leaf s) where
  kept := leaf_of_none
  name _ h := name_leaf h
  handed_on _ h hPlain hInfo := by rw [leaf_of_plain h hPlain hInfo]
  brought_along r h hInfo := by rw [leaf_of_ok h (by rw [hInfo]; rfl)]
  merged r es own h hInfo hOwn hKeys hOwnKeys := by
    obtain ⟨both, hBoth, hBothKeys, hField⟩ :=
      Value.inheritInfo_mapping hKeys hOwnKeys (.inl hOwn)
    refine ⟨both, ?_, hBothKeys, hField⟩
    rw [leaf_of_ok h (hInfo ▸ hBoth)]

theorem infoFault?_eq_none_iff {s : Name} :
    m.infoFault? s = none ↔
      ∀ r, m s.name = some r → ∃ info, Value.inheritInfo s.info r.info = .ok info := by
  rw [infoFault?]
  cases m s.name with
  | none => exact iff_of_true rfl fun r h => nomatch h
  | some r =>
      rw [Option.bind_some, faultOf?_eq_none_iff]
      exact ⟨fun h r' hr => Option.some.inj hr ▸ h, fun h => h r rfl⟩

/-- Notes can be handed on, and what they become is a note. -/
theorem isNote_leaf (hMap : ∀ n r, m n = some r → Value.IsNote r.info) {s : Name}
    (hInfo : Value.IsNote s.info) :
    m.infoFault? s = none ∧ Value.IsNote (m.leaf s).info := by
  cases hm : m s.name with
  | none =>
      rw [infoFault?_eq_none_iff, leaf_of_none hm, hm]
      exact ⟨fun r h => (nomatch h), hInfo⟩
  | some r =>
      obtain ⟨info, hOk, hNote⟩ := hInfo.inheritInfo (hMap _ _ hm)
      rw [infoFault?_eq_none_iff, leaf_of_ok hm hOk, hm]
      exact ⟨fun r' hr => Option.some.inj hr ▸ ⟨info, hOk⟩, hNote⟩

/-! ## One map after the other -/

/-- The map that takes a symbol where `m` takes it and from there where `m'`
does. -/
def after (m' m : SymbolMap) : SymbolMap := fun name =>
  match m name with
  | none => m' name
  | some r => some ((m' r.name).getD r)

theorem name_leaf_after (m' m : SymbolMap) (s : Name) :
    (m'.leaf (m.leaf s)).name = ((m'.after m).leaf s).name := by
  cases hm : m s.name with
  | none =>
      rw [leaf_of_none hm]
      cases hm' : m' s.name with
      | none =>
          have hAfter : m'.after m s.name = none := by rw [after, hm, hm']
          rw [leaf_of_none hm', leaf_of_none hAfter]
      | some r' =>
          have hAfter : m'.after m s.name = some r' := by rw [after, hm, hm']
          rw [name_leaf hm', name_leaf hAfter]
  | some r =>
      have hAfter : m'.after m s.name = some ((m' r.name).getD r) := by rw [after, hm]
      rw [name_leaf hAfter]
      cases hm' : m' r.name with
      | none =>
          have hKept : m' (m.leaf s).name = none := by rw [name_leaf hm, hm']
          rw [leaf_of_none hKept, name_leaf hm, Option.getD_none]
      | some r' =>
          have hMoved : m' (m.leaf s).name = some r' := by rw [name_leaf hm, hm']
          rw [name_leaf hMoved, Option.getD_some]

/-- Where two maps, one after the other, hand information on, so does the one
that composes them. -/
theorem infoFault?_after {m' : SymbolMap} {s : Name} (h : m.infoFault? s = none)
    (h' : m'.infoFault? (m.leaf s) = none) : (m'.after m).infoFault? s = none := by
  rw [infoFault?_eq_none_iff] at h h' ⊢
  cases hm : m s.name with
  | none =>
      rw [leaf_of_none hm] at h'
      have hAfter : m'.after m s.name = m' s.name := by rw [after, hm]
      rwa [hAfter]
  | some r =>
      obtain ⟨info, hOk⟩ := h r hm
      rw [leaf_of_ok hm hOk] at h'
      have hAfter : m'.after m s.name = some ((m' r.name).getD r) := by rw [after, hm]
      rw [hAfter]
      rintro _ ⟨⟩
      cases hm' : m' r.name with
      | none => exact ⟨info, hOk⟩
      | some r' =>
          obtain ⟨info', hOk'⟩ := h' r' hm'
          exact Value.exists_inheritInfo_trans hOk hOk'

/-! ## One map against the other -/

/-- The map leads from what `m` replaces symbols by back to these symbols, and
from nowhere else. -/
structure Inverts (back m : SymbolMap) : Prop where
  back_to : ∀ n r, m n = some r → back r.name = some (Symbol.plain n)
  from_there : ∀ n k, back n = some k → ∃ r, m k.name = some r ∧ r.name = n

theorem Inverts.info_eq_none {back : SymbolMap} (h : back.Inverts m) {n : String} {k : Name}
    (hk : back n = some k) : k.info = none := by
  obtain ⟨r, hr, rfl⟩ := h.from_there n k hk
  rw [h.back_to _ r hr] at hk
  rw [← Option.some.inj hk]
  rfl

/-- No two symbols are replaced by the same one. -/
def IsInjective (m : SymbolMap) : Prop :=
  ∀ n n' r r', m n = some r → m n' = some r' → r.name = r'.name → n = n'

theorem exists_inverts (h : m.IsInjective) : ∃ back : SymbolMap, back.Inverts m := by
  classical
  refine ⟨fun n =>
    if hBack : ∃ k r, m k = some r ∧ r.name = n then some (Symbol.plain hBack.choose)
    else none, ?_, ?_⟩
  · intro n r hr
    have hBack : ∃ k r', m k = some r' ∧ r'.name = r.name := ⟨n, r, hr, rfl⟩
    obtain ⟨r', hr', hName⟩ := hBack.choose_spec
    simp only [dif_pos hBack, h _ _ _ _ hr' hr hName]
  · intro n k hk
    split at hk
    · rename_i hBack
      obtain ⟨r, hr, hName⟩ := hBack.choose_spec
      rw [← Option.some.inj hk]
      exact ⟨r, hr, hName⟩
    · cases hk

/-- A leaf comes back from a new name with the information that it had. -/
theorem leaf_leaf_of_inverts {back : SymbolMap} (h : back.Inverts m)
    (hPlain : ∀ n r, m n = some r → r.info = none) {s : Name}
    (hAbsent : ∀ n r, m n = some r → r.name ≠ s.name)
    (hInfo : Value.IsNote s.info) : back.leaf (m.leaf s) = s := by
  cases hm : m s.name with
  | none =>
      have hNone : back s.name = none := by
        refine Option.eq_none_iff_forall_ne_some.mpr fun k hk => ?_
        obtain ⟨r, hr, hName⟩ := h.from_there _ _ hk
        exact hAbsent _ _ hr hName
      rw [leaf_of_none hm, leaf_of_none hNone]
  | some r =>
      have hBack : back (⟨r.name, s.info⟩ : Name).name = some (Symbol.plain s.name) :=
        h.back_to s.name r hm
      rw [leaf_of_plain hm (hPlain _ _ hm) hInfo, leaf_of_plain hBack rfl hInfo]
      rfl

end SymbolMap

namespace Term

open SymbolMap

variable (m : SymbolMap) (t : Clause)

/-! ## A substitution, leaf by leaf -/

/-- The clause with its symbol leaves blanked out: what is left are its
composites with their classes and information, and its literals. -/
def holed (t : Clause) : Clause := t.mapSymbols fun _ => Symbol.plain placeholderName

private theorem substitute_leaf (s : Name) :
    substitute m.clauses (.sym s) = okUnless (m.infoFault? s) (.sym (m.leaf s)) := by
  rw [substitute, clauses, infoFault?]
  cases hm : m s.name with
  | none =>
      rw [leaf_of_none hm]
      rfl
  | some r =>
      rw [leaf_of_some hm, Option.map_some, Option.bind_some, Value.handedOn]
      dsimp only
      rw [inherit_sym]
      cases Value.inheritInfo s.info r.info <;> rfl

private theorem mapSymbols_id : t.mapSymbols id = t := by
  induction t using Term.induct with
  | hSym s => rw [mapSymbols_sym, id]
  | hSeq xs i ih => rw [mapSymbols_seq, List.map_congr_left ih, List.map_id']
  | hVec xs i ih => rw [mapSymbols_vec, List.map_congr_left ih, List.map_id']
  | hLit v i => rw [mapSymbols_lit]
  | hStray v => rw [mapSymbols_stray]

/-- A substitution applies one map to the symbol leaves, unless one of them
stops it. -/
theorem substitute_clauses :
    t.substitute m.clauses =
      okUnless (t.symbols.findSome? m.infoFault?) (t.mapSymbols m.leaf) :=
  substitute_eq_okUnless (substitute_leaf m) t

variable {m t}

theorem substitute_eq_ok_iff {u : Clause} :
    t.substitute m.clauses = .ok u ↔
      (∀ s ∈ t.symbols, m.infoFault? s = none) ∧ t.mapSymbols m.leaf = u := by
  rw [substitute_clauses, okUnless_eq_ok_iff, List.findSome?_eq_none_iff]

/-- Whatever is no symbol leaf is left as it is. -/
theorem holed_substitute {u : Clause} (h : t.substitute m.clauses = .ok u) :
    u.holed = t.holed := by
  rw [← (substitute_eq_ok_iff.mp h).2, holed, mapSymbols_mapSymbols]
  rfl

/-- The symbol leaves are replaced one by one, in place. -/
theorem symbols_substitute {u : Clause} (h : t.substitute m.clauses = .ok u) :
    u.symbols = t.symbols.map m.leaf := by
  rw [← (substitute_eq_ok_iff.mp h).2, symbols_mapSymbols]

/-- Notes are handed on, and the leaves have notes again. -/
theorem exists_substitute (hLeaves : ∀ s ∈ t.symbols, Value.IsNote s.info)
    (hMap : ∀ n r, m n = some r → Value.IsNote r.info) :
    ∃ u, t.substitute m.clauses = .ok u ∧ ∀ s ∈ u.symbols, Value.IsNote s.info := by
  refine ⟨_, substitute_eq_ok_iff.mpr
    ⟨fun s hs => (isNote_leaf hMap (hLeaves s hs)).1, rfl⟩, ?_⟩
  rw [symbols_mapSymbols]
  exact List.forall_mem_map.mpr fun s hs => (isNote_leaf hMap (hLeaves s hs)).2

/-! ## The walk -/

private theorem postwalk_replace_items {xs : List Clause}
    (h : ∀ x ∈ xs, postwalk m.replace x = x.substitute m.clauses) :
    postwalkAll m.replace xs = substituteAll m.clauses xs := by
  induction xs with
  | nil => rfl
  | cons x xs ih =>
      obtain ⟨hHead, hTail⟩ := List.forall_mem_cons.mp h
      rw [postwalkAll, substituteAll, hHead, ih hTail]

/-- The walk that replaces symbols is the substitution: a node that it leaves
alone has the information already that would be handed on to it. -/
theorem postwalk_replace : postwalk m.replace t = t.substitute m.clauses := by
  induction t using Term.induct with
  | hSym s =>
      rw [postwalk, replace, substitute, clauses]
      cases m s.name with
      | none => exact inherit_of_info?_eq (by simp) rfl
      | some r => rfl
  | hSeq xs i ih =>
      rw [postwalk, postwalk_replace_items ih, substitute]
      exact bind_congr fun rs => inherit_of_info?_eq (by simp) rfl
  | hVec xs i ih =>
      rw [postwalk, postwalk_replace_items ih, substitute]
      exact bind_congr fun rs => inherit_of_info?_eq (by simp) rfl
  | hLit v i =>
      rw [postwalk, substitute]
      exact inherit_of_info?_eq (by simp) rfl
  | hStray v => rfl

/-! ## Two substitutions -/

/-- Maps of leaves that agree on names agree up to display information. -/
theorem bare_mapSymbols_congr (t : Clause) {g g' : Name → Name} (h : ∀ s, (g s).name = (g' s).name) :
    (t.mapSymbols g).bare = (t.mapSymbols g').bare := by
  induction t using Term.induct with
  | hSym s => rw [mapSymbols_sym, mapSymbols_sym, bare, bare, h]
  | hSeq xs i ih =>
      rw [mapSymbols_seq, mapSymbols_seq, bare, bare, bareAll_eq_map, bareAll_eq_map,
        List.map_map, List.map_map]
      exact congrArg (Term.seq · none) (List.map_congr_left ih)
  | hVec xs i ih =>
      rw [mapSymbols_vec, mapSymbols_vec, bare, bare, bareAll_eq_map, bareAll_eq_map,
        List.map_map, List.map_map]
      exact congrArg (Term.vec · none) (List.map_congr_left ih)
  | hLit v i => rw [mapSymbols_lit, mapSymbols_lit]
  | hStray v => rw [mapSymbols_stray, mapSymbols_stray]

/-- A map of leaves leaves the values of literals alone. -/
theorem Alike.mapSymbols_self {R : Value → Value → Prop} (h : t.Alike R t)
    (g : Name → Name) : (t.mapSymbols g).Alike R (t.mapSymbols g) := by
  induction t using Term.induct with
  | hSym s => rw [mapSymbols_sym]; exact .sym rfl
  | hSeq xs i ih =>
      have hItems := List.forall₂_same.mp (alike_seq_iff.mp h)
      rw [mapSymbols_seq]
      exact .seq (List.forall₂_same.mpr
        (List.forall_mem_map.mpr fun x hx => ih x hx (hItems x hx)))
  | hVec xs i ih =>
      have hItems := List.forall₂_same.mp (alike_vec_iff.mp h)
      rw [mapSymbols_vec]
      exact .vec (List.forall₂_same.mpr
        (List.forall_mem_map.mpr fun x hx => ih x hx (hItems x hx)))
  | hLit v i => rw [mapSymbols_lit]; exact h
  | hStray v => rw [mapSymbols_stray]; exact h

/-- Two substitutions, one after the other, are one. -/
theorem exists_substitute_after {m' : SymbolMap} {u u' : Clause}
    (h : t.substitute m.clauses = .ok u) (h' : u.substitute m'.clauses = .ok u') :
    ∃ w, t.substitute (m'.after m).clauses = .ok w ∧ u'.bare = w.bare := by
  obtain ⟨hFaults, rfl⟩ := substitute_eq_ok_iff.mp h
  obtain ⟨hFaults', rfl⟩ := substitute_eq_ok_iff.mp h'
  rw [symbols_mapSymbols, List.forall_mem_map] at hFaults'
  refine ⟨_, substitute_eq_ok_iff.mpr
    ⟨fun s hs => infoFault?_after (hFaults s hs) (hFaults' s hs), rfl⟩, ?_⟩
  rw [mapSymbols_mapSymbols]
  exact bare_mapSymbols_congr t (name_leaf_after m' m)

/-- What a substitution makes of a clause that equals itself, that is, whose
literals hold no nan, equals whatever differs from it in display information
only. -/
theorem same_of_bare_eq_substitute (h : Value.sameTerm t t = true) {u w : Clause}
    (hw : t.substitute m.clauses = .ok w) (hBare : u.bare = w.bare) :
    Value.sameTerm u w = true := by
  obtain ⟨-, rfl⟩ := substitute_eq_ok_iff.mp hw
  have hSelf := ((Value.sameTerm_iff t t).mp h).mapSymbols_self m.leaf
  rw [Value.sameTerm_iff]
  exact (alike_of_bare_eq hBare).imp_self (fun v w hEq hw => hEq ▸ hw) hSelf

/-! ## There and back -/

/-- A renaming to names that the clause does not have is undone by the map that
leads back, display information included. -/
theorem substitute_inverts {back : SymbolMap} (h : back.Inverts m)
    (hPlain : ∀ n r, m n = some r → r.info = none)
    (hAbsent : ∀ n r, m n = some r → r.name ∉ t.symbols.map Symbol.name)
    (hInfo : ∀ s ∈ t.symbols, Value.IsNote s.info) :
    ∃ u, t.substitute m.clauses = .ok u ∧ u.substitute back.clauses = .ok t := by
  obtain ⟨u, hu, hNotes⟩ := exists_substitute hInfo fun n r hr => by
    rw [hPlain n r hr]
    exact Value.isNote_none
  obtain ⟨w, hw, -⟩ := exists_substitute (m := back) hNotes fun n k hk => by
    rw [h.info_eq_none hk]
    exact Value.isNote_none
  refine ⟨u, hu, hw.trans (congrArg Except.ok ?_)⟩
  obtain ⟨-, rfl⟩ := substitute_eq_ok_iff.mp hu
  obtain ⟨-, rfl⟩ := substitute_eq_ok_iff.mp hw
  have hEach : ∀ s ∈ t.symbols, (back.leaf ∘ m.leaf) s = id s := fun s hs =>
    leaf_leaf_of_inverts h hPlain
      (fun n r hr hEq => hAbsent n r hr (hEq ▸ List.mem_map_of_mem hs)) (hInfo s hs)
  rw [mapSymbols_mapSymbols, mapSymbols_congr hEach, mapSymbols_id]

/-! ## One substitution -/

/-- A substitution replaces all symbols at once and changes nothing else: beside
the symbol leaves the clause stays as it is, and each leaf is looked up once.
It is the outcome of the walk with a stack that replaces symbols, and it goes
through wherever symbols have entries for their information.  Two substitutions
are one by the map that composes theirs, and a renaming to new names is
undone. -/
theorem substitute_simultaneous (m : SymbolMap) (t : Clause) :
    (t.stackWalk m.replace).map Prod.fst = t.substitute m.clauses ∧
    ((∀ s ∈ t.symbols, Value.IsNote s.info) →
      (∀ n r, m n = some r → Value.IsNote r.info) →
      ∃ u, t.substitute m.clauses = .ok u ∧ ∀ s ∈ u.symbols, Value.IsNote s.info) ∧
    (∀ u, t.substitute m.clauses = .ok u →
      u.holed = t.holed ∧
      List.Forall₂ m.Replaces t.symbols u.symbols ∧
      ∀ (m' : SymbolMap) (u' : Clause), u.substitute m'.clauses = .ok u' →
        ∃ w, t.substitute (m'.after m).clauses = .ok w ∧ u'.bare = w.bare ∧
          (Value.sameTerm t t = true → Value.sameTerm u' w = true)) ∧
    (m.IsInjective →
      (∀ n r, m n = some r → r.info = none ∧ r.name ∉ t.symbols.map Symbol.name) →
      (∀ s ∈ t.symbols, Value.IsNote s.info) →
      ∃ (back : SymbolMap) (u : Clause), back.Inverts m ∧
        t.substitute m.clauses = .ok u ∧ u.substitute back.clauses = .ok t) := by
  refine ⟨?_, exists_substitute, fun u hu => ⟨holed_substitute hu, ?_, fun m' u' hu' => ?_⟩,
    fun hInjective hNew hNotes => ?_⟩
  · rw [map_fst_stackWalk, postwalk_replace]
  · rw [symbols_substitute hu, List.forall₂_map_right_iff]
    exact List.forall₂_same.mpr fun s _ => replaces_leaf m s
  · obtain ⟨w, hw, hBare⟩ := exists_substitute_after hu hu'
    exact ⟨w, hw, hBare, fun h => same_of_bare_eq_substitute h hw hBare⟩
  · obtain ⟨back, hBack⟩ := exists_inverts hInjective
    obtain ⟨u, hu, hUndone⟩ := substitute_inverts hBack (fun n r hr => (hNew n r hr).1)
      (fun n r hr => (hNew n r hr).2) hNotes
    exact ⟨back, u, hBack, hu, hUndone⟩

/-- A test that one year is before another, which is noted on a line. -/
def yearsInOrder : Clause :=
  .vector [.sequence [.named "<", .sym ⟨"?x", some (.mapping [(.text "line", .int 4)])⟩,
    .named "?y"]]

/-- New names for both years. -/
def newYears : SymbolMap
  | "?x" => some (Symbol.plain "?a")
  | "?y" => some (Symbol.plain "?b")
  | _ => none

/-- Each of the new names for the other one. -/
def exchanged : SymbolMap
  | "?a" => some (Symbol.plain "?b")
  | "?b" => some (Symbol.plain "?a")
  | _ => none

private theorem newYears_cases {n : String} {r : Name} (h : newYears n = some r) :
    n = "?x" ∧ r = Symbol.plain "?a" ∨ n = "?y" ∧ r = Symbol.plain "?b" := by
  unfold newYears at h
  split at h <;> simp_all

private theorem isInjective_newYears : newYears.IsInjective := by
  intro n n' r r' h h' hName
  obtain ⟨rfl, rfl⟩ | ⟨rfl, rfl⟩ := newYears_cases h <;>
    obtain ⟨rfl, rfl⟩ | ⟨rfl, rfl⟩ := newYears_cases h'
  · rfl
  · exact absurd hName (by decide)
  · exact absurd hName (by decide)
  · rfl

private theorem newYears_new {n : String} {r : Name} (h : newYears n = some r) :
    r.info = none ∧ r.name ∉ yearsInOrder.symbols.map Symbol.name := by
  obtain ⟨rfl, rfl⟩ | ⟨rfl, rfl⟩ := newYears_cases h
  · exact ⟨rfl, by decide⟩
  · exact ⟨rfl, by decide⟩

private theorem isNote_exchanged {n : String} {r : Name} (h : exchanged n = some r) :
    Value.IsNote r.info := by
  unfold exchanged at h
  split at h
  · exact Option.some.inj h ▸ Value.isNote_none
  · exact Option.some.inj h ▸ Value.isNote_none
  · cases h

theorem substitute_simultaneous_exchanged :
    ((∀ s ∈ yearsInOrder.symbols, Value.IsNote s.info) ∧
      (∀ n r, newYears n = some r → Value.IsNote r.info) ∧
      Value.sameTerm yearsInOrder yearsInOrder = true ∧ newYears.IsInjective ∧
      ∀ n r, newYears n = some r →
        r.info = none ∧ r.name ∉ yearsInOrder.symbols.map Symbol.name) ∧
    ∃ u u' w, yearsInOrder.substitute newYears.clauses = .ok u ∧
      u.substitute exchanged.clauses = .ok u' ∧
      yearsInOrder.substitute (exchanged.after newYears).clauses = .ok w ∧
      Value.sameTerm u' w = true ∧
      ∃ back : SymbolMap, back.Inverts newYears ∧
        u.substitute back.clauses = .ok yearsInOrder := by
  have hLine : Value.IsNote (some (.mapping [(.text "line", .int 4)])) :=
    Value.isNote_mapping
      (Value.hasTextKeys_cons_iff.mpr ⟨List.not_mem_nil, Value.hasTextKeys_nil⟩)
  have hLeaves : ∀ s ∈ yearsInOrder.symbols, Value.IsNote s.info := by
    simp [yearsInOrder, vector, sequence, named, Symbol.plain, hLine, Value.isNote_none]
  have hSelf : Value.sameTerm yearsInOrder yearsInOrder = true := by
    simp [yearsInOrder, vector, sequence, named, Value.sameTerm, Value.sameTerms]
  have hMap : ∀ n r, newYears n = some r → Value.IsNote r.info := by
    intro n r h
    rw [(newYears_new h).1]
    exact Value.isNote_none
  obtain ⟨-, hGoes, hEach, hUndo⟩ := substitute_simultaneous newYears yearsInOrder
  obtain ⟨back, u, hBack, hu, hUndone⟩ :=
    hUndo isInjective_newYears (fun _ _ => newYears_new) hLeaves
  obtain ⟨u₁, hu₁, hNotes⟩ := hGoes hLeaves hMap
  obtain rfl : u = u₁ := Except.ok.inj (hu.symm.trans hu₁)
  obtain ⟨u', hu', -⟩ := exists_substitute hNotes fun _ _ => isNote_exchanged
  obtain ⟨w, hw, -, hSame⟩ := (hEach u hu).2.2 exchanged u' hu'
  exact ⟨⟨hLeaves, hMap, hSelf, isInjective_newYears, fun _ _ => newYears_new⟩, u, u', w, hu,
    hu', hw, hSame hSelf, back, hBack, hUndone⟩

end Term

end DatalogFragments
