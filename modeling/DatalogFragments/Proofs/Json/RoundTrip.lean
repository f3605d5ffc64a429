import DatalogFragments.Proofs.Json.Scalars
import DatalogFragments.Proofs.Listing
import DatalogFragments.Proofs.Value.KeyOrder

/-!
# Plain data in JSON text

What is written for a value ends where the value ends: in front of anything that
may stand behind a value, the reader takes exactly the written text.  For lists
and mappings this follows from what holds of their parts.  Entries are written in
the order of their keys, so a mapping is read back with its entries in another
order, and everything in it likewise.

## Main definitions

* `Json.Reads`, `Json.ReadsEntry` — texts that are read as a value or an entry;
* `Json.Survives` — values that are read back from their texts.

## Main results

* `Json.Reads.list`, `Json.Reads.mapping` — texts of lists and mappings;
* `Json.survives_of_plain` — what is written for data;
* `Json.read_json_keySorted` — data is read back with its entries in the order
  of their keys;
* `Json.read_json` — data is read back up to the order of entries.
-/

namespace DatalogFragments

namespace Json

/-- The reader takes exactly the text, in front of anything that may stand behind
a value, and returns the value. -/
structure Reads (cs : List Char) (y : Value) : Prop where
  starts : ∃ c tail, cs = c :: tail ∧ c ≠ ']' ∧ ∀ rest, skipBlanks (c :: rest) = c :: rest
  read : ∀ fuel rest, cs.length ≤ fuel → Ends rest →
    readValue fuel (cs ++ rest) = .ok (y, rest)

section Start

variable {cs rest : List Char} {y : Value}

theorem Reads.skipBlanks_eq (h : Reads cs y) (rest : List Char) :
    skipBlanks (cs ++ rest) = cs ++ rest := by
  obtain ⟨c, tail, rfl, -, hBlank⟩ := h.starts
  exact hBlank (tail ++ rest)

/-- A text that starts like no text, list or mapping is read as a word or number. -/
private theorem readValue_atom {c : Char} (fuel : Nat) (hQuote : c ≠ '"') (hList : c ≠ '[')
    (hMapping : c ≠ '\x7b') (cs : List Char) :
    readValue (fuel + 1) (c :: cs) = readAtom (c :: cs) := by
  rw [readValue]
  all_goals
    rintro tail ⟨⟩
    contradiction

end Start

/-! ## Constants -/

/-- A character that starts a word or a number. -/
def StartsAtom (c : Char) : Prop :=
  c ∉ ['"', '[', '\x7b', ']', ' ', '\t', '\n', '\r']

private theorem skipBlanks_cons {c : Char} (h : c ∉ [' ', '\t', '\n', '\r'])
    (rest : List Char) : skipBlanks (c :: rest) = c :: rest := by
  simp only [List.mem_cons, List.not_mem_nil, or_false, not_or] at h
  rw [skipBlanks, List.dropWhile_cons_of_neg]
  simp [h]

/-- A word or number that ends with its text. -/
theorem Reads.atom {c : Char} {tail : List Char} {y : Value} (hc : StartsAtom c)
    (h : ∀ rest, Ends rest → readAtom (c :: tail ++ rest) = .ok (y, rest)) :
    Reads (c :: tail) y := by
  simp only [StartsAtom, List.mem_cons, List.not_mem_nil, or_false, not_or] at hc
  refine ⟨⟨c, tail, rfl, hc.2.2.2.1, skipBlanks_cons (by simp [hc])⟩, ?_⟩
  intro fuel rest hFuel hRest
  obtain ⟨fuel, rfl⟩ := Nat.exists_eq_add_one.mpr (Nat.zero_lt_of_lt hFuel)
  rw [List.cons_append, readValue_atom fuel hc.1 hc.2.1 hc.2.2.1]
  exact h rest hRest

theorem Reads.null : Reads "null".toList .null :=
  .atom (show StartsAtom 'n' by simp [StartsAtom]) fun _ _ => rfl

theorem Reads.bool (b : Bool) :
    Reads (if b then "true" else "false" : String).toList (.bool b) := by
  cases b with
  | false => exact .atom (show StartsAtom 'f' by simp [StartsAtom]) fun _ _ => rfl
  | true => exact .atom (show StartsAtom 't' by simp [StartsAtom]) fun _ _ => rfl

private theorem startsAtom_of_isDigit {c : Char} (hc : c.isDigit = true) :
    StartsAtom c := by
  intro hMem
  simp only [List.mem_cons, List.not_mem_nil, or_false] at hMem
  rcases hMem with rfl | rfl | rfl | rfl | rfl | rfl | rfl | rfl <;>
    exact absurd hc (by decide)

theorem Reads.int (i : Int) : Reads (intText i).toList (.int i) := by
  have hRead := fun (rest : List Char) (hRest : Ends rest) => readAtom_intText hRest i
  obtain ⟨c, cs, hDigits, hc⟩ := exists_digitsOf_eq_cons i.natAbs
  rw [intText, hDigits] at hRead ⊢
  by_cases hNegative : i < 0
  · rw [if_pos hNegative, String.toList_ofList] at hRead ⊢
    exact .atom (by simp [StartsAtom]) hRead
  · rw [if_neg hNegative, String.toList_ofList] at hRead ⊢
    exact .atom (startsAtom_of_isDigit hc) hRead

theorem Reads.text (s : String) : Reads (quoted s).toList (.text s) := by
  rw [quoted, String.toList_ofList]
  refine ⟨⟨'"', _, rfl, by decide, skipBlanks_cons (by decide)⟩, ?_⟩
  intro fuel rest hFuel _
  obtain ⟨fuel, rfl⟩ := Nat.exists_eq_add_one.mpr (Nat.zero_lt_of_lt hFuel)
  rw [List.cons_append, List.append_assoc, List.singleton_append, readValue,
    readText_escaped]
  rfl

/-! ## Lists -/

/-- Parts with separators between them. -/
def separated (css : List (List Char)) : List Char := [',', ' '].intercalate css

theorem separated_singleton (cs : List Char) : separated [cs] = cs :=
  List.intercalate_singleton

theorem separated_cons_cons (cs ds : List Char) (css : List (List Char)) :
    separated (cs :: ds :: css) = cs ++ ',' :: ' ' :: separated (ds :: css) := by
  rw [separated, List.intercalate_cons_cons, List.append_assoc]
  rfl

theorem exists_separated_cons_eq (cs : List Char) (css : List (List Char)) :
    ∃ tail, separated (cs :: css) = cs ++ tail := by
  cases css with
  | nil => exact ⟨[], by rw [separated_singleton, List.append_nil]⟩
  | cons ds css => exact ⟨_, separated_cons_cons cs ds css⟩

/-- A reader of parts: a step takes one part; the closing mark behind it is the end,
and behind a separator the reader goes on. -/
structure ReadsParts {α : Type} (Part : List Char → α → Prop) (closing : Char)
    (reader : Nat → List Char → Except Fault (List α × List Char)) : Prop where
  starts : ∀ {cs a}, Part cs a → ∀ rest, skipBlanks (cs ++ rest) = cs ++ rest
  last : ∀ {cs a fuel rest}, Part cs a → cs.length ≤ fuel →
    reader (fuel + 1) (cs ++ closing :: rest) = .ok ([a], rest)
  more : ∀ {cs a fuel more as rest}, Part cs a → cs.length ≤ fuel →
    skipBlanks more = more → reader fuel more = .ok (as, rest) →
    reader (fuel + 1) (cs ++ ',' :: ' ' :: more) = .ok (a :: as, rest)

/-- Parts with separators are read up to the closing mark. -/
theorem ReadsParts.read {α : Type} {Part : List Char → α → Prop} {closing : Char}
    {reader : Nat → List Char → Except Fault (List α × List Char)}
    (hReader : ReadsParts Part closing reader) {css : List (List Char)} {as : List α}
    (h : List.Forall₂ Part css as) (hNonempty : as ≠ []) {fuel : Nat}
    (hFuel : (separated css).length < fuel) (rest : List Char) :
    reader fuel (separated css ++ closing :: rest) = .ok (as, rest) := by
  induction h generalizing fuel with
  | nil => exact absurd rfl hNonempty
  | @cons cs a css as hcs hRest ih =>
      obtain ⟨fuel, rfl⟩ := Nat.exists_eq_add_one.mpr (Nat.zero_lt_of_lt hFuel)
      cases hRest with
      | nil =>
          rw [separated_singleton] at hFuel ⊢
          exact hReader.last hcs (Nat.le_of_lt_succ hFuel)
      | @cons ds b css as hds _ =>
          rw [separated_cons_cons, List.length_append, List.length_cons,
            List.length_cons] at hFuel
          have hLeft : (separated (ds :: css)).length < fuel := by omega
          have hMore := ih (List.cons_ne_nil b as) hLeft
          obtain ⟨tail, hTail⟩ := exists_separated_cons_eq ds css
          have hBlank : skipBlanks (separated (ds :: css) ++ closing :: rest) =
              separated (ds :: css) ++ closing :: rest := by
            rw [hTail, List.append_assoc, hReader.starts hds]
          rw [separated_cons_cons, List.append_assoc]
          exact hReader.more hcs (by omega) hBlank hMore

private theorem ends_separator (cs : List Char) : Ends (',' :: cs) := by
  rintro c ⟨⟩
  exact .inl rfl

section Lists

/-- Items are read one by one up to the closing bracket. -/
private theorem readItems_parts : ReadsParts Reads ']' readItems where
  starts h rest := h.skipBlanks_eq rest
  last {_ _ fuel rest} h hFuel := by
    have hEnds : Ends (']' :: rest) := by
      rintro c ⟨⟩
      exact .inr (.inl rfl)
    rw [readItems, h.read fuel _ hFuel hEnds, ok_bind]
    rfl
  more {_ _ fuel more _ _} h hFuel hMore hRest := by
    have hBlank : skipBlanks (' ' :: more) = more := hMore
    have hComma : skipBlanks (',' :: ' ' :: more) = ',' :: ' ' :: more := rfl
    rw [readItems, h.read fuel _ hFuel (ends_separator _), ok_bind]
    simp only [hComma, hBlank, hRest]
    rfl

theorem Reads.list {css : List (List Char)} {ys : List Value}
    (h : List.Forall₂ Reads css ys) :
    Reads ('[' :: (separated css ++ [']'])) (.list ys) := by
  refine ⟨⟨'[', _, rfl, by decide, skipBlanks_cons (by decide)⟩, ?_⟩
  intro fuel rest hFuel _
  rw [List.length_cons, List.length_append, List.length_singleton] at hFuel
  obtain ⟨fuel, rfl⟩ := Nat.exists_eq_add_one.mpr (Nat.zero_lt_of_lt hFuel)
  rw [List.cons_append, List.append_assoc, List.singleton_append]
  cases h with
  | nil => rfl
  | @cons cs y css ys hcs hRest =>
      have hInner : (separated (cs :: css)).length < fuel := by omega
      have hItems := readItems_parts.read (.cons hcs hRest) (List.cons_ne_nil y ys)
        hInner rest
      obtain ⟨tail, hTail⟩ := exists_separated_cons_eq cs css
      obtain ⟨c, more, rfl, hBracket, hBlank⟩ := hcs.starts
      rw [hTail] at hItems ⊢
      rw [List.cons_append, List.cons_append] at hItems ⊢
      rw [readValue]
      dsimp only
      rw [hBlank]
      split
      · rename_i hEq
        cases hEq
        exact absurd rfl hBracket
      · rw [hItems]
        rfl

end Lists

/-! ## Mappings -/

/-- The text of an entry: a key, a mark, and a text that is read as the value. -/
def ReadsEntry (cs : List Char) (e : Value × Value) : Prop :=
  ∃ key vs, cs = (quoted key).toList ++ ':' :: ' ' :: vs ∧ e.1 = .text key ∧ Reads vs e.2

section Mappings

variable {cs rest : List Char} {e : Value × Value} {fuel : Nat}

/-- One step reads an entry and goes on by the mark behind it. -/
private theorem readEntries_step (h : ReadsEntry cs e) (hFuel : cs.length ≤ fuel)
    (hRest : Ends rest) :
    readEntries (fuel + 1) (cs ++ rest) =
      match skipBlanks rest with
      | '\x7d' :: tail => .ok ([e], tail)
      | ',' :: tail => do
        let (entries, tail) ← readEntries fuel (skipBlanks tail)
        return (e :: entries, tail)
      | _ => malformed := by
  obtain ⟨key, vs, rfl, hKey, hValue⟩ := h
  obtain ⟨k, v⟩ := e
  obtain rfl : k = .text key := hKey
  have hColon : skipBlanks (':' :: ' ' :: (vs ++ rest)) = ':' :: ' ' :: (vs ++ rest) := rfl
  have hBlank : skipBlanks (' ' :: (vs ++ rest)) = vs ++ rest :=
    hValue.skipBlanks_eq rest
  rw [List.length_append, List.length_cons, List.length_cons] at hFuel
  have hRead := hValue.read fuel rest (by omega) hRest
  rw [quoted, String.toList_ofList]
  simp only [List.cons_append, List.append_assoc, List.nil_append]
  rw [readEntries, readText_escaped, ok_bind]
  simp only [hColon, hBlank, hRead]
  rfl

private theorem ReadsEntry.starts (h : ReadsEntry cs e) : ∃ tail, cs = '"' :: tail := by
  obtain ⟨key, vs, rfl, -, -⟩ := h
  rw [quoted, String.toList_ofList]
  exact ⟨_, rfl⟩

/-- Entries are read one by one up to the closing brace. -/
private theorem readEntries_parts : ReadsParts ReadsEntry '\x7d' readEntries where
  starts h rest := by
    obtain ⟨tail, rfl⟩ := h.starts
    rfl
  last {_ _ fuel rest} h hFuel := by
    have hEnds : Ends ('\x7d' :: rest) := by
      rintro c ⟨⟩
      exact .inr (.inr rfl)
    rw [readEntries_step h hFuel hEnds]
    rfl
  more {_ _ fuel more _ _} h hFuel hMore hRest := by
    have hBlank : skipBlanks (' ' :: more) = more := hMore
    have hComma : skipBlanks (',' :: ' ' :: more) = ',' :: ' ' :: more := rfl
    rw [readEntries_step h hFuel (ends_separator _)]
    simp only [hComma, hBlank, hRest]
    rfl

theorem Reads.mapping {css : List (List Char)} {es : Entries}
    (h : List.Forall₂ ReadsEntry css es) (hKeys : Value.entriesOf es = es) :
    Reads ('\x7b' :: (separated css ++ ['\x7d'])) (.mapping es) := by
  refine ⟨⟨'\x7b', _, rfl, by decide, skipBlanks_cons (by decide)⟩, ?_⟩
  intro fuel rest hFuel _
  rw [List.length_cons, List.length_append, List.length_singleton] at hFuel
  obtain ⟨fuel, rfl⟩ := Nat.exists_eq_add_one.mpr (Nat.zero_lt_of_lt hFuel)
  rw [List.cons_append, List.append_assoc, List.singleton_append]
  cases h with
  | nil => rfl
  | @cons cs e css es hcs hRest =>
      have hInner : (separated (cs :: css)).length < fuel := by omega
      have hEntries := readEntries_parts.read (.cons hcs hRest) (List.cons_ne_nil e es)
        hInner rest
      obtain ⟨tail, hTail⟩ := exists_separated_cons_eq cs css
      obtain ⟨more, rfl⟩ := hcs.starts
      have hBlank : skipBlanks ('"' :: (more ++ (tail ++ '\x7d' :: rest))) =
          '"' :: (more ++ (tail ++ '\x7d' :: rest)) := rfl
      rw [hTail, List.append_assoc, List.cons_append] at hEntries ⊢
      rw [readValue]
      dsimp only
      rw [hBlank]
      split
      · rename_i hEq
        cases hEq
      · rw [hEntries, ok_bind]
        dsimp only
        rw [hKeys]
        rfl

end Mappings

end Json

/-! ## Entries in the order of their keys -/

namespace Value

/-- Texts have an order. -/
private theorem areOrdered_of_texts {keys : List Value}
    (h : ∀ k ∈ keys, ∃ key, k = .text key) : areOrdered keys = true := by
  induction keys with
  | nil => rfl
  | cons k keys ih =>
      obtain ⟨⟨key, rfl⟩, hTail⟩ := List.forall_mem_cons.mp h
      rw [areOrdered, ih hTail, Bool.and_true, List.all_eq_true]
      intro l hl
      obtain ⟨key', rfl⟩ := hTail l hl
      rw [below?]
      rfl

end Value

namespace Json

private theorem below?_text (s t : String) :
    (!((Value.below? (.text t) (.text s)).getD false)) = decide (s ≤ t) := by
  rw [Value.below?, Option.getD_some, ← decide_not]
  exact decide_eq_decide.mpr not_lt

/-- What is written for entries under text keys is a rearrangement of it, in the
order of the keys. -/
private theorem inOrder_eq_ok {ws : List (Value × String)} {keys : List String}
    (h : ws.map Prod.fst = keys.map Value.text) :
    ∃ sorted : List (Value × String), inOrder ws = .ok (sorted.map Prod.snd) ∧
      sorted.Perm ws ∧ sorted.map Prod.fst = (sortTexts keys).map Value.text := by
  have hOrdered : Value.areOrdered (ws.map Prod.fst) = true := by
    refine Value.areOrdered_of_texts fun k hk => ?_
    rw [h] at hk
    obtain ⟨key, -, rfl⟩ := List.mem_map.mp hk
    exact ⟨key, rfl⟩
  rw [inOrder, Value.sortedByKey?, if_pos hOrdered]
  refine ⟨_, rfl, List.mergeSort_perm _ _, ?_⟩
  rw [List.map_mergeSort (s := fun k l => !((Value.below? l k).getD false))
      fun _ _ _ _ => rfl, h, sortTexts, List.map_mergeSort]
  exact fun s _ t _ => (below?_text s t).symm

/-! ## Data -/

/-- The value has a text, which is read as the value with its entries in the order
of their keys. -/
def Survives (x : Value) : Prop :=
  ∃ text y, x.json = .ok text ∧ Reads text.toList y ∧ x.Reordered y ∧ y.KeySorted

private theorem jsonAll_eq_mapM (xs : List Value) : Value.jsonAll xs = xs.mapM Value.json := by
  induction xs with
  | nil => rfl
  | cons x xs ih => rw [Value.jsonAll, ih, List.mapM_cons]

private theorem toList_bracketed (opening closing : String) (texts : List String) :
    (bracketed opening closing texts).toList =
      opening.toList ++ (separated (texts.map String.toList) ++ closing.toList) := by
  rw [bracketed, joinTexts, String.toList_append, String.toList_append,
    String.toList_intercalate, List.append_assoc]
  rfl

private theorem Survives.list {xs : List Value} (h : ∀ x ∈ xs, Survives x) :
    Survives (.list xs) := by
  obtain ⟨texts, ys, hTexts, hReads, hReordered, hSorted⟩ : ∃ texts ys,
      xs.mapM Value.json = .ok texts ∧
      List.Forall₂ Reads (texts.map String.toList) ys ∧
      List.Forall₂ Value.Reordered xs ys ∧ ∀ y ∈ ys, y.KeySorted := by
    induction xs with
    | nil => exact ⟨[], [], rfl, .nil, .nil, fun _ hy => absurd hy List.not_mem_nil⟩
    | cons x xs ih =>
        obtain ⟨⟨text, y, hText, hRead, hxy, hy⟩, hTail⟩ := List.forall_mem_cons.mp h
        obtain ⟨texts, ys, hTexts, hReads, hReordered, hSorted⟩ := ih hTail
        exact ⟨text :: texts, y :: ys,
          mapM_eq_ok_iff.mpr (.cons hText (mapM_eq_ok_iff.mp hTexts)),
          .cons hRead hReads, .cons hxy hReordered, List.forall_mem_cons.mpr ⟨hy, hSorted⟩⟩
  refine ⟨bracketed "[" "]" texts, .list ys, ?_, ?_, .list hReordered, .list hSorted⟩
  · rw [Value.json, jsonAll_eq_mapM, hTexts]
    rfl
  · rw [toList_bracketed]
    exact Reads.list hReads

/-- The text of an entry, with a value that it is read as. -/
private theorem exists_jsonEntries {es : Entries}
    (hKeys : ∀ e ∈ es, ∃ key, e.1 = .text key) (h : ∀ e ∈ es, Survives e.2) :
    ∃ ws, Value.jsonEntries es = .ok ws ∧ List.Forall₂ (fun e w => w.1 = e.1 ∧
      ∃ y, ReadsEntry w.2.toList (w.1, y) ∧ e.2.Reordered y ∧ y.KeySorted) es ws := by
  induction es with
  | nil => exact ⟨[], rfl, .nil⟩
  | cons e es ih =>
      obtain ⟨k, v⟩ := e
      obtain ⟨⟨text, y, hText, hRead, hvy, hSorted⟩, hTail⟩ := List.forall_mem_cons.mp h
      obtain ⟨⟨key, hKey⟩, hTailKeys⟩ := List.forall_mem_cons.mp hKeys
      obtain ⟨ws, hws, hEach⟩ := ih hTailKeys hTail
      obtain rfl : k = .text key := hKey
      refine ⟨(.text key, quoted key ++ ": " ++ text) :: ws, ?_,
        .cons ⟨rfl, y, ⟨key, text.toList, ?_, rfl, hRead⟩, hvy, hSorted⟩ hEach⟩
      · rw [Value.jsonEntries, keyText, hText, hws]
        rfl
      · rw [String.toList_append, String.toList_append, List.append_assoc]
        rfl

/-- The keys of a mapping as texts. -/
private theorem exists_keyTexts {es : Entries} (h : ∀ e ∈ es, ∃ key, e.1 = .text key) :
    ∃ keys : List String, es.map Prod.fst = keys.map Value.text := by
  induction es with
  | nil => exact ⟨[], rfl⟩
  | cons e es ih =>
      obtain ⟨⟨key, hKey⟩, hTail⟩ := List.forall_mem_cons.mp h
      obtain ⟨keys, hKeys⟩ := ih hTail
      exact ⟨key :: keys, by rw [List.map_cons, List.map_cons, hKey, hKeys]⟩

private theorem Survives.mapping {es : Entries} (hKeys : Value.HasTextKeys es)
    (h : ∀ e ∈ es, Survives e.2) : Survives (.mapping es) := by
  obtain ⟨ws, hws, hEach⟩ := exists_jsonEntries hKeys.texts h
  obtain ⟨keys, hTexts⟩ := exists_keyTexts hKeys.texts
  have hNames : ws.map Prod.fst = es.map Prod.fst :=
    (map_eq_of_forall₂ hEach fun _ _ _ hew => hew.1.symm).symm
  obtain ⟨sorted, hSorted, hPerm, hAscend⟩ := inOrder_eq_ok (hNames.trans hTexts)
  -- Every entry, in the order in which they are written, is read as some value.
  obtain ⟨fs, hfs⟩ : ∃ fs : Entries, List.Forall₂ (fun w f => f.1 = w.1 ∧
      ReadsEntry w.2.toList f ∧ f.2.KeySorted ∧
      ∃ v, (f.1, v) ∈ es ∧ v.Reordered f.2) sorted fs := by
    refine exists_forall₂_of_mem fun w hw => ?_
    obtain ⟨e, he, hKey, y, hRead, hey, hy⟩ := exists_of_forall₂_right hEach (hPerm.subset hw)
    exact ⟨(w.1, y), rfl, hRead, hy, e.2, hKey ▸ he, hey⟩
  have hFst : sorted.map Prod.fst = fs.map Prod.fst :=
    map_eq_of_forall₂ hfs fun _ _ _ hwf => hwf.1.symm
  have hOrder : (es.map Prod.fst).Perm (fs.map Prod.fst) := by
    rw [← hFst, ← hNames]
    exact (hPerm.map Prod.fst).symm
  have hKeys' := hKeys.congr hOrder
  have hNodup : (sortTexts keys).Nodup := by
    have hNodup := hKeys.nodup
    rw [hTexts] at hNodup
    exact (sortTexts_perm keys).nodup_iff.mpr (.of_map _ hNodup)
  refine ⟨bracketed "\x7b" "\x7d" (sorted.map Prod.snd), .mapping fs, ?_, ?_,
    .mapping hKeys hOrder ?_, .mapping ⟨sortTexts keys, hFst ▸ hAscend, ?_⟩ ?_⟩
  · rw [Value.json, hws, ok_bind, hSorted]
    rfl
  · rw [toList_bracketed]
    refine Reads.mapping ?_ (Value.entriesOf_eq_self hKeys')
    rw [List.map_map, List.forall₂_map_left_iff]
    exact hfs.imp fun _ _ hwf => hwf.2.1
  · intro key v w hv hw
    obtain ⟨_, -, -, -, -, v', hMem, hReordered⟩ :=
      exists_of_forall₂_right hfs (Value.mem_of_field? hw)
    have hv' := (Value.field?_eq_some_iff hKeys key v').mpr hMem
    obtain rfl : v' = v := Option.some.inj (hv'.symm.trans hv)
    exact hReordered
  · exact (pairwise_sortTexts keys).imp₂ (fun _ _ hLe hNe => lt_of_le_of_ne hLe hNe) hNodup
  · intro f hf
    obtain ⟨_, -, -, -, hSortedEntry, -⟩ := exists_of_forall₂_right hfs hf
    exact hSortedEntry

/-- Data has a text, which is read as the data with its entries in the order of
their keys. -/
theorem survives_of_plain {x : Value} (h : x.Plain) : Survives x := by
  induction h with
  | atom hAtom =>
      cases hAtom with
      | null => exact ⟨"null", .null, rfl, .null, .refl _, .atom .null⟩
      | bool b => exact ⟨_, .bool b, rfl, .bool b, .refl _, .atom (.bool b)⟩
      | int i => exact ⟨intText i, .int i, rfl, .int i, .refl _, .atom (.int i)⟩
      | text s => exact ⟨quoted s, .text s, rfl, .text s, .refl _, .atom (.text s)⟩
  | list _ ih => exact .list ih
  | mapping hKeys _ ih => exact .mapping hKeys ih

/-- Data is read back from its text with its entries in the order of their keys. -/
theorem read_json_keySorted {x : Value} (h : x.Plain) :
    ∃ text y, x.json = .ok text ∧ read text = .ok y ∧ x.Reordered y ∧ y.KeySorted := by
  obtain ⟨text, y, hText, hReads, hReordered, hSorted⟩ := survives_of_plain h
  refine ⟨text, y, hText, ?_, hReordered, hSorted⟩
  have hBlank := hReads.skipBlanks_eq []
  have hRead := hReads.read (text.toList.length + 1) [] (Nat.le_succ _) (fun _ h => nomatch h)
  rw [List.append_nil] at hBlank hRead
  rw [read]
  dsimp only
  rw [hBlank, hRead]
  rfl

/-- Data is read back from its text up to the order of entries. -/
theorem read_json {x : Value} (h : x.Plain) :
    ∃ text y, x.json = .ok text ∧ read text = .ok y ∧ x.Reordered y := by
  obtain ⟨text, y, hText, hRead, hReordered, -⟩ := read_json_keySorted h
  exact ⟨text, y, hText, hRead, hReordered⟩

end Json

end DatalogFragments
