import DatalogFragments.Proofs.DecimalText
import DatalogFragments.Proofs.Edn.Quoting
import DatalogFragments.Proofs.Fragment.Alike
import DatalogFragments.Proofs.Listing
import DatalogFragments.Proofs.Value.Plain

/-!
# Reading clauses back

The written form of a clause is a sequence of words, quoted texts, parentheses and
brackets with blanks between them.  A reader that goes through it once, with the
composites that are open on a stack, finds the clause again, provided that names
are words of their own: not one of the constants, no number, and no keyword.
Display information is not written, and so it is not read.

## Main definitions

* `Edn.wordTerm` — what a word stands for;
* `Edn.readItems` — the reader;
* `Edn.ReadsAs` — a text and the items that it is read as;
* `Term.Legible` — clauses that can be read back;
* `Term.bare` — a clause without display information.

## Main results

* `Edn.ReadsAs.spaced` — texts separated by blanks are read one after the other;
* `Term.Legible.readsAs_edn` — a legible clause is read back.
-/

namespace DatalogFragments

namespace Edn

/-! ## Words -/

/-- A character of a word: not one of those that stand around and between words. -/
def isWordChar : Char → Bool
  | '(' | ')' | '[' | ']' | '"' | ' ' => false
  | _ => true

/-- A name that is written as one word. -/
def IsWord (w : String) : Prop := w.toList ≠ [] ∧ w.toList.all isWordChar = true

instance (w : String) : Decidable (IsWord w) := inferInstanceAs (Decidable (_ ∧ _))

/-- An optional minus sign in front of decimal digits. -/
def isNumeral : List Char → Bool
  | '-' :: ds => !ds.isEmpty && ds.all Char.isDigit
  | ds => !ds.isEmpty && ds.all Char.isDigit

/-- The integer of a numeral. -/
def numeralValue : List Char → Int
  | '-' :: ds => -Binary64.natOfDigits ds
  | ds => Binary64.natOfDigits ds

/-- What a word stands for. -/
def wordTerm (w : String) : Clause :=
  if w = "nil" then .literal .null
  else if w = "true" then .literal (.bool true)
  else if w = "false" then .literal (.bool false)
  else if w.toList.head? = some ':' then .literal (.keyword w)
  else if isNumeral w.toList then .literal (.int (numeralValue w.toList))
  else .named w

/-- A name that is written as one word and stands for a symbol there. -/
structure IsSymbolWord (w : String) : Prop where
  word : IsWord w
  not_keyword : w.toList.head? ≠ some ':'
  not_constant : w ≠ "nil" ∧ w ≠ "true" ∧ w ≠ "false"
  not_numeral : isNumeral w.toList = false

theorem IsSymbolWord.wordTerm_eq {w : String} (h : IsSymbolWord w) :
    wordTerm w = .named w := by
  obtain ⟨hNil, hTrue, hFalse⟩ := h.not_constant
  rw [wordTerm, if_neg hNil, if_neg hTrue, if_neg hFalse, if_neg h.not_keyword,
    if_neg (by rw [h.not_numeral]; exact Bool.false_ne_true)]

theorem wordTerm_keyword {k : String} (h : k.toList.head? = some ':') :
    wordTerm k = .literal (.keyword k) := by
  have hApart : ∀ w : String, w.toList.head? ≠ some ':' → k ≠ w := by
    rintro w hw rfl
    exact hw h
  rw [wordTerm, if_neg (hApart _ (by decide)), if_neg (hApart _ (by decide)),
    if_neg (hApart _ (by decide)), if_pos h]

/-! ### Integers -/

theorem wordTerm_of_isNumeral {w : String} (h : isNumeral w.toList = true) :
    wordTerm w = .literal (.int (numeralValue w.toList)) := by
  have hApart : ∀ v : String, isNumeral v.toList = false → w ≠ v := by
    rintro v hv rfl
    rw [hv] at h
    cases h
  have hColon : w.toList.head? ≠ some ':' := by
    intro hHead
    obtain ⟨cs, hList⟩ := List.head?_eq_some_iff.mp hHead
    rw [hList] at h
    simp [isNumeral] at h
  rw [wordTerm, if_neg (hApart _ (by decide)), if_neg (hApart _ (by decide)),
    if_neg (hApart _ (by decide)), if_neg hColon, if_pos h]

private theorem digitsOf_numeral (n : Nat) :
    isNumeral (digitsOf n) = true ∧ numeralValue (digitsOf n) = n ∧
      isNumeral ('-' :: digitsOf n) = true ∧ numeralValue ('-' :: digitsOf n) = -n := by
  have hDigits := isDigit_of_mem_digitsOf (n := n)
  have hValue := natOfDigits_digitsOf (n := n)
  obtain ⟨c, cs, hList, -⟩ := exists_digitsOf_eq_cons n
  rw [hList] at hDigits hValue ⊢
  have hAll : (c :: cs).all Char.isDigit = true := List.all_eq_true.mpr hDigits
  have hUnsigned : ∀ ds, c :: cs = '-' :: ds → False := by
    rintro ds ⟨⟩
    exact absurd (hDigits '-' List.mem_cons_self) (by decide)
  refine ⟨?_, ?_, ?_, ?_⟩
  · rw [isNumeral, hAll]
    · rfl
    · exact hUnsigned
  · rw [numeralValue, hValue]
    exact hUnsigned
  · rw [isNumeral, hAll]
    rfl
  · rw [numeralValue, hValue]

theorem wordTerm_intText (i : Int) : wordTerm (intText i) = .literal (.int i) := by
  rcases toList_intText i with ⟨n, rfl, hText⟩ | ⟨n, rfl, hText⟩ <;>
    obtain ⟨hPlain, hValue, hSigned, hNegated⟩ := digitsOf_numeral n
  · rw [wordTerm_of_isNumeral (by rw [hText]; exact hPlain), hText, hValue]
  · rw [wordTerm_of_isNumeral (by rw [hText]; exact hSigned), hText, hNegated]

theorem isWord_intText (i : Int) : IsWord (intText i) := by
  have hDigit : ∀ c : Char, c.isDigit = true → isWordChar c = true := by
    intro c hc
    unfold isWordChar
    split
    case h_7 => rfl
    all_goals exact absurd hc (by decide)
  rcases toList_intText i with ⟨n, rfl, hText⟩ | ⟨n, rfl, hText⟩ <;>
    rw [IsWord, hText, List.all_eq_true]
  · exact ⟨Nat.toDigits_ne_nil, fun c hc => hDigit c (isDigit_of_mem_digitsOf c hc)⟩
  · exact ⟨List.cons_ne_nil _ _, List.forall_mem_cons.mpr
      ⟨by decide, fun c hc => hDigit c (isDigit_of_mem_digitsOf c hc)⟩⟩

/-! ## Reader -/

/-- A composite that is open, with the items before it, the last one first. -/
inductive Frame where
  | seq (before : List Clause)
  | vec (before : List Clause)

/-- Reads items behind those that are done, the last one first, within composites
that are open. -/
def readItems (frames : List Frame) (done : List Clause) :
    List Char → Option (List Clause)
  | [] => if frames.isEmpty then some done.reverse else none
  | ' ' :: cs => readItems frames done cs
  | '(' :: cs => readItems (.seq done :: frames) [] cs
  | '[' :: cs => readItems (.vec done :: frames) [] cs
  | ')' :: cs =>
    match frames with
    | .seq before :: frames => readItems frames (.sequence done.reverse :: before) cs
    | _ => none
  | ']' :: cs =>
    match frames with
    | .vec before :: frames => readItems frames (.vector done.reverse :: before) cs
    | _ => none
  | '"' :: cs =>
    match _h : unquote? cs with
    | some (content, rest) =>
      readItems frames (.literal (.text (String.ofList content)) :: done) rest
    | none => none
  | c :: cs =>
    readItems frames (wordTerm (String.ofList (c :: cs.takeWhile isWordChar)) :: done)
      (cs.dropWhile isWordChar)
termination_by cs => cs.length
decreasing_by
  all_goals rw [List.length_cons]
  · omega
  · omega
  · omega
  · omega
  · omega
  · exact Nat.lt_succ_of_le (suffix_of_unquote? _h).length_le
  · exact Nat.lt_succ_of_le (List.dropWhile_suffix _).length_le

/-! ## What is read back -/

/-- Nothing, or a mark that ends a word. -/
def EndsWord (rest : List Char) : Prop :=
  ∀ c, rest.head? = some c → isWordChar c = false

/-- The text is read as the items, and what stands behind it is read next. -/
def ReadsAs (text : String) (items : List Clause) : Prop :=
  ∀ frames done rest, EndsWord rest →
    readItems frames done (text.toList ++ rest) =
      readItems frames (items.reverse ++ done) rest

theorem endsWord_cons {c : Char} (hc : isWordChar c = false) (rest : List Char) :
    EndsWord (c :: rest) := by
  rintro d ⟨⟩
  exact hc

theorem ReadsAs.nil : ReadsAs "" [] := fun _ _ _ _ => rfl

theorem ReadsAs.word {w : String} (h : IsWord w) : ReadsAs w [wordTerm w] := by
  intro frames done rest hRest
  obtain ⟨hNonempty, hChars⟩ := h
  obtain ⟨c, cs, hList⟩ := List.exists_cons_of_ne_nil hNonempty
  rw [List.all_eq_true, hList] at hChars
  rw [hList]
  obtain ⟨hc, hcs⟩ := List.forall_mem_cons.mp hChars
  obtain ⟨hTake, hDrop⟩ := run_append hcs hRest
  rw [List.cons_append, readItems, hTake, hDrop, ← hList, String.ofList_toList]
  · rfl
  -- No mark is a character of a word.
  all_goals
    rintro rfl
    exact absurd hc (by decide)

theorem ReadsAs.symbol {w : String} (h : IsSymbolWord w) : ReadsAs w [.named w] := by
  rw [← h.wordTerm_eq]
  exact .word h.word

theorem ReadsAs.keyword {k : String} (hColon : k.toList.head? = some ':')
    (h : IsWord k) : ReadsAs k [.literal (.keyword k)] := by
  rw [← wordTerm_keyword hColon]
  exact .word h

theorem ReadsAs.int (i : Int) : ReadsAs (intText i) [.literal (.int i)] := by
  rw [← wordTerm_intText]
  exact .word (isWord_intText i)

theorem ReadsAs.quoted (s : String) : ReadsAs (Edn.quoted s) [.literal (.text s)] := by
  intro frames done rest _
  have hRead := unquote?_escape s.toList rest
  rw [Edn.quoted, String.toList_ofList, List.cons_append, List.append_assoc,
    List.singleton_append, readItems]
  split
  · rename_i content tail h
    rw [hRead] at h
    obtain ⟨rfl, rfl⟩ := Prod.mk.inj (Option.some.inj h)
    rw [String.ofList_toList]
    rfl
  · rename_i h
    rw [hRead] at h
    cases h

theorem ReadsAs.seq {text : String} {items : List Clause} (h : ReadsAs text items) :
    ReadsAs ("(" ++ text ++ ")") [.sequence items] := by
  intro frames done rest _
  have hInner := h (.seq done :: frames) [] (')' :: rest) (endsWord_cons (by decide) rest)
  rw [String.toList_append, String.toList_append, List.append_assoc, List.append_assoc]
  change readItems frames done ('(' :: (text.toList ++ ')' :: rest)) = _
  rw [readItems, hInner, readItems, List.append_nil, List.reverse_reverse]
  rfl

theorem ReadsAs.vec {text : String} {items : List Clause} (h : ReadsAs text items) :
    ReadsAs ("[" ++ text ++ "]") [.vector items] := by
  intro frames done rest _
  have hInner := h (.vec done :: frames) [] (']' :: rest) (endsWord_cons (by decide) rest)
  rw [String.toList_append, String.toList_append, List.append_assoc, List.append_assoc]
  change readItems frames done ('[' :: (text.toList ++ ']' :: rest)) = _
  rw [readItems, hInner, readItems, List.append_nil, List.reverse_reverse]
  rfl

/-- Texts that are separated by blanks are read one after the other. -/
theorem ReadsAs.spaced {texts : List String} {items : List (List Clause)}
    (h : List.Forall₂ ReadsAs texts items) : ReadsAs (Edn.spaced texts) items.flatten := by
  induction h with
  | nil => exact .nil
  | @cons text ts texts items hText hTexts ih =>
      intro frames done rest hRest
      rw [List.flatten_cons, List.reverse_append, List.append_assoc]
      cases hTexts with
      | nil =>
          rw [Edn.spaced, joinTexts, String.intercalate_singleton]
          exact hText frames done rest hRest
      | @cons next us texts items hNext hTexts =>
          -- The blank behind a text ends its last word.
          have hBlank := endsWord_cons (c := ' ') (by decide)
            ((Edn.spaced (next :: texts)).toList ++ rest)
          have hSplit : (Edn.spaced (text :: next :: texts)).toList ++ rest =
              text.toList ++ ' ' :: ((Edn.spaced (next :: texts)).toList ++ rest) := by
            simp [Edn.spaced, joinTexts, String.toList_intercalate]
          rw [hSplit, hText frames done _ hBlank, readItems, ih frames _ rest hRest]

end Edn

/-! ## Legible clauses -/

/-- A constant, or a keyword that is written as one word.  Keywords begin with a
colon. -/
inductive Value.Legible : Value → Prop
  | atom {v : Value} (h : v.IsAtom) : Legible v
  | keyword {k : String} (hColon : k.toList.head? = some ':') (hWord : Edn.IsWord k) :
      Legible (.keyword k)

namespace Term

open Edn (ReadsAs)

/-- A clause that consists of terms, with legible literals and with names that
stand for symbols when they are read. -/
inductive Legible : Clause → Prop
  | sym {s : Name} (h : Edn.IsSymbolWord s.name) : Legible (.sym s)
  | seq {xs : List Clause} {i : Option Value} (h : ∀ x ∈ xs, Legible x) :
      Legible (.seq xs i)
  | vec {xs : List Clause} {i : Option Value} (h : ∀ x ∈ xs, Legible x) :
      Legible (.vec xs i)
  | lit {v : Value} {i : Option Value} (h : v.Legible) : Legible (.lit v i)

mutual

/-- The clause without display information. -/
def bare : Clause → Clause
  | .sym s => .sym (Symbol.plain s.name)
  | .seq xs _ => .seq (bareAll xs) none
  | .vec xs _ => .vec (bareAll xs) none
  | .lit v _ => .lit v none
  | .stray v => .stray v

/-- The clauses without display information. -/
def bareAll : List Clause → List Clause
  | [] => []
  | t :: ts => t.bare :: bareAll ts

end

theorem bareAll_eq_map (ts : List Clause) : bareAll ts = ts.map bare := by
  induction ts with
  | nil => rfl
  | cons t ts ih => rw [bareAll, ih, List.map_cons]

theorem map_bare_eq_iff {ts us : List Clause} :
    ts.map bare = us.map bare ↔ List.Forall₂ (fun t u => t.bare = u.bare) ts us := by
  rw [← List.forall₂_eq_eq_eq, List.forall₂_map_left_iff, List.forall₂_map_right_iff]

/-- Clauses that differ in display information only are alike. -/
theorem alike_of_bare_eq {t u : Clause} (h : t.bare = u.bare) : t.Alike Eq u := by
  induction t using Term.induct generalizing u with
  | hSym s =>
      cases u with
      | sym s' =>
          rw [bare, bare] at h
          have hName := congrArg Symbol.name (Term.sym.inj h)
          exact .sym hName
      | _ => cases h
  | hSeq xs i ih =>
      cases u with
      | seq ys j =>
          rw [bare, bare, bareAll_eq_map, bareAll_eq_map] at h
          have hItems := map_bare_eq_iff.mp (Term.seq.inj h).1
          exact .seq (forall₂_imp_of_mem hItems fun x hx y _ hxy => ih x hx hxy)
      | _ => cases h
  | hVec xs i ih =>
      cases u with
      | vec ys j =>
          rw [bare, bare, bareAll_eq_map, bareAll_eq_map] at h
          have hItems := map_bare_eq_iff.mp (Term.vec.inj h).1
          exact .vec (forall₂_imp_of_mem hItems fun x hx y _ hxy => ih x hx hxy)
      | _ => cases h
  | hLit v i =>
      cases u with
      | lit w j =>
          rw [bare, bare] at h
          exact .lit (Term.lit.inj h).1
      | _ => cases h
  | hStray v =>
      cases u with
      | stray w =>
          rw [bare, bare] at h
          exact .stray (Term.stray.inj h)
      | _ => cases h

end Term

theorem Value.Legible.readsAs_edn {v : Value} (h : v.Legible) :
    ∃ text, v.edn = .ok text ∧ Edn.ReadsAs text [.literal v] := by
  cases h with
  | atom hAtom =>
      cases hAtom with
      | null => exact ⟨_, rfl, .word (w := "nil") (by decide)⟩
      | bool b =>
          cases b
          · exact ⟨_, rfl, .word (w := "false") (by decide)⟩
          · exact ⟨_, rfl, .word (w := "true") (by decide)⟩
      | int i => exact ⟨_, rfl, .int i⟩
      | text s => exact ⟨_, rfl, .quoted s⟩
  | keyword hColon hWord => exact ⟨_, rfl, .keyword hColon hWord⟩

namespace Term

open Edn (ReadsAs)

private theorem readsAs_ednItems_of {ts : List Clause}
    (h : ∀ t ∈ ts, ∃ text, t.edn = .ok text ∧ ReadsAs text [t.bare]) :
    ∃ texts, ednItems ts = .ok texts ∧ texts.length = ts.length ∧
      ReadsAs (Edn.spaced texts) (ts.map bare) := by
  obtain ⟨texts, hTexts, hReads⟩ : ∃ texts, ednItems ts = .ok texts ∧
      List.Forall₂ ReadsAs texts (ts.map fun t => [t.bare]) := by
    induction ts with
    | nil => exact ⟨[], rfl, .nil⟩
    | cons t ts ih =>
        obtain ⟨⟨text, hText, hRead⟩, hTail⟩ := List.forall_mem_cons.mp h
        obtain ⟨texts, hTexts, hReads⟩ := ih hTail
        exact ⟨text :: texts, by rw [ednItems, hText, hTexts]; rfl, .cons hRead hReads⟩
  have hFlat : (ts.map fun t => [t.bare]).flatten = ts.map bare := by
    rw [← List.flatMap_def, List.map_eq_flatMap]
  refine ⟨texts, hTexts, by rw [hReads.length_eq, List.length_map], ?_⟩
  rw [← hFlat]
  exact ReadsAs.spaced hReads

/-- What is read from the written form of a legible clause is the clause without
its display information. -/
theorem Legible.readsAs_edn {t : Clause} (h : t.Legible) :
    ∃ text, t.edn = .ok text ∧ ReadsAs text [t.bare] := by
  induction h with
  | sym hWord => exact ⟨_, rfl, .symbol hWord⟩
  | @seq xs i _ ih =>
      obtain ⟨texts, hTexts, -, hRead⟩ := readsAs_ednItems_of ih
      refine ⟨"(" ++ Edn.spaced texts ++ ")", by rw [edn, hTexts]; rfl, ?_⟩
      rw [bare, bareAll_eq_map]
      exact hRead.seq
  | @vec xs i _ ih =>
      obtain ⟨texts, hTexts, -, hRead⟩ := readsAs_ednItems_of ih
      refine ⟨"[" ++ Edn.spaced texts ++ "]", by rw [edn, hTexts]; rfl, ?_⟩
      rw [bare, bareAll_eq_map]
      exact hRead.vec
  | lit hValue => exact hValue.readsAs_edn

theorem readsAs_ednItems {ts : List Clause} (h : ∀ t ∈ ts, t.Legible) :
    ∃ texts, ednItems ts = .ok texts ∧ texts.length = ts.length ∧
      ReadsAs (Edn.spaced texts) (ts.map bare) :=
  readsAs_ednItems_of fun t ht => (h t ht).readsAs_edn

end Term

end DatalogFragments
