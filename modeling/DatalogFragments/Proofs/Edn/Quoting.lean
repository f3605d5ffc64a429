import DatalogFragments.Edn
import Mathlib.Data.List.Basic

/-!
# Quoted texts

A text is escaped in passes over the whole of it, each of which replaces one
character wherever it occurs, also in what earlier passes put there.  The passes
do not get in each other's way, because no text that is put in holds a character
of a later pass: the backslash, which all of these texts hold, is replaced first.
So each character is escaped once, and a reader finds the text again and stops at
its closing quote, whatever the text is and whatever follows.

## Main definitions

* `Edn.replaceEach`, `Edn.passes` — the passes;
* `Edn.upToQuote?`, `Edn.readText?` — the reader.

## Main results

* `Edn.foldl_replaceEach` — passes that do not get in each other's way;
* `Edn.escape_eq_passes` — they are what each character is written as;
* `Edn.suffix_of_unquote?` — a closing quote leaves the end of the text;
* `Edn.upToQuote?_of_unquote?` — the reader takes escapes that it does not know
  as they are, and reads all that a stricter one reads;
* `Edn.readText?_quoted` — a quoted text reads back exactly.
-/

namespace DatalogFragments

namespace Edn

/-! ## Passes -/

/-- Replaces a character by a text wherever it occurs. -/
def replaceEach (pass : Char × List Char) (cs : List Char) : List Char :=
  cs.flatMap fun c => if c = pass.1 then pass.2 else [c]

/-- The passes in their order, each with the character and what it is replaced by. -/
def passes : List (Char × List Char) :=
  [('\\', ['\\', '\\']), ('"', ['\\', '"']), ('\n', ['\\', 'n']), ('\t', ['\\', 't'])]

/-- What a character is replaced by, each character of a pass but once. -/
def replacement : List (Char × List Char) → Char → List Char
  | [], c => [c]
  | p :: ps, c => if c = p.1 then p.2 else replacement ps c

theorem replacement_of_forall_ne {ps : List (Char × List Char)} {c : Char}
    (h : ∀ p ∈ ps, c ≠ p.1) : replacement ps c = [c] := by
  induction ps with
  | nil => rfl
  | cons p ps ih =>
      obtain ⟨hHead, hTail⟩ := List.forall_mem_cons.mp h
      rw [replacement, if_neg hHead, ih hTail]

/-- Characters of no pass are left alone. -/
theorem flatMap_replacement_of_not_mem {ps : List (Char × List Char)} {cs : List Char}
    (h : ∀ p ∈ ps, p.1 ∉ cs) : cs.flatMap (replacement ps) = cs := by
  have hEach : ∀ c ∈ cs, replacement ps c = [c] := by
    intro c hc
    refine replacement_of_forall_ne fun p hp hEq => ?_
    exact h p hp (hEq ▸ hc)
  rw [List.flatMap_congr hEach]
  exact List.flatMap_singleton' cs

/-- Passes one after the other replace each character once, if none of them puts
in a character of a later one. -/
theorem foldl_replaceEach {ps : List (Char × List Char)}
    (h : ps.Pairwise fun p q => q.1 ∉ p.2) (cs : List Char) :
    ps.foldl (fun text pass => replaceEach pass text) cs = cs.flatMap (replacement ps) := by
  induction ps generalizing cs with
  | nil => exact (flatMap_replacement_of_not_mem (List.forall_mem_nil _)).symm
  | cons p ps ih =>
      obtain ⟨hLater, hRest⟩ := List.pairwise_cons.mp h
      rw [List.foldl_cons, ih hRest, replaceEach, List.flatMap_assoc]
      refine List.flatMap_congr fun c _ => ?_
      rw [replacement]
      split
      · exact flatMap_replacement_of_not_mem hLater
      · exact List.flatMap_singleton ..

theorem replacement_passes (c : Char) : replacement passes c = escapeChar c := by
  unfold escapeChar
  split
  case h_5 hBackslash hQuote hLine hTab =>
    refine replacement_of_forall_ne ?_
    simp only [passes, List.forall_mem_cons]
    exact ⟨hBackslash, hQuote, hLine, hTab, List.forall_mem_nil _⟩
  all_goals rfl

/-- Four passes over a text write each of its characters once. -/
theorem escape_eq_passes (cs : List Char) :
    escape cs = passes.foldl (fun text pass => replaceEach pass text) cs := by
  rw [foldl_replaceEach (by decide), escape]
  exact List.flatMap_congr fun c _ => (replacement_passes c).symm

/-! ## Reading -/

/-- What stands behind a closing quote is the end of the text. -/
theorem suffix_of_unquote? {cs content rest : List Char}
    (h : unquote? cs = some (content, rest)) : rest <:+ cs := by
  fun_induction unquote? cs generalizing content with
  | case1 => cases h
  | case2 tail =>
      cases h
      exact List.suffix_cons _ _
  | case3 c cs d content tail hTail _ ih =>
      cases h
      exact (ih hTail).trans ((List.suffix_cons _ _).trans (List.suffix_cons _ _))
  | case4 => cases h
  | case5 c cs _ _ content tail hTail ih =>
      cases h
      exact (ih hTail).trans (List.suffix_cons _ _)
  | case6 => cases h

/-- Reads up to the first quote that is not escaped: the content, and what follows
the quote.  A backslash in front of any other character stands for itself. -/
def upToQuote? : List Char → Option (List Char × List Char)
  | [] => none
  | '"' :: rest => some ([], rest)
  | '\\' :: c :: rest =>
    match escaped? c with
    | some d => (upToQuote? rest).map fun read => (d :: read.1, read.2)
    | none => (upToQuote? (c :: rest)).map fun read => ('\\' :: read.1, read.2)
  | c :: rest => (upToQuote? rest).map fun read => (c :: read.1, read.2)

/-- What is read with known escapes only is read here, too. -/
theorem upToQuote?_of_unquote? {cs : List Char} {read : List Char × List Char}
    (h : unquote? cs = some read) : upToQuote? cs = some read := by
  fun_induction unquote? cs generalizing read with
  | case1 => cases h
  | case2 rest => exact h
  | case3 c rest d content tail hTail hd ih =>
      rw [upToQuote?, hd]
      dsimp only
      rw [ih hTail]
      exact h
  | case4 => cases h
  | case5 c rest hQuote hBackslash content tail hTail ih =>
      rw [upToQuote?, ih hTail]
      · exact h
      · exact hQuote
      · exact hBackslash
  | case6 => cases h

/-- Reads a text between quotes: the text, and what follows it. -/
def readText? (s : String) : Option (String × String) :=
  match s.toList with
  | '"' :: cs =>
    (upToQuote? cs).map fun read => (String.ofList read.1, String.ofList read.2)
  | _ => none

/-- A text is written by escaping it in passes, and whatever follows, exactly the
text is read back, and exactly what follows is left. -/
theorem readText?_quoted (s rest : String) :
    ∃ text, (Value.text s).edn = .ok text ∧
      text.toList = '"' :: (passes.foldl (fun text pass => replaceEach pass text) s.toList
        ++ ['"']) ∧
      readText? (text ++ rest) = some (s, rest) := by
  refine ⟨quoted s, by rw [Value.edn], ?_, ?_⟩
  · rw [quoted, String.toList_ofList, escape_eq_passes]
  · have hText : (quoted s ++ rest).toList =
        '"' :: (escape s.toList ++ '"' :: rest.toList) := by
      rw [String.toList_append, quoted, String.toList_ofList, List.cons_append,
        List.append_assoc, List.singleton_append]
    rw [readText?, hText]
    simp only [upToQuote?_of_unquote? (unquote?_escape s.toList rest.toList),
      Option.map_some, String.ofList_toList]

end Edn

end DatalogFragments
