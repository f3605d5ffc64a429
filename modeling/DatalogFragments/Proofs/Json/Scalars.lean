import DatalogFragments.Json
import DatalogFragments.Proofs.Attempt
import DatalogFragments.Proofs.DecimalText
import DatalogFragments.Proofs.Listing

/-!
# Texts and integers in JSON

Every character of a text is written as itself or as one escape, and the reader
takes one escape or character at a time.  So it takes exactly what was written
for a text and leaves what stands behind it.  An integer has no end of its own:
it is read back if what follows does not go on with the number.

## Main definitions

* `Json.Ends` — what may stand behind a value.

## Main results

* `hexNumber?_hexDigits` — codes are read back;
* `Json.readChars_escapeChar`, `Json.readText_escaped` — so are texts;
* `Json.readAtom_intText` — so are integers.
-/

namespace DatalogFragments

/-! ## Hexadecimal codes -/

private theorem hexValue?_digitChar {d : Nat} (h : d < 16) :
    hexValue? d.digitChar = some d := by
  have hAll : ∀ d < 16, hexValue? d.digitChar = some d := by decide
  exact hAll d h

/-- Reading hexadecimal digits goes on from the number read so far. -/
private theorem foldlM_toDigits (m n : Nat) :
    (Nat.toDigits 16 n).foldlM (fun n c => (hexValue? c).map fun d => 16 * n + d) m =
      some (m * 16 ^ (Nat.toDigits 16 n).length + n) := by
  induction n using Nat.strongRecOn with
  | ind n ih =>
      by_cases h : n < 16
      · rw [Nat.toDigits_of_lt_base h]
        simp [hexValue?_digitChar h, Nat.mul_comm]
      · rw [Nat.toDigits_of_base_le (by decide) (by omega), List.foldlM_append,
          ih (n / 16) (by omega), List.length_append, List.length_singleton, Nat.pow_succ]
        simp only [List.foldlM_cons, List.foldlM_nil, Option.bind_eq_bind,
          Option.bind_some, hexValue?_digitChar (Nat.mod_lt n (by decide)),
          Option.map_some]
        congr 1
        rw [← Nat.mul_assoc]
        omega

/-- A number is read back from its hexadecimal digits. -/
theorem hexNumber?_hexDigits (width n : Nat) :
    hexNumber? (hexDigits width n) = some n := by
  have hZeros : ∀ k : Nat, (List.replicate k '0').foldlM
      (fun n c => (hexValue? c).map fun d => 16 * n + d) 0 = some 0 := by
    intro k
    induction k with
    | zero => rfl
    | succ k ih => exact ih
  rw [hexNumber?, hexDigits, List.foldlM_append, hZeros, Option.bind_eq_bind,
    Option.bind_some, foldlM_toDigits, Nat.zero_mul, Nat.zero_add]

theorem length_hexDigits {width n : Nat} (hWidth : 0 < width) (h : n < 16 ^ width) :
    (hexDigits width n).length = width := by
  have hLength := (Nat.length_toDigits_le_iff (by decide) hWidth).mpr h
  rw [hexDigits, List.length_append, List.length_replicate]
  omega

namespace Json

/-! ## Characters -/

private theorem unit?_hexDigits {n : Nat} (h : n < 0x10000) (rest : List Char) :
    unit? (hexDigits 4 n ++ rest) = some (n, rest) := by
  have hNumber := hexNumber?_hexDigits 4 n
  have hLength : (hexDigits 4 n).length = 4 :=
    length_hexDigits (by decide) (by simpa using h)
  obtain ⟨a, b, c, d, hDigits⟩ := List.length_eq_four.mp hLength
  rw [hDigits] at hNumber ⊢
  rw [List.cons_append, List.cons_append, List.cons_append, List.cons_append,
    List.nil_append, unit?, hNumber, Option.map_some]

/-- A character that takes one unit is read back, whatever stands behind it. -/
private theorem codeEscape?_single {c : Char} (h : c.toNat < 0x10000) (rest : List Char) :
    codeEscape? (hexDigits 4 c.toNat ++ rest) = some (c, rest) := by
  -- No character is half of a pair.
  have hValid : c.toNat < 0xD800 ∨ 0xDFFF < c.toNat ∧ c.toNat < 0x110000 := c.valid
  have hOpens : opensPair c.toNat = false := by
    simp only [opensPair, Bool.and_eq_false_iff, decide_eq_false_iff_not]
    omega
  have hCloses : closesPair c.toNat = false := by
    simp only [closesPair, Bool.and_eq_false_iff, decide_eq_false_iff_not]
    omega
  have hChar : unitChar c.toNat = c := by
    rw [unitChar, hOpens, hCloses]
    exact Char.ofNat_toNat c
  rw [codeEscape?, unit?_hexDigits h]
  dsimp only
  split
  · split
    · rw [hOpens, Bool.false_and, if_neg Bool.false_ne_true, hChar]
    · rw [hChar]
  · rw [hChar]

/-- Two units that make a pair are read as one character. -/
private theorem codeEscape?_units {high low : Nat} (hHigh : 0xD800 + high < 0xDC00)
    (hLow : 0xDC00 + low < 0xE000) (rest : List Char) :
    codeEscape? (hexDigits 4 (0xD800 + high) ++
      (unitEscape (0xDC00 + low) ++ rest)) =
      some (Char.ofNat (0x10000 + high * 0x400 + low), rest) := by
  have hFirst := unit?_hexDigits (n := 0xD800 + high) (by omega)
    (unitEscape (0xDC00 + low) ++ rest)
  have hSecond := unit?_hexDigits (n := 0xDC00 + low) (by omega) rest
  have hOpens : opensPair (0xD800 + high) = true := by
    simp only [opensPair, Bool.and_eq_true, decide_eq_true_eq]
    omega
  have hCloses : closesPair (0xDC00 + low) = true := by
    simp only [closesPair, Bool.and_eq_true, decide_eq_true_eq]
    omega
  rw [codeEscape?, hFirst, unitEscape, codeEscape]
  simp only [List.cons_append, hSecond, hOpens, hCloses, Bool.true_and, if_true,
    Nat.add_sub_cancel_left]

/-- A character that takes a pair of units is read back. -/
private theorem codeEscape?_pair {c : Char} {n : Nat} (h : c.toNat = 0x10000 + n)
    (rest : List Char) :
    codeEscape? (hexDigits 4 (0xD800 + n / 0x400) ++
      (unitEscape (0xDC00 + n % 0x400) ++ rest)) = some (c, rest) := by
  have hValid : c.toNat < 0xD800 ∨ 0xDFFF < c.toNat ∧ c.toNat < 0x110000 := c.valid
  have hHigh : 0xD800 + n / 0x400 < 0xDC00 := by omega
  have hLow : 0xDC00 + n % 0x400 < 0xE000 := by omega
  have hCode : 0x10000 + n / 0x400 * 0x400 + n % 0x400 = c.toNat := by omega
  rw [codeEscape?_units hHigh hLow, hCode, Char.ofNat_toNat]

section Step

variable {fuel : Nat} {c d : Char} {cs rest : List Char}

private theorem bind_cons (c : Char) (x : Except Fault (List Char × List Char)) :
    (do
      let (content, tail) ← x
      return (c :: content, tail)) = x.map fun p => (c :: p.1, p.2) := by
  cases x <;> rfl

private theorem readChars_code (h : codeEscape? cs = some (c, rest)) :
    readChars (fuel + 1) ('\\' :: 'u' :: cs) =
      (readChars fuel rest).map fun p => (c :: p.1, p.2) := by
  rw [readChars, h]
  exact bind_cons c _

private theorem readChars_letter (hLetter : d ≠ 'u') (h : escaped? d = some c) :
    readChars (fuel + 1) ('\\' :: d :: rest) =
      (readChars fuel rest).map fun p => (c :: p.1, p.2) := by
  rw [readChars, h]
  · exact bind_cons c _
  · exact hLetter

private theorem readChars_plain (hQuote : c ≠ '"') (hSlash : c ≠ '\\')
    (h : 0x20 ≤ c.toNat) :
    readChars (fuel + 1) (c :: rest) =
      (readChars fuel rest).map fun p => (c :: p.1, p.2) := by
  rw [readChars, if_neg (by simp [hSlash]; omega)]
  · exact bind_cons c _
  all_goals simp [hQuote, hSlash]

end Step

/-- One step reads what was written for one character. -/
theorem readChars_escapeChar (fuel : Nat) (c : Char) (rest : List Char) :
    readChars (fuel + 1) (escapeChar c ++ rest) =
      (readChars fuel rest).map fun p => (c :: p.1, p.2) := by
  rw [escapeChar]
  split
  · rename_i h
    subst h
    exact readChars_letter (by decide) rfl
  split
  · rename_i h
    subst h
    exact readChars_letter (by decide) rfl
  rename_i hQuote hSlash
  split
  · rename_i h
    subst h
    exact readChars_letter (by decide) rfl
  split
  · rename_i h
    subst h
    exact readChars_letter (by decide) rfl
  split
  · rename_i h
    subst h
    exact readChars_letter (by decide) rfl
  split
  · rename_i h
    rw [← Char.ofNat_toNat c, h]
    exact readChars_letter (by decide) rfl
  split
  · rename_i h
    rw [← Char.ofNat_toNat c, h]
    exact readChars_letter (by decide) rfl
  split
  · rename_i h
    exact readChars_plain hQuote hSlash h.1
  split
  · rename_i h
    exact readChars_code (codeEscape?_single h rest)
  · rename_i h
    obtain ⟨n, hn⟩ : ∃ n, c.toNat = 0x10000 + n := Nat.exists_eq_add_of_le (by omega)
    simp only [hn, Nat.add_sub_cancel_left, List.append_assoc]
    exact readChars_code (codeEscape?_pair hn rest)

/-! ## Texts -/

private theorem readChars_escaped {fuel : Nat} {cs : List Char} (h : cs.length < fuel)
    (rest : List Char) :
    readChars fuel (cs.flatMap escapeChar ++ '"' :: rest) = .ok (cs, rest) := by
  induction cs generalizing fuel with
  | nil =>
      obtain ⟨fuel, rfl⟩ := Nat.exists_eq_add_one.mpr h
      rw [List.flatMap_nil, List.nil_append, readChars]
  | cons c cs ih =>
      rw [List.length_cons] at h
      obtain ⟨fuel, rfl⟩ := Nat.exists_eq_add_one.mpr (Nat.zero_lt_of_lt h)
      rw [List.flatMap_cons, List.append_assoc, readChars_escapeChar,
        ih (Nat.lt_of_succ_lt_succ h)]
      rfl

private theorem escapeChar_ne_nil (c : Char) : escapeChar c ≠ [] := by
  have hUnit : ∀ n, unitEscape n ≠ [] := fun n => List.cons_ne_nil _ _
  rw [escapeChar]
  repeat' split
  case isFalse.isFalse => exact List.append_ne_nil_of_left_ne_nil (hUnit _) _
  all_goals exact List.cons_ne_nil _ _

private theorem length_le_length_escaped (cs : List Char) :
    cs.length ≤ (cs.flatMap escapeChar).length := by
  induction cs with
  | nil => exact Nat.zero_le _
  | cons c cs ih =>
      have hOne := List.length_pos_iff.mpr (escapeChar_ne_nil c)
      rw [List.flatMap_cons, List.length_append, List.length_cons]
      omega

/-- A text is read back from what was written behind the opening quote. -/
theorem readText_escaped (s : String) (rest : List Char) :
    readText (s.toList.flatMap escapeChar ++ '"' :: rest) = .ok (s, rest) := by
  have hFuel : s.toList.length <
      (s.toList.flatMap escapeChar ++ '"' :: rest).length + 1 := by
    have hLength := length_le_length_escaped s.toList
    rw [List.length_append]
    omega
  rw [readText, readChars_escaped hFuel, ok_bind]
  dsimp only
  rw [String.ofList_toList]
  rfl

/-! ## Integers -/

/-- Nothing, or a mark that stands behind values. -/
def Ends (rest : List Char) : Prop :=
  ∀ c, rest.head? = some c → c = ',' ∨ c = ']' ∨ c = '\x7d'

section Integers

variable {n : Nat} {rest : List Char}

private theorem digits_append (hRest : Ends rest) {ds : List Char}
    (h : ∀ c ∈ ds, c.isDigit = true) : digits (ds ++ rest) = (ds, rest) := by
  have hStop : ∀ c, rest.head? = some c → c.isDigit = false := by
    intro c hc
    rcases hRest c hc with rfl | rfl | rfl <;> decide
  obtain ⟨hTake, hDrop⟩ := run_append h hStop
  rw [digits, hTake, hDrop]

/-- The digits of a number do not start with a zero, unless it is zero. -/
private theorem head_digitsOf (h : 0 < n) : ∃ c cs, digitsOf n = c :: cs ∧ c ≠ '0' := by
  induction n using Nat.strongRecOn with
  | ind n ih =>
      rw [digitsOf]
      by_cases hSmall : n < 10
      · have hAll : ∀ n < 10, 0 < n → n.digitChar ≠ '0' := by decide
        rw [Nat.toDigits_of_lt_base hSmall]
        exact ⟨_, [], rfl, hAll n hSmall h⟩
      · obtain ⟨c, cs, hDigits, hc⟩ := ih (n / 10) (by omega) (by omega)
        rw [Nat.toDigits_of_base_le (by decide) (by omega), ← digitsOf, hDigits]
        exact ⟨c, _, rfl, hc⟩

private theorem wholePart_digitsOf (hRest : Ends rest) :
    wholePart (digitsOf n ++ rest) = (digitsOf n, rest) := by
  rcases Nat.eq_zero_or_pos n with rfl | hPos
  · rfl
  · obtain ⟨c, cs, hDigits, hc⟩ := head_digitsOf hPos
    have hRead := digits_append hRest (isDigit_of_mem_digitsOf (n := n))
    rw [hDigits] at hRead ⊢
    rw [List.cons_append] at hRead ⊢
    rw [wholePart]
    · exact hRead
    · rintro tail ⟨⟩
      exact hc rfl

private theorem fraction_of_ends (hRest : Ends rest) : fraction rest = ([], rest) := by
  cases rest with
  | nil => rfl
  | cons c rest => rcases hRest c rfl with rfl | rfl | rfl <;> rfl

private theorem exponent_of_ends (hRest : Ends rest) : exponent rest = ([], rest) := by
  cases rest with
  | nil => rfl
  | cons c rest => rcases hRest c rfl with rfl | rfl | rfl <;> rfl

private theorem readNumber_digitsOf (hRest : Ends rest) (negative : Bool) :
    readNumber negative (digitsOf n ++ rest) =
      .ok (.int (if negative then -n else n), rest) := by
  have hNonempty : (digitsOf n).isEmpty = false := by
    rw [List.isEmpty_eq_false_iff]
    exact Nat.toDigits_ne_nil
  rw [readNumber, wholePart_digitsOf hRest]
  dsimp only
  rw [hNonempty, if_neg Bool.false_ne_true, fraction_of_ends hRest]
  dsimp only
  rw [exponent_of_ends hRest]
  dsimp only
  rw [natOfDigits_digitsOf]
  rfl

private theorem readWord?_digit {c : Char} (hc : c.isDigit = true) (cs : List Char) :
    readWord? (c :: cs) = none ∧ readWord? ('-' :: c :: cs) = none := by
  have hApart : ∀ d ∈ ['n', 't', 'f', 'N', 'I', '-'], c ≠ d := by
    rintro d hd rfl
    simp only [List.mem_cons, List.not_mem_nil, or_false] at hd
    rcases hd with rfl | rfl | rfl | rfl | rfl | rfl <;> exact absurd hc (by decide)
  constructor <;>
    simp [readWord?, words, (hApart _ _).symm]

/-- An integer is read back if what follows does not go on with it. -/
theorem readAtom_intText (hRest : Ends rest) (i : Int) :
    readAtom ((intText i).toList ++ rest) = .ok (.int i, rest) := by
  obtain ⟨c, cs, hText, hc⟩ := exists_digitsOf_eq_cons i.natAbs
  have hNumber := readNumber_digitsOf (n := i.natAbs) hRest
  obtain ⟨hPlain, hSigned⟩ := readWord?_digit hc (cs ++ rest)
  rw [hText, List.cons_append] at hNumber
  rw [intText, hText]
  split
  · rename_i hNegative
    rw [String.toList_ofList, List.cons_append, List.cons_append, readAtom, hSigned]
    dsimp only
    rw [hNumber true, if_pos rfl, ← Int.eq_neg_natAbs_of_nonpos (Int.le_of_lt hNegative)]
  · rename_i hNonneg
    rw [String.toList_ofList, List.cons_append, readAtom, hPlain]
    · dsimp only
      rw [hNumber false, if_neg Bool.false_ne_true,
        Int.natAbs_of_nonneg (Int.not_lt.mp hNonneg)]
    · rintro tail ⟨⟩
      exact absurd hc (by decide)

end Integers

end Json

end DatalogFragments
