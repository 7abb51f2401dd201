import Scim.Proofs.Phrase.Leaf
import Scim.Proofs.Scan.Cut
import Scim.Proofs.Text.Strip

/-!
# The words of operator tokens

A token of a comparison operator holds the word of an operator between blanks, its letters in any
case.  In lower case the word is that of the operator, but for the long s: it spells the letter s
and stays as it is in lower case.

* `map_lowerAscii_eq`    a word in lower case, if it does not hold the letters with other spellings;
* `wordOf_comparison`    the word of a comparison operator.
-/

namespace Scim

open Grammar Text Lexeme

/-! ## Letters -/

/-- a letter and its lower case: only three letters have spellings beyond ASCII -/
theorem lowerAscii_of_foldLetter (c : Char) :
    lowerAscii c = foldLetter c ∨ foldLetter c = 'i' ∨ foldLetter c = 'k' ∨
      (c = 'ſ' ∧ foldLetter c = 's') := by
  unfold foldLetter
  split
  · exact .inr (.inl rfl)
  · split
    · next long =>
      refine .inr (.inr (.inr ⟨?_, rfl⟩))
      rw [← Char.ofNat_toNat c, long]
    · split
      · exact .inr (.inr (.inl rfl))
      · exact .inl rfl

/-- a character that is none of these three letters -/
def hasOneSpelling (c : Char) : Bool := c != 'i' && c != 'k' && c != 's'

theorem map_lowerAscii_eq {w : List Char} (h : (w.map foldLetter).all hasOneSpelling = true) :
    w.map lowerAscii = w.map foldLetter := by
  refine List.map_congr_left fun c hc => ?_
  have once := List.all_eq_true.mp h _ (List.mem_map_of_mem hc)
  simp only [hasOneSpelling, Bool.and_eq_true, bne_iff_ne] at once
  obtain ⟨⟨notI, notK⟩, notS⟩ := once
  rcases lowerAscii_of_foldLetter c with same | i | k | ⟨-, s⟩
  · exact same
  · exact absurd i notI
  · exact absurd k notK
  · exact absurd s notS

theorem isBlank_eq_false_of_foldLetter {c : Char} (h : isStop (foldLetter c) = false) :
    isBlank c = false := by
  cases hc : isBlank c with
  | false => rfl
  | true =>
    have stop := isStop_of_isBlank hc
    rw [foldLetter_of_isStop stop, stop] at h
    cases h

/-! ## Operators -/

/-- The words of the operators. -/
def operatorWords : List (List Char) := ['p', 'r'] :: comparisonWords

theorem exists_operator {word : List Char} (h : word ∈ operatorWords) :
    ∃ o : Operator, word = o.word.toList := by
  have words : operatorWords = [Operator.pr, .eq, .ne, .co, .sw, .ew, .gt, .lt, .ge, .le].map
      fun o => o.word.toList := by decide
  rw [words] at h
  obtain ⟨o, -, rfl⟩ := List.mem_map.mp h
  exact ⟨o, rfl⟩

theorem map_lowerAscii_operator {w : List Char} (h : w.map foldLetter ∈ operatorWords) :
    w.map lowerAscii = ['ſ', 'w'] ∨ ∃ o : Operator, w.map lowerAscii = o.word.toList := by
  by_cases sw : w.map foldLetter = ['s', 'w']
  · obtain ⟨c, w', rfl, first, rest⟩ := List.map_eq_cons_iff.mp sw
    have later : w'.map lowerAscii = ['w'] := by
      rw [map_lowerAscii_eq (by rw [rest]; decide), rest]
    rw [List.map_cons, later]
    rcases lowerAscii_of_foldLetter c with same | i | k | ⟨long, -⟩
    · rw [same, first]
      exact .inr ⟨.sw, by decide⟩
    · rw [first] at i
      exact absurd i (by decide)
    · rw [first] at k
      exact absurd k (by decide)
    · rw [long]
      exact .inl (by decide)
  · have plain : ∀ word ∈ operatorWords, word ≠ ['s', 'w'] →
        word.all hasOneSpelling = true := by decide
    rw [map_lowerAscii_eq (plain _ h sw)]
    exact .inr (exists_operator h)

theorem comparison?_split {cs text : List Char} (h : comparison? cs = some text) :
    ∃ c w after, text = c :: (w ++ after) ∧ isBlank c = true ∧ w.map foldLetter ∈ operatorWords ∧
      ∀ x ∈ after, isBlank x = true := by
  cases cs with
  | nil => cases h
  | cons c cs =>
    obtain ⟨blank, word, spelled, rfl⟩ := comparison?_cons_eq_some_iff.mp h
    rcases spelled with spaced | ⟨-, presence⟩
    · obtain ⟨w, found, -, rfl⟩ := spacedWord?_eq_some_iff.mp spaced
      obtain ⟨word', mem, read⟩ := List.exists_of_findSome?_eq_some found
      obtain ⟨-, same⟩ := word?_eq_some_iff.mp read
      refine ⟨c, w, _, rfl, blank, ?_, ?_⟩
      · rw [same]
        exact List.mem_cons_of_mem _ mem
      · intro x hx
        exact List.all_eq_true.mp List.all_takeWhile x hx
    · obtain ⟨-, same⟩ := word?_eq_some_iff.mp presence
      refine ⟨c, word, [], by rw [List.append_nil], blank, ?_, ?_⟩
      · rw [same]
        exact List.mem_cons_self ..
      · intro x hx
        cases hx

/-- **The word of a comparison operator**, in lower case, is one of the ten or is spelled with the
long s. -/
theorem wordOf_comparison {t : Token} {cs : List Char} (h : comparison? cs = some t.text) :
    wordOf t = ['ſ', 'w'] ∨ ∃ o : Operator, wordOf t = o.word.toList := by
  obtain ⟨c, w, after, text, blank, spelled, blanks⟩ := comparison?_split h
  have letters : ∀ word ∈ operatorWords, isPlain word = true := by decide
  have inner : ∀ x ∈ w, isBlank x = false := by
    intro x hx
    exact isBlank_eq_false_of_foldLetter
      (isStop_eq_false_of_isPlain (letters _ spelled) (List.mem_map_of_mem hx))
  have outer : ∀ x ∈ [c], isBlank x = true := by
    intro x hx
    rw [List.mem_singleton.mp hx]
    exact blank
  have bare : stripBlanks t.text = w := by
    rw [text]
    exact stripBlanks_append outer inner blanks
  unfold wordOf
  rw [bare]
  exact map_lowerAscii_operator spelled

end Scim
