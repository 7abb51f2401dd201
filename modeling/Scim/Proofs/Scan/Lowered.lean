import Scim.Proofs.Scan.Lexeme

/-!
# Lexemes of a text in lower case

Where a lexeme ends does not depend on the case of letters.

* `apply_lowerAscii`            what is the same for the capitals and the small letters;
* `Lexeme.CaseBlind`            a reader of runs takes the same run, in lower case, from a text in
                                lower case;
* `Kind.caseBlind_lexeme?`      the reader of every kind is one;
* `Mode.lexeme?_map_lowerAscii`    so the lexeme of a language is the same, in lower case.
-/

namespace Scim

namespace Text

/-! ## Characters -/

theorem apply_lowerAscii {α : Type} {f : Char → α}
    (h : ∀ n < 26, f (Char.ofNat (n + 0x41 + 0x20)) = f (Char.ofNat (n + 0x41))) (c : Char) :
    f (lowerAscii c) = f c := by
  by_cases upper : 0x41 ≤ c.toNat ∧ c.toNat ≤ 0x5a
  · have lower : lowerAscii c = Char.ofNat (c.toNat + 0x20) := if_pos upper
    have here := h (c.toNat - 0x41) (by omega)
    rw [Nat.sub_add_cancel upper.1, Char.ofNat_toNat] at here
    rw [lower]
    exact here
  · have same : lowerAscii c = c := if_neg upper
    rw [same]

theorem isBlank_lowerAscii (c : Char) : isBlank (lowerAscii c) = isBlank c :=
  apply_lowerAscii (by decide) c

theorem isDigit_lowerAscii (c : Char) : isDigit (lowerAscii c) = isDigit c :=
  apply_lowerAscii (by decide) c

theorem foldLetter_lowerAscii (c : Char) : foldLetter (lowerAscii c) = foldLetter c :=
  apply_lowerAscii (by decide) c

/-- A character that is no ASCII letter. -/
def Caseless (mark : Char) : Prop :=
  ∀ n < 26, Char.ofNat (n + 0x41) ≠ mark ∧ Char.ofNat (n + 0x41 + 0x20) ≠ mark

instance (mark : Char) : Decidable (Caseless mark) := inferInstanceAs (Decidable (∀ n < 26, _))

theorem lowerAscii_eq_iff {mark c : Char} (h : Caseless mark) : lowerAscii c = mark ↔ c = mark := by
  have same := apply_lowerAscii (f := fun c => decide (c = mark))
    (fun n hn => by rw [decide_eq_false (h n hn).1, decide_eq_false (h n hn).2]) c
  exact decide_eq_decide.mp same

theorem bne_lowerAscii {mark : Char} (h : Caseless mark) (c : Char) :
    (lowerAscii c != mark) = (c != mark) := by
  rw [Bool.eq_iff_iff, bne_iff_ne, bne_iff_ne, ne_eq, lowerAscii_eq_iff h]

theorem map_foldLetter_map_lowerAscii (cs : List Char) :
    (cs.map lowerAscii).map foldLetter = cs.map foldLetter := by
  rw [List.map_map]
  exact List.map_congr_left fun c _ => foldLetter_lowerAscii c

section

variable {p : Char → Bool} (h : ∀ c, p (lowerAscii c) = p c) (cs : List Char)

include h

theorem takeWhile_map_lowerAscii :
    (cs.map lowerAscii).takeWhile p = (cs.takeWhile p).map lowerAscii := by
  have same : p ∘ lowerAscii = p := funext h
  rw [List.takeWhile_map, same]

theorem dropWhile_map_lowerAscii :
    (cs.map lowerAscii).dropWhile p = (cs.dropWhile p).map lowerAscii := by
  have same : p ∘ lowerAscii = p := funext h
  rw [List.dropWhile_map, same]

theorem any_head?_map_lowerAscii : (cs.map lowerAscii).head?.any p = cs.head?.any p := by
  cases cs with
  | nil => rfl
  | cons c cs => exact h c

theorem all_map_lowerAscii : (cs.map lowerAscii).all p = cs.all p := by
  have same : p ∘ lowerAscii = p := funext h
  rw [List.all_map, same]

end

end Text

open Text

namespace Lexeme

theorem isSegment_lowerAscii (c : Char) : isSegment (lowerAscii c) = isSegment c :=
  apply_lowerAscii (by decide) c

theorem isSchema_lowerAscii (c : Char) : isSchema (lowerAscii c) = isSchema c :=
  apply_lowerAscii (by decide) c

theorem continuesName_lowerAscii (c : Char) : continuesName (lowerAscii c) = continuesName c :=
  apply_lowerAscii (by decide) c

/-! ## Readers of runs -/

/-- From a text in lower case a reader takes the same run, in lower case. -/
def CaseBlind (read : List Char → Option (List Char)) : Prop :=
  ∀ cs, read (cs.map lowerAscii) = (read cs).map (List.map lowerAscii)

theorem caseBlind_word? (word : List Char) : CaseBlind (word? word) := by
  intro cs
  unfold word?
  dsimp only
  rw [← List.map_take, map_foldLetter_map_lowerAscii]
  split <;> rfl

theorem caseBlind_anyWord? (words : List (List Char)) : CaseBlind (anyWord? words) := by
  intro cs
  unfold anyWord?
  rw [List.map_findSome?]
  exact congrArg (List.findSome? · words) (funext fun word => caseBlind_word? word cs)

theorem caseBlind_literal? (words : List (List Char)) : CaseBlind (literal? words) := by
  intro cs
  unfold literal?
  rw [caseBlind_anyWord? words cs]
  cases anyWord? words cs with
  | none => rfl
  | some text =>
    have next := any_head?_map_lowerAscii continuesName_lowerAscii (cs.drop text.length)
    rw [Option.map_some, Option.filter_some, Option.filter_some, List.length_map, ← List.map_drop,
      next]
    split <;> rfl

theorem caseBlind_spacedWord? (words : List (List Char)) : CaseBlind (spacedWord? words) := by
  intro cs
  unfold spacedWord?
  rw [caseBlind_anyWord? words cs]
  cases anyWord? words cs with
  | none => rfl
  | some text =>
    have blanks := takeWhile_map_lowerAscii isBlank_lowerAscii (cs.drop text.length)
    simp only [Option.map_some, Option.bind_eq_bind, Option.bind_some, List.length_map,
      ← List.map_drop, blanks, List.isEmpty_map]
    split
    · rfl
    · rw [← List.map_append]
      rfl

theorem caseBlind_logical? : CaseBlind logical? := by
  intro cs
  unfold logical?
  dsimp only
  rw [takeWhile_map_lowerAscii isBlank_lowerAscii, List.isEmpty_map, List.length_map,
    ← List.map_drop, caseBlind_spacedWord?]
  split
  · rfl
  · cases spacedWord? logicalWords (cs.drop (cs.takeWhile isBlank).length) with
    | none => rfl
    | some text => exact congrArg some (List.map_append ..).symm

theorem caseBlind_comparison? : CaseBlind comparison? := by
  intro cs
  cases cs with
  | nil => rfl
  | cons c cs =>
    rw [List.map_cons, comparison?, comparison?, isBlank_lowerAscii, caseBlind_spacedWord?,
      caseBlind_word?]
    split
    · cases spacedWord? comparisonWords cs with
      | none => cases word? ['p', 'r'] cs <;> rfl
      | some text => rfl
    · rfl

theorem caseBlind_negation? : CaseBlind negation? := by
  intro cs
  unfold negation?
  rw [caseBlind_word?]
  cases word? ['n', 'o', 't'] cs with
  | none => rfl
  | some text =>
    have blanks := takeWhile_map_lowerAscii isBlank_lowerAscii (cs.drop text.length)
    have opens : ((cs.drop text.length).map lowerAscii).head? = some '(' ↔
        (cs.drop text.length).head? = some '(' := by
      rw [List.head?_map, Option.map_eq_some_iff]
      simp only [lowerAscii_eq_iff (show Caseless '(' by decide), exists_eq_right]
    simp only [Option.map_some, Option.bind_eq_bind, Option.bind_some, List.length_map,
      ← List.map_drop, blanks, List.isEmpty_map, opens]
    split
    · rw [← List.map_append]
      rfl
    · split <;> rfl

theorem caseBlind_number? : CaseBlind number? := by
  intro cs
  unfold number?
  dsimp only
  rw [takeWhile_map_lowerAscii isDigit_lowerAscii, List.isEmpty_map, List.length_map,
    ← List.map_drop]
  split
  · rfl
  · cases cs.drop (cs.takeWhile isDigit).length with
    | nil => rfl
    | cons c rest =>
      by_cases point : c = '.'
      · subst point
        have fraction := takeWhile_map_lowerAscii isDigit_lowerAscii rest
        show (if ((rest.map lowerAscii).takeWhile isDigit).isEmpty then _ else _) =
          Option.map _ (if (rest.takeWhile isDigit).isEmpty then _ else _)
        rw [fraction, List.isEmpty_map]
        split
        · rfl
        · rw [Option.map_some, List.map_append]
          rfl
      · have point' : lowerAscii c ≠ '.' := mt (lowerAscii_eq_iff (by decide)).mp point
        rw [List.map_cons]
        split
        · next same => exact absurd (List.cons.inj same).1 point'
        · split
          · next same => exact absurd (List.cons.inj same).1 point
          · rfl

theorem caseBlind_of_mark {read : List Char → Option (List Char)} {mark : Char} (h : Caseless mark)
    (other : ∀ cs, cs.head? ≠ some mark → read cs = none)
    (here : ∀ rest, read (mark :: rest.map lowerAscii) =
      (read (mark :: rest)).map (List.map lowerAscii)) : CaseBlind read := by
  intro cs
  cases cs with
  | nil => rw [List.map_nil, other [] nofun, Option.map_none]
  | cons c rest =>
    by_cases first : c = mark
    · have same : lowerAscii c = mark := (lowerAscii_eq_iff h).mpr first
      rw [List.map_cons, same, first]
      exact here rest
    · have first' : lowerAscii c ≠ mark := mt (lowerAscii_eq_iff h).mp first
      have lower : read (lowerAscii c :: rest.map lowerAscii) = none :=
        other _ (mt Option.some.inj first')
      have none : read (c :: rest) = none := other _ (mt Option.some.inj first)
      rw [List.map_cons, lower, none, Option.map_none]

theorem caseBlind_string? : CaseBlind string? := by
  refine caseBlind_of_mark (show Caseless '"' by decide) ?_ ?_
  · intro cs head
    unfold string?
    split
    · exact absurd rfl head
    · rfl
  · intro rest
    have body := takeWhile_map_lowerAscii (p := (· != '"')) (bne_lowerAscii (by decide)) rest
    simp only [string?, body, List.length_map]
    split
    · rw [Option.map_some, List.map_append, List.map_cons]
      rfl
    · rfl

theorem caseBlind_char? {mark : Char} (h : Caseless mark) : CaseBlind (char? mark) := by
  intro cs
  cases cs with
  | nil => rfl
  | cons c rest =>
    simp only [List.map_cons, char?, lowerAscii_eq_iff h]
    split <;> rfl

/-! ## Names -/

theorem dottedTail_map_lowerAscii (cs : List Char) :
    dottedTail (cs.map lowerAscii) = (dottedTail cs).map lowerAscii := by
  induction cs with
  | nil => rfl
  | cons c cs ih =>
    have next := any_head?_map_lowerAscii isSegment_lowerAscii cs
    simp only [List.map_cons, dottedTail, isSegment_lowerAscii, next, ih,
      lowerAscii_eq_iff (show Caseless '.' by decide)]
    split
    · rfl
    · split <;> rfl

theorem caseBlind_dotted? : CaseBlind dotted? := by
  intro cs
  unfold dotted?
  rw [any_head?_map_lowerAscii isSegment_lowerAscii, dottedTail_map_lowerAscii]
  split <;> rfl

theorem caseBlind_qualifiedTail? : CaseBlind qualifiedTail? := by
  intro cs
  induction cs with
  | nil => rfl
  | cons c cs ih =>
    rw [List.map_cons, qualifiedTail?, qualifiedTail?, isSchema_lowerAscii, ih, caseBlind_dotted?]
    split
    · cases qualifiedTail? cs with
      | some text => rfl
      | none =>
        show (if lowerAscii c = ':' then _ else _) = Option.map _ (if c = ':' then _ else _)
        simp only [lowerAscii_eq_iff (show Caseless ':' by decide)]
        split
        · cases dotted? cs <;> rfl
        · rfl
    · rfl

theorem caseBlind_qualified? : CaseBlind qualified? := by
  intro cs
  cases cs with
  | nil => rfl
  | cons c cs =>
    rw [List.map_cons, qualified?, qualified?, isSchema_lowerAscii, caseBlind_qualifiedTail?]
    split
    · cases qualifiedTail? cs <;> rfl
    · rfl

theorem caseBlind_name? : CaseBlind name? := by
  intro cs
  rw [name?_eq, name?_eq, caseBlind_qualified?, caseBlind_dotted?]
  cases qualified? cs <;> rfl

theorem caseBlind_subAttribute? : CaseBlind subAttribute? := by
  refine caseBlind_of_mark (show Caseless '.' by decide) ?_ ?_
  · intro cs head
    unfold subAttribute?
    split
    · exact absurd rfl head
    · rfl
  · intro rest
    have segment := takeWhile_map_lowerAscii isSegment_lowerAscii rest
    have blanks := all_map_lowerAscii isBlank_lowerAscii
      (rest.drop (rest.takeWhile isSegment).length)
    simp only [subAttribute?, segment, List.isEmpty_map, List.length_map, ← List.map_drop, blanks]
    split <;> rfl

end Lexeme

open Lexeme

/-! ## Kinds and languages -/

theorem Kind.caseBlind_lexeme? (kind : Kind) : CaseBlind kind.lexeme? := by
  cases kind with
  | number => exact caseBlind_number?
  | string => exact caseBlind_string?
  | boolean => exact caseBlind_literal? _
  | null => exact caseBlind_literal? _
  | openParen => exact caseBlind_char? (by decide)
  | closeParen => exact caseBlind_char? (by decide)
  | openBracket => exact caseBlind_char? (by decide)
  | closeBracket => exact caseBlind_char? (by decide)
  | negation => exact caseBlind_negation?
  | logical => exact caseBlind_logical?
  | comparison => exact caseBlind_comparison?
  | name => exact caseBlind_name?
  | subAttribute => exact caseBlind_subAttribute?

/-- **The lexeme of a text in lower case** is that of the text, in lower case. -/
theorem Mode.lexeme?_map_lowerAscii (mode : Mode) (cs : List Char) :
    mode.lexeme? (cs.map lowerAscii) =
      (mode.lexeme? cs).map fun found => (found.1, found.2.map lowerAscii) := by
  unfold Mode.lexeme?
  rw [List.map_findSome?]
  refine congrArg (List.findSome? · mode.kinds) (funext fun kind => ?_)
  rw [kind.caseBlind_lexeme? cs]
  cases h : kind.lexeme? cs with
  | none => simp [h]
  | some text => simp [h]

end Scim
