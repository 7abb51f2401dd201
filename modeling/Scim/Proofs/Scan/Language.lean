import Scim.Proofs.Phrase.Name
import Scim.Proofs.Scan.Margin

/-!
# One text in two languages

A path is scanned like a filter, but for a sub-attribute at its end.

* `Mode.lexeme?_path`      a path tries the sub-attribute last;
* `tiles_filter_iff`       the tokens of a filter are those of a path without a sub-attribute;
* `Tiles.exists_first`     only blanks stand before the first token;
* `tiles_sub`              a dot, a segment and blanks are a sub-attribute.
-/

namespace Scim

open Text Lexeme

theorem Mode.lexeme?_path (cs : List Char) : Mode.path.lexeme? cs =
    (Mode.filter.lexeme? cs).or ((subAttribute? cs).map (Kind.subAttribute, ·)) := by
  show (filterKinds ++ [Kind.subAttribute]).findSome? _ = _
  rw [List.findSome?_append, List.findSome?_singleton]
  rfl

theorem Tiles.ne_subAttribute {p : Int} {cs : List Char} {ts : List Token}
    (h : Tiles .filter p cs ts) {t : Token} (mem : t ∈ ts) : t.kind ≠ .subAttribute := by
  obtain ⟨before, after, rfl⟩ := List.append_of_mem mem
  obtain ⟨u, v, -, -, found, -⟩ := h.split
  obtain ⟨kind, known, hit⟩ := List.exists_of_findSome?_eq_some found
  obtain ⟨text, -, same⟩ := Option.map_eq_some_iff.mp hit
  have listed : ∀ k ∈ Mode.filter.kinds, k ≠ .subAttribute := by decide
  rw [← (Prod.mk.inj same).1]
  exact listed kind known

/-- **The tokens of a filter** are those of a path without a sub-attribute. -/
theorem tiles_filter_iff {p : Int} {cs : List Char} {ts : List Token} :
    Tiles .filter p cs ts ↔ Tiles .path p cs ts ∧ ∀ t ∈ ts, t.kind ≠ .subAttribute := by
  constructor
  · intro h
    refine ⟨?_, fun t mem => h.ne_subAttribute mem⟩
    induction h with
    | nil p => exact .nil p
    | blank missed hc _ ih =>
      refine .blank ?_ hc ih
      rwa [Mode.lexeme?_blank_eq_none_iff hc] at missed ⊢
    | token found _ ih =>
      refine .token ?_ ih
      rw [Mode.lexeme?_path, found]
      rfl
  · rintro ⟨h, plain⟩
    induction h with
    | nil p => exact .nil p
    | blank missed hc _ ih =>
      refine .blank ?_ hc (ih plain)
      rwa [Mode.lexeme?_blank_eq_none_iff hc] at missed ⊢
    | @token p kind text cs ts found _ ih =>
      refine .token ?_ (ih fun t mem => plain t (List.mem_cons_of_mem _ mem))
      rw [Mode.lexeme?_path, Option.or_eq_some_iff] at found
      refine found.resolve_right ?_
      rintro ⟨-, last⟩
      obtain ⟨_, -, same⟩ := Option.map_eq_some_iff.mp last
      exact plain _ (List.mem_cons_self ..) (Prod.mk.inj same).1.symm

theorem Tiles.exists_first {mode : Mode} {p : Int} {cs : List Char} {t : Token} {ts : List Token}
    (h : Tiles mode p cs (t :: ts)) : ∃ w v, cs = w ++ (t.text ++ v) ∧
      (∀ c ∈ w, isBlank c = true) ∧ mode.lexeme? (t.text ++ v) = some (t.kind, t.text) ∧
      Tiles mode t.stop v ts := by
  generalize whole : t :: ts = all at h
  induction h with
  | nil p => cases whole
  | @blank p c cs all missed hc rest ih =>
    obtain ⟨w, v, rfl, blanks, found, tail⟩ := ih whole
    exact ⟨c :: w, v, rfl, List.forall_mem_cons.mpr ⟨hc, blanks⟩, found, tail⟩
  | @token p kind text cs all found rest ih =>
    obtain ⟨rfl, rfl⟩ := List.cons.inj whole
    exact ⟨[], cs, rfl, List.forall_mem_nil _, found, rest⟩

/-! ## Sub-attributes -/

theorem Lexeme.subAttribute?_eq_some_iff {cs text : List Char} : subAttribute? cs = some text ↔
    ∃ s w, cs = '.' :: (s ++ w) ∧ text = '.' :: s ∧ IsSegment s ∧ ∀ c ∈ w, isBlank c = true := by
  constructor
  · intro found
    cases cs with
    | nil => cases found
    | cons c rest =>
      by_cases dot : c = '.'
      · subst dot
        simp only [subAttribute?] at found
        split at found
        · cases found
        · next last =>
          rw [Bool.or_eq_true, not_or, Bool.not_eq_true', Bool.not_eq_false, List.isEmpty_iff]
            at last
          refine ⟨rest.takeWhile isSegment, rest.drop (rest.takeWhile isSegment).length, ?_,
            (Option.some.inj found).symm, ⟨last.1, List.all_eq_true.mp List.all_takeWhile⟩,
            List.all_eq_true.mp last.2⟩
          rw [drop_length_takeWhile, List.takeWhile_append_dropWhile]
      · simp [subAttribute?, dot] at found
  · rintro ⟨s, w, rfl, rfl, ⟨long, inside⟩, blank⟩
    have none : w.takeWhile isSegment = [] := by
      cases w with
      | nil => rfl
      | cons c w =>
        have stop := isStop_of_isBlank (blank c List.mem_cons_self)
        rw [List.takeWhile_cons, isSegment_eq_false_of_isStop stop, if_neg Bool.false_ne_true]
    have segment : (s ++ w).takeWhile isSegment = s := by
      rw [List.takeWhile_append_of_pos inside, none, List.append_nil]
    simp only [subAttribute?, segment, List.drop_left]
    rw [if_neg]
    simpa [long] using blank

theorem Lexeme.anyWord?_of_head {words : List (List Char)} {c : Char}
    (h : ∀ word ∈ words, word ≠ [] ∧ word.head? ≠ some (foldLetter c)) (cs : List Char) :
    anyWord? words (c :: cs) = none := by
  refine List.findSome?_eq_none_iff.mpr fun word mem => ?_
  obtain ⟨long, other⟩ := h word mem
  obtain ⟨d, word, rfl⟩ := List.exists_cons_of_ne_nil long
  have first : ¬ foldLetter c = d := fun same => other (congrArg some same.symm)
  simp [word?, first]

theorem Mode.lexeme?_filter_mark {c : Char} (mark : c = '.' ∨ c = ':') {cs : List Char}
    (unnamed : name? (c :: cs) = none) : Mode.filter.lexeme? (c :: cs) = none := by
  have noWord (words : List (List Char)) (h : ∀ word ∈ words, word ≠ [] ∧
      word.head? ≠ some (foldLetter '.') ∧ word.head? ≠ some (foldLetter ':')) :
      anyWord? words (c :: cs) = none := by
    refine anyWord?_of_head (fun word mem => ?_) cs
    obtain ⟨long, notDot, notColon⟩ := h word mem
    rcases mark with rfl | rfl
    · exact ⟨long, notDot⟩
    · exact ⟨long, notColon⟩
  unfold Mode.lexeme?
  rw [List.findSome?_eq_none_iff]
  intro kind mem
  rw [Option.map_eq_none_iff]
  cases kind with
  | boolean | null =>
    show literal? _ _ = _
    rw [literal?, noWord _ (by decide)]
    rfl
  | negation =>
    have word := noWord [['n', 'o', 't']] (by decide)
    show negation? _ = _
    rw [negation?, List.findSome?_eq_none_iff.mp word _ (List.mem_singleton_self _)]
    rfl
  | name => exact unnamed
  | subAttribute => exact absurd mem (by decide)
  | _ => rcases mark with rfl | rfl <;> rfl

theorem Mode.lexeme?_filter_dot {cs : List Char} (free : ':' ∉ cs) :
    Mode.filter.lexeme? ('.' :: cs) = none := by
  refine Mode.lexeme?_filter_mark (.inl rfl) ?_
  rw [name?_eq, qualified?, qualifiedTail?_of_notMem free]
  rfl

theorem beginsOperator_dot (cs : List Char) : beginsOperator ('.' :: cs) = false := by
  have spaced (words : List (List Char))
      (h : ∀ word ∈ words, word ≠ [] ∧ word.head? ≠ some (foldLetter '.')) :
      spacedWord? words ('.' :: cs) = none := by
    rw [spacedWord?, anyWord?_of_head h]
    rfl
  have presence : anyWord? [['p', 'r']] ('.' :: cs) = none := anyWord?_of_head (by decide) cs
  refine beginsOperator_eq_false_iff.mpr ⟨⟨spaced _ (by decide), spaced _ (by decide)⟩, ?_⟩
  exact List.findSome?_eq_none_iff.mp presence _ (List.mem_singleton_self _)

/-- **A sub-attribute**: a dot, a segment and blanks. -/
theorem tiles_sub {p : Int} {s w : List Char} (segment : IsSegment s)
    (blank : ∀ c ∈ w, isBlank c = true) :
    Tiles .path p ('.' :: (s ++ w)) [⟨.subAttribute, '.' :: s, p⟩] := by
  have free : ':' ∉ s ++ w := by
    intro mem
    rcases List.mem_append.mp mem with mem | mem
    · exact absurd (segment.2 ':' mem) (by decide)
    · exact absurd (blank ':' mem) (by decide)
  have found : Mode.path.lexeme? ('.' :: s ++ w) = some (.subAttribute, '.' :: s) := by
    rw [List.cons_append, Mode.lexeme?_path, Mode.lexeme?_filter_dot free,
      subAttribute?_eq_some_iff.mpr ⟨s, w, rfl, rfl, segment, blank⟩]
    rfl
  exact .token found (tiles_of_blank blank)

end Scim
