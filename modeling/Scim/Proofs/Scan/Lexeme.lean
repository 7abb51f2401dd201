import Scim.Token.Lexeme

/-!
# Lexemes are prefixes

* `Lexeme.Prefixed`                 a reader of runs takes a non-empty run from the start of a text;
* `Kind.prefixed_lexeme?`           every kind does;
* `Mode.exists_of_lexeme?_eq_some`  so the lexeme of a language is a non-empty prefix, and it is the
                                    run of its kind.
-/

namespace Scim

open Text

namespace Lexeme

/-- A reader takes a non-empty run from the start of a text. -/
def Prefixed (read : List Char → Option (List Char)) : Prop :=
  ∀ cs text, read cs = some text → text ≠ [] ∧ text <+: cs

/-! ## Words -/

theorem word?_eq_some_iff {word cs text : List Char} :
    word? word cs = some text ↔ text <+: cs ∧ text.map foldLetter = word := by
  constructor
  · intro h
    unfold word? at h
    by_cases fits : (cs.take word.length).map foldLetter = word
    · rw [if_pos fits] at h
      obtain rfl := Option.some.inj h
      exact ⟨List.take_prefix _ _, fits⟩
    · rw [if_neg fits] at h
      cases h
  · rintro ⟨⟨rest, rfl⟩, rfl⟩
    have same : (text ++ rest).take (text.map foldLetter).length = text := by
      rw [List.length_map, List.take_left]
    unfold word?
    rw [same, if_pos rfl]

theorem prefixed_word? {word : List Char} (h : word ≠ []) : Prefixed (word? word) := by
  intro cs text found
  obtain ⟨pre, spelled⟩ := word?_eq_some_iff.mp found
  refine ⟨?_, pre⟩
  rintro rfl
  exact h spelled.symm

theorem prefixed_anyWord? {words : List (List Char)} (h : [] ∉ words) :
    Prefixed (anyWord? words) := by
  intro cs text found
  obtain ⟨word, mem, found⟩ := List.exists_of_findSome?_eq_some found
  exact prefixed_word? (fun e => h (e ▸ mem)) cs text found

theorem prefixed_literal? {words : List (List Char)} (h : [] ∉ words) :
    Prefixed (literal? words) := by
  intro cs text found
  unfold literal? at found
  obtain ⟨found, -⟩ := Option.filter_eq_some_iff.mp found
  exact prefixed_anyWord? h cs text found

theorem spacedWord?_eq_some_iff {words : List (List Char)} {cs text : List Char} :
    spacedWord? words cs = some text ↔ ∃ word, anyWord? words cs = some word ∧
      (cs.drop word.length).takeWhile isBlank ≠ [] ∧
      word ++ (cs.drop word.length).takeWhile isBlank = text := by
  unfold spacedWord?
  cases anyWord? words cs with
  | none => simp
  | some word =>
    simp only [Option.bind_eq_bind, Option.bind_some, Option.some.injEq, exists_eq_left']
    generalize (cs.drop word.length).takeWhile isBlank = blanks
    cases blanks <;> simp

theorem append_prefix_of_prefix_drop {first second cs : List Char} (hf : first <+: cs)
    (hs : second <+: cs.drop first.length) : first ++ second <+: cs := by
  obtain ⟨rest, rfl⟩ := hf
  rw [List.drop_left] at hs
  exact (List.prefix_append_right_inj first).mpr hs

theorem prefixed_spacedWord? {words : List (List Char)} (h : [] ∉ words) :
    Prefixed (spacedWord? words) := by
  intro cs text found
  obtain ⟨word, spelled, blank, rfl⟩ := spacedWord?_eq_some_iff.mp found
  obtain ⟨-, pre⟩ := prefixed_anyWord? h cs word spelled
  exact ⟨fun e => blank (List.append_eq_nil_iff.mp e).2,
    append_prefix_of_prefix_drop pre (List.takeWhile_prefix _)⟩

/-! ## Operators -/

theorem logical?_eq_some_iff {cs text : List Char} :
    logical? cs = some text ↔ cs.takeWhile isBlank ≠ [] ∧ ∃ word,
      spacedWord? logicalWords (cs.drop (cs.takeWhile isBlank).length) = some word ∧
      cs.takeWhile isBlank ++ word = text := by
  unfold logical?
  generalize cs.takeWhile isBlank = blanks
  cases blanks <;> simp

theorem prefixed_logical? : Prefixed logical? := by
  intro cs text found
  obtain ⟨blank, word, spelled, rfl⟩ := logical?_eq_some_iff.mp found
  obtain ⟨-, pre⟩ := prefixed_spacedWord? (by decide) _ _ spelled
  exact ⟨fun e => blank (List.append_eq_nil_iff.mp e).1,
    append_prefix_of_prefix_drop (List.takeWhile_prefix _) pre⟩

theorem comparison?_cons_eq_some_iff {c : Char} {cs text : List Char} :
    comparison? (c :: cs) = some text ↔ isBlank c = true ∧ ∃ word,
      (spacedWord? comparisonWords cs = some word ∨
        spacedWord? comparisonWords cs = none ∧ word? ['p', 'r'] cs = some word) ∧
      c :: word = text := by
  rw [comparison?]
  by_cases blank : isBlank c = true
  · cases spacedWord? comparisonWords cs with
    | none => simp [blank]
    | some word => simp [blank]
  · simp [blank]

theorem prefixed_comparison? : Prefixed comparison? := by
  intro cs text found
  cases cs with
  | nil => exact absurd found (by simp [comparison?])
  | cons c cs =>
    obtain ⟨-, word, spelled, rfl⟩ := comparison?_cons_eq_some_iff.mp found
    have pre : word <+: cs := by
      rcases spelled with spaced | ⟨-, presence⟩
      · exact (prefixed_spacedWord? (by decide) _ _ spaced).2
      · exact (prefixed_word? (by decide) _ _ presence).2
    exact ⟨List.cons_ne_nil _ _, (List.prefix_cons_inj c).mpr pre⟩

theorem negation?_eq_some_iff {cs text : List Char} :
    negation? cs = some text ↔ ∃ word, word? ['n', 'o', 't'] cs = some word ∧
      ((cs.drop word.length).takeWhile isBlank ≠ [] ∨ (cs.drop word.length).head? = some '(') ∧
      word ++ (cs.drop word.length).takeWhile isBlank = text := by
  unfold negation?
  cases word? ['n', 'o', 't'] cs with
  | none => simp
  | some word =>
    simp only [Option.bind_eq_bind, Option.bind_some, Option.some.injEq, exists_eq_left']
    generalize (cs.drop word.length).takeWhile isBlank = blanks
    cases blanks <;> simp

theorem prefixed_negation? : Prefixed negation? := by
  intro cs text found
  obtain ⟨word, spelled, -, rfl⟩ := negation?_eq_some_iff.mp found
  obtain ⟨long, pre⟩ := prefixed_word? (by decide) _ _ spelled
  exact ⟨fun e => long (List.append_eq_nil_iff.mp e).1,
    append_prefix_of_prefix_drop pre (List.takeWhile_prefix _)⟩

/-! ## Numbers, strings and brackets -/

theorem prefixed_number? : Prefixed number? := by
  intro cs text found
  unfold number? at found
  have whole : cs.takeWhile isDigit <+: cs := List.takeWhile_prefix _
  by_cases bare : cs.takeWhile isDigit = []
  · simp [bare] at found
  · simp only [List.isEmpty_iff, bare, if_false] at found
    split at found
    · next rest pointed =>
      by_cases open' : rest.takeWhile isDigit = []
      · simp only [open', if_true, Option.some.injEq] at found
        subst found
        exact ⟨bare, whole⟩
      · simp only [open', if_false, Option.some.injEq] at found
        subst found
        refine ⟨fun e => bare (List.append_eq_nil_iff.mp e).1,
          append_prefix_of_prefix_drop whole ?_⟩
        rw [pointed]
        exact (List.prefix_cons_inj '.').mpr (List.takeWhile_prefix _)
    · obtain rfl := Option.some.inj found
      exact ⟨bare, whole⟩

theorem digit_or_point {cs text : List Char} (found : number? cs = some text) :
    ∀ c ∈ text, isDigit c = true ∨ c = '.' := by
  have digits (cs : List Char) : ∀ c ∈ cs.takeWhile isDigit, isDigit c = true ∨ c = '.' :=
    fun c mem => .inl (List.all_eq_true.mp List.all_takeWhile c mem)
  unfold number? at found
  dsimp only at found
  split at found
  · cases found
  · split at found
    · split at found
      · obtain rfl := Option.some.inj found
        exact digits cs
      · obtain rfl := Option.some.inj found
        intro c mem
        rcases List.mem_append.mp mem with mem | mem
        · exact digits cs c mem
        · rcases List.mem_cons.mp mem with rfl | mem
          · exact .inr rfl
          · exact digits _ c mem
    · obtain rfl := Option.some.inj found
      exact digits cs

theorem string?_cons_eq_some_iff {rest text : List Char} :
    string? ('"' :: rest) = some text ↔ (rest.takeWhile (· != '"')).length < rest.length ∧
      '"' :: rest.takeWhile (· != '"') ++ ['"'] = text := by
  unfold string?
  by_cases closed : (rest.takeWhile (· != '"')).length < rest.length
  · simp [closed]
  · simp [closed]

theorem bne_of_notMem {mark : Char} {cs : List Char} (h : mark ∉ cs) :
    ∀ c ∈ cs, (c != mark) = true := by
  intro c hc
  exact bne_iff_ne.mpr fun same => h (same ▸ hc)

theorem string?_body {body : List Char} (free : '"' ∉ body) (rest : List Char) :
    string? ('"' :: (body ++ '"' :: rest)) = some ('"' :: (body ++ ['"'])) := by
  have inside : (body ++ '"' :: rest).takeWhile (· != '"') = body := by
    rw [List.takeWhile_append_of_pos (bne_of_notMem free), List.takeWhile_cons_of_neg (by simp),
      List.append_nil]
  rw [string?_cons_eq_some_iff, inside, List.length_append, List.length_cons]
  exact ⟨by omega, rfl⟩

theorem mark_follows_takeWhile {mark : Char} {cs : List Char}
    (h : (cs.takeWhile (· != mark)).length < cs.length) :
    cs.takeWhile (· != mark) ++ [mark] <+: cs := by
  induction cs with
  | nil => simp at h
  | cons c cs ih =>
    by_cases same : c = mark
    · rw [same]
      simp
    · simp only [List.takeWhile_cons, bne_iff_ne, ne_eq, same, not_false_eq_true, if_true,
        List.length_cons, Nat.add_lt_add_iff_right] at h
      simpa [same] using ih h

theorem prefixed_string? : Prefixed string? := by
  intro cs text found
  unfold string? at found
  split at found
  · next rest =>
    obtain ⟨closed, rfl⟩ := string?_cons_eq_some_iff.mp found
    exact ⟨List.cons_ne_nil _ _,
      (List.prefix_cons_inj '"').mpr (mark_follows_takeWhile closed)⟩
  · cases found

theorem prefixed_char? (c : Char) : Prefixed (char? c) := by
  intro cs text found
  cases cs with
  | nil => cases found
  | cons d rest =>
    by_cases same : d = c
    · simp only [char?, same, if_true, Option.some.injEq] at found
      subst found
      exact ⟨List.cons_ne_nil _ _, ⟨rest, by rw [same]; rfl⟩⟩
    · simp [char?, same] at found

theorem eq_of_char? {c : Char} {cs text : List Char} (found : char? c cs = some text) :
    text = [c] := by
  cases cs with
  | nil => cases found
  | cons d rest =>
    by_cases same : d = c
    · rw [char?, if_pos same, same] at found
      exact (Option.some.inj found).symm
    · rw [char?, if_neg same] at found
      cases found

/-! ## Names -/

theorem isPrefix_dottedTail (cs : List Char) : dottedTail cs <+: cs := by
  induction cs with
  | nil => exact List.prefix_rfl
  | cons c cs ih =>
    unfold dottedTail
    split
    · exact (List.prefix_cons_inj c).mpr ih
    · split
      · exact (List.prefix_cons_inj c).mpr ih
      · exact List.nil_prefix

theorem prefixed_dotted? : Prefixed dotted? := by
  intro cs text found
  unfold dotted? at found
  cases cs with
  | nil => simp at found
  | cons c cs =>
    by_cases first : isSegment c = true
    · simp only [List.head?_cons, Option.any_some, first, if_true, Option.some.injEq] at found
      subst found
      refine ⟨?_, isPrefix_dottedTail _⟩
      simp [dottedTail, first]
    · simp [first] at found

theorem prefixed_qualifiedTail? : Prefixed qualifiedTail? := by
  intro cs
  induction cs with
  | nil =>
    intro text found
    cases found
  | cons c cs ih =>
    intro text found
    unfold qualifiedTail? at found
    split at found
    · split at found
      · next rest deeper =>
        obtain rfl := Option.some.inj found
        exact ⟨List.cons_ne_nil _ _, (List.prefix_cons_inj c).mpr (ih rest deeper).2⟩
      · split at found
        · obtain ⟨name, dotted, rfl⟩ := Option.map_eq_some_iff.mp found
          exact ⟨List.cons_ne_nil _ _, (List.prefix_cons_inj c).mpr (prefixed_dotted? _ _ dotted).2⟩
        · cases found
    · cases found

theorem prefixed_qualified? : Prefixed qualified? := by
  intro cs text found
  unfold qualified? at found
  split at found
  · cases found
  · next c cs =>
    split at found
    · obtain ⟨rest, tail, rfl⟩ := Option.map_eq_some_iff.mp found
      exact ⟨List.cons_ne_nil _ _,
        (List.prefix_cons_inj c).mpr (prefixed_qualifiedTail? _ _ tail).2⟩
    · cases found

theorem name?_eq (cs : List Char) : name? cs = (qualified? cs).or (dotted? cs) := by
  unfold name?
  cases qualified? cs <;> rfl

theorem prefixed_name? : Prefixed name? := by
  intro cs text found
  rw [name?_eq, Option.or_eq_some_iff] at found
  rcases found with found | ⟨-, found⟩
  · exact prefixed_qualified? _ _ found
  · exact prefixed_dotted? _ _ found

theorem prefixed_subAttribute? : Prefixed subAttribute? := by
  intro cs text found
  unfold subAttribute? at found
  split at found
  · next rest =>
    dsimp only at found
    split at found
    · cases found
    · obtain rfl := Option.some.inj found
      exact ⟨List.cons_ne_nil _ _, (List.prefix_cons_inj '.').mpr (List.takeWhile_prefix _)⟩
  · cases found

end Lexeme

open Lexeme

/-! ## Kinds and languages -/

theorem Kind.prefixed_lexeme? (kind : Kind) : Prefixed kind.lexeme? := by
  cases kind with
  | number => exact prefixed_number?
  | string => exact prefixed_string?
  | boolean => exact prefixed_literal? (by decide)
  | null => exact prefixed_literal? (by decide)
  | openParen => exact prefixed_char? '('
  | closeParen => exact prefixed_char? ')'
  | openBracket => exact prefixed_char? '['
  | closeBracket => exact prefixed_char? ']'
  | negation => exact prefixed_negation?
  | logical => exact prefixed_logical?
  | comparison => exact prefixed_comparison?
  | name => exact prefixed_name?
  | subAttribute => exact prefixed_subAttribute?

theorem Mode.exists_of_lexeme?_eq_some {mode : Mode} {cs : List Char} {kind : Kind}
    {text : List Char} (h : mode.lexeme? cs = some (kind, text)) :
    kind.lexeme? cs = some text ∧ text ≠ [] ∧ ∃ rest, cs = text ++ rest := by
  obtain ⟨kind', -, found⟩ := List.exists_of_findSome?_eq_some h
  obtain ⟨text', run, same⟩ := Option.map_eq_some_iff.mp found
  obtain ⟨rfl, rfl⟩ := Prod.mk.inj same
  obtain ⟨long, rest, rfl⟩ := kind'.prefixed_lexeme? cs text' run
  exact ⟨run, long, rest, rfl⟩

end Scim
