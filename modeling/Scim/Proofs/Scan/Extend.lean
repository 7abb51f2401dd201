import Scim.Proofs.Scan.Tiling

/-!
# A text behind a text

A text keeps its tokens when another one is written behind it, if its last token cannot go on there.

* `Marked`                  a text with a character that does not belong to the words and blanks of
                            operators;
* `Mode.lexeme?_append`     a lexeme at the start of such a text stays;
* `Trails`                  blanks, and then the end or a closing parenthesis or bracket;
* `Tiles.append`            the tokens of a text and of the text behind it.
-/

namespace Scim

open Text

namespace Lexeme

/-! ## Blanks -/

theorem drop_length_takeWhile (p : Char → Bool) (cs : List Char) :
    cs.drop (cs.takeWhile p).length = cs.dropWhile p := by
  have split : cs.takeWhile p ++ cs.dropWhile p = cs := List.takeWhile_append_dropWhile
  have dropped := congrArg (List.drop (cs.takeWhile p).length) split
  rw [List.drop_left] at dropped
  exact dropped.symm

theorem takeWhile_blank_append {a : List Char} (h : ∃ c ∈ a, isBlank c = false) (b : List Char) :
    (a ++ b).takeWhile isBlank = a.takeWhile isBlank := by
  have short : (a.takeWhile isBlank).length ≠ a.length := by
    intro whole
    obtain ⟨c, mem, other⟩ := h
    have same := (List.takeWhile_prefix isBlank).eq_of_length whole
    rw [← same] at mem
    have blank : isBlank c = true := List.all_eq_true.mp List.all_takeWhile c mem
    rw [blank] at other
    cases other
  rw [List.takeWhile_append, if_neg short]

theorem anyWord?_of_stops {words : List (List Char)} (hw : PlainWords words) {b : List Char}
    (hb : Stops b) : anyWord? words b = none := by
  have alone := anyWord?_append hw [] hb
  rw [List.nil_append] at alone
  rw [alone]
  cases found : anyWord? words [] with
  | none => rfl
  | some text =>
    obtain ⟨long, pre⟩ := prefixed_anyWord? hw.1 [] text found
    exact absurd (List.prefix_nil.mp pre) long

theorem spacedWord?_of_stops {words : List (List Char)} (hw : PlainWords words) {b : List Char}
    (hb : Stops b) : spacedWord? words b = none := by
  unfold spacedWord?
  rw [anyWord?_of_stops hw hb]
  rfl

theorem word?_of_stops {word : List Char} (hw : PlainWords [word]) {b : List Char}
    (hb : Stops b) : word? word b = none := by
  have none := anyWord?_of_stops hw hb
  unfold anyWord? at none
  rw [List.findSome?_cons] at none
  cases found : word? word b with
  | none => rfl
  | some text =>
    rw [found] at none
    cases none

/-! ## Marks -/

def spacedWords : List (List Char) := ['n', 'o', 't'] :: (logicalWords ++ comparisonWords)

/-- A character that is neither a blank nor a letter of these words. -/
def isMark (c : Char) : Bool := !isBlank c && !spacedWords.flatten.contains (foldLetter c)

/-- A text with such a character. -/
def Marked (cs : List Char) : Prop := ∃ c ∈ cs, isMark c = true

theorem Marked.append_right {a : List Char} (h : Marked a) (b : List Char) : Marked (a ++ b) := by
  obtain ⟨c, mem, mark⟩ := h
  exact ⟨c, List.mem_append_left b mem, mark⟩

theorem Marked.append_left {b : List Char} (h : Marked b) (a : List Char) : Marked (a ++ b) := by
  obtain ⟨c, mem, mark⟩ := h
  exact ⟨c, List.mem_append_right a mem, mark⟩

theorem Marked.ne_blank {a : List Char} (h : Marked a) : ∃ c ∈ a, isBlank c = false := by
  obtain ⟨c, mem, mark⟩ := h
  simp only [isMark, Bool.and_eq_true, Bool.not_eq_true'] at mark
  exact ⟨c, mem, mark.1⟩

theorem Marked.behind_word {w rest : List Char} (h : Marked (w ++ rest))
    (spelled : w.map foldLetter ∈ spacedWords) : Marked rest := by
  obtain ⟨c, mem, mark⟩ := h
  rcases List.mem_append.mp mem with mem | mem
  · have letter : foldLetter c ∈ spacedWords.flatten :=
      List.mem_flatten.mpr ⟨_, spelled, List.mem_map_of_mem mem⟩
    simp [isMark, letter] at mark
  · exact ⟨c, mem, mark⟩

theorem Marked.behind_blanks {a : List Char} (h : Marked a) : Marked (a.dropWhile isBlank) := by
  obtain ⟨c, mem, mark⟩ := h
  rw [← List.takeWhile_append_dropWhile (p := isBlank) (l := a)] at mem
  rcases List.mem_append.mp mem with mem | mem
  · have blank : isBlank c = true := List.all_eq_true.mp List.all_takeWhile c mem
    simp [isMark, blank] at mark
  · exact ⟨c, mem, mark⟩

/-! ## Runs that end before the cut -/

theorem spacedWord?_within {words : List (List Char)} (hw : PlainWords words)
    (known : ∀ word ∈ words, word ∈ spacedWords) {a b text : List Char} (hb : Stops b)
    (mark : Marked a) (found : spacedWord? words (a ++ b) = some text) :
    text.length ≤ a.length := by
  obtain ⟨word, spelled, -, rfl⟩ := spacedWord?_eq_some_iff.mp found
  rw [anyWord?_append hw a hb] at spelled
  obtain ⟨-, rest, rfl⟩ := prefixed_anyWord? hw.1 a word spelled
  obtain ⟨word', mem, read⟩ := List.exists_of_findSome?_eq_some spelled
  obtain ⟨-, same⟩ := word?_eq_some_iff.mp read
  have later : Marked rest := mark.behind_word (by rw [same]; exact known word' mem)
  rw [List.append_assoc, List.drop_left, takeWhile_blank_append later.ne_blank, List.length_append,
    List.length_append]
  have short := (List.takeWhile_prefix (l := rest) isBlank).length_le
  omega

theorem logical?_within {a b text : List Char} (hb : Stops b) (mark : Marked a)
    (found : logical? (a ++ b) = some text) : text.length ≤ a.length := by
  obtain ⟨-, word, spelled, rfl⟩ := logical?_eq_some_iff.mp found
  rw [takeWhile_blank_append mark.ne_blank] at spelled ⊢
  rw [List.drop_append_of_le_length (List.takeWhile_prefix _).length_le, drop_length_takeWhile]
    at spelled
  have short := spacedWord?_within (by decide) (by decide) hb mark.behind_blanks spelled
  have whole := congrArg List.length (List.takeWhile_append_dropWhile (p := isBlank) (l := a))
  rw [List.length_append] at whole ⊢
  omega

theorem comparison?_within {a b text : List Char} (hb : Stops b) (mark : Marked a)
    (found : comparison? (a ++ b) = some text) : text.length ≤ a.length := by
  cases a with
  | nil =>
    obtain ⟨c, mem, -⟩ := mark
    cases mem
  | cons c cs =>
    rw [List.cons_append] at found
    obtain ⟨blank, word, spelled, rfl⟩ := comparison?_cons_eq_some_iff.mp found
    have later : Marked cs := by
      obtain ⟨d, mem, marked⟩ := mark
      rcases List.mem_cons.mp mem with rfl | mem
      · simp [isMark, blank] at marked
      · exact ⟨d, mem, marked⟩
    rw [List.length_cons, List.length_cons]
    rcases spelled with spaced | ⟨-, presence⟩
    · exact Nat.succ_le_succ (spacedWord?_within (by decide) (by decide) hb later spaced)
    · rw [word?_append (by decide) cs hb] at presence
      exact Nat.succ_le_succ (prefixed_word? (by decide) _ _ presence).2.length_le

theorem negation?_within {a b text : List Char} (hb : Stops b) (mark : Marked a)
    (found : negation? (a ++ b) = some text) : text.length ≤ a.length := by
  obtain ⟨word, spelled, -, rfl⟩ := negation?_eq_some_iff.mp found
  rw [word?_append (by decide) a hb] at spelled
  obtain ⟨-, rest, rfl⟩ := prefixed_word? (by decide) a word spelled
  obtain ⟨-, same⟩ := word?_eq_some_iff.mp spelled
  have later : Marked rest := mark.behind_word (by rw [same]; decide)
  rw [List.append_assoc, List.drop_left, takeWhile_blank_append later.ne_blank, List.length_append,
    List.length_append]
  have short := (List.takeWhile_prefix (l := rest) isBlank).length_le
  omega

theorem char?_within {c : Char} {a b text : List Char} (ha : a ≠ [])
    (found : char? c (a ++ b) = some text) : text.length ≤ a.length := by
  cases a with
  | nil => exact absurd rfl ha
  | cons d cs =>
    have read : char? c (d :: cs) = some text := found
    exact (prefixed_char? c _ _ read).2.length_le

theorem subAttribute?_within {a b text : List Char} (hb : Stops b) (ha : a ≠ [])
    (found : subAttribute? (a ++ b) = some text) : text.length ≤ a.length := by
  cases a with
  | nil => exact absurd rfl ha
  | cons c rest =>
    by_cases dot : c = '.'
    · subst dot
      have same : (rest ++ b).takeWhile isSegment = rest.takeWhile isSegment :=
        takeWhile_append_of_stops (fun _ => isSegment_eq_false_of_isStop) rest hb
      simp only [List.cons_append, subAttribute?, same] at found
      split at found
      · cases found
      · obtain rfl := Option.some.inj found
        exact Nat.succ_le_succ (List.takeWhile_prefix _).length_le
    · simp [subAttribute?, dot] at found

theorem subAttribute?_append {a b text : List Char} (found : subAttribute? a = some text)
    (hb : ∀ c ∈ b, isBlank c = true) : subAttribute? (a ++ b) = some text := by
  have stops : Stops b := by
    intro c hc
    exact isStop_of_isBlank (hb c (List.mem_of_mem_head? hc))
  cases a with
  | nil => cases found
  | cons c rest =>
    by_cases dot : c = '.'
    · subst dot
      have same : (rest ++ b).takeWhile isSegment = rest.takeWhile isSegment :=
        takeWhile_append_of_stops (fun _ => isSegment_eq_false_of_isStop) rest stops
      have blank : b.all isBlank = true := List.all_eq_true.mpr hb
      simp only [List.cons_append, subAttribute?, same] at found ⊢
      rwa [List.drop_append_of_le_length (List.takeWhile_prefix _).length_le, List.all_append,
        blank, Bool.and_true]
    · simp [subAttribute?, dot] at found

end Lexeme

open Lexeme

theorem Kind.lexeme?_quote {kind : Kind} (h : kind ≠ .string) (cs : List Char) :
    kind.lexeme? ('"' :: cs) = none := by
  cases kind with
  | string => exact absurd rfl h
  | _ => rfl

theorem Kind.lexeme?_within {kind : Kind} (h : kind ≠ .string) {a b text : List Char}
    (hb : Stops b) (mark : Marked a) (found : kind.lexeme? (a ++ b) = some text) :
    text.length ≤ a.length := by
  have long : a ≠ [] := by
    rintro rfl
    obtain ⟨c, mem, -⟩ := mark
    cases mem
  have alone {read : List Char → Option (List Char)} (hp : Prefixed read)
      (same : read (a ++ b) = read a) (run : read (a ++ b) = some text) :
      text.length ≤ a.length := by
    rw [same] at run
    exact (hp a text run).2.length_le
  cases kind with
  | string => exact absurd rfl h
  | number => exact alone prefixed_number? (number?_append a hb) found
  | boolean => exact alone (prefixed_literal? (by decide)) (literal?_append (by decide) a hb) found
  | null => exact alone (prefixed_literal? (by decide)) (literal?_append (by decide) a hb) found
  | openParen | closeParen | openBracket | closeBracket => exact char?_within long found
  | negation => exact negation?_within hb mark found
  | logical => exact logical?_within hb mark found
  | comparison => exact comparison?_within hb mark found
  | name => exact alone prefixed_name? (name?_append a hb) found
  | subAttribute => exact subAttribute?_within hb long found

/-! ## Blanks at the start -/

theorem Kind.lexeme?_blank {kind : Kind} (h : kind ≠ .logical) (h' : kind ≠ .comparison) {c : Char}
    (hc : isBlank c = true) (cs : List Char) : kind.lexeme? (c :: cs) = none := by
  have stops : Stops (c :: cs) := stops_cons (isStop_of_isBlank hc)
  have other (mark : Char) (solid : isBlank mark = false) : c ≠ mark := by
    rintro rfl
    rw [hc] at solid
    cases solid
  cases kind with
  | logical => exact absurd rfl h
  | comparison => exact absurd rfl h'
  | number => exact number?_append [] stops
  | string =>
    have notQuote : c ≠ '"' := other '"' rfl
    simp [lexeme?, string?, notQuote]
  | boolean => exact literal?_append (by decide) [] stops
  | null => exact literal?_append (by decide) [] stops
  | openParen => exact if_neg (other '(' rfl)
  | closeParen => exact if_neg (other ')' rfl)
  | openBracket => exact if_neg (other '[' rfl)
  | closeBracket => exact if_neg (other ']' rfl)
  | negation =>
    have none : word? ['n', 'o', 't'] (c :: cs) = none := word?_of_stops (by decide) stops
    show negation? (c :: cs) = _
    unfold negation?
    rw [none]
    rfl
  | name => exact name?_append [] stops
  | subAttribute =>
    have notDot : c ≠ '.' := other '.' rfl
    simp [lexeme?, subAttribute?, notDot]

theorem Mode.operators_mem_kinds (mode : Mode) :
    .logical ∈ mode.kinds ∧ .comparison ∈ mode.kinds := by
  cases mode <;> decide

theorem Mode.lexeme?_blank_eq_none_iff {mode : Mode} {c : Char} (hc : isBlank c = true)
    {cs : List Char} : mode.lexeme? (c :: cs) = none ↔
      logical? (c :: cs) = none ∧ comparison? (c :: cs) = none := by
  unfold Mode.lexeme?
  rw [List.findSome?_eq_none_iff]
  constructor
  · intro missed
    have none {kind : Kind} (mem : kind ∈ mode.kinds) : kind.lexeme? (c :: cs) = none :=
      Option.map_eq_none_iff.mp (missed kind mem)
    exact ⟨none mode.operators_mem_kinds.1, none mode.operators_mem_kinds.2⟩
  · rintro ⟨notLogical, notComparison⟩ kind -
    rw [Option.map_eq_none_iff]
    by_cases logical : kind = .logical
    · subst logical
      exact notLogical
    · by_cases comparison : kind = .comparison
      · subst comparison
        exact notComparison
      · exact Kind.lexeme?_blank logical comparison hc cs

/-! ## Lexemes before a cut -/

theorem Mode.lexeme?_append {mode : Mode} {a b text : List Char} {kind : Kind} (hb : Behind b)
    (mark : Marked a) (found : mode.lexeme? a = some (kind, text))
    (sub : kind = .subAttribute → ∀ c ∈ b, isBlank c = true) :
    mode.lexeme? (a ++ b) = some (kind, text) := by
  have run := (Mode.exists_of_lexeme?_eq_some found).1
  have mem : kind ∈ mode.kinds := by
    obtain ⟨k, mem, hit⟩ := List.exists_of_findSome?_eq_some found
    obtain ⟨text', -, same⟩ := Option.map_eq_some_iff.mp hit
    rw [← (Prod.mk.inj same).1]
    exact mem
  -- the kind still has a run, so there is a lexeme
  have goesOn : ∃ more, kind.lexeme? (a ++ b) = some more := by
    by_cases last : kind = .subAttribute
    · subst last
      exact ⟨text, subAttribute?_append run (sub rfl)⟩
    · exact (Kind.cuttable_lexeme? last).extend hb run
  obtain ⟨more, goesOn⟩ := goesOn
  obtain ⟨⟨kind', text'⟩, found'⟩ : ∃ x, mode.lexeme? (a ++ b) = some x := by
    refine Option.isSome_iff_exists.mp (List.findSome?_isSome_iff.mpr ⟨kind, mem, ?_⟩)
    rw [goesOn]
    rfl
  -- and it ends before the cut
  have run' := (Mode.exists_of_lexeme?_eq_some found').1
  have short : text'.length ≤ a.length := by
    by_cases string : kind' = .string
    · subst string
      have quoted : ∃ cs, a = '"' :: cs := by
        cases a with
        | nil =>
          obtain ⟨c, none, -⟩ := mark
          cases none
        | cons c cs =>
          by_cases quote : c = '"'
          · exact ⟨cs, by rw [quote]⟩
          · have none : string? (c :: (cs ++ b)) = none := by simp [string?, quote]
            change string? (c :: (cs ++ b)) = _ at run'
            rw [none] at run'
            cases run'
      obtain ⟨cs, rfl⟩ := quoted
      have isString : kind = .string := by
        by_cases string : kind = .string
        · exact string
        · rw [Kind.lexeme?_quote string] at run
          cases run
      subst isString
      have alone : string? ('"' :: cs) = some text := run
      have same : string? ('"' :: cs ++ b) = some text := string?_append alone b
      have read : string? ('"' :: cs ++ b) = some text' := run'
      rw [same] at read
      rw [← Option.some.inj read]
      exact (prefixed_string? _ _ alone).2.length_le
    · exact Kind.lexeme?_within string hb.stops mark run'
  have alone := Mode.lexeme?_of_append hb found' short
  rw [found] at alone
  rw [found', alone]

theorem Mode.lexeme?_append_eq_none {mode : Mode} {c : Char} {a b : List Char} (hb : Behind b)
    (hc : isBlank c = true) (mark : Marked (c :: a)) (missed : mode.lexeme? (c :: a) = none) :
    mode.lexeme? (c :: a ++ b) = none := by
  cases found : mode.lexeme? (c :: a ++ b) with
  | none => rfl
  | some lexeme =>
    obtain ⟨kind, text⟩ := lexeme
    have run := (Mode.exists_of_lexeme?_eq_some found).1
    have other : kind ≠ .string := by
      rintro rfl
      have none : Kind.string.lexeme? (c :: (a ++ b)) = none :=
        Kind.lexeme?_blank (by decide) (by decide) hc (a ++ b)
      rw [List.cons_append, none] at run
      cases run
    have short := Kind.lexeme?_within other hb.stops mark run
    have alone := Mode.lexeme?_of_append hb found short
    rw [missed] at alone
    cases alone

/-! ## Ends of groups -/

/-- Blanks, and then the end of the text or a closing parenthesis or bracket. -/
def Trails (b : List Char) : Prop := ∀ c ∈ (b.dropWhile isBlank).head?, c = ')' ∨ c = ']'

theorem trails_of_blank {b : List Char} (h : ∀ c ∈ b, isBlank c = true) : Trails b := by
  have gone : (b ++ []).dropWhile isBlank = [] := List.dropWhile_append_of_pos h
  rw [List.append_nil] at gone
  intro c hc
  rw [gone] at hc
  cases hc

theorem Trails.blanks {w b : List Char} (hw : ∀ c ∈ w, isBlank c = true) (hb : Trails b) :
    Trails (w ++ b) := by
  unfold Trails
  rw [List.dropWhile_append_of_pos hw]
  exact hb

theorem trails_cons {c : Char} (h : c = ')' ∨ c = ']') (cs : List Char) : Trails (c :: cs) := by
  have other : isBlank c = false := by rcases h with rfl | rfl <;> decide
  intro d hd
  rw [List.dropWhile_cons, if_neg (by rw [other]; decide)] at hd
  obtain rfl := Option.some.inj hd
  exact h

theorem Trails.stops {b : List Char} (h : Trails b) : Stops b := by
  cases b with
  | nil => exact stops_nil
  | cons c cs =>
    apply stops_cons
    by_cases hc : isBlank c = true
    · exact isStop_of_isBlank hc
    · have first : (c :: cs).dropWhile isBlank = c :: cs := by rw [List.dropWhile_cons, if_neg hc]
      have closes := h c (by rw [first]; rfl)
      rcases closes with rfl | rfl <;> rfl

theorem Trails.behind {b : List Char} (h : Trails b) : Behind b := by
  refine ⟨h.stops, ?_⟩
  intro opens
  cases b with
  | nil => cases opens
  | cons c cs =>
    obtain rfl := Option.some.inj opens
    rcases h '(' rfl with same | same <;> cases same

theorem Trails.lexeme?_eq_none {mode : Mode} {c : Char} {b : List Char} (hc : isBlank c = true)
    (h : Trails (c :: b)) : mode.lexeme? (c :: b) = none := by
  rw [Mode.lexeme?_blank_eq_none_iff hc]
  have later : Trails b := by
    intro d hd
    exact h d (by rwa [List.dropWhile_cons, if_pos hc])
  have rest : Stops ((c :: b).dropWhile isBlank) := by
    intro d hd
    rcases h d hd with rfl | rfl <;> rfl
  constructor
  · unfold logical?
    dsimp only
    rw [drop_length_takeWhile, spacedWord?_of_stops (by decide) rest]
    split <;> rfl
  · rw [comparison?, if_pos hc, spacedWord?_of_stops (by decide) later.stops,
      word?_of_stops (by decide) later.stops]
    rfl

/-! ## Tokens before a cut -/

theorem Tiles.isBlank_of_nil {mode : Mode} {p : Int} {cs : List Char} (h : Tiles mode p cs []) :
    ∀ c ∈ cs, isBlank c = true := by
  generalize none : ([] : List Token) = ts at h
  induction h with
  | nil p => nofun
  | blank _ hc _ ih =>
    intro d hd
    rcases List.mem_cons.mp hd with rfl | hd
    · exact hc
    · exact ih none d hd
  | token _ _ => cases none

theorem Tiles.marked {mode : Mode} {p : Int} {cs : List Char} {ts : List Token}
    (h : Tiles mode p cs ts) {t : Token} (mem : t ∈ ts) (mark : Marked t.text) : Marked cs := by
  induction h with
  | nil p => cases mem
  | blank _ _ _ ih => exact (ih mem).append_left [_]
  | @token p kind text cs ts _ _ ih =>
    rcases List.mem_cons.mp mem with rfl | mem
    · exact mark.append_right cs
    · exact (ih mem).append_left text

/-- **The tokens of a text and of the text behind it**, if the last token in front cannot go on. -/
theorem Tiles.append {mode : Mode} {p : Int} {a b : List Char} {ts us : List Token}
    (h : Tiles mode p a ts) (last : ∀ t ∈ ts.getLast?, Marked t.text) (hb : Trails b)
    (sub : (∃ t ∈ ts, t.kind = .subAttribute) → ∀ c ∈ b, isBlank c = true)
    (h' : Tiles mode (p + a.length) b us) : Tiles mode p (a ++ b) (ts ++ us) := by
  induction h with
  | nil p => simpa using h'
  | @blank p c cs ts missed hc rest ih =>
    have behind : Tiles mode (p + 1) (cs ++ b) (ts ++ us) := by
      have place : p + (c :: cs).length = p + 1 + cs.length := by
        rw [List.length_cons]
        omega
      exact ih last sub (place ▸ h')
    refine .blank ?_ hc behind
    cases ts with
    | nil =>
      have blanks : ∀ d ∈ c :: cs, isBlank d = true := by
        intro d hd
        rcases List.mem_cons.mp hd with rfl | hd
        · exact hc
        · exact rest.isBlank_of_nil d hd
      exact Trails.lexeme?_eq_none hc (hb.blanks blanks)
    | cons t ts =>
      obtain ⟨final, isLast⟩ : ∃ final, (t :: ts).getLast? = some final :=
        ⟨_, List.getLast?_eq_some_getLast (List.cons_ne_nil t ts)⟩
      have mark := rest.marked (List.mem_of_getLast? isLast) (last final isLast)
      exact Mode.lexeme?_append_eq_none hb.behind hc (mark.append_left [c]) missed
  | @token p kind text cs ts found rest ih =>
    have behind : Tiles mode (p + text.length) (cs ++ b) (ts ++ us) := by
      have place : p + (text ++ cs).length = p + text.length + cs.length := by
        rw [List.length_append]
        omega
      refine ih ?_ ?_ (place ▸ h')
      · intro t ht
        cases ts with
        | nil => cases ht
        | cons t' ts => exact last t (by rwa [List.getLast?_cons_cons])
      · rintro ⟨t, mem, isSub⟩
        exact sub ⟨t, List.mem_cons_of_mem _ mem, isSub⟩
    obtain ⟨final, isLast⟩ : ∃ final, (⟨kind, text, p⟩ :: ts : List Token).getLast? = some final :=
      ⟨_, List.getLast?_eq_some_getLast (List.cons_ne_nil _ ts)⟩
    have whole : Tiles mode p (text ++ cs) (⟨kind, text, p⟩ :: ts) := .token found rest
    have mark := whole.marked (List.mem_of_getLast? isLast) (last final isLast)
    have stays := Mode.lexeme?_append hb.behind mark found
      fun isSub => sub ⟨_, List.mem_cons_self .., isSub⟩
    rw [List.append_assoc] at stays ⊢
    exact .token stays behind

end Scim
