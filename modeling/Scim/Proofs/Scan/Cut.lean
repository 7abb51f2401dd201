import Scim.Proofs.Scan.Lexeme

/-!
# Cutting a text before a blank or a bracket

A text is cut into `a` and `b`, where `b` is empty or begins with a blank or with a parenthesis or
bracket (`Stops b`); if this is no opening parenthesis, for which `not` looks ahead, a cut there
keeps the runs (`Behind b`).

* `Cuttable`                 a run that lies within `a` is also the run of `a` alone, and no run
                             appears because of the cut;
* `Kind.cuttable_lexeme?`    so it is for every kind but the sub-attribute, which looks ahead to the
                             end of the text;
* `Mode.lexeme?_of_append`   a lexeme that lies within `a` is the lexeme of `a` alone;
* `Mode.lexeme?_cut_none`    a blank that begins no lexeme begins none after the cut.
-/

namespace Scim

open Text

namespace Lexeme

/-! ## The characters before which a text is cut -/

/-- A blank, a parenthesis or a bracket. -/
def isStop (c : Char) : Bool := isBlank c || c == '(' || c == ')' || c == '[' || c == ']'

theorem isStop_of_isBlank {c : Char} (h : isBlank c = true) : isStop c = true := by
  simp [isStop, h]

theorem isStop_eq_false_iff {c : Char} : isStop c = false ↔
    isBlank c = false ∧ c ≠ '(' ∧ c ≠ ')' ∧ c ≠ '[' ∧ c ≠ ']' := by
  simp [isStop, and_assoc]

def stopCodes : List Nat :=
  [0x28, 0x29, 0x5b, 0x5d] ++ List.range' 0x9 5 ++ List.range' 0x1c 5 ++ [0x85, 0xa0, 0x1680] ++
    List.range' 0x2000 11 ++ [0x2028, 0x2029, 0x202f, 0x205f, 0x3000]

theorem toNat_mem_stopCodes {c : Char} (h : isStop c = true) : c.toNat ∈ stopCodes := by
  simp only [isStop, isBlank, Bool.or_eq_true, decide_eq_true_eq, beq_iff_eq] at h
  simp only [stopCodes, List.mem_append, List.mem_range'_1, List.mem_cons, List.not_mem_nil,
    or_false]
  rcases h with (((h | rfl) | rfl) | rfl) | rfl
  · omega
  all_goals decide

theorem forall_isStop {P : Char → Prop} (h : ∀ n ∈ stopCodes, P (Char.ofNat n)) {c : Char}
    (hc : isStop c = true) : P c := by
  have listed := h c.toNat (toNat_mem_stopCodes hc)
  rwa [Char.ofNat_toNat] at listed

theorem isDigit_eq_false_of_isStop {c : Char} (h : isStop c = true) : isDigit c = false :=
  forall_isStop (P := fun c => isDigit c = false) (by decide) h

theorem isSegment_eq_false_of_isStop {c : Char} (h : isStop c = true) : isSegment c = false :=
  forall_isStop (P := fun c => isSegment c = false) (by decide) h

theorem isSchema_eq_false_of_isStop {c : Char} (h : isStop c = true) : isSchema c = false :=
  forall_isStop (P := fun c => isSchema c = false) (by decide) h

theorem continuesName_eq_false_of_isStop {c : Char} (h : isStop c = true) :
    continuesName c = false :=
  forall_isStop (P := fun c => continuesName c = false) (by decide) h

theorem isStop_eq_false_of_continuesName {c : Char} (h : continuesName c = true) :
    isStop c = false := by
  cases stop : isStop c with
  | false => rfl
  | true =>
    rw [continuesName_eq_false_of_isStop stop] at h
    cases h

/-- what goes on a name is no blank, parenthesis, bracket or quotation mark -/
theorem isSchema_of_continuesName {c : Char} (h : continuesName c = true) : isSchema c = true := by
  have solid := isStop_eq_false_iff.mp (isStop_eq_false_of_continuesName h)
  have notQuote : c ≠ '"' := by
    rintro rfl
    cases h
  simp [isSchema, solid, notQuote]

theorem foldLetter_of_isStop {c : Char} (h : isStop c = true) : foldLetter c = c :=
  forall_isStop (P := fun c => foldLetter c = c) (by decide) h

/-- The rest of a text, empty or from a blank, a parenthesis or a bracket on. -/
def Stops (b : List Char) : Prop := ∀ c ∈ b.head?, isStop c = true

theorem stops_nil : Stops [] := by
  intro c h
  cases h

theorem stops_cons {c : Char} {cs : List Char} (h : isStop c = true) : Stops (c :: cs) := by
  intro d hd
  obtain rfl := Option.some.inj hd
  exact h

/-- Such a rest that does not begin with an opening parenthesis. -/
structure Behind (b : List Char) : Prop where
  stops : Stops b
  closed : b.head? ≠ some '('

/-- a run of characters that are no stops does not go on behind the cut -/
theorem takeWhile_append_of_stops {p : Char → Bool} (hp : ∀ c, isStop c = true → p c = false)
    (a : List Char) {b : List Char} (hb : Stops b) : (a ++ b).takeWhile p = a.takeWhile p := by
  have behind : b.takeWhile p = [] := by
    cases b with
    | nil => rfl
    | cons c cs => rw [List.takeWhile_cons, hp c (hb c rfl), if_neg Bool.false_ne_true]
  rw [List.takeWhile_append]
  split
  · next whole =>
    rw [behind, List.append_nil]
    exact ((List.takeWhile_prefix p).eq_of_length whole).symm
  · rfl

theorem takeWhile_of_append {p : Char → Bool} {a b : List Char}
    (h : ((a ++ b).takeWhile p).length ≤ a.length) : a.takeWhile p = (a ++ b).takeWhile p := by
  rw [List.takeWhile_append] at h ⊢
  split
  · next whole =>
    rw [if_pos whole, List.length_append] at h
    have behind : b.takeWhile p = [] := List.length_eq_zero_iff.mp (by omega)
    rw [behind, List.append_nil]
    exact (List.takeWhile_prefix p).eq_of_length whole
  · rfl

theorem takeWhile_append_ne_nil {p : Char → Bool} {a : List Char} (b : List Char)
    (h : a.takeWhile p ≠ []) : (a ++ b).takeWhile p ≠ [] := by
  rw [List.takeWhile_append]
  split
  · next whole =>
    intro e
    have none : a = [] := (List.append_eq_nil_iff.mp e).1
    exact h (by rw [none]; rfl)
  · exact h

/-! ## Words and numbers -/

/-- a word without blanks, parentheses and brackets -/
def isPlain (word : List Char) : Bool := word.all fun c => !isStop c

theorem isStop_eq_false_of_isPlain {word : List Char} {c : Char} (h : isPlain word = true)
    (hc : c ∈ word) : isStop c = false := by
  have plain := List.all_eq_true.mp h c hc
  simpa using plain

theorem word?_append {word : List Char} (hw : isPlain word = true) (a : List Char)
    {b : List Char} (hb : Stops b) : word? word (a ++ b) = word? word a := by
  apply Option.ext
  intro text
  rw [word?_eq_some_iff, word?_eq_some_iff]
  constructor
  · rintro ⟨pre, spelled⟩
    refine ⟨?_, spelled⟩
    by_cases short : text.length ≤ a.length
    · exact List.prefix_of_prefix_length_le pre (List.prefix_append a b) short
    · -- otherwise the first character behind the cut belongs to the word
      exfalso
      obtain ⟨more, rfl⟩ : a <+: text :=
        List.prefix_of_prefix_length_le (List.prefix_append a b) pre (by omega)
      have behind : more <+: b := (List.prefix_append_right_inj a).mp pre
      cases more with
      | nil => simp at short
      | cons c more =>
        obtain ⟨rest, rfl⟩ := behind
        have stop : isStop c = true := hb c rfl
        have mem : foldLetter c ∈ word := by
          rw [← spelled]
          exact List.mem_map_of_mem (List.mem_append_right a List.mem_cons_self)
        have plain := isStop_eq_false_of_isPlain hw mem
        rw [foldLetter_of_isStop stop, stop] at plain
        cases plain
  · rintro ⟨pre, spelled⟩
    exact ⟨pre.trans (List.prefix_append a b), spelled⟩

/-- words of which none is empty and each is plain -/
def PlainWords (words : List (List Char)) : Prop :=
  [] ∉ words ∧ ∀ word ∈ words, isPlain word = true

instance (words : List (List Char)) : Decidable (PlainWords words) :=
  inferInstanceAs (Decidable (_ ∧ _))

theorem anyWord?_append {words : List (List Char)} (hw : PlainWords words) (a : List Char)
    {b : List Char} (hb : Stops b) : anyWord? words (a ++ b) = anyWord? words a := by
  obtain ⟨-, hw⟩ := hw
  unfold anyWord?
  induction words with
  | nil => rfl
  | cons word words ih =>
    rw [List.findSome?_cons, List.findSome?_cons,
      word?_append (hw word List.mem_cons_self) a hb,
      ih fun word' mem => hw word' (List.mem_cons_of_mem word mem)]

theorem literal?_append {words : List (List Char)} (hw : PlainWords words) (a : List Char)
    {b : List Char} (hb : Stops b) : literal? words (a ++ b) = literal? words a := by
  unfold literal?
  rw [anyWord?_append hw a hb]
  cases found : anyWord? words a with
  | none => rfl
  | some text =>
    obtain ⟨-, rest, rfl⟩ := prefixed_anyWord? hw.1 a text found
    rw [List.append_assoc]
    simp only [Option.filter_some, List.drop_left]
    cases rest with
    | cons c rest => rfl
    | nil =>
      cases b with
      | nil => rfl
      | cons c cs => simp [continuesName_eq_false_of_isStop (hb c rfl)]

theorem number?_append (a : List Char) {b : List Char} (hb : Stops b) :
    number? (a ++ b) = number? a := by
  have digits := fun cs =>
    takeWhile_append_of_stops (p := isDigit) (fun _ => isDigit_eq_false_of_isStop) cs hb
  have point : ∀ c, isStop c = true → c ≠ '.' := by
    rintro c stop rfl
    cases stop
  unfold number?
  dsimp only
  rw [digits a, List.drop_append_of_le_length (List.takeWhile_prefix _).length_le]
  by_cases bare : (a.takeWhile isDigit).isEmpty = true
  · rw [if_pos bare, if_pos bare]
  · rw [if_neg bare, if_neg bare]
    cases a.drop (a.takeWhile isDigit).length with
    | nil =>
      cases b with
      | nil => rfl
      | cons c cs =>
        have other : c ≠ '.' := point c (hb c rfl)
        simp [other]
    | cons c rest =>
      by_cases dot : c = '.'
      · subst dot
        simp only [List.cons_append, digits rest]
      · simp [dot]

/-! ## Names -/

theorem head?_append_any_of_stops {p : Char → Bool} (hp : ∀ c, isStop c = true → p c = false)
    (a : List Char) {b : List Char} (hb : Stops b) : (a ++ b).head?.any p = a.head?.any p := by
  cases a with
  | cons c cs => rfl
  | nil =>
    cases b with
    | nil => rfl
    | cons c cs => simp [hp c (hb c rfl)]

theorem dottedTail_append (a : List Char) {b : List Char} (hb : Stops b) :
    dottedTail (a ++ b) = dottedTail a := by
  have segment : ∀ c, isStop c = true → isSegment c = false :=
    fun _ => isSegment_eq_false_of_isStop
  induction a with
  | nil =>
    cases b with
    | nil => rfl
    | cons c cs =>
      have stop := hb c rfl
      have other : c ≠ '.' := by
        rintro rfl
        cases stop
      simp [dottedTail, segment c stop, other]
  | cons c cs ih =>
    rw [List.cons_append, dottedTail, dottedTail, ih, head?_append_any_of_stops segment cs hb]

theorem dotted?_append (a : List Char) {b : List Char} (hb : Stops b) :
    dotted? (a ++ b) = dotted? a := by
  unfold dotted?
  rw [head?_append_any_of_stops (fun _ => isSegment_eq_false_of_isStop) a hb,
    dottedTail_append a hb]

theorem qualifiedTail?_append (a : List Char) {b : List Char} (hb : Stops b) :
    qualifiedTail? (a ++ b) = qualifiedTail? a := by
  induction a with
  | nil =>
    cases b with
    | nil => rfl
    | cons c cs => simp [qualifiedTail?, isSchema_eq_false_of_isStop (hb c rfl)]
  | cons c cs ih => rw [List.cons_append, qualifiedTail?, qualifiedTail?, ih, dotted?_append cs hb]

theorem qualified?_append (a : List Char) {b : List Char} (hb : Stops b) :
    qualified? (a ++ b) = qualified? a := by
  cases a with
  | nil =>
    cases b with
    | nil => rfl
    | cons c cs => simp [qualified?, isSchema_eq_false_of_isStop (hb c rfl)]
  | cons c cs => rw [List.cons_append, qualified?, qualified?, qualifiedTail?_append cs hb]

theorem name?_append (a : List Char) {b : List Char} (hb : Stops b) :
    name? (a ++ b) = name? a := by
  rw [name?_eq, name?_eq, qualified?_append a hb, dotted?_append a hb]

/-! ## Readers that can be cut -/

theorem Prefixed.ne_nil_of_short {read : List Char → Option (List Char)} (h : Prefixed read)
    {cs a text : List Char} (found : read cs = some text) (short : text.length ≤ a.length) :
    a ≠ [] := by
  rintro rfl
  exact (h cs text found).1 (List.eq_nil_of_length_eq_zero (Nat.le_zero.mp short))

/-- What a cut before `b` does to a reader of runs: a run within `a` stays, and none appears. -/
structure Cuttable (read : List Char → Option (List Char)) : Prop where
  shorten : ∀ {a b text}, Behind b → read (a ++ b) = some text → text.length ≤ a.length →
    read a = some text
  extend : ∀ {a b text}, Behind b → read a = some text → ∃ more, read (a ++ b) = some more

theorem Cuttable.of_append {read : List Char → Option (List Char)}
    (h : ∀ a b, Stops b → read (a ++ b) = read a) : Cuttable read where
  shorten hb found _ := by rwa [h _ _ hb.stops] at found
  extend hb found := ⟨_, by rwa [h _ _ hb.stops]⟩

theorem Cuttable.eq_none {read : List Char → Option (List Char)} (h : Cuttable read)
    {a b : List Char} (hb : Behind b) (missed : read (a ++ b) = none) : read a = none := by
  cases found : read a with
  | none => rfl
  | some text =>
    obtain ⟨more, behind⟩ := h.extend hb found
    rw [missed] at behind
    cases behind

theorem cuttable_char? (c : Char) : Cuttable (char? c) where
  shorten := by
    intro a b text _ found short
    cases a with
    | nil =>
      exact absurd rfl ((prefixed_char? c).ne_nil_of_short found short)
    | cons d cs => exact found
  extend := by
    intro a b text _ found
    cases a with
    | nil => cases found
    | cons d cs => exact ⟨text, found⟩

theorem string?_of_append {a b text : List Char} (found : string? (a ++ b) = some text)
    (short : text.length ≤ a.length) : string? a = some text := by
  cases a with
  | nil =>
    exact absurd rfl (prefixed_string?.ne_nil_of_short found short)
  | cons c rest =>
    rw [List.cons_append] at found
    by_cases quote : c = '"'
    · subst quote
      obtain ⟨-, rfl⟩ := string?_cons_eq_some_iff.mp found
      simp only [List.length_cons, List.length_append, List.length_nil] at short
      have within : ((rest ++ b).takeWhile (· != '"')).length ≤ rest.length := by omega
      rw [string?_cons_eq_some_iff, takeWhile_of_append within]
      exact ⟨by omega, rfl⟩
    · simp [string?, quote] at found

theorem string?_append {a text : List Char} (h : string? a = some text) (b : List Char) :
    string? (a ++ b) = some text := by
  cases a with
  | nil => cases h
  | cons c rest =>
    by_cases quote : c = '"'
    · subst quote
      obtain ⟨closed, rfl⟩ := string?_cons_eq_some_iff.mp h
      have same : (rest ++ b).takeWhile (· != '"') = rest.takeWhile (· != '"') := by
        rw [List.takeWhile_append, if_neg (by omega)]
      rw [List.cons_append]
      refine string?_cons_eq_some_iff.mpr ⟨?_, by rw [same]⟩
      rw [same, List.length_append]
      omega
    · simp [string?, quote] at h

theorem cuttable_string? : Cuttable string? where
  shorten _ := string?_of_append
  extend _ found := ⟨_, string?_append found _⟩

theorem cuttable_spacedWord? {words : List (List Char)} (hw : PlainWords words) :
    Cuttable (spacedWord? words) where
  shorten := by
    intro a b text hb found short
    obtain ⟨word, spelled, blank, rfl⟩ := spacedWord?_eq_some_iff.mp found
    rw [anyWord?_append hw a hb.stops] at spelled
    obtain ⟨-, rest, rfl⟩ := prefixed_anyWord? hw.1 a word spelled
    rw [List.append_assoc, List.drop_left] at blank short ⊢
    simp only [List.length_append, Nat.add_le_add_iff_left] at short
    rw [← takeWhile_of_append short] at blank ⊢
    exact spacedWord?_eq_some_iff.mpr ⟨word, spelled, by rwa [List.drop_left],
      by rw [List.drop_left]⟩
  extend := by
    intro a b text hb found
    obtain ⟨word, spelled, blank, -⟩ := spacedWord?_eq_some_iff.mp found
    obtain ⟨-, rest, rfl⟩ := prefixed_anyWord? hw.1 a word spelled
    rw [List.drop_left] at blank
    refine ⟨_, spacedWord?_eq_some_iff.mpr
      ⟨word, by rw [anyWord?_append hw _ hb.stops, spelled], ?_, rfl⟩⟩
    rw [List.append_assoc, List.drop_left]
    exact takeWhile_append_ne_nil b blank

theorem cuttable_logical? : Cuttable logical? where
  shorten := by
    intro a b text hb found short
    obtain ⟨blank, word, spelled, rfl⟩ := logical?_eq_some_iff.mp found
    rw [List.length_append] at short
    have within : ((a ++ b).takeWhile isBlank).length ≤ a.length := by omega
    rw [List.drop_append_of_le_length within] at spelled
    rw [← takeWhile_of_append within] at blank spelled short ⊢
    have alone := (cuttable_spacedWord? (by decide)).shorten hb spelled
      (by rw [List.length_drop]; omega)
    exact logical?_eq_some_iff.mpr ⟨blank, word, alone, rfl⟩
  extend := by
    intro a b text hb found
    obtain ⟨blank, word, spelled, -⟩ := logical?_eq_some_iff.mp found
    obtain ⟨more, spelled'⟩ := (cuttable_spacedWord? (by decide)).extend hb spelled
    -- a word follows the blanks, so they do not reach the cut
    have inside : (a.takeWhile isBlank).length ≠ a.length := by
      intro whole
      rw [whole, List.drop_length] at spelled
      cases spelled
    have same : (a ++ b).takeWhile isBlank = a.takeWhile isBlank := by
      rw [List.takeWhile_append, if_neg inside]
    refine ⟨_, logical?_eq_some_iff.mpr ⟨by rwa [same], more, ?_, rfl⟩⟩
    rw [same, List.drop_append_of_le_length (List.takeWhile_prefix _).length_le]
    exact spelled'

theorem cuttable_comparison? : Cuttable comparison? where
  shorten := by
    intro a b text hb found short
    cases a with
    | nil =>
      exact absurd rfl (prefixed_comparison?.ne_nil_of_short found short)
    | cons c rest =>
      rw [List.cons_append] at found
      obtain ⟨blank, word, spelled, rfl⟩ := comparison?_cons_eq_some_iff.mp found
      refine comparison?_cons_eq_some_iff.mpr ⟨blank, word, ?_, rfl⟩
      rcases spelled with spaced | ⟨missed, presence⟩
      · exact .inl ((cuttable_spacedWord? (by decide)).shorten hb spaced
          (Nat.le_of_succ_le_succ short))
      · rw [word?_append (by decide) rest hb.stops] at presence
        exact .inr ⟨(cuttable_spacedWord? (by decide)).eq_none hb missed, presence⟩
  extend := by
    intro a b text hb found
    cases a with
    | nil => cases found
    | cons c rest =>
      obtain ⟨blank, word, spelled, -⟩ := comparison?_cons_eq_some_iff.mp found
      have behind : ∃ more, (spacedWord? comparisonWords (rest ++ b) = some more ∨
          spacedWord? comparisonWords (rest ++ b) = none ∧
            word? ['p', 'r'] (rest ++ b) = some more) := by
        rcases spelled with spaced | ⟨-, presence⟩
        · obtain ⟨more, found'⟩ := (cuttable_spacedWord? (by decide)).extend hb spaced
          exact ⟨more, .inl found'⟩
        · rw [← word?_append (by decide) rest hb.stops] at presence
          cases spaced : spacedWord? comparisonWords (rest ++ b) with
          | none => exact ⟨word, .inr ⟨rfl, presence⟩⟩
          | some more => exact ⟨more, .inl rfl⟩
      obtain ⟨more, spelled'⟩ := behind
      exact ⟨_, comparison?_cons_eq_some_iff.mpr ⟨blank, more, spelled', rfl⟩⟩

theorem cuttable_negation? : Cuttable negation? where
  shorten := by
    intro a b text hb found short
    obtain ⟨word, spelled, mark, rfl⟩ := negation?_eq_some_iff.mp found
    rw [word?_append (by decide) a hb.stops] at spelled
    obtain ⟨-, rest, rfl⟩ := prefixed_word? (by decide) a word spelled
    rw [List.append_assoc, List.drop_left] at mark short ⊢
    simp only [List.length_append, Nat.add_le_add_iff_left] at short
    rw [← takeWhile_of_append short] at mark ⊢
    refine negation?_eq_some_iff.mpr ⟨word, spelled, ?_, by rw [List.drop_left]⟩
    rw [List.drop_left]
    refine mark.imp_right fun paren => ?_
    cases rest with
    | cons c rest => exact paren
    | nil => exact absurd paren hb.closed
  extend := by
    intro a b text hb found
    obtain ⟨word, spelled, mark, -⟩ := negation?_eq_some_iff.mp found
    obtain ⟨-, rest, rfl⟩ := prefixed_word? (by decide) a word spelled
    rw [List.drop_left] at mark
    have stays : word? ['n', 'o', 't'] (word ++ rest ++ b) = some word := by
      rw [word?_append (by decide) _ hb.stops, spelled]
    refine ⟨_, negation?_eq_some_iff.mpr ⟨word, stays, ?_, rfl⟩⟩
    rw [List.append_assoc, List.drop_left]
    rcases mark with blank | paren
    · exact .inl (takeWhile_append_ne_nil b blank)
    · cases rest with
      | nil => cases paren
      | cons c rest => exact .inr paren

end Lexeme

open Lexeme

/-! ## Kinds and languages -/

theorem Kind.cuttable_lexeme? {kind : Kind} (h : kind ≠ .subAttribute) :
    Cuttable kind.lexeme? := by
  cases kind with
  | number => exact .of_append fun a _ hb => number?_append a hb
  | string => exact cuttable_string?
  | boolean => exact .of_append fun a _ hb => literal?_append (by decide) a hb
  | null => exact .of_append fun a _ hb => literal?_append (by decide) a hb
  | openParen => exact cuttable_char? '('
  | closeParen => exact cuttable_char? ')'
  | openBracket => exact cuttable_char? '['
  | closeBracket => exact cuttable_char? ']'
  | negation => exact cuttable_negation?
  | logical => exact cuttable_logical?
  | comparison => exact cuttable_comparison?
  | name => exact .of_append fun a _ hb => name?_append a hb
  | subAttribute => exact absurd rfl h

theorem Lexeme.subAttribute?_shorten {a b text : List Char} (hb : Behind b)
    (found : subAttribute? (a ++ b) = some text) (short : text.length ≤ a.length) :
    subAttribute? a = some text := by
  cases a with
  | nil =>
    exact absurd rfl (prefixed_subAttribute?.ne_nil_of_short found short)
  | cons c rest =>
    by_cases dot : c = '.'
    · subst dot
      have same := takeWhile_append_of_stops (p := isSegment)
        (fun _ => isSegment_eq_false_of_isStop) rest hb.stops
      simp only [List.cons_append, subAttribute?, same] at found ⊢
      rw [List.drop_append_of_le_length (List.takeWhile_prefix _).length_le, List.all_append]
        at found
      split at found
      · cases found
      · next blank =>
        rw [if_neg]
        · exact found
        · intro stray
          apply blank
          rw [Bool.or_eq_true, Bool.not_eq_true'] at stray ⊢
          refine stray.imp_right fun left => ?_
          rw [Bool.and_eq_false_iff]
          exact .inl left
    · simp [subAttribute?, dot] at found

theorem Mode.ne_subAttribute_of_before {mode : Mode} {before after : List Kind} {kind : Kind}
    (h : mode.kinds = before ++ kind :: after) : ∀ k ∈ before, k ≠ .subAttribute := by
  intro k mem
  have all : ∀ k ∈ mode.kinds.dropLast, k ≠ .subAttribute := by
    cases mode <;> decide
  apply all
  rw [h, List.dropLast_append_cons]
  exact List.mem_append_left _ mem

theorem Mode.lexeme?_of_append {mode : Mode} {a b : List Char} (hb : Behind b) {kind : Kind}
    {text : List Char} (found : mode.lexeme? (a ++ b) = some (kind, text))
    (short : text.length ≤ a.length) : mode.lexeme? a = some (kind, text) := by
  obtain ⟨before, kind', after, order, hit, missed⟩ := List.findSome?_eq_some_iff.mp found
  obtain ⟨text', run, same⟩ := Option.map_eq_some_iff.mp hit
  obtain ⟨rfl, rfl⟩ := Prod.mk.inj same
  have alone : kind'.lexeme? a = some text' := by
    by_cases last : kind' = .subAttribute
    · subst last
      exact subAttribute?_shorten hb run short
    · exact (Kind.cuttable_lexeme? last).shorten hb run short
  refine List.findSome?_eq_some_iff.mpr ⟨before, kind', after, order, by rw [alone]; rfl, ?_⟩
  intro k mem
  rw [Option.map_eq_none_iff]
  exact (Kind.cuttable_lexeme? (ne_subAttribute_of_before order k mem)).eq_none hb
    (Option.map_eq_none_iff.mp (missed k mem))

theorem Mode.lexeme?_cut_none {mode : Mode} {c : Char} {a b : List Char} (hb : Behind b)
    (hc : isBlank c = true) (missed : mode.lexeme? (c :: a ++ b) = none) :
    mode.lexeme? (c :: a) = none := by
  unfold Mode.lexeme? at missed ⊢
  rw [List.findSome?_eq_none_iff] at missed ⊢
  intro kind mem
  rw [Option.map_eq_none_iff]
  by_cases last : kind = .subAttribute
  · subst last
    have other : c ≠ '.' := by
      rintro rfl
      cases hc
    simp [Kind.lexeme?, subAttribute?, other]
  · exact (Kind.cuttable_lexeme? last).eq_none hb (Option.map_eq_none_iff.mp (missed kind mem))

end Scim
