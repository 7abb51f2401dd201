import Scim.Proofs.Phrase.Alike
import Scim.Proofs.Phrase.Lone
import Scim.Proofs.Scan.Respaced

/-!
# Scanning texts with other blanks

Operators take the blanks around them, and all others are skipped.  How a run of blanks is shared
between the two depends on its length, but the word behind it decides whether there is an operator,
so the tokens stay the same but for their places and the blanks in them.

* `Kind.reread`              every kind has the same run up to blanks where no blank is in front;
* `scan_skip`                the blanks before a word are skipped up to the last one, if the word is
                             no logical operator;
* `Rescanned`                the same tokens up to blanks and places, or the same stray character;
* `scan_respaced`            scanning two texts with other blanks.
-/

namespace Scim

open Text Lexeme Grammar Phrase

/-! ## Texts of tokens -/

theorem isSolid_of_isSchema {c : Char} (h : isSchema c = true) : isSolid c = true := by
  simp only [isSchema, Bool.and_eq_true] at h
  simp only [isSolid, h, Bool.and_self]

theorem isSolid_of_isDigit {c : Char} (h : isDigit c = true) : isSolid c = true := by
  rw [isSolid_iff]
  constructor
  · cases hc : isBlank c with
    | false => rfl
    | true =>
      rw [isDigit_eq_false_of_isStop (isStop_of_isBlank hc)] at h
      cases h
  · rintro rfl
    cases h

theorem isSolid_of_foldLetter {c : Char} (h : isSolid (foldLetter c) = true) :
    isSolid c = true := by
  obtain ⟨notBlank, notQuote⟩ := isSolid_iff.mp h
  rw [isSolid_iff]
  constructor
  · cases hc : isBlank c with
    | false => rfl
    | true =>
      rw [foldLetter_of_isStop (isStop_of_isBlank hc), hc] at notBlank
      cases notBlank
  · rintro rfl
    exact notQuote rfl

theorem solid_of_segment {s : List Char} (segment : IsSegment s) : ∀ c ∈ s, isSolid c = true := by
  intro c mem
  have goesOn : continuesName c = true := by simp [continuesName, segment.2 c mem]
  exact isSolid_of_isSchema (isSchema_of_continuesName goesOn)

/-- Words that a reader finds whole or not at all. -/
def SolidWords (words : List (List Char)) : Prop := ∀ word ∈ words, word.all isSolid = true

instance (words : List (List Char)) : Decidable (SolidWords words) :=
  inferInstanceAs (Decidable (∀ word ∈ words, word.all isSolid = true))

theorem solid_of_spelled {words : List (List Char)} (hw : SolidWords words) {text : List Char}
    (spelled : text.map foldLetter ∈ words) : ∀ c ∈ text, isSolid c = true :=
  fun _ mem =>
    isSolid_of_foldLetter (List.all_eq_true.mp (hw _ spelled) _ (List.mem_map_of_mem mem))

theorem solid_of_word? {word : List Char} (hw : SolidWords [word]) {cs text : List Char}
    (found : word? word cs = some text) : ∀ c ∈ text, isSolid c = true :=
  solid_of_spelled hw (by rw [(word?_eq_some_iff.mp found).2]; exact List.mem_singleton_self _)

theorem solid_of_anyWord? {words : List (List Char)} (hw : SolidWords words) {cs text : List Char}
    (found : anyWord? words cs = some text) : ∀ c ∈ text, isSolid c = true := by
  obtain ⟨word, mem, read⟩ := List.exists_of_findSome?_eq_some found
  obtain ⟨-, same⟩ := word?_eq_some_iff.mp read
  exact solid_of_spelled hw (by rw [same]; exact mem)

theorem solid_of_number? {cs text : List Char} (found : number? cs = some text) :
    ∀ c ∈ text, isSolid c = true := by
  intro c mem
  rcases digit_or_point found c mem with digit | rfl
  · exact isSolid_of_isDigit digit
  · decide

theorem Respaced.exists_rest {read : List Char → Option (List Char)} {cs cs' text : List Char}
    (h : Respaced cs cs') (prefixed : Prefixed read) (found : read cs = some text)
    (solid : ∀ c ∈ text, isSolid c = true) :
    text ≠ [] ∧ ∃ r r', cs = text ++ r ∧ cs' = text ++ r' ∧ Respaced r r' := by
  obtain ⟨long, r, rfl⟩ := prefixed cs text found
  obtain ⟨r', rfl, rest⟩ := h.of_solid_append solid
  exact ⟨long, r, r', rfl, rfl, rest⟩

/-! ## Words and blanks behind them -/

/-- The same word at the start of two texts, with blanks behind it, or none. -/
inductive Worded (cs cs' : List Char) : Option (List Char) → Option (List Char) → Prop where
  | missed : Worded cs cs' none none
  | found {word w w' r r' : List Char} : word ≠ [] → (∀ c ∈ word, isSolid c = true) →
      BlankRuns w w' → cs = word ++ (w ++ r) → cs' = word ++ (w' ++ r') → Respaced r r' →
      Worded cs cs' (some (word ++ w)) (some (word ++ w'))

variable {cs cs' : List Char}

theorem Worded.of_front {word r r' : List Char} (long : word ≠ [])
    (solid : ∀ c ∈ word, isSolid c = true) (h : Respaced r r') :
    Worded (word ++ r) (word ++ r') (some (word ++ r.takeWhile isBlank))
      (some (word ++ r'.takeWhile isBlank)) := by
  obtain ⟨runs, rest⟩ := h.front
  refine .found long solid runs ?_ ?_ rest
  · rw [List.takeWhile_append_dropWhile]
  · rw [List.takeWhile_append_dropWhile]

theorem worded_spacedWord? {words : List (List Char)} (hw : PlainWords words)
    (solid : SolidWords words) (h : Respaced cs cs') :
    Worded cs cs' (spacedWord? words cs) (spacedWord? words cs') := by
  have same := h.read_eq fun a b hb => anyWord?_append hw a hb
  unfold spacedWord?
  rw [same]
  cases found : anyWord? words cs with
  | none => exact .missed
  | some word =>
    have inside := solid_of_anyWord? solid found
    obtain ⟨long, r, r', rfl, rfl, rest⟩ := h.exists_rest (prefixed_anyWord? hw.1) found inside
    simp only [Option.bind_eq_bind, Option.bind_some, List.drop_left]
    have empty := rest.front.1.nil_iff
    by_cases none : r.takeWhile isBlank = []
    · rw [empty.mp none, none]
      exact .missed
    · have none' := mt empty.mpr none
      simp only [List.isEmpty_iff, none, none', if_false]
      exact .of_front long inside rest

theorem worded_word? {word : List Char} (hw : PlainWords [word]) (solid : SolidWords [word])
    (h : Respaced cs cs') : Worded cs cs' (word? word cs) (word? word cs') := by
  have same := h.read_eq fun a b hb => word?_append (hw.2 word (List.mem_singleton_self _)) a hb
  rw [same]
  cases found : word? word cs with
  | none => exact .missed
  | some text =>
    have inside := solid_of_word? solid found
    have long : word ≠ [] := by
      rintro rfl
      exact hw.1 (List.mem_singleton_self _)
    obtain ⟨long, r, r', rfl, rfl, rest⟩ := h.exists_rest (prefixed_word? long) found inside
    have bare : Worded (text ++ r) (text ++ r') (some (text ++ [])) (some (text ++ [])) :=
      .found long inside blankRuns_nil rfl rfl rest
    rwa [List.append_nil] at bare

theorem worded_negation? (h : Respaced cs cs') :
    Worded cs cs' (negation? cs) (negation? cs') := by
  have same := h.read_eq fun a b hb => @word?_append ['n', 'o', 't'] (by decide) a b hb
  unfold negation?
  rw [same]
  cases found : word? ['n', 'o', 't'] cs with
  | none => exact .missed
  | some text =>
    have inside := solid_of_word? (by decide) found
    obtain ⟨long, r, r', rfl, rfl, rest⟩ := h.exists_rest (prefixed_word? (by decide)) found inside
    have worded := Worded.of_front long inside rest
    simp only [Option.bind_eq_bind, Option.bind_some, List.drop_left]
    have empty := rest.front.1.nil_iff
    by_cases none : r.takeWhile isBlank = []
    · rw [empty.mp none, none, List.append_nil] at worded
      rw [empty.mp none, none, rest.head?_eq (takeWhile_blank_eq_nil_iff.mp none)]
      by_cases opens : r.head? = some '('
      · simpa [opens] using worded
      · simp only [opens, List.isEmpty_nil, Bool.not_true, Bool.false_eq_true, if_false]
        exact .missed
    · have none' := mt empty.mpr none
      simpa [none, none'] using worded

/-! ## Runs of a kind -/

/-- A run at the start of a text, and the run with other blanks at the start of another one. -/
structure Recut (kind : Kind) (cs cs' text text' : List Char) : Prop where
  word : stripBlanks text' = stripBlanks text
  same : kind ≠ .negation → kind ≠ .logical → kind ≠ .comparison → text' = text
  respaced : Respaced text text'
  rest : ∃ r r', cs = text ++ r ∧ cs' = text' ++ r' ∧ Respaced r r'

/-- No run, or runs that are the same up to blanks. -/
inductive Reread (kind : Kind) (cs cs' : List Char) :
    Option (List Char) → Option (List Char) → Prop where
  | missed : Reread kind cs cs' none none
  | found {text text' : List Char} : Recut kind cs cs' text text' →
      Reread kind cs cs' (some text) (some text')

theorem Reread.of_solid {kind : Kind} {read : List Char → Option (List Char)}
    (h : Respaced cs cs') (prefixed : Prefixed read) (same : read cs' = read cs)
    (solid : ∀ text, read cs = some text → ∀ c ∈ text, isSolid c = true) :
    Reread kind cs cs' (read cs) (read cs') := by
  rw [same]
  cases found : read cs with
  | none => exact .missed
  | some text =>
    obtain ⟨-, behind⟩ := h.exists_rest prefixed found (solid text found)
    have whole := Respaced.solid_append (solid text found) .nil
    rw [List.append_nil] at whole
    exact .found ⟨rfl, fun _ _ _ => rfl, whole, behind⟩

/-- **A word between blanks** is the same up to them. -/
theorem Recut.of_word {kind : Kind} (operator : kind = .negation ∨ kind = .logical ∨
      kind = .comparison) {v v' word w w' r r' : List Char} (before : BlankRuns v v')
    (long : word ≠ []) (solid : ∀ c ∈ word, isSolid c = true) (behind : BlankRuns w w')
    (rest : Respaced r r') :
    Recut kind (v ++ (word ++ (w ++ r))) (v' ++ (word ++ (w' ++ r'))) (v ++ (word ++ w))
      (v' ++ (word ++ w')) := by
  have inner : ∀ c ∈ word, isBlank c = false := fun c mem => (isSolid_iff.mp (solid c mem)).1
  have head : ∀ c ∈ (word ++ w).head?, isBlank c = false := by
    obtain ⟨d, word, rfl⟩ := List.exists_cons_of_ne_nil long
    intro c hc
    obtain rfl := Option.some.inj hc
    exact inner _ List.mem_cons_self
  have blanks : Respaced w w' := by
    have whole := Respaced.blankRuns_append behind (by intro c none; cases none) .nil
    rwa [List.append_nil, List.append_nil] at whole
  refine ⟨?_, ?_, ?_, r, r', ?_, ?_, rest⟩
  · rw [stripBlanks_append before.first inner behind.first,
      stripBlanks_append before.second inner behind.second]
  · intro notNegation notLogical notComparison
    rcases operator with isNegation | isLogical | isComparison
    · exact absurd isNegation notNegation
    · exact absurd isLogical notLogical
    · exact absurd isComparison notComparison
  · exact .blankRuns_append before head (.solid_append solid blanks)
  · simp only [List.append_assoc]
  · simp only [List.append_assoc]

theorem Kind.reread_negation (h : Respaced cs cs') :
    Reread .negation cs cs' (negation? cs) (negation? cs') := by
  have worded := worded_negation? h
  generalize negation? cs = x at worded
  generalize negation? cs' = y at worded
  cases worded with
  | missed => exact .missed
  | found long solid runs text text' rest =>
    rw [text, text']
    exact .found (.of_word (.inl rfl) blankRuns_nil long solid runs rest)

theorem string?_of_notMem {cs : List Char} (free : '"' ∉ cs) : string? ('"' :: cs) = none := by
  cases found : string? ('"' :: cs) with
  | none => rfl
  | some text =>
    obtain ⟨closed, -⟩ := string?_cons_eq_some_iff.mp found
    have mark : '"' ∈ cs := (mark_follows_takeWhile closed).subset (by simp)
    exact absurd mark free

section

variable (h : Respaced cs cs') (head : ∀ c ∈ cs.head?, isBlank c = false)

include h head

theorem Kind.reread_string : Reread .string cs cs' (string? cs) (string? cs') := by
  by_cases quote : cs.head? = some '"'
  · obtain ⟨rest, rfl⟩ := List.head?_eq_some_iff.mp quote
    rcases h.of_quote with ⟨body, r, r', free, rfl, rfl, behind⟩ | ⟨cs', rfl, free, free'⟩
    · rw [string?_body free, string?_body free]
      refine .found ⟨rfl, fun _ _ _ => rfl, .string free .nil, r, r', ?_, ?_, behind⟩
      · simp
      · simp
    · rw [string?_of_notMem free, string?_of_notMem free']
      exact .missed
  · have other {cs : List Char} (head : cs.head? ≠ some '"') : string? cs = none := by
      unfold string?
      split
      · exact absurd rfl head
      · rfl
    rw [other quote, other (by rw [h.head?_eq head]; exact quote)]
    exact .missed

theorem Kind.reread_char {kind : Kind} {mark : Char} (solid : isSolid mark = true) :
    Reread kind cs cs' (char? mark cs) (char? mark cs') := by
  have same : char? mark cs' = char? mark cs := by
    have first := h.head?_eq head
    cases cs with
    | nil =>
      rw [h.eq_nil]
    | cons c cs =>
      obtain ⟨r, rfl⟩ := List.head?_eq_some_iff.mp first
      rfl
  refine .of_solid h (prefixed_char? mark) same ?_
  intro text found c mem
  rw [eq_of_char? found] at mem
  rw [List.mem_singleton.mp mem]
  exact solid

omit head in
theorem Kind.reread_subAttribute :
    Reread .subAttribute cs cs' (subAttribute? cs) (subAttribute? cs') := by
  have found {cs cs' text : List Char} (h : Respaced cs cs')
      (run : subAttribute? cs = some text) : subAttribute? cs' = some text := by
    obtain ⟨s, w, rfl, rfl, segment, blank⟩ := subAttribute?_eq_some_iff.mp run
    obtain ⟨x, rfl, rest⟩ := h.of_solid (by decide)
    obtain ⟨w', rfl, behind⟩ := rest.of_solid_append (solid_of_segment segment)
    exact subAttribute?_eq_some_iff.mpr ⟨s, w', rfl, rfl, segment, behind.blank blank⟩
  have same : subAttribute? cs' = subAttribute? cs :=
    Option.ext fun _ => ⟨found h.symm, found h⟩
  refine .of_solid h prefixed_subAttribute? same ?_
  intro text run
  obtain ⟨s, w, -, rfl, segment, -⟩ := subAttribute?_eq_some_iff.mp run
  exact List.forall_mem_cons.mpr ⟨by decide, solid_of_segment segment⟩

/-- **Every kind has the same run** up to blanks where no blank is in front. -/
theorem Kind.reread (kind : Kind) : Reread kind cs cs' (kind.lexeme? cs) (kind.lexeme? cs') := by
  have none {read : List Char → Option (List Char)} {kind : Kind}
      (missed : ∀ cs, (∀ c ∈ cs.head?, isBlank c = false) → read cs = none) :
      Reread kind cs cs' (read cs) (read cs') := by
    rw [missed cs head, missed cs' (h.head_solid head)]
    exact .missed
  cases kind with
  | number =>
    exact .of_solid h prefixed_number? (h.read_eq fun a b hb => number?_append a hb)
      fun _ => solid_of_number?
  | string => exact Kind.reread_string h head
  | boolean =>
    refine .of_solid h (prefixed_literal? (by decide))
      (h.read_eq fun a b hb => literal?_append (by decide) a hb) ?_
    intro text found
    exact solid_of_spelled (by decide) (literal?_spelled found)
  | null =>
    refine .of_solid h (prefixed_literal? (by decide))
      (h.read_eq fun a b hb => literal?_append (by decide) a hb) ?_
    intro text found
    exact solid_of_spelled (by decide) (literal?_spelled found)
  | openParen | closeParen | openBracket | closeBracket => exact Kind.reread_char h head (by decide)
  | negation => exact Kind.reread_negation h
  | logical =>
    refine @none logical? .logical fun cs head => ?_
    unfold logical?
    rw [takeWhile_blank_eq_nil_iff.mpr head]
    rfl
  | comparison =>
    refine @none comparison? .comparison fun cs head => ?_
    cases cs with
    | nil => rfl
    | cons c cs => rw [comparison?, if_neg (by rw [head c rfl]; exact Bool.false_ne_true)]
  | name =>
    refine .of_solid h prefixed_name? (h.read_eq fun a b hb => name?_append a hb) ?_
    intro text found c mem
    obtain ⟨n, rfl⟩ := exists_spelling found
    exact isSolid_of_isSchema (n.isSchema_of_mem mem)
  | subAttribute => exact Kind.reread_subAttribute h

end

/-- No lexeme, or lexemes of one kind that are the same up to blanks. -/
inductive Relexed (cs cs' : List Char) :
    Option (Kind × List Char) → Option (Kind × List Char) → Prop where
  | missed : Relexed cs cs' none none
  | found {kind : Kind} {text text' : List Char} : Recut kind cs cs' text text' →
      Relexed cs cs' (some (kind, text)) (some (kind, text'))

theorem Mode.relexed (mode : Mode) (h : Respaced cs cs')
    (head : ∀ c ∈ cs.head?, isBlank c = false) :
    Relexed cs cs' (mode.lexeme? cs) (mode.lexeme? cs') := by
  unfold Mode.lexeme?
  induction mode.kinds with
  | nil => exact .missed
  | cons kind kinds ih =>
    have reread := kind.reread h head
    rw [List.findSome?_cons, List.findSome?_cons]
    generalize kind.lexeme? cs = x at reread
    generalize kind.lexeme? cs' = y at reread
    cases reread with
    | missed => exact ih
    | found recut => exact .found recut

/-! ## Operators behind blanks -/

/-- The word of a comparison operator with the blanks behind it. -/
def operator? (cs : List Char) : Option (List Char) :=
  (spacedWord? comparisonWords cs).orElse fun _ => word? ['p', 'r'] cs

theorem worded_operator? (h : Respaced cs cs') : Worded cs cs' (operator? cs) (operator? cs') := by
  have spaced := @worded_spacedWord? cs cs' comparisonWords (by decide) (by decide) h
  unfold operator?
  generalize spacedWord? comparisonWords cs = x at spaced
  generalize spacedWord? comparisonWords cs' = y at spaced
  cases spaced with
  | missed => exact worded_word? (by decide) (by decide) h
  | found long solid runs text text' rest => exact .found long solid runs text text' rest

theorem operator?_of_stops {cs : List Char} (h : Stops cs) : operator? cs = none := by
  unfold operator?
  rw [spacedWord?_of_stops (by decide) h, word?_of_stops (by decide) h]
  rfl

theorem Mode.lexeme?_of_blank (mode : Mode) {c : Char} (hc : isBlank c = true) (cs : List Char) :
    mode.lexeme? (c :: cs) = ((logical? (c :: cs)).map (Kind.logical, ·)).or
      ((operator? cs).map fun text => (Kind.comparison, c :: text)) := by
  obtain ⟨before, after, order, others⟩ : ∃ before after,
      mode.kinds = before ++ Kind.logical :: .comparison :: after ∧
        ∀ kind ∈ before ++ after, kind ≠ .logical ∧ kind ≠ .comparison := by
    cases mode with
    | filter => exact ⟨filterKinds.take 9, [.name], rfl, by decide⟩
    | path => exact ⟨filterKinds.take 9, [.name, .subAttribute], rfl, by decide⟩
  have none (kinds : List Kind) (h : kinds ⊆ before ++ after) :
      kinds.findSome? (fun kind => (kind.lexeme? (c :: cs)).map (kind, ·)) = none := by
    rw [List.findSome?_eq_none_iff]
    intro kind mem
    obtain ⟨notLogical, notComparison⟩ := others kind (h mem)
    rw [Kind.lexeme?_blank notLogical notComparison hc]
    rfl
  have comparison : Kind.comparison.lexeme? (c :: cs) = (operator? cs).map (c :: ·) := if_pos hc
  unfold Mode.lexeme?
  rw [order, List.findSome?_append, none before (List.subset_append_left _ _), Option.none_or,
    List.findSome?_cons, List.findSome?_cons, none after (List.subset_append_right _ _), comparison]
  show _ = ((Kind.logical.lexeme? (c :: cs)).map (Kind.logical, ·)).or _
  cases Kind.logical.lexeme? (c :: cs) with
  | some text => rfl
  | none => cases operator? cs <;> rfl

section

variable {mode : Mode} {w s : List Char} (hw : ∀ c ∈ w, isBlank c = true)
  (head : ∀ c ∈ s.head?, isBlank c = false)

include hw head

theorem logical?_of_blanks (long : w ≠ []) :
    logical? (w ++ s) = (spacedWord? logicalWords s).map (w ++ ·) := by
  unfold logical?
  rw [takeWhile_blank_append_of_head hw head]
  simp only [List.isEmpty_iff, long, if_false, List.drop_left]

theorem lexeme?_of_logical (mode : Mode) {text : List Char} (long : w ≠ [])
    (found : spacedWord? logicalWords s = some text) :
    mode.lexeme? (w ++ s) = some (.logical, w ++ text) := by
  have read := logical?_of_blanks hw head long
  obtain ⟨c, v, rfl⟩ := List.exists_cons_of_ne_nil long
  rw [found, List.cons_append] at read
  rw [List.cons_append, Mode.lexeme?_of_blank mode (hw c List.mem_cons_self), read]
  rfl

omit hw in
theorem lexeme?_of_last (mode : Mode) (missed : spacedWord? logicalWords s = none) {c : Char}
    (hc : isBlank c = true) :
    mode.lexeme? (c :: s) = (operator? s).map fun text => (.comparison, c :: text) := by
  have alone : ∀ x ∈ [c], isBlank x = true := by
    intro x hx
    rw [List.mem_singleton.mp hx]
    exact hc
  have notLogical := logical?_of_blanks alone head (List.cons_ne_nil _ _)
  rw [missed] at notLogical
  have read : logical? (c :: s) = none := notLogical
  rw [Mode.lexeme?_of_blank mode hc, read]
  rfl

/-- **The blanks before a word** that is no logical operator are skipped up to the last one. -/
theorem scan_skip (missed : spacedWord? logicalWords s = none) {c : Char}
    (hc : isBlank c = true) (p : Int) :
    scan mode (w ++ c :: s) p = scan mode (c :: s) (p + w.length) := by
  induction w generalizing p with
  | nil => simp
  | cons d w ih =>
    have hd : isBlank d = true := hw d List.mem_cons_self
    have later : ∀ x ∈ w, isBlank x = true := fun x hx => hw x (List.mem_cons_of_mem d hx)
    have blanks : ∀ x ∈ d :: (w ++ [c]), isBlank x = true := by
      intro x hx
      rcases List.mem_cons.mp hx with rfl | hx
      · exact hd
      · rcases List.mem_append.mp hx with hx | hx
        · exact later x hx
        · rw [List.mem_singleton.mp hx]
          exact hc
    have notLogical : logical? (d :: (w ++ c :: s)) = none := by
      have read := logical?_of_blanks blanks head (List.cons_ne_nil _ _)
      rw [missed, List.cons_append, List.append_assoc] at read
      exact read
    have notComparison : operator? (w ++ c :: s) = none := by
      refine operator?_of_stops fun x hx => isStop_of_isBlank ?_
      cases w with
      | nil =>
        obtain rfl := Option.some.inj hx
        exact hc
      | cons y w =>
        obtain rfl := Option.some.inj hx
        exact later _ List.mem_cons_self
    have none : mode.lexeme? (d :: (w ++ c :: s)) = Option.none := by
      rw [Mode.lexeme?_of_blank mode hd, notLogical, notComparison]
      rfl
    rw [List.cons_append, scan_blank p none hd, ih later, List.length_cons]
    congr 1
    omega

end

/-! ## Scanning -/

/-- Tokens that are the same up to blanks and places. -/
structure RespacedToken (t t' : Token) : Prop where
  alike : Alike t t'
  text : Respaced t.text t'.text

theorem Recut.token {kind : Kind} {text text' : List Char} (h : Recut kind cs cs' text text')
    (p p' : Int) : RespacedToken ⟨kind, text, p⟩ ⟨kind, text', p'⟩ :=
  ⟨⟨rfl, congrArg (List.map lowerAscii) h.word, h.same⟩, h.respaced⟩

/-- The same tokens up to blanks and places, or the same stray character. -/
inductive Rescanned : Except Stray (List Token) → Except Stray (List Token) → Prop where
  | tokens {ts ts' : List Token} : List.Forall₂ RespacedToken ts ts' → Rescanned (.ok ts) (.ok ts')
  | stray {s s' : Stray} : s'.char = s.char → Rescanned (.error s) (.error s')

theorem Rescanned.cons {t t' : Token} {x y : Except Stray (List Token)} (ht : RespacedToken t t')
    (h : Rescanned x y) : Rescanned (x.map (t :: ·)) (y.map (t' :: ·)) := by
  cases h with
  | tokens later => exact .tokens (.cons ht later)
  | stray same => exact .stray same

theorem Rescanned.of_recut {mode : Mode} {kind : Kind} {text text' : List Char}
    (found : mode.lexeme? cs = some (kind, text)) (found' : mode.lexeme? cs' = some (kind, text'))
    (recut : Recut kind cs cs' text text') (later : ∀ r r', r.length < cs.length → Respaced r r' →
      ∀ p p', Rescanned (scan mode r p) (scan mode r' p')) (p p' : Int) :
    Rescanned (scan mode cs p) (scan mode cs' p') := by
  obtain ⟨r, r', rfl, rfl, rest⟩ := recut.rest
  have long := List.length_pos_iff.mpr (Mode.exists_of_lexeme?_eq_some found).2.1
  have shorter : r.length < (text ++ r).length := by
    rw [List.length_append]
    omega
  rw [scan_token p found, scan_token p' found']
  exact (later r r' shorter rest _ _).cons (recut.token p p')

theorem Respaced.rescanned_of_head {mode : Mode} (h : Respaced cs cs')
    (head : ∀ c ∈ cs.head?, isBlank c = false)
    (later : ∀ r r', r.length < cs.length → Respaced r r' →
      ∀ p p', Rescanned (scan mode r p) (scan mode r' p')) (p p' : Int) :
    Rescanned (scan mode cs p) (scan mode cs' p') := by
  have relexed := mode.relexed h head
  generalize found : mode.lexeme? cs = x at relexed
  generalize found' : mode.lexeme? cs' = y at relexed
  cases relexed with
  | found recut => exact .of_recut found found' recut later p p'
  | missed =>
    cases cs with
    | nil =>
      obtain rfl := h.eq_nil
      rw [scan_nil, scan_nil]
      exact .tokens .nil
    | cons c cs =>
      obtain ⟨cs', rfl⟩ := List.head?_eq_some_iff.mp (h.head?_eq head)
      have hc : isBlank c = false := head c rfl
      rw [scan_stray p found hc, scan_stray p' found' hc]
      exact .stray rfl

section

variable {mode : Mode} {s s' : List Char} (h : Respaced s s')
  (head : ∀ c ∈ s.head?, isBlank c = false)

include h head

/-- the last blank before a word that is no logical operator: a comparison operator takes it -/
theorem Respaced.rescanned_of_last {c c' : Char} (hc : isBlank c = true) (hc' : isBlank c' = true)
    (missed : spacedWord? logicalWords s = none) (missed' : spacedWord? logicalWords s' = none)
    (later : ∀ r r', r.length < (c :: s).length → Respaced r r' →
      ∀ p p', Rescanned (scan mode r p) (scan mode r' p')) (p p' : Int) :
    Rescanned (scan mode (c :: s) p) (scan mode (c' :: s') p') := by
  have last := lexeme?_of_last head mode missed hc
  have last' := lexeme?_of_last (h.head_solid head) mode missed' hc'
  have blanks : BlankRuns [c] [c'] :=
    ⟨by simpa using hc, by simpa using hc', by simp⟩
  have worded := worded_operator? h
  generalize operator? s = x at worded last
  generalize operator? s' = y at worded last'
  cases worded with
  | found long solid behind text text' rest =>
    subst text text'
    have recut := Recut.of_word (.inr (.inr rfl)) blanks long solid behind rest
    exact .of_recut last last' recut later p p'
  | missed =>
    rw [scan_blank p last hc, scan_blank p' last' hc']
    exact later s s' (Nat.lt_succ_self _) h _ _

/-- a run of blanks: a logical operator takes all of them -/
theorem Respaced.rescanned_of_blanks {w w' : List Char} (long : w ≠ []) (runs : BlankRuns w w')
    (later : ∀ r r', r.length < (w ++ s).length → Respaced r r' →
      ∀ p p', Rescanned (scan mode r p) (scan mode r' p')) (p p' : Int) :
    Rescanned (scan mode (w ++ s) p) (scan mode (w' ++ s') p') := by
  have long' : w' ≠ [] := mt runs.nil_iff.mpr long
  have head' := h.head_solid head
  have worded := @worded_spacedWord? s s' logicalWords (by decide) (by decide) h
  generalize first : spacedWord? logicalWords s = x at worded
  generalize second : spacedWord? logicalWords s' = y at worded
  cases worded with
  | found wordLong solid behind text text' rest =>
    have found := lexeme?_of_logical runs.first head mode long first
    have found' := lexeme?_of_logical runs.second head' mode long' second
    subst text text'
    have recut := Recut.of_word (.inr (.inl rfl)) runs wordLong solid behind rest
    exact .of_recut found found' recut later p p'
  | missed =>
    obtain ⟨v, c, rfl⟩ := (List.eq_nil_or_concat w).resolve_left long
    obtain ⟨v', c', rfl⟩ := (List.eq_nil_or_concat w').resolve_left long'
    rw [List.concat_eq_append] at runs later ⊢
    rw [List.concat_eq_append] at runs ⊢
    have hc : isBlank c = true := runs.first c (by simp)
    have hc' : isBlank c' = true := runs.second c' (by simp)
    have hv : ∀ x ∈ v, isBlank x = true := fun x hx => runs.first x (List.mem_append_left _ hx)
    have hv' : ∀ x ∈ v', isBlank x = true := fun x hx => runs.second x (List.mem_append_left _ hx)
    rw [List.append_assoc, List.append_assoc, List.singleton_append, List.singleton_append,
      scan_skip hv head first hc, scan_skip hv' head' second hc']
    refine h.rescanned_of_last head hc hc' first second ?_ _ _
    intro r r' short
    refine later r r' (Nat.lt_of_lt_of_le short ?_)
    rw [List.append_assoc, List.length_append]
    exact Nat.le_add_left _ _

end

/-- **Scanning two texts with other blanks** gives the same tokens up to blanks and places, or stops
at the same stray character. -/
theorem scan_respaced (mode : Mode) (h : Respaced cs cs') (p p' : Int) :
    Rescanned (scan mode cs p) (scan mode cs' p') := by
  -- on the length, since a token or a run of blanks takes several characters at once
  induction size : cs.length using Nat.strongRecOn generalizing cs cs' p p' with
  | ind n ih =>
    subst size
    have later : ∀ r r', r.length < cs.length → Respaced r r' → ∀ p p',
        Rescanned (scan mode r p) (scan mode r' p') :=
      fun r _ shorter rest p p' => ih r.length shorter rest p p' rfl
    by_cases blank : ∃ c ∈ cs.head?, isBlank c = true
    · obtain ⟨c, first, hc⟩ := blank
      obtain ⟨cs, rfl⟩ := List.head?_eq_some_iff.mp first
      obtain ⟨w, w', s, s', whole, rfl, long, runs, head, rest⟩ := h.of_blank hc
      rw [whole] at later ⊢
      exact rest.rescanned_of_blanks head long runs later p p'
    · have head : ∀ c ∈ cs.head?, isBlank c = false := by simpa using blank
      exact h.rescanned_of_head head later p p'

end Scim
