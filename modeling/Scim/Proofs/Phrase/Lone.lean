import Scim.Proofs.Phrase.Normal
import Scim.Proofs.Scan.Language

/-!
# Names on their own

A name that stands among the tokens of a text is a single name as a text of its own, and so is a
name with more segments at its end.

* `literal?_eq_some_iff`     a literal is a word with no character of a name behind it;
* `Spelling.Lone`            a name that begins with no digit and is no literal up to such a
                             character;
* `Lone.lexeme?`             such a name is a single token in either language;
* `Tiles.exists_lone`        every name among the tokens of a text is one;
* `Lone.extend`              more segments do not change that;
* `AttributePath.IsLone`     the attribute paths with such names, closed under putting one below
                             another.
-/

namespace Scim

open Text Lexeme

namespace Lexeme

/-! ## Literals -/

def literalWords : List (List (List Char)) :=
  [[['t', 'r', 'u', 'e'], ['f', 'a', 'l', 's', 'e']], [['n', 'u', 'l', 'l']]]

theorem prefixFree_literalWords : ∀ words ∈ literalWords,
    [] ∉ words ∧ ∀ w ∈ words, ∀ w' ∈ words, w <+: w' → w = w' := by
  decide

variable {words : List (List Char)} (known : words ∈ literalWords) {cs text : List Char}

include known

theorem anyWord?_eq_some_iff :
    anyWord? words cs = some text ↔ text <+: cs ∧ text.map foldLetter ∈ words := by
  obtain ⟨-, free⟩ := prefixFree_literalWords words known
  have found {w : List Char} (h : anyWord? words cs = some w) :
      w <+: cs ∧ w.map foldLetter ∈ words := by
    obtain ⟨word, mem, read⟩ := List.exists_of_findSome?_eq_some h
    obtain ⟨pre, rfl⟩ := word?_eq_some_iff.mp read
    exact ⟨pre, mem⟩
  refine ⟨found, ?_⟩
  rintro ⟨pre, mem⟩
  cases other : anyWord? words cs with
  | none =>
    have missed := List.findSome?_eq_none_iff.mp other _ mem
    rw [word?_eq_some_iff.mpr ⟨pre, rfl⟩] at missed
    cases missed
  | some w =>
    obtain ⟨pre', mem'⟩ := found other
    -- of two beginnings of the text one begins the other
    rcases Nat.le_total w.length text.length with short | short
    · have begins := List.prefix_of_prefix_length_le pre' pre short
      have same := free _ mem' _ mem (begins.map foldLetter)
      rw [begins.eq_of_length (by simpa using congrArg List.length same)]
    · have begins := List.prefix_of_prefix_length_le pre pre' short
      have same := free _ mem _ mem' (begins.map foldLetter)
      rw [begins.eq_of_length (by simpa using congrArg List.length same)]

theorem literal?_eq_some_iff : literal? words cs = some text ↔
    text.map foldLetter ∈ words ∧
      ∃ rest, cs = text ++ rest ∧ rest.head?.any continuesName = false := by
  unfold literal?
  rw [Option.filter_eq_some_iff, anyWord?_eq_some_iff known, Bool.not_eq_true']
  constructor
  · rintro ⟨⟨⟨rest, rfl⟩, mem⟩, ends⟩
    rw [List.drop_left] at ends
    exact ⟨mem, rest, rfl, ends⟩
  · rintro ⟨mem, rest, rfl, ends⟩
    rw [List.drop_left]
    exact ⟨⟨List.prefix_append text rest, mem⟩, ends⟩

theorem notMem_of_literal (spelled : text.map foldLetter ∈ words) {c : Char}
    (mark : c = '.' ∨ c = ':') : c ∉ text := by
  have letters : ∀ words ∈ literalWords, ∀ word ∈ words,
      foldLetter '.' ∉ word ∧ foldLetter ':' ∉ word := by decide
  obtain ⟨notDot, notColon⟩ := letters words known _ spelled
  intro mem
  rcases mark with rfl | rfl
  · exact notDot (List.mem_map_of_mem mem)
  · exact notColon (List.mem_map_of_mem mem)

end Lexeme

/-! ## The characters of a name, and those behind it -/

theorem Spelling.isSchema_of_mem (n : Spelling) {c : Char} (mem : c ∈ n.text) :
    Lexeme.isSchema c = true := by
  have name : c ∈ dotted n.segments → Lexeme.isSchema c = true := by
    intro mem
    rcases mem_dotted mem with rfl | ⟨s, hs, inside⟩
    · decide
    · have segment := (n.isSegment s hs).2 c inside
      exact isSchema_of_continuesName (by simp [continuesName, segment])
  unfold Spelling.text at mem
  split at mem
  · exact name mem
  · next schema named =>
    rcases List.mem_append.mp mem with mem | mem
    · exact (n.isSchema schema named).2 c mem
    · rcases List.mem_cons.mp mem with rfl | mem
      · decide
      · exact name mem

theorem Spelling.isStop_of_mem (n : Spelling) {c : Char} (mem : c ∈ n.text) :
    isStop c = false := by
  cases stop : isStop c with
  | false => rfl
  | true =>
    have inside := n.isSchema_of_mem mem
    rw [isSchema_eq_false_of_isStop stop] at inside
    cases inside

theorem Spelling.exists_cons (n : Spelling) : ∃ c cs, n.text = c :: cs := by
  obtain ⟨long, -⟩ := prefixed_name? _ _ n.name?_text
  exact List.exists_cons_of_ne_nil long

namespace Lexeme

theorem behind_dottedTail {a v : List Char} {c : Char} (h : dottedTail (a ++ c :: v) = a) :
    isSegment c = false ∧ (c = '.' → v.head?.any isSegment = false) := by
  induction a with
  | nil =>
    rw [List.nil_append, dottedTail] at h
    split at h
    · cases h
    · next other =>
      split at h
      · cases h
      · next ends =>
        exact ⟨Bool.eq_false_iff.mpr other, fun dot => Bool.eq_false_iff.mpr fun more =>
          ends ⟨dot, more⟩⟩
  | cons d a ih =>
    rw [List.cons_append, dottedTail] at h
    split at h
    · exact ih (List.cons.inj h).2
    · split at h
      · exact ih (List.cons.inj h).2
      · cases h

theorem qualifiedTail?_append_ne_none {a b : List Char} (ha : ∀ c ∈ a, isSchema c = true)
    (hb : qualifiedTail? b ≠ none) : qualifiedTail? (a ++ b) ≠ none := by
  induction a with
  | nil => exact hb
  | cons c a ih =>
    obtain ⟨first, others⟩ := List.forall_mem_cons.mp ha
    obtain ⟨text, found⟩ := Option.ne_none_iff_exists'.mp (ih others)
    rw [List.cons_append, qualifiedTail?, if_pos first, found]
    exact Option.some_ne_none _

/-- a mark behind a name without a schema begins no name: else the schema would begin earlier -/
theorem name?_mark_eq_none {name v : List Char} {c : Char} (free : ':' ∉ name)
    (found : name? (name ++ c :: v) = some name) (mark : c = '.' ∨ c = ':') :
    name? (c :: v) = none := by
  have marks : isSegment c = false ∧ isSchema c = true := by rcases mark with rfl | rfl <;> decide
  have bare : qualified? (name ++ c :: v) = none := by
    cases schema : qualified? (name ++ c :: v) with
    | none => rfl
    | some text =>
      rw [name?_eq, schema] at found
      obtain rfl := Option.some.inj found
      exact absurd (colon_mem_of_qualified? schema) free
  have none : qualifiedTail? v = none := by
    obtain ⟨n, rfl⟩ := exists_spelling found
    obtain ⟨d, ds, text⟩ := n.exists_cons
    have inside : ∀ x ∈ d :: ds, isSchema x = true := by
      intro x hx
      exact n.isSchema_of_mem (text ▸ hx)
    obtain ⟨first, others⟩ := List.forall_mem_cons.mp inside
    have before : ∀ x ∈ ds ++ [c], isSchema x = true :=
      List.forall_mem_append.mpr ⟨others, List.forall_mem_singleton.mpr marks.2⟩
    rw [text, List.cons_append, qualified?, if_pos first, Option.map_eq_none_iff] at bare
    by_contra some
    refine qualifiedTail?_append_ne_none before some ?_
    rwa [List.append_assoc]
  rw [name?_eq, qualified?, if_pos marks.2, none, dotted?, List.head?_cons, Option.any_some,
    marks.1]
  rfl

theorem negation?_eq_none {cs : List Char} (solid : ∀ c ∈ cs, isStop c = false) :
    negation? cs = none := by
  cases found : negation? cs with
  | none => rfl
  | some text =>
    obtain ⟨word, spelled, follows, -⟩ := negation?_eq_some_iff.mp found
    obtain ⟨⟨rest, rfl⟩, -⟩ := word?_eq_some_iff.mp spelled
    rw [List.drop_left] at follows
    cases rest with
    | nil => simp at follows
    | cons c rest =>
      have other := isStop_eq_false_iff.mp (solid c (List.mem_append_right _ List.mem_cons_self))
      simp [other] at follows

end Lexeme

/-- **No character that goes on a name stands behind one without a schema.** -/
theorem Tiles.behind_name {mode : Mode} {p : Int} {name v : List Char} {ts : List Token}
    (h : Tiles mode p v ts) (free : ':' ∉ name) (found : name? (name ++ v) = some name) :
    v.head?.any continuesName = false := by
  cases v with
  | nil => rfl
  | cons c v =>
    show continuesName c = false
    by_contra goesOn
    rw [Bool.not_eq_false] at goesOn
    have taken : dotted? (name ++ c :: v) = some name := by
      rw [name?_eq, Option.or_eq_some_iff] at found
      rcases found with schema | ⟨-, taken⟩
      · exact absurd (colon_mem_of_qualified? schema) free
      · exact taken
    have whole : dottedTail (name ++ c :: v) = name := by
      unfold dotted? at taken
      split at taken
      · exact Option.some.inj taken
      · cases taken
    obtain ⟨notSegment, ends⟩ := behind_dottedTail whole
    have mark : c = '.' ∨ c = ':' := by
      simpa [continuesName, notSegment] using goesOn
    have missed : mode.lexeme? (c :: v) = none := by
      have filter := Mode.lexeme?_filter_mark mark (name?_mark_eq_none free found mark)
      cases mode with
      | filter => exact filter
      | path =>
        rw [Mode.lexeme?_path, filter, Option.none_or, Option.map_eq_none_iff]
        cases sub : subAttribute? (c :: v) with
        | none => rfl
        | some text =>
          obtain ⟨s, w, split, -, ⟨long, inside⟩, -⟩ := subAttribute?_eq_some_iff.mp sub
          obtain ⟨rfl, rfl⟩ := List.cons.inj split
          obtain ⟨d, ds, rfl⟩ := List.exists_cons_of_ne_nil long
          have other := ends rfl
          simp [inside d List.mem_cons_self] at other
    have solid : isBlank c = false := by rcases mark with rfl | rfl <;> decide
    have scanned := h.scan_eq
    rw [scan_stray p missed solid] at scanned
    cases scanned

/-! ## Lone names -/

/-- A name that begins with no digit and is no literal up to a character that does not go on a
name. -/
structure Spelling.Lone (n : Spelling) : Prop where
  number : number? n.text = none
  literal : ∀ words ∈ literalWords, literal? words n.text = none

/-- **Such a name is a single token.** -/
theorem Spelling.Lone.lexeme? {n : Spelling} (h : n.Lone) (mode : Mode) :
    mode.lexeme? n.text = some (.name, n.text) := by
  have number := h.number
  have boolean := h.literal _ (List.mem_cons_self ..)
  have null := h.literal _ (List.mem_cons_of_mem _ (List.mem_cons_self ..))
  have negation := negation?_eq_none fun c mem => n.isStop_of_mem mem
  have quote : '"' ∉ n.text := fun mem => absurd (n.isSchema_of_mem mem) (by decide)
  refine Mode.lexeme?_eq_name_iff.mpr ⟨n.name?_text, ?_⟩
  obtain ⟨c, cs, text⟩ := n.exists_cons
  have first : c ∈ n.text := text ▸ List.mem_cons_self
  have solid := isStop_eq_false_iff.mp (n.isStop_of_mem first)
  have notQuote : c ≠ '"' := fun same => quote (same ▸ first)
  rw [text] at number boolean null negation ⊢
  intro kind mem
  cases kind with
  | number => exact number
  | string => simp [Kind.lexeme?, string?, notQuote]
  | boolean => exact boolean
  | null => exact null
  | openParen | closeParen | openBracket | closeBracket => simp [Kind.lexeme?, char?, solid]
  | negation => exact negation
  | logical => simp [Kind.lexeme?, logical?, solid]
  | comparison => simp [Kind.lexeme?, comparison?, solid]
  | name | subAttribute => exact absurd mem (by decide)

theorem Lexeme.number?_cons_eq_none_iff {c : Char} {cs : List Char} :
    number? (c :: cs) = none ↔ isDigit c = false := by
  by_cases digit : isDigit c = true
  · simp only [number?, List.takeWhile_cons, digit, if_true, List.isEmpty_cons,
      Bool.false_eq_true, if_false]
    split
    · split <;> simp
    · simp
  · simp [number?, digit]

/-- **A name among the tokens of a text** is a name on its own. -/
theorem Tiles.exists_lone {mode : Mode} {p : Int} {cs : List Char} {ts : List Token} {t : Token}
    (h : Tiles mode p cs ts) (mem : t ∈ ts) (isName : t.kind = .name) :
    ∃ n : Spelling, n.Lone ∧ n.text = t.text := by
  obtain ⟨before, after, rfl⟩ := List.append_of_mem mem
  obtain ⟨u, v, -, -, found, tail⟩ := h.split
  rw [isName, Mode.lexeme?_eq_name_iff] at found
  obtain ⟨run, missed⟩ := found
  obtain ⟨n, text⟩ := exists_spelling run
  rw [← text] at run missed
  refine ⟨n, ⟨?_, ?_⟩, text⟩
  · have number : number? (n.text ++ v) = none := missed .number (by decide)
    obtain ⟨c, cs, text⟩ := n.exists_cons
    rw [text] at number ⊢
    exact number?_cons_eq_none_iff.mpr (number?_cons_eq_none_iff.mp number)
  · intro words known
    have none : literal? words (n.text ++ v) = none := by
      rcases List.mem_cons.mp known with rfl | known
      · exact missed .boolean (by decide)
      · obtain rfl := List.mem_singleton.mp known
        exact missed .null (by decide)
    cases literal : literal? words n.text with
    | none => rfl
    | some w =>
      obtain ⟨spelled, rest, split, ends⟩ := (literal?_eq_some_iff known).mp literal
      -- a literal at the start of the name would be one at the start of the text
      have behind : (rest ++ v).head?.any continuesName = false := by
        cases rest with
        | cons c rest => exact ends
        | nil =>
          rw [List.append_nil] at split
          rw [split] at run
          exact tail.behind_name (notMem_of_literal known spelled (.inr rfl)) run
      rw [split, List.append_assoc,
        (literal?_eq_some_iff known).mpr ⟨spelled, rest ++ v, rfl, behind⟩] at none
      cases none

/-! ## More segments -/

theorem dotted_append {a b : List (List Char)} (ha : a ≠ []) (hb : b ≠ []) :
    dotted (a ++ b) = dotted a ++ '.' :: dotted b := by
  induction a with
  | nil => exact absurd rfl ha
  | cons s a ih =>
    obtain ⟨t, b, rfl⟩ := List.exists_cons_of_ne_nil hb
    cases a with
    | nil => rw [List.singleton_append, dotted_cons_cons, dotted_singleton]
    | cons r a =>
      rw [List.cons_append, List.cons_append, dotted_cons_cons, dotted_cons_cons,
        ← List.cons_append, ih (List.cons_ne_nil r a), List.append_assoc]
      rfl

namespace Spelling

/-- A name with more segments at its end. -/
def extend (n : Spelling) (more : List (List Char)) (h : ∀ s ∈ more, IsSegment s) : Spelling where
  schema := n.schema
  segments := n.segments ++ more
  segments_ne_nil := List.append_ne_nil_of_left_ne_nil n.segments_ne_nil more
  isSegment := List.forall_mem_append.mpr ⟨n.isSegment, h⟩
  isSchema := n.isSchema

variable {n : Spelling} {more : List (List Char)} (h : ∀ s ∈ more, IsSegment s)

theorem text_extend (long : more ≠ []) :
    (n.extend more h).text = n.text ++ '.' :: dotted more := by
  have joined := dotted_append n.segments_ne_nil long
  unfold text
  dsimp only [Spelling.extend]
  rw [joined]
  cases n.schema with
  | none => rfl
  | some schema => simp

/-- **More segments** leave a name on its own. -/
theorem Lone.extend (lone : n.Lone) : (n.extend more h).Lone := by
  by_cases long : more = []
  · subst long
    have same : n.extend [] h = n := by
      simp [Spelling.extend]
    rwa [same]
  have text := n.text_extend h long
  refine ⟨?_, ?_⟩
  · have number := lone.number
    obtain ⟨c, cs, first⟩ := n.exists_cons
    rw [first] at number
    rw [text, first, List.cons_append]
    exact number?_cons_eq_none_iff.mpr (number?_cons_eq_none_iff.mp number)
  · intro words known
    have none := lone.literal words known
    cases literal : literal? words (n.extend more h).text with
    | none => rfl
    | some w =>
      obtain ⟨spelled, rest, split, ends⟩ := (literal?_eq_some_iff known).mp literal
      have dot := notMem_of_literal known spelled (.inl rfl)
      rw [text] at split
      rcases List.append_eq_append_iff.mp split with ⟨a, rfl, tail⟩ | ⟨a, whole, tail⟩
      · cases a with
        | nil =>
          rw [List.nil_append] at tail
          rw [← tail] at ends
          cases ends
        | cons c a =>
          obtain ⟨rfl, -⟩ := List.cons.inj tail
          exact absurd (List.mem_append_right _ List.mem_cons_self) dot
      · have behind : a.head?.any continuesName = false := by
          cases a with
          | nil => rfl
          | cons c a =>
            rw [tail] at ends
            exact ends
        rw [(literal?_eq_some_iff known).mpr ⟨spelled, a, whole, behind⟩] at none
        cases none

end Spelling

/-! ## Attribute paths -/

namespace AttributePath

/-- An attribute path whose full name is a name on its own. -/
def IsLone (p : AttributePath) : Prop := ∃ n : Spelling, n.Lone ∧ n.path = p

variable {p outer : AttributePath}

theorem IsLone.under (ho : outer.IsLone) (h : p.IsLone) : (outer.under p).IsLone := by
  obtain ⟨m, lone, rfl⟩ := ho
  obtain ⟨n, -, rfl⟩ := h
  refine ⟨m.extend n.segments n.isSegment, lone.extend n.isSegment, ?_⟩
  simp [Spelling.extend, Spelling.path, AttributePath.under]

theorem IsLone.append (h : p.IsLone) {s : String} (segment : IsSegment s.toList) :
    (p.append s).IsLone := by
  obtain ⟨n, lone, rfl⟩ := h
  have segments : ∀ s' ∈ [s.toList], IsSegment s' := List.forall_mem_singleton.mpr segment
  refine ⟨n.extend [s.toList] segments, lone.extend segments, ?_⟩
  simp [Spelling.extend, Spelling.path, AttributePath.append]

theorem IsLone.fullName_append (h : p.IsLone) {s : String} (segment : IsSegment s.toList) :
    (p.append s).fullName = p.fullName ++ "." ++ s := by
  obtain ⟨n, -, rfl⟩ := h
  have segments : ∀ s' ∈ [s.toList], IsSegment s' := List.forall_mem_singleton.mpr segment
  have path : n.path.append s = (n.extend [s.toList] segments).path := by
    simp [Spelling.extend, Spelling.path, AttributePath.append]
  apply String.toList_injective
  rw [path, Spelling.fullName_path, n.text_extend segments (List.cons_ne_nil _ _),
    dotted_singleton]
  simp [n.fullName_path]

end AttributePath

/-- **The attribute path of a name** among the tokens of a text. -/
theorem Tiles.isLone_pathOf {mode : Mode} {p : Int} {cs : List Char} {ts : List Token} {t : Token}
    (h : Tiles mode p cs ts) (mem : t ∈ ts) (isName : t.kind = .name) :
    (Phrase.pathOf t).IsLone := by
  obtain ⟨n, lone, text⟩ := h.exists_lone mem isName
  refine ⟨n, lone, ?_⟩
  rw [Phrase.pathOf, ← text, n.named_text]

end Scim
