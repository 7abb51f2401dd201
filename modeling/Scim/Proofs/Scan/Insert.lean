import Scim.Proofs.Scan.Extend

/-!
# Writing between tokens

* `Tiles.shift`       a text at another place has the same tokens, moved;
* `Tiles.swap`        what is written behind an opening parenthesis or bracket does not change the
                      tokens up to there;
* `Tiles.front`       the tokens before a closing parenthesis or bracket are those of the text
                      before it;
* `beginsOperator`    a text that begins like an operator without the blank before it;
* `Tiles.blanks`      blanks before any other text do not change its tokens.
-/

namespace Scim

open Text Lexeme

/-! ## Texts at another place -/

theorem Tiles.shift {mode : Mode} {p : Int} {cs : List Char} {ts : List Token}
    (h : Tiles mode p cs ts) (n : Int) : Tiles mode (p + n) cs (ts.map (Token.shift n)) := by
  induction h with
  | nil p => exact .nil _
  | @blank p c cs ts missed hc _ ih =>
    refine .blank missed hc ?_
    rwa [Int.add_right_comm] at ih
  | @token p kind text cs ts found _ ih =>
    refine .token found ?_
    rwa [Int.add_right_comm] at ih

/-! ## Opening parentheses and brackets -/

namespace Lexeme

def isWall (c : Char) : Bool := c == '(' || c == ')' || c == '[' || c == ']'

theorem isWall_cases {c : Char} (h : isWall c = true) : c = '(' ∨ c = ')' ∨ c = '[' ∨ c = ']' := by
  simpa [isWall, or_assoc] using h

theorem isBlank_of_isWall {c : Char} (h : isWall c = true) : isBlank c = false := by
  rcases isWall_cases h with rfl | rfl | rfl | rfl <;> decide

theorem stops_wall {c : Char} (h : isWall c = true) (v : List Char) : Stops (c :: v) := by
  apply stops_cons
  rcases isWall_cases h with rfl | rfl | rfl | rfl <;> rfl

variable {c : Char} (h : isWall c = true) (a v : List Char)

include h

theorem takeWhile_blank_wall : (a ++ c :: v).takeWhile isBlank = a.takeWhile isBlank := by
  rw [List.takeWhile_append]
  split
  · next whole =>
    rw [List.takeWhile_cons, isBlank_of_isWall h, if_neg Bool.false_ne_true, List.append_nil]
    exact ((List.takeWhile_prefix isBlank).eq_of_length whole).symm
  · rfl

theorem spacedWord?_wall {words : List (List Char)} (hw : PlainWords words) :
    spacedWord? words (a ++ c :: v) = spacedWord? words a := by
  unfold spacedWord?
  rw [anyWord?_append hw a (stops_wall h v)]
  cases found : anyWord? words a with
  | none => rfl
  | some word =>
    obtain ⟨-, rest, rfl⟩ := prefixed_anyWord? hw.1 a word found
    simp only [Option.bind_eq_bind, Option.bind_some, List.append_assoc, List.drop_left,
      takeWhile_blank_wall h]

theorem logical?_wall : logical? (a ++ c :: v) = logical? a := by
  unfold logical?
  dsimp only
  rw [takeWhile_blank_wall h, List.drop_append_of_le_length (List.takeWhile_prefix _).length_le,
    spacedWord?_wall h _ _ (by decide)]

theorem comparison?_wall (ha : a ≠ []) : comparison? (a ++ c :: v) = comparison? a := by
  cases a with
  | nil => exact absurd rfl ha
  | cons d cs =>
    rw [List.cons_append, comparison?, comparison?, spacedWord?_wall h _ _ (by decide),
      word?_append (by decide) cs (stops_wall h v)]

theorem negation?_wall (v' : List Char) :
    negation? (a ++ c :: v) = negation? (a ++ c :: v') := by
  unfold negation?
  rw [word?_append (by decide) a (stops_wall h v), word?_append (by decide) a (stops_wall h v')]
  cases found : word? ['n', 'o', 't'] a with
  | none => rfl
  | some word =>
    obtain ⟨-, rest, rfl⟩ := prefixed_word? (by decide) a word found
    simp only [Option.bind_eq_bind, Option.bind_some, List.append_assoc, List.drop_left,
      takeWhile_blank_wall h]
    cases rest <;> rfl

theorem subAttribute?_wall : subAttribute? (a ++ c :: v) = none := by
  cases a with
  | nil =>
    rcases isWall_cases h with rfl | rfl | rfl | rfl <;> rfl
  | cons d rest =>
    by_cases dot : d = '.'
    · subst dot
      have same : (rest ++ c :: v).takeWhile isSegment = rest.takeWhile isSegment :=
        takeWhile_append_of_stops (fun _ => isSegment_eq_false_of_isStop) rest (stops_wall h v)
      simp only [List.cons_append, subAttribute?, same]
      rw [List.drop_append_of_le_length (List.takeWhile_prefix _).length_le, List.all_append,
        List.all_cons, isBlank_of_isWall h, Bool.false_and, Bool.and_false]
      simp
    · simp [subAttribute?, dot]

end Lexeme

theorem Kind.lexeme?_wall {kind : Kind} (hk : kind ≠ .string) {c : Char} (h : isWall c = true)
    {a : List Char} (ha : a ≠ []) (v v' : List Char) :
    kind.lexeme? (a ++ c :: v) = kind.lexeme? (a ++ c :: v') := by
  have alone {read : List Char → Option (List Char)}
      (same : ∀ b, Stops b → read (a ++ b) = read a) :
      read (a ++ c :: v) = read (a ++ c :: v') := by
    rw [same _ (stops_wall h v), same _ (stops_wall h v')]
  cases kind with
  | string => exact absurd rfl hk
  | number => exact alone fun _ => number?_append a
  | boolean => exact alone fun _ => literal?_append (by decide) a
  | null => exact alone fun _ => literal?_append (by decide) a
  | openParen | closeParen | openBracket | closeBracket =>
    cases a with
    | nil => exact absurd rfl ha
    | cons d cs => rfl
  | negation => exact negation?_wall h a v v'
  | logical => exact (logical?_wall h a v).trans (logical?_wall h a v').symm
  | comparison => exact (comparison?_wall h a v ha).trans (comparison?_wall h a v' ha).symm
  | name => exact alone fun _ => name?_append a
  | subAttribute => exact (subAttribute?_wall h a v).trans (subAttribute?_wall h a v').symm

theorem Mode.lexeme?_wall {mode : Mode} {c : Char} (h : isWall c = true) {a v text : List Char}
    {kind : Kind} (found : mode.lexeme? (a ++ c :: v) = some (kind, text))
    (short : text.length ≤ a.length) (v' : List Char) :
    mode.lexeme? (a ++ c :: v') = some (kind, text) := by
  have long : a ≠ [] := by
    rintro rfl
    exact (Mode.exists_of_lexeme?_eq_some found).2.1
      (List.eq_nil_of_length_eq_zero (Nat.le_zero.mp short))
  obtain ⟨before, kind', after, order, hit, missed⟩ := List.findSome?_eq_some_iff.mp found
  obtain ⟨text', run, same⟩ := Option.map_eq_some_iff.mp hit
  obtain ⟨rfl, rfl⟩ := Prod.mk.inj same
  have stays : kind'.lexeme? (a ++ c :: v') = some text' := by
    by_cases string : kind' = .string
    · subst string
      have read : string? (a ++ c :: v) = some text' := run
      exact string?_append (string?_of_append read short) (c :: v')
    · rw [Kind.lexeme?_wall string h long v' v]
      exact run
  refine List.findSome?_eq_some_iff.mpr ⟨before, kind', after, order, by rw [stays]; rfl, ?_⟩
  intro k mem
  have none := Option.map_eq_none_iff.mp (missed k mem)
  rw [Option.map_eq_none_iff]
  by_cases string : k = .string
  · -- a quotation mark would begin a string, and no other token
    subst string
    cases a with
    | nil => exact absurd rfl long
    | cons d cs =>
      by_cases quote : d = '"'
      · subst quote
        by_cases string : kind' = .string
        · subst string
          rw [run] at none
          cases none
        · rw [List.cons_append, Kind.lexeme?_quote string] at run
          cases run
      · simp [Kind.lexeme?, string?, quote]
  · rw [Kind.lexeme?_wall string h long v' v]
    exact none

theorem Mode.lexeme?_wall_eq_none {mode : Mode} {c d : Char} (h : isWall c = true)
    (hd : isBlank d = true) {a v : List Char} (missed : mode.lexeme? (d :: a ++ c :: v) = none)
    (v' : List Char) : mode.lexeme? (d :: a ++ c :: v') = none := by
  rw [List.cons_append, Mode.lexeme?_blank_eq_none_iff hd, ← List.cons_append, logical?_wall h,
    comparison?_wall h _ _ (List.cons_ne_nil d a)] at missed ⊢
  exact missed

def Kind.wall? : Kind → Option Char
  | .openParen => some '('
  | .closeParen => some ')'
  | .openBracket => some '['
  | .closeBracket => some ']'
  | _ => none

theorem Kind.isWall_of_wall? {kind : Kind} {c : Char} (h : kind.wall? = some c) :
    isWall c = true := by
  cases kind <;> cases h <;> rfl

theorem Kind.exists_wall_of_opens {kind : Kind} (h : kind.opens = true) :
    ∃ c, kind.wall? = some c := by
  cases kind <;> first | exact ⟨_, rfl⟩ | cases h

theorem Kind.exists_wall_of_closes {kind : Kind} (h : kind.closes = true) :
    ∃ c, kind.wall? = some c ∧ (c = ')' ∨ c = ']') := by
  cases kind <;> first | exact ⟨_, rfl, .inl rfl⟩ | exact ⟨_, rfl, .inr rfl⟩ | cases h

theorem Mode.lexeme?_cons_wall {mode : Mode} {kind : Kind} {c : Char} (h : kind.wall? = some c)
    (v : List Char) : mode.lexeme? (c :: v) = some (kind, [c]) := by
  cases kind <;> cases h <;> cases mode <;> rfl

theorem Kind.eq_of_wall? {kind : Kind} {c : Char} (h : kind.wall? = some c) {cs text : List Char}
    (found : kind.lexeme? cs = some text) : text = [c] := by
  cases kind <;> cases h <;> exact eq_of_char? found

/-- **What is written behind a parenthesis or bracket** does not change the tokens up to there. -/
theorem Tiles.swap {mode : Mode} {p : Int} {cs : List Char} {before after : List Token} {t : Token}
    {c : Char} (h : Tiles mode p cs (before ++ t :: after)) (wall : t.kind.wall? = some c) :
    ∃ u v, cs = u ++ c :: v ∧ t.text = [c] ∧ t.position = p + u.length ∧
      Tiles mode t.stop v after ∧
      ∀ v' ts', Tiles mode p (u ++ c :: v') ts' ↔
        ∃ after', ts' = before ++ t :: after' ∧ Tiles mode t.stop v' after' := by
  generalize whole : before ++ t :: after = ts at h
  induction h generalizing before with
  | nil p => simp at whole
  | @blank p d cs ts missed hd rest ih =>
    obtain ⟨u, v, rfl, text, place, tail, other⟩ := ih whole
    refine ⟨d :: u, v, rfl, text, ?_, tail, ?_⟩
    · rw [place, List.length_cons]
      omega
    · intro v' ts'
      have stays := Mode.lexeme?_wall_eq_none (Kind.isWall_of_wall? wall) hd missed v'
      exact (tiles_blank_iff stays hd).trans (other v' ts')
  | @token p kind text cs ts found rest ih =>
    cases before with
    | nil =>
      obtain ⟨rfl, rfl⟩ := List.cons.inj whole
      obtain rfl : text = [c] :=
        Kind.eq_of_wall? wall (Mode.exists_of_lexeme?_eq_some found).1
      refine ⟨[], cs, rfl, rfl, by simp, rest, ?_⟩
      intro v' ts'
      have stays : mode.lexeme? ([c] ++ v') = some (kind, [c]) := Mode.lexeme?_cons_wall wall v'
      exact tiles_token_iff stays
    | cons t' before =>
      obtain ⟨rfl, more⟩ := List.cons.inj whole
      obtain ⟨u, v, rfl, text', place, tail, other⟩ := ih more
      refine ⟨text ++ u, v, by rw [List.append_assoc], text', ?_, tail, ?_⟩
      · rw [place, List.length_append]
        omega
      · intro v' ts'
        rw [← List.append_assoc] at found
        have stays := Mode.lexeme?_wall (Kind.isWall_of_wall? wall) found (by simp) v'
        rw [List.append_assoc] at stays ⊢
        rw [tiles_token_iff stays]
        constructor
        · rintro ⟨ts, rfl, behind⟩
          obtain ⟨after', rfl, tail'⟩ := (other v' ts).mp behind
          exact ⟨after', rfl, tail'⟩
        · rintro ⟨after', rfl, tail'⟩
          exact ⟨_, rfl, (other v' _).mpr ⟨after', rfl, tail'⟩⟩

/-! ## Closing parentheses and brackets -/

/-- **The tokens before a closing parenthesis or bracket** are those of the text before it. -/
theorem Tiles.front {mode : Mode} {p : Int} {cs : List Char} {before after : List Token}
    {t : Token} {c : Char} (h : Tiles mode p cs (before ++ t :: after))
    (wall : t.kind.wall? = some c) (closes : c ≠ '(') :
    ∃ u v, cs = u ++ c :: v ∧ t.text = [c] ∧ t.position = p + u.length ∧ Tiles mode p u before ∧
      Tiles mode t.stop v after := by
  have behind (v : List Char) : Behind (c :: v) :=
    ⟨stops_wall (Kind.isWall_of_wall? wall) v, fun same => closes (Option.some.inj same)⟩
  generalize whole : before ++ t :: after = ts at h
  induction h generalizing before with
  | nil p => simp at whole
  | @blank p d cs ts missed hd rest ih =>
    obtain ⟨u, v, rfl, text, place, head, tail⟩ := ih whole
    refine ⟨d :: u, v, rfl, text, ?_, .blank ?_ hd head, tail⟩
    · rw [place, List.length_cons]
      omega
    · exact Mode.lexeme?_cut_none (behind v) hd missed
  | @token p kind text cs ts found rest ih =>
    cases before with
    | nil =>
      obtain ⟨rfl, rfl⟩ := List.cons.inj whole
      obtain rfl : text = [c] :=
        Kind.eq_of_wall? wall (Mode.exists_of_lexeme?_eq_some found).1
      exact ⟨[], cs, rfl, rfl, by simp, .nil p, rest⟩
    | cons t' before =>
      obtain ⟨rfl, more⟩ := List.cons.inj whole
      obtain ⟨u, v, rfl, text', place, head, tail⟩ := ih more
      refine ⟨text ++ u, v, by rw [List.append_assoc], text', ?_, .token ?_ head, tail⟩
      · rw [place, List.length_append]
        omega
      · rw [← List.append_assoc] at found
        exact Mode.lexeme?_of_append (behind v) found (by simp)

/-! ## Blanks before a text -/

/-- Whether a text begins with the word of an operator and a blank. -/
def beginsSpaced (cs : List Char) : Bool :=
  (spacedWord? logicalWords cs).isSome || (spacedWord? comparisonWords cs).isSome

/-- Whether a text begins like an operator that wants a blank before it: with `pr`, or with the word
of another operator and a blank. -/
def beginsOperator (cs : List Char) : Bool := beginsSpaced cs || (word? ['p', 'r'] cs).isSome

theorem beginsSpaced_eq_false_iff {cs : List Char} : beginsSpaced cs = false ↔
    spacedWord? logicalWords cs = none ∧ spacedWord? comparisonWords cs = none := by
  unfold beginsSpaced
  rw [Bool.or_eq_false_iff, Option.isSome_eq_false_iff, Option.isSome_eq_false_iff,
    Option.isNone_iff_eq_none, Option.isNone_iff_eq_none]

theorem beginsOperator_eq_false_iff {cs : List Char} : beginsOperator cs = false ↔
    (spacedWord? logicalWords cs = none ∧ spacedWord? comparisonWords cs = none) ∧
      word? ['p', 'r'] cs = none := by
  unfold beginsOperator
  rw [Bool.or_eq_false_iff, beginsSpaced_eq_false_iff, Option.isSome_eq_false_iff,
    Option.isNone_iff_eq_none]

theorem beginsOperator_of_stops {cs : List Char} (h : Stops cs) : beginsOperator cs = false := by
  rw [beginsOperator_eq_false_iff]
  exact ⟨⟨spacedWord?_of_stops (by decide) h, spacedWord?_of_stops (by decide) h⟩,
    word?_of_stops (by decide) h⟩

/-- A token that is no operator between operands or values. -/
def Token.IsFresh (t : Token) : Prop := t.kind ≠ .logical ∧ t.kind ≠ .comparison

theorem isFresh_of_kind {t : Token} {kind : Kind} (h : t.kind = kind)
    (hk : kind ≠ .logical ∧ kind ≠ .comparison) : t.IsFresh := by
  unfold Token.IsFresh
  rw [h]
  exact hk

theorem isFresh_of_wall {t : Token} {c : Char} (h : t.kind.wall? = some c) : t.IsFresh := by
  constructor
  · intro logical
    rw [logical] at h
    cases h
  · intro comparison
    rw [comparison] at h
    cases h

theorem spacedWord?_dropWhile {cs : List Char} (h : logical? cs = none)
    (blank : cs.takeWhile isBlank ≠ []) :
    spacedWord? logicalWords (cs.dropWhile isBlank) = none := by
  cases found : spacedWord? logicalWords (cs.dropWhile isBlank) with
  | none => rfl
  | some word =>
    rw [← drop_length_takeWhile] at found
    rw [logical?_eq_some_iff.mpr ⟨blank, word, found, rfl⟩] at h
    cases h

theorem Tiles.lexeme?_blank {mode : Mode} {p : Int} {c : Char} {cs : List Char} {ts : List Token}
    (h : Tiles mode p (c :: cs) ts) (fresh : ∀ t ∈ ts.head?, t.IsFresh) (hc : isBlank c = true) :
    mode.lexeme? (c :: cs) = none := by
  generalize whole : c :: cs = cs' at h
  cases h with
  | nil p => cases whole
  | blank missed _ _ => exact missed
  | @token _ kind text rest _ found _ =>
    obtain ⟨notLogical, notComparison⟩ := fresh _ rfl
    have run := (Mode.exists_of_lexeme?_eq_some found).1
    rw [← whole, Kind.lexeme?_blank notLogical notComparison hc] at run
    cases run

/-- **Blanks before a text** do not change its tokens, unless they make it begin with an
operator. -/
theorem Tiles.blanks {mode : Mode} {p : Int} {w cs : List Char} {ts : List Token}
    (h : Tiles mode (p + w.length) cs ts) (hw : ∀ c ∈ w, isBlank c = true)
    (fresh : ∀ t ∈ ts.head?, t.IsFresh) (free : w = [] ∨ beginsOperator cs = false) :
    Tiles mode p (w ++ cs) ts := by
  -- what the blanks could begin is decided by the text behind all of them
  have notLogical : ∀ w' : List Char, (∀ c ∈ w', isBlank c = true) → w ≠ [] →
      logical? (w' ++ cs) = none := by
    intro w' hw' long
    obtain ⟨⟨first, -⟩, -⟩ := beginsOperator_eq_false_iff.mp (free.resolve_left long)
    have behind : spacedWord? logicalWords (cs.dropWhile isBlank) = none := by
      cases cs with
      | nil => exact first
      | cons c cs =>
        by_cases hc : isBlank c = true
        · have missed := h.lexeme?_blank fresh hc
          rw [Mode.lexeme?_blank_eq_none_iff hc] at missed
          refine spacedWord?_dropWhile missed.1 ?_
          rw [List.takeWhile_cons, if_pos hc]
          exact List.cons_ne_nil _ _
        · rwa [List.dropWhile_cons, if_neg hc]
    unfold logical?
    dsimp only
    rw [drop_length_takeWhile, List.dropWhile_append_of_pos hw', behind]
    split <;> rfl
  induction w generalizing p with
  | nil => simpa using h
  | cons c w ih =>
    have hc : isBlank c = true := hw c List.mem_cons_self
    have later : ∀ d ∈ w, isBlank d = true := fun d hd => hw d (List.mem_cons_of_mem c hd)
    have place : p + (c :: w).length = p + 1 + w.length := by
      rw [List.length_cons]
      omega
    have freed : beginsOperator cs = false := free.resolve_left (List.cons_ne_nil c w)
    have rest : Tiles mode (p + 1) (w ++ cs) ts :=
      ih (place ▸ h) later (.inr freed)
        fun w' hw' long => notLogical w' hw' (List.cons_ne_nil c w)
    refine .blank ?_ hc rest
    rw [Mode.lexeme?_blank_eq_none_iff hc]
    refine ⟨notLogical (c :: w) hw (List.cons_ne_nil c w), ?_⟩
    have free' : beginsOperator (w ++ cs) = false := by
      cases w with
      | nil => exact freed
      | cons d w =>
        exact beginsOperator_of_stops (stops_cons (isStop_of_isBlank (later d List.mem_cons_self)))
    obtain ⟨⟨-, notSpaced⟩, notPresence⟩ := beginsOperator_eq_false_iff.mp free'
    show comparison? (c :: (w ++ cs)) = none
    rw [comparison?, if_pos hc, notSpaced, notPresence]
    rfl

end Scim
