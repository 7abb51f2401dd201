import Scim.Proofs.Scan.Settled

/-!
# Blanks around a text

* `tiles_of_blank`                blanks alone have no tokens;
* `Tiles.drop_blanks`             the tokens behind the first blanks, if the first of them is no
                                  operator;
* `Tiles.head_of_blanks`          blanks before the word of an operator that wants them become part
                                  of it;
* `Tiles.append_blanks`           blanks behind a settled token do not matter;
* `Tiles.append_blanks_of_name`   nor do they behind a lonely name, unless it is `not`.
-/

namespace Scim

open Text Lexeme

theorem Tiles.unique {mode : Mode} {p : Int} {cs : List Char} {ts us : List Token}
    (h : Tiles mode p cs ts) (h' : Tiles mode p cs us) : ts = us :=
  Except.ok.inj (h.scan_eq.symm.trans h'.scan_eq)

theorem tiles_of_blank {mode : Mode} {p : Int} {b : List Char} (h : ∀ c ∈ b, isBlank c = true) :
    Tiles mode p b [] := by
  induction b generalizing p with
  | nil => exact .nil p
  | cons c b ih =>
    have hc := h c List.mem_cons_self
    exact .blank (Trails.lexeme?_eq_none hc (trails_of_blank h)) hc
      (ih fun d hd => h d (List.mem_cons_of_mem c hd))

theorem isBlank_head_dropWhile (cs : List Char) :
    ∀ c ∈ (cs.dropWhile isBlank).head?, isBlank c = false := by
  intro c hc
  have none := List.head?_dropWhile_not isBlank cs
  rw [hc] at none
  exact none

theorem dropWhile_blank_of_head {cs : List Char} (h : ∀ c ∈ cs.head?, isBlank c = false) :
    cs.dropWhile isBlank = cs := by
  cases cs with
  | nil => rfl
  | cons c cs => rw [List.dropWhile_cons, if_neg (by rw [h c rfl]; exact Bool.false_ne_true)]

/-! ## Blanks before a text -/

theorem Tiles.drop_blanks {mode : Mode} {p : Int} {cs : List Char} {ts : List Token}
    (h : Tiles mode p cs ts) (fresh : ∀ t ∈ ts.head?, t.IsFresh) :
    Tiles mode (p + (cs.takeWhile isBlank).length) (cs.dropWhile isBlank) ts := by
  induction cs generalizing p with
  | nil => simpa using h
  | cons c cs ih =>
    by_cases hc : isBlank c = true
    · have rest := ih ((tiles_blank_iff (h.lexeme?_blank fresh hc) hc).mp h)
      rw [List.dropWhile_cons, List.takeWhile_cons, if_pos hc, if_pos hc, List.length_cons]
      have place : p + ((cs.takeWhile isBlank).length + 1 : Nat) =
          p + 1 + (cs.takeWhile isBlank).length := by omega
      rwa [place]
    · rw [List.dropWhile_cons, List.takeWhile_cons, if_neg hc, if_neg hc]
      simpa using h

theorem head_of_beginsSpaced {cs : List Char} (h : beginsSpaced cs = true) :
    ∀ c ∈ cs.head?, isBlank c = false := by
  intro c hc
  cases blank : isBlank c with
  | false => rfl
  | true =>
    have stops : Stops cs := by
      intro d hd
      obtain rfl := Option.some.inj (hc.symm.trans hd)
      exact isStop_of_isBlank blank
    have none := beginsOperator_of_stops stops
    unfold beginsOperator at none
    rw [h, Bool.true_or] at none
    cases none

/-- **Blanks before the word of an operator** become part of it, if a blank follows. -/
theorem Tiles.head_of_blanks {mode : Mode} {p : Int} {b cs : List Char} {ts : List Token}
    (h : Tiles mode p (b ++ cs) ts) (hb : ∀ c ∈ b, isBlank c = true) (long : b ≠ [])
    (begins : beginsSpaced cs = true) : ¬ ∀ t ∈ ts.head?, t.IsFresh := by
  intro fresh
  induction b generalizing p with
  | nil => exact long rfl
  | cons c b ih =>
    have hc := hb c List.mem_cons_self
    have missed : mode.lexeme? (c :: (b ++ cs)) = none := h.lexeme?_blank fresh hc
    by_cases more : b = []
    · subst more
      obtain ⟨notLogical, notComparison⟩ := (Mode.lexeme?_blank_eq_none_iff hc).mp missed
      have rest : (c :: ([] ++ cs)).dropWhile isBlank = cs := by
        rw [List.dropWhile_cons, if_pos hc]
        exact dropWhile_blank_of_head (head_of_beginsSpaced begins)
      have first := spacedWord?_dropWhile notLogical (by simp [hc])
      rw [rest] at first
      have second : spacedWord? comparisonWords cs = none := by
        cases found : spacedWord? comparisonWords cs with
        | none => rfl
        | some word =>
          rw [List.nil_append, comparison?_cons_eq_some_iff.mpr ⟨hc, word, .inl found, rfl⟩]
            at notComparison
          cases notComparison
      rw [beginsSpaced_eq_false_iff.mpr ⟨first, second⟩] at begins
      cases begins
    · exact ih ((tiles_blank_iff missed hc).mp h) (fun d hd => hb d (List.mem_cons_of_mem c hd))
        more

/-! ## Blanks behind a text -/

theorem Tiles.append_blanks {mode : Mode} {p : Int} {cs b : List Char} {ts : List Token}
    (h : Tiles mode p cs ts) (last : ∀ t ∈ ts.getLast?, t.IsSettled)
    (hb : ∀ c ∈ b, isBlank c = true) : Tiles mode p (cs ++ b) ts := by
  have whole := h.append_of_settled last (trails_of_blank hb) (fun _ => hb) (tiles_of_blank hb)
  rwa [List.append_nil] at whole

theorem Lexeme.subAttribute?_behind {text v : List Char}
    (h : subAttribute? (text ++ v) = some text) : ∀ c ∈ v, isBlank c = true := by
  cases text with
  | nil => exact absurd rfl (prefixed_subAttribute? _ _ h).1
  | cons c text =>
    by_cases dot : c = '.'
    · subst dot
      simp only [List.cons_append, subAttribute?] at h
      split at h
      · cases h
      · next last =>
        have segment : (text ++ v).takeWhile isSegment = text :=
          (List.cons.inj (Option.some.inj h)).2
        rw [segment, List.drop_left, Bool.or_eq_true, not_or, Bool.not_eq_true', Bool.not_eq_false]
          at last
        exact List.all_eq_true.mp last.2
    · simp [subAttribute?, dot] at h

theorem Tiles.eq_nil_behind_subAttribute {mode : Mode} {p : Int} {cs : List Char}
    {before after : List Token} {t : Token} (h : Tiles mode p cs (before ++ t :: after))
    (isSub : t.kind = .subAttribute) : after = [] := by
  obtain ⟨u, v, -, -, found, tail⟩ := h.split
  have run := (Mode.exists_of_lexeme?_eq_some found).1
  rw [isSub] at run
  have blank : ∀ c ∈ v, isBlank c = true := subAttribute?_behind run
  exact tail.unique (tiles_of_blank blank)

theorem Mode.lexeme?_eq_name_iff {mode : Mode} {cs text : List Char} :
    mode.lexeme? cs = some (.name, text) ↔
      name? cs = some text ∧ ∀ kind ∈ filterKinds.dropLast, kind.lexeme? cs = none := by
  obtain ⟨others, order⟩ : ∃ others, mode.kinds = filterKinds.dropLast ++ .name :: others := by
    cases mode
    · exact ⟨[], rfl⟩
    · exact ⟨[.subAttribute], rfl⟩
  have before : mode.lexeme? cs =
      (filterKinds.dropLast.findSome? fun kind => (kind.lexeme? cs).map (kind, ·)).or
        ((Kind.name :: others).findSome? fun kind => (kind.lexeme? cs).map (kind, ·)) := by
    unfold Mode.lexeme?
    rw [order, List.findSome?_append]
  constructor
  · intro found
    refine ⟨(Mode.exists_of_lexeme?_eq_some found).1, ?_⟩
    rw [before] at found
    cases first : filterKinds.dropLast.findSome? fun kind => (kind.lexeme? cs).map (kind, ·) with
    | none =>
      intro kind mem
      exact Option.map_eq_none_iff.mp (List.findSome?_eq_none_iff.mp first kind mem)
    | some lexeme =>
      rw [first, Option.some_or] at found
      obtain rfl := Option.some.inj found
      obtain ⟨kind, mem, hit⟩ := List.exists_of_findSome?_eq_some first
      obtain ⟨_, -, same⟩ := Option.map_eq_some_iff.mp hit
      obtain rfl : kind = .name := (Prod.mk.inj same).1
      exact absurd mem (by decide)
  · rintro ⟨run, missed⟩
    have first : filterKinds.dropLast.findSome? (fun kind => (kind.lexeme? cs).map (kind, ·)) =
        none := by
      rw [List.findSome?_eq_none_iff]
      intro kind mem
      rw [missed kind mem]
      rfl
    have named : Kind.name.lexeme? cs = some text := run
    rw [before, first, Option.none_or, List.findSome?_cons, named]
    rfl

theorem Lexeme.negation?_append_eq_none {a b : List Char} (missed : negation? a = none)
    (other : a.map foldLetter ≠ ['n', 'o', 't']) (hb : Stops b) : negation? (a ++ b) = none := by
  cases found : negation? (a ++ b) with
  | none => rfl
  | some text =>
    obtain ⟨word, spelled, follows, -⟩ := negation?_eq_some_iff.mp found
    rw [word?_append (by decide) a hb] at spelled
    obtain ⟨-, rest, rfl⟩ := prefixed_word? (by decide) a word spelled
    rw [List.append_assoc, List.drop_left] at follows
    cases rest with
    | nil =>
      rw [List.append_nil] at other
      exact absurd (word?_eq_some_iff.mp spelled).2 other
    | cons c rest =>
      have alone : ((word ++ c :: rest).drop word.length).takeWhile isBlank ≠ [] ∨
          ((word ++ c :: rest).drop word.length).head? = some '(' := by
        rw [List.drop_left]
        refine follows.imp_left fun blank none => blank ?_
        have solid : ¬ isBlank c = true := by
          intro hc
          simp [hc] at none
        rw [List.cons_append, List.takeWhile_cons, if_neg solid]
      rw [negation?_eq_some_iff.mpr ⟨word, spelled, alone, rfl⟩] at missed
      cases missed

theorem Mode.lexeme?_name_append {mode : Mode} {a b text : List Char}
    (found : mode.lexeme? a = some (.name, text)) (other : a.map foldLetter ≠ ['n', 'o', 't'])
    (hb : Stops b) : mode.lexeme? (a ++ b) = some (.name, text) := by
  obtain ⟨-, long, rest, split⟩ := Mode.exists_of_lexeme?_eq_some found
  rw [Mode.lexeme?_eq_name_iff] at found ⊢
  obtain ⟨run, missed⟩ := found
  refine ⟨by rwa [name?_append a hb], ?_⟩
  have named : Kind.name.lexeme? a = some text := run
  obtain ⟨c, cs, rfl⟩ : ∃ c cs, a = c :: cs := by
    rw [split]
    exact List.exists_cons_of_ne_nil (List.append_ne_nil_of_left_ne_nil long rest)
  have solid : isBlank c ≠ true := by
    intro hc
    rw [Kind.lexeme?_blank (by decide) (by decide) hc] at named
    cases named
  intro kind mem
  have none := missed kind mem
  cases kind with
  | number => exact (number?_append _ hb).trans none
  | string =>
    have notQuote : c ≠ '"' := by
      rintro rfl
      rw [Kind.lexeme?_quote (by decide)] at named
      cases named
    simp [Kind.lexeme?, string?, notQuote]
  | boolean => exact (literal?_append (by decide) _ hb).trans none
  | null => exact (literal?_append (by decide) _ hb).trans none
  | openParen | closeParen | openBracket | closeBracket => exact none
  | negation => exact negation?_append_eq_none none other hb
  | logical => simp [Kind.lexeme?, logical?, solid]
  | comparison => simp [Kind.lexeme?, comparison?, solid]
  | name | subAttribute => exact absurd mem (by decide)

theorem Tiles.append_blanks_of_name {mode : Mode} {p : Int} {cs b : List Char} {name : Token}
    (h : Tiles mode p cs [name]) (isName : name.kind = .name)
    (solid : ∀ c ∈ cs.head?, isBlank c = false) (hb : ∀ c ∈ b, isBlank c = true)
    (free : b = [] ∨ cs.map foldLetter ≠ ['n', 'o', 't']) : Tiles mode p (cs ++ b) [name] := by
  rcases free with rfl | other
  · rwa [List.append_nil]
  cases h with
  | blank _ hc _ =>
    rw [solid _ rfl] at hc
    cases hc
  | @token _ kind text cs _ found rest =>
    obtain rfl : kind = .name := isName
    have stops : Stops b := (trails_of_blank hb).stops
    have stays := Mode.lexeme?_name_append found other stops
    rw [List.append_assoc] at stays ⊢
    refine .token stays (tiles_of_blank ?_)
    intro c mem
    exact (List.mem_append.mp mem).elim (rest.isBlank_of_nil c) (hb c)

end Scim
