import Scim.Proofs.Phrase.Matched
import Scim.Proofs.Scan.Cover

/-!
# Passages

A passage is what is read as one expression: the tokens of the whole text, or those of the contents
of a group.

* `unclosed`           the opening parentheses of a list of tokens, less the closing ones;
* `Passage`            the passages of a text, each with the position at which it ends;
* `Passage.cases`      a passage is the whole, or the contents of a group in it;
* `eq_of_opening`, `eq_of_closing`    the matching partner of a parenthesis is unique;
* `Passage.unique_of_token`    a token stands in one passage only, if what comes before it there is
                       matched;
* `Passage.unique_of_end`      no two passages end at one position.
-/

namespace Scim

namespace Phrase

/-! ## Counting parentheses -/

/-- The number of opening parentheses less the number of closing ones. -/
def unclosed (ts : List Token) : Int :=
  (ts.countP fun t => t.kind == .openParen) - (ts.countP fun t => t.kind == .closeParen)

theorem unclosed_append (ts us : List Token) :
    unclosed (ts ++ us) = unclosed ts + unclosed us := by
  simp only [unclosed, List.countP_append]
  omega

theorem unclosed_cons_open {t : Token} (h : t.kind = .openParen) (ts : List Token) :
    unclosed (t :: ts) = unclosed ts + 1 := by
  simp only [unclosed, List.countP_cons, h]
  simp
  omega

theorem unclosed_cons_close {t : Token} (h : t.kind = .closeParen) (ts : List Token) :
    unclosed (t :: ts) = unclosed ts - 1 := by
  simp only [unclosed, List.countP_cons, h]
  simp
  omega

theorem unclosed_cons_other {t : Token} (notOpen : t.kind ≠ .openParen)
    (notClose : t.kind ≠ .closeParen) (ts : List Token) :
    unclosed (t :: ts) = unclosed ts := by
  simp [unclosed, notOpen, notClose]

theorem Matched.unclosed_eq_zero {ts : List Token} (h : Matched ts) : unclosed ts = 0 := by
  induction h with
  | nil => rfl
  | other notOpen notClose _ ih => rw [unclosed_cons_other notOpen notClose, ih]
  | pair opens _ closes _ inner ih =>
    rw [unclosed_cons_open opens, unclosed_append, unclosed_cons_close closes, inner, ih]
    rfl

theorem Matched.unclosed_nonneg {us vs : List Token} (h : Matched (us ++ vs)) :
    0 ≤ unclosed us := by
  generalize whole : us ++ vs = ts at h
  induction h generalizing us vs with
  | nil =>
    obtain ⟨rfl, -⟩ := List.append_eq_nil_iff.mp whole
    exact Int.le_refl 0
  | other notOpen notClose _ ih =>
    cases us with
    | nil => exact Int.le_refl 0
    | cons u us =>
      obtain ⟨rfl, split⟩ := List.cons.inj whole
      rw [unclosed_cons_other notOpen notClose]
      exact ih split
  | @pair opening closing inner ts opens matched closes _ ihInner ih =>
    cases us with
    | nil => exact Int.le_refl 0
    | cons u us =>
      obtain ⟨rfl, split⟩ := List.cons.inj whole
      rw [unclosed_cons_open opens]
      obtain ⟨more, same, rest⟩ | ⟨more, same, rest⟩ := List.append_eq_append_iff.mp split
      · have := ihInner same.symm
        omega
      · cases more with
        | nil =>
          rw [same, List.append_nil, matched.unclosed_eq_zero]
          decide
        | cons c more =>
          obtain ⟨rfl, later⟩ := List.cons.inj rest
          have := ih later.symm
          rw [same, unclosed_append, unclosed_cons_close closes, matched.unclosed_eq_zero]
          omega

/-! ## Partners of parentheses -/

theorem eq_or_apart {us us' vs vs' : List Token} {t t' : Token}
    (h : us ++ t :: vs = us' ++ t' :: vs') : (us = us' ∧ t = t' ∧ vs = vs') ∨
      (∃ middle, vs = middle ++ t' :: vs') ∨ ∃ middle, vs' = middle ++ t :: vs := by
  obtain ⟨more, front, rest⟩ | ⟨more, front, rest⟩ := List.append_eq_append_iff.mp h
  · cases more with
    | nil =>
      obtain ⟨rfl, rfl⟩ := List.cons.inj rest
      exact .inl ⟨(front.trans (List.append_nil us)).symm, rfl, rfl⟩
    | cons c more => exact .inr (.inl ⟨more, (List.cons.inj rest).2⟩)
  · cases more with
    | nil =>
      obtain ⟨rfl, rfl⟩ := List.cons.inj rest
      exact .inl ⟨front.trans (List.append_nil us'), rfl, rfl⟩
    | cons c more => exact .inr (.inr ⟨more, (List.cons.inj rest).2⟩)

theorem not_matched_of_opening {ts before us : List Token} {opening : Token}
    (h : ts = before ++ opening :: us) (opens : opening.kind = .openParen) (matched : Matched us) :
    ¬ Matched ts := by
  rintro whole
  subst h
  have total := whole.unclosed_eq_zero
  have front := whole.unclosed_nonneg
  rw [unclosed_append, unclosed_cons_open opens, matched.unclosed_eq_zero] at total
  omega

/-- the last opening parenthesis behind which all parentheses match -/
theorem eq_of_opening {before before' us us' : List Token} {opening opening' : Token}
    (h : before ++ opening :: us = before' ++ opening' :: us') (opens : opening.kind = .openParen)
    (opens' : opening'.kind = .openParen) (matched : Matched us) (matched' : Matched us') :
    before = before' ∧ us = us' := by
  -- what stands between the two opening parentheses would close one too many
  obtain ⟨same, -, rest⟩ | ⟨middle, behind⟩ | ⟨middle, behind⟩ := eq_or_apart h
  · exact ⟨same, rest⟩
  · exact absurd matched (not_matched_of_opening behind opens' matched')
  · exact absurd matched' (not_matched_of_opening behind opens matched)

/-- the first closing parenthesis before which all parentheses match -/
theorem eq_of_closing {us us' : List Token} (after after' : List Token) {closing closing' : Token}
    (h : us ++ closing :: after = us' ++ closing' :: after') (closes : closing.kind = .closeParen)
    (closes' : closing'.kind = .closeParen) (matched : Matched us) (matched' : Matched us') :
    us = us' := by
  have first : Descent.enclosed (us ++ closing :: after) = us := enclosed_eq matched closes
  rw [h, enclosed_eq matched' closes'] at first
  exact first.symm

/-! ## Passages -/

/-- The whole text, or the contents of a group in a passage, with the position of its end. -/
inductive Passage (whole : List Token) (stop : Int) : List Token → Int → Prop where
  | whole : Passage whole stop whole stop
  | group {before inner after : List Token} {opening closing last : Token} {stop' : Int} :
      Passage whole stop (before ++ opening :: (inner ++ closing :: after)) stop' →
      opening.kind = .openParen → closing.kind = .closeParen → Matched inner →
      inner.getLast? = some last → Passage whole stop inner last.stop

variable {whole ts ts' : List Token} {stop last last' : Int}

/-- A group around a passage, among the tokens of the whole text. -/
structure Enclosed (whole ts : List Token) (last : Int) : Prop where
  matched : Matched ts
  group : ∃ before opening closing after, whole = before ++ opening :: (ts ++ closing :: after) ∧
    opening.kind = .openParen ∧ closing.kind = .closeParen
  ends : ∃ init t, ts = init ++ [t] ∧ last = t.stop

theorem Passage.cases (h : Passage whole stop ts last) :
    (ts = whole ∧ last = stop) ∨ Enclosed whole ts last := by
  induction h with
  | whole => exact .inl ⟨rfl, rfl⟩
  | @group before inner after opening closing last _ _ opens closes matched final ih =>
    obtain ⟨init, split⟩ := List.getLast?_eq_some_iff.mp final
    refine .inr ⟨matched, ?_, init, last, split, rfl⟩
    obtain ⟨rfl, -⟩ | outer := ih
    · exact ⟨before, opening, closing, after, rfl, opens, closes⟩
    · obtain ⟨front, o, c, behind, rfl, -, -⟩ := outer.group
      exact ⟨front ++ o :: before, opening, closing, after ++ c :: behind, by simp, opens, closes⟩

theorem Passage.infix (h : Passage whole stop ts last) : ts <:+: whole := by
  obtain ⟨rfl, -⟩ | outer := h.cases
  · exact List.infix_refl ts
  · obtain ⟨front, o, c, behind, rfl, -, -⟩ := outer.group
    exact ⟨front ++ [o], c :: behind, by simp⟩

/-! ## The passage of a place -/

section

variable {mode : Mode} {text : List Char} (tiles : Tiles mode 0 text whole)

include tiles

theorem position_lt_stop {us vs : List Token} {t : Token} (h : whole = us ++ t :: vs) :
    t.position < t.stop ∧ t.stop ≤ text.length := by
  subst h
  obtain ⟨u, v, rfl, place, run, -⟩ := tiles.split
  have long := List.length_pos_iff.mpr (Mode.exists_of_lexeme?_eq_some run).2.1
  rw [Token.stop, List.length_append, List.length_append]
  omega

theorem stop_le_position {us ms vs : List Token} {t t' : Token}
    (h : whole = us ++ t :: (ms ++ t' :: vs)) : t.stop ≤ t'.position := by
  subst h
  obtain ⟨u, v, -, -, -, behind⟩ := tiles.split
  obtain ⟨u', v', -, place, -, -⟩ := behind.split
  omega

theorem eq_of_place {us us' vs vs' : List Token} {t t' : Token} (h : whole = us ++ t :: vs)
    (h' : whole = us' ++ t' :: vs') (same : t.position = t'.position ∨ t.stop = t'.stop) :
    us = us' ∧ t = t' ∧ vs = vs' := by
  have long := position_lt_stop tiles h
  have long' := position_lt_stop tiles h'
  obtain here | ⟨middle, behind⟩ | ⟨middle, behind⟩ := eq_or_apart (h.symm.trans h')
  · exact here
  · rw [behind] at h
    have := stop_le_position tiles h
    omega
  · rw [behind] at h'
    have := stop_le_position tiles h'
    omega

theorem Enclosed.eq {us us' vs vs' : List Token} {t t' : Token} (h : Enclosed whole ts last)
    (h' : Enclosed whole ts' last') (split : ts = us ++ t :: vs) (split' : ts' = us' ++ t' :: vs')
    (same : t.position = t'.position ∨ t.stop = t'.stop)
    (matched : Matched us ∧ Matched us' ∨ vs = [] ∧ vs' = []) : ts = ts' ∧ last = last' := by
  obtain ⟨before, opening, closing, after, group, opens, closes⟩ := h.group
  obtain ⟨before', opening', closing', after', group', opens', closes'⟩ := h'.group
  have first : whole = (before ++ opening :: us) ++ t :: (vs ++ closing :: after) := by
    rw [group, split]
    simp
  have second : whole = (before' ++ opening' :: us') ++ t' :: (vs' ++ closing' :: after') := by
    rw [group', split']
    simp
  obtain ⟨front, rfl, behind⟩ := eq_of_place tiles first second same
  have start : us = us' := by
    obtain ⟨matched, matched'⟩ | ⟨rfl, rfl⟩ := matched
    · exact (eq_of_opening front opens opens' matched matched').2
    · -- the last token belongs to what is matched
      have longer : before ++ opening :: ts = before' ++ opening' :: ts' := by
        rw [split, split', ← List.cons_append, ← List.cons_append, ← List.append_assoc,
          ← List.append_assoc, front]
      have contents := (eq_of_opening longer opens opens' h.matched h'.matched).2
      rw [split, split'] at contents
      exact List.append_cancel_right contents
  have contents : ts = ts' := by
    refine eq_of_closing after after' ?_ closes closes' h.matched h'.matched
    rw [split, split', start, List.append_assoc, List.append_assoc, List.cons_append,
      List.cons_append, behind]
  refine ⟨contents, ?_⟩
  obtain ⟨init, final, ends, rfl⟩ := h.ends
  obtain ⟨init', final', ends', rfl⟩ := h'.ends
  rw [contents, ends'] at ends
  rw [List.append_inj_right' ends rfl |> List.singleton_inj.mp]

/-- **A token stands in one passage only**, if the tokens before it there are matched. -/
theorem Passage.unique_of_token {us us' vs vs' : List Token} {t t' : Token}
    (h : Passage whole stop (us ++ t :: vs) last) (h' : Passage whole stop (us' ++ t' :: vs') last')
    (matched : Matched us) (matched' : Matched us') (same : t.position = t'.position) :
    us ++ t :: vs = us' ++ t' :: vs' ∧ last = last' := by
  -- no group begins before a token of the whole text that has matched ones before it
  have apart {us us' vs vs' : List Token} {t t' : Token} {last' : Int}
      (top : us ++ t :: vs = whole) (inner : Enclosed whole (us' ++ t' :: vs') last')
      (matched : Matched us) (matched' : Matched us') (same : t.position = t'.position) :
      False := by
    obtain ⟨before, opening, closing, after, group, opens, -⟩ := inner.group
    have split : whole = (before ++ opening :: us') ++ t' :: (vs' ++ closing :: after) := by
      rw [group]
      simp
    obtain ⟨front, -, -⟩ := eq_of_place tiles top.symm split (.inl same)
    exact not_matched_of_opening front opens matched' matched
  obtain ⟨top, rfl⟩ | group := h.cases
  · obtain ⟨top', rfl⟩ | group' := h'.cases
    · exact ⟨top.trans top'.symm, rfl⟩
    · exact (apart top group' matched matched' same).elim
  · obtain ⟨top', rfl⟩ | group' := h'.cases
    · exact (apart top' group matched' matched same.symm).elim
    · exact group.eq tiles group' rfl rfl (.inl same) (.inl ⟨matched, matched'⟩)

/-- **No two passages end at one position.** -/
theorem Passage.unique_of_end (h : Passage whole text.length ts last)
    (h' : Passage whole text.length ts' last) : ts = ts' := by
  -- behind a group its closing parenthesis is left
  have inside {ts : List Token} (group : Enclosed whole ts text.length) : False := by
    obtain ⟨init, t, rfl, ends⟩ := group.ends
    obtain ⟨before, opening, closing, after, split, -, -⟩ := group.group
    have here : whole = (before ++ opening :: init) ++ t :: ([] ++ closing :: after) := by
      rw [split]
      simp
    have behind : whole = (before ++ opening :: (init ++ [t])) ++ closing :: after := by
      rw [split]
      simp
    have := stop_le_position tiles here
    have := position_lt_stop tiles behind
    omega
  obtain ⟨rfl, rfl⟩ | group := h.cases
  · obtain ⟨rfl, -⟩ | group' := h'.cases
    · rfl
    · exact (inside group').elim
  · obtain ⟨rfl, rfl⟩ | group' := h'.cases
    · exact (inside group).elim
    · obtain ⟨init, t, ends, stop⟩ := group.ends
      obtain ⟨init', t', ends', stop'⟩ := group'.ends
      exact (group.eq tiles group' ends ends' (.inr (stop.symm.trans stop')) (.inr ⟨rfl, rfl⟩)).1

end

end Phrase

end Scim
