import Scim.Proofs.Scan.Cover
import Scim.Proofs.Scan.Slice

/-!
# Calls on a cursor

A reader asks a cursor about its next token, takes that token, or passes over the tokens before a
closing one: any calls, in any order.  A call that is refused leaves the cursor where it is.

* `Cursor.Call`, `Cursor.answer`   the calls, with what each of them answers and leaves;
* `Cursor.passed`                  the tokens that a call takes or passes over;
* `Cursor.answer_eq_skip`          a call skips the tokens that it passes, and these are the next ones;
* `Cursor.Stands`                  a cursor between two tokens of a text;
* `Cursor.Moves`                   what a call does there;
* `Cursor.after`                   the cursor that calls leave, one after the other;
* `Cursor.ofText_after`            where it stands, and which tokens the calls have passed.
-/

namespace Scim

namespace Cursor

/-- The calls of a reader. -/
inductive Call where
  | isNext (kinds : List Kind)
  | hasNext
  | nextText
  | take (kinds : List Kind)
  | takeUntil (close : Kind) (opening : Option Kind)
  deriving DecidableEq, Repr

/-- What a call answers. -/
inductive Answer where
  | truth (b : Bool)
  | text (cs : List Char)
  | token (t : Token)
  | refusal (f : Fault)
  deriving DecidableEq, Repr

/-- What a call answers, and the cursor that it leaves. -/
def answer (c : Cursor) : Call → Answer × Cursor
  | .isNext kinds => (.truth (c.isNext kinds), c)
  | .hasNext => (.truth c.hasNext, c)
  | .nextText => (.text c.nextText, c)
  | .take kinds =>
    match c.take kinds with
    | .ok (t, next) => (.token t, next)
    | .error f => (.refusal f, c)
  | .takeUntil close opening => (.text (c.takeUntil close opening).1, (c.takeUntil close opening).2)

/-- The tokens that a call passes: those before a closing token, or the one that it returns. -/
def passed (c : Cursor) : Call → List Token
  | .takeUntil close opening => runUntil close opening 0 c.rest
  | call =>
    match (c.answer call).1 with
    | .token t => [t]
    | _ => []

/-! ## One call -/

theorem take_cons_of_mem {c : Cursor} {t : Token} {ts : List Token} {kinds : List Kind}
    (next : c.rest = t :: ts) (mem : t.kind ∈ kinds) : c.take kinds = .ok (t, c.skip 1) := by
  unfold take
  rw [next]
  exact if_pos (List.contains_iff_mem.mpr mem)

theorem take_cons_of_not_mem {c : Cursor} {t : Token} {ts : List Token} {kinds : List Kind}
    (next : c.rest = t :: ts) (other : t.kind ∉ kinds) :
    c.take kinds = .error ⟨.expected kinds, some t.text, t.position⟩ := by
  have here : c.fault (.expected kinds) = ⟨.expected kinds, some t.text, t.position⟩ := by
    unfold fault peek? position
    rw [next]
    rfl
  unfold take
  rw [next, ← here]
  exact if_neg fun mem => other (List.contains_iff_mem.mp mem)

theorem take_nil {c : Cursor} (kinds : List Kind) (ended : c.rest = []) :
    c.take kinds = .error ⟨.expected kinds, none, c.position⟩ := by
  unfold take fault peek?
  rw [ended]
  rfl

theorem answer_of_take_ok {c next : Cursor} {kinds : List Kind} {t : Token}
    (h : c.take kinds = .ok (t, next)) :
    c.answer (.take kinds) = (.token t, next) ∧ c.passed (.take kinds) = [t] := by
  have answered : c.answer (.take kinds) = (.token t, next) := by
    rw [answer, h]
  exact ⟨answered, by simp only [passed, answered]⟩

theorem answer_of_take_error {c : Cursor} {kinds : List Kind} {f : Fault}
    (h : c.take kinds = .error f) :
    c.answer (.take kinds) = (.refusal f, c) ∧ c.passed (.take kinds) = [] := by
  have answered : c.answer (.take kinds) = (.refusal f, c) := by
    rw [answer, h]
  exact ⟨answered, by simp only [passed, answered]⟩

/-- **A call skips the tokens that it passes**, and these are the next ones. -/
theorem answer_eq_skip (c : Cursor) (call : Call) :
    (c.answer call).2 = c.skip (c.passed call).length ∧ ∃ ts, c.rest = c.passed call ++ ts := by
  have still : c = c.skip 0 ∧ ∃ ts, c.rest = [] ++ ts := ⟨rfl, c.rest, rfl⟩
  cases call with
  | isNext kinds => exact still
  | hasNext => exact still
  | nextText => exact still
  | take kinds =>
    cases next : c.rest with
    | nil =>
      obtain ⟨answered, none⟩ := answer_of_take_error (take_nil kinds next)
      rw [answered, none]
      exact ⟨rfl, [], rfl⟩
    | cons t ts =>
      by_cases mem : t.kind ∈ kinds
      · obtain ⟨answered, one⟩ := answer_of_take_ok (take_cons_of_mem next mem)
        rw [answered, one]
        exact ⟨rfl, ts, rfl⟩
      · obtain ⟨answered, none⟩ := answer_of_take_error (take_cons_of_not_mem next mem)
        rw [answered, none]
        exact ⟨rfl, t :: ts, rfl⟩
  | takeUntil close opening =>
    obtain ⟨after, split, -⟩ := runUntil_append close opening 0 c.rest
    exact ⟨rfl, after, split⟩

/-! ## Places in a text -/

/-- Where the token of an index starts; behind the last token, where the text stops. -/
def startAt (stop : Int) (ts : List Token) (i : Nat) : Int := (ts[i]?.map Token.position).getD stop

/-- A cursor over the text of `start`, behind some of the tokens that `start` has not read. -/
structure Stands (start c : Cursor) : Prop where
  source : c.source = start.source
  offset : c.offset = start.offset
  index_le : c.index ≤ start.rest.length
  rest : c.rest = start.rest.drop c.index

namespace Stands

variable {start c : Cursor} (h : Stands start c)

include h

theorem peek? : c.peek? = start.rest[c.index]? := by
  rw [Cursor.peek?, h.rest, List.head?_drop]

theorem rest_of_getElem? {t : Token} (next : start.rest[c.index]? = some t) :
    c.rest = t :: start.rest.drop (c.index + 1) := by
  obtain ⟨short, rfl⟩ := List.getElem?_eq_some_iff.mp next
  rw [h.rest, List.drop_eq_getElem_cons short]

theorem rest_of_le (ended : start.rest.length ≤ c.index) : c.rest = [] := by
  rw [h.rest, List.drop_eq_nil_of_le ended]

theorem length : c.length = start.rest.length := by
  have := h.index_le
  rw [Cursor.length, h.rest, List.length_drop]
  omega

theorem position :
    c.position = startAt (start.offset + start.source.length) start.rest c.index := by
  have same : c.position = (c.peek?.map Token.position).getD (c.offset + c.source.length) := by
    unfold Cursor.position Cursor.peek?
    cases c.rest <;> rfl
  rw [same, h.peek?, h.source, h.offset, startAt]

/-- a call leaves a cursor over the same text, and the tokens before it are those before the call
and those that it passes -/
theorem step (call : Call) : Stands start (c.answer call).2 ∧
    (c.answer call).2.index = c.index + (c.passed call).length ∧
    start.rest.take c.index ++ c.passed call = start.rest.take (c.answer call).2.index := by
  obtain ⟨skips, after, split⟩ := c.answer_eq_skip call
  rw [skips]
  have index : (c.skip (c.passed call).length).index = c.index + (c.passed call).length := rfl
  have sum := congrArg List.length split
  rw [h.rest, List.length_drop, List.length_append] at sum
  have bound := h.index_le
  refine ⟨⟨h.source, h.offset, ?_, ?_⟩, index, ?_⟩
  · rw [index]
    omega
  · rw [skip_rest, h.rest, List.drop_drop, index]
  · rw [index, List.take_add, ← h.rest, split, List.take_left]

end Stands

/-- What a call does before the token `ts[c.index]?`: it answers, and leaves a cursor.  A question
leaves the cursor where it is, and so does a call that is refused. -/
inductive Moves (ts : List Token) (c : Cursor) : Call → Answer → Cursor → Prop where
  | isNext (kinds : List Kind) :
    Moves ts c (.isNext kinds) (.truth (ts[c.index]?.any fun t => kinds.contains t.kind)) c
  | hasNext : Moves ts c .hasNext (.truth (decide (c.index < ts.length))) c
  | nextText : Moves ts c .nextText (.text ((ts[c.index]?.map Token.text).getD [])) c
  | taken {kinds : List Kind} {t : Token} {next : Cursor} : ts[c.index]? = some t →
    t.kind ∈ kinds → next.index = c.index + 1 → Moves ts c (.take kinds) (.token t) next
  | refused {kinds : List Kind} {t : Token} : ts[c.index]? = some t → t.kind ∉ kinds →
    Moves ts c (.take kinds) (.refusal ⟨.expected kinds, some t.text, t.position⟩) c
  | ended (kinds : List Kind) : ts.length ≤ c.index →
    Moves ts c (.take kinds) (.refusal ⟨.expected kinds, none, c.position⟩) c
  | passed {close : Kind} {opening : Option Kind} {run : List Token} {next : Cursor} :
    run = runUntil close opening 0 (ts.drop c.index) → next.index = c.index + run.length →
    Moves ts c (.takeUntil close opening) (.text (c.span run)) next

/-- **What a call does** at a place in a text. -/
theorem Stands.moves {start c : Cursor} (h : Stands start c) (call : Call) :
    Moves start.rest c call (c.answer call).1 (c.answer call).2 := by
  cases call with
  | isNext kinds =>
    have next : c.isNext kinds = start.rest[c.index]?.any fun t => kinds.contains t.kind := by
      rw [Cursor.isNext, h.peek?]
    show Moves _ _ _ (.truth (c.isNext kinds)) c
    rw [next]
    exact .isNext kinds
  | hasNext =>
    have next : c.hasNext = decide (c.index < start.rest.length) := by
      rw [Cursor.hasNext, h.rest, Bool.eq_iff_iff]
      simp
    show Moves _ _ _ (.truth c.hasNext) c
    rw [next]
    exact .hasNext
  | nextText =>
    have next : c.nextText = (start.rest[c.index]?.map Token.text).getD [] := by
      rw [Cursor.nextText, h.peek?]
    show Moves _ _ _ (.text c.nextText) c
    rw [next]
    exact .nextText
  | take kinds =>
    cases next : start.rest[c.index]? with
    | none =>
      have ended := List.getElem?_eq_none_iff.mp next
      rw [(answer_of_take_error (take_nil kinds (h.rest_of_le ended))).1]
      exact .ended kinds ended
    | some t =>
      have rest := h.rest_of_getElem? next
      by_cases mem : t.kind ∈ kinds
      · rw [(answer_of_take_ok (take_cons_of_mem rest mem)).1]
        exact .taken next mem rfl
      · rw [(answer_of_take_error (take_cons_of_not_mem rest mem)).1]
        exact .refused next mem
  | takeUntil close opening =>
    refine .passed ?_ rfl
    rw [h.rest]

/-! ## Calls one after the other -/

/-- The cursor that calls leave, one after the other. -/
def after (c : Cursor) : List Call → Cursor
  | [] => c
  | call :: calls => after (c.answer call).2 calls

/-- The tokens that they pass. -/
def passedBy (c : Cursor) : List Call → List Token
  | [] => []
  | call :: calls => c.passed call ++ passedBy (c.answer call).2 calls

theorem after_append (c : Cursor) (calls more : List Call) :
    c.after (calls ++ more) = (c.after calls).after more := by
  induction calls generalizing c with
  | nil => rfl
  | cons call calls ih => exact ih _

/-- calls leave a cursor over the same text, no token further back, and the tokens before it are
those before the calls and those that the calls pass -/
theorem Stands.after {start c : Cursor} (h : Stands start c) (calls : List Call) :
    Stands start (c.after calls) ∧ c.index ≤ (c.after calls).index ∧
      start.rest.take c.index ++ c.passedBy calls = start.rest.take (c.after calls).index := by
  induction calls generalizing c with
  | nil => exact ⟨h, Nat.le_refl _, List.append_nil _⟩
  | cons call calls ih =>
    obtain ⟨stands, index, before⟩ := h.step call
    obtain ⟨last, further, all⟩ := ih stands
    rw [index] at further
    refine ⟨last, Nat.le_trans (Nat.le_add_right _ _) further, ?_⟩
    rw [passedBy, ← List.append_assoc, before]
    exact all

theorem Covers.startAt_mono {mode : Mode} {n : Nat} {c : Cursor} (h : c.Covers mode n) {i j : Nat}
    (le : i ≤ j) : startAt (c.offset + n) c.rest i ≤ startAt (c.offset + n) c.rest j := by
  have within (k : Nat) (short : k < c.rest.length) : c.rest[k].position ≤ c.rest[k].stop ∧
      c.rest[k].stop ≤ c.offset + n := by
    have mem := List.getElem_mem short
    exact ⟨Int.le_of_lt (h.position_lt_stop mem), (h.within _ mem).2⟩
  unfold startAt
  rcases Nat.lt_or_ge j c.rest.length with short | long
  · rw [List.getElem?_eq_getElem short, List.getElem?_eq_getElem (Nat.lt_of_le_of_lt le short)]
    rcases Nat.eq_or_lt_of_le le with rfl | lt
    · exact Int.le_refl _
    · have behind := List.pairwise_iff_getElem.mp h.ordered i j (Nat.lt_trans lt short) short lt
      exact Int.le_trans (within i (Nat.lt_trans lt short)).1 behind
  · rw [List.getElem?_eq_none long]
    rcases Nat.lt_or_ge i c.rest.length with short | long
    · rw [List.getElem?_eq_getElem short]
      exact Int.le_trans (within i short).1 (within i short).2
    · simp only [List.getElem?_eq_none long, Int.le_refl]

theorem starts_of_ofText {mode : Mode} {source : List Char} {offset : Int} {start : Cursor}
    (h : ofText mode source offset = .ok start) :
    start.source = source ∧ start.offset = offset ∧ start.index = 0 ∧
      start.Covers mode source.length := by
  obtain ⟨ts, scanned, rfl⟩ := ofText_eq_ok_iff.mp h
  have covers := covers_of_taken (scan_eq_ok_iff.mp scanned).taken 0
  rw [List.append_nil] at covers
  exact ⟨rfl, rfl, rfl, covers⟩

/-- **Any calls leave a cursor between two tokens of its text**, at the position of the next one or
at the end of the text.  The tokens before it are those that the calls have passed, in their order,
and more calls lead neither to a smaller index nor to a smaller position. -/
theorem ofText_after {mode : Mode} {source : List Char} {offset : Int} {start : Cursor}
    (h : ofText mode source offset = .ok start) (calls : List Call) :
    let c := start.after calls
    (c.source = source ∧ c.offset = offset ∧ c.length = start.rest.length ∧
      c.index ≤ start.rest.length ∧ c.rest = start.rest.drop c.index) ∧
    start.passedBy calls = start.rest.take c.index ∧
    c.position = startAt (offset + source.length) start.rest c.index ∧
    (∀ call, Moves start.rest c call (c.answer call).1 (c.answer call).2) ∧
    ∀ more, c.index ≤ (start.after (calls ++ more)).index ∧
      c.position ≤ (start.after (calls ++ more)).position := by
  intro c
  obtain ⟨text, place, first, covers⟩ := starts_of_ofText h
  have begins : Stands start start := ⟨rfl, rfl, by omega, by rw [first]; rfl⟩
  obtain ⟨stands, -, passed⟩ := begins.after calls
  rw [first] at passed
  refine ⟨⟨stands.source.trans text, stands.offset.trans place, stands.length, stands.index_le,
    stands.rest⟩, passed, ?_, stands.moves, ?_⟩
  · rw [← text, ← place]
    exact stands.position
  · intro more
    rw [after_append]
    obtain ⟨last, further, -⟩ := stands.after more
    refine ⟨further, ?_⟩
    rw [stands.position, last.position, text]
    exact covers.startAt_mono further

/-- a refused call, a group passed over, a token taken, and a call behind the last token, in a text
that stands before the start of the input -/
theorem ofText_after_group :
    let start : Cursor := ⟨"(a pr) ".toList, -9, 0, [⟨.openParen, ['('], -9⟩, ⟨.name, ['a'], -8⟩,
      ⟨.comparison, [' ', 'p', 'r'], -7⟩, ⟨.closeParen, [')'], -4⟩]⟩
    let calls : List Call := [.take [.name], .take [.openParen],
      .takeUntil .closeParen (some .openParen), .take [.closeParen], .nextText]
    ofText .filter "(a pr) ".toList (-9) = .ok start ∧
      start.passedBy calls = start.rest ∧ (start.after calls).position = -2 ∧
      ((start.after calls).answer (.take [.logical])).1 =
        .refusal ⟨.expected [.logical], none, -2⟩ := by
  intro start calls
  have read : ofText .filter "(a pr) ".toList (-9) = .ok start := by rfl
  obtain ⟨-, passed, position, -, -⟩ := ofText_after read calls
  exact ⟨read, passed, position, by rfl⟩

end Cursor

end Scim
