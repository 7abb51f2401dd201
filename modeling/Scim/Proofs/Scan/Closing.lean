import Mathlib.Order.Bounds.Defs
import Scim.Proofs.Scan.Calls

/-!
# The end of a group

A reader that looks for a closing token reads over the groups that are opened and closed before it.

* `Cursor.Closes`             a closing token ends what begins at an index;
* `Cursor.isFirst_closes`     the reader stops at the first such token, or at the end;
* `Cursor.tally_extract_le`   at no place before that more groups are closed than opened;
* `Cursor.Covers.exists_span` the text between two tokens;
* `Cursor.ofText_takeUntil`   where a reader stops in a text, and which part of it it returns.
-/

namespace Scim

namespace Cursor

/-! ## The index of the closing token -/

/-- At index `i` a closing token ends what begins at index `s`: as many tokens open a group as close
one in between. -/
def Closes (close : Kind) (opening : Option Kind) (ts : List Token) (s i : Nat) : Prop :=
  s ≤ i ∧ ts[i]?.map Token.kind = some close ∧
    tally opening (ts.extract s i) = tally (some close) (ts.extract s i)

/-- The first index with a property, or the length of a list if no index has it. -/
def IsFirst (p : Nat → Prop) (length i : Nat) : Prop :=
  IsLeast {j | p j} i ∨ (i = length ∧ ∀ j, ¬ p j)

theorem isFirst_of {p : Nat → Prop} {length i : Nat} (least : ∀ j, p j → i ≤ j)
    (bound : ∀ j, p j → j < length) (here : p i ∨ i = length) : IsFirst p length i := by
  rcases here with found | rfl
  · exact .inl ⟨found, fun j hj => least j hj⟩
  · refine .inr ⟨rfl, fun j hj => ?_⟩
    exact absurd (bound j hj) (Nat.not_lt.mpr (least j hj))

theorem lt_length_of_kind {ts : List Token} {i : Nat} {kind : Kind}
    (h : ts[i]?.map Token.kind = some kind) : i < ts.length := by
  obtain ⟨t, found, -⟩ := Option.map_eq_some_iff.mp h
  exact (List.getElem?_eq_some_iff.mp found).1

section

variable (close : Kind) (opening : Option Kind) (ts : List Token) (s : Nat)

/-- The index up to which tokens are read over from index `s`. -/
abbrev stopIndex : Nat := s + (runUntil close opening 0 (ts.drop s)).length

variable {close opening ts s}

theorem stopIndex_le (within : s ≤ ts.length) : stopIndex close opening ts s ≤ ts.length := by
  obtain ⟨after, split, -⟩ := runUntil_append close opening 0 (ts.drop s)
  have size := congrArg List.length split
  rw [List.length_append, List.length_drop] at size
  unfold stopIndex
  omega

theorem isPrefix_runUntil : runUntil close opening 0 (ts.drop s) <+: ts.drop s := by
  obtain ⟨after, split, -⟩ := runUntil_append close opening 0 (ts.drop s)
  exact ⟨after, split.symm⟩

theorem getElem?_runUntil {k : Nat} (short : k < (runUntil close opening 0 (ts.drop s)).length) :
    (runUntil close opening 0 (ts.drop s))[k]? = ts[s + k]? := by
  obtain ⟨after, split, -⟩ := runUntil_append close opening 0 (ts.drop s)
  have whole : (ts.drop s)[k]? = (runUntil close opening 0 (ts.drop s) ++ after)[k]? :=
    congrArg (·[k]?) split
  rw [List.getElem?_append_left short, List.getElem?_drop] at whole
  exact whole.symm

theorem extract_stopIndex :
    ts.extract s (stopIndex close opening ts s) = runUntil close opening 0 (ts.drop s) := by
  rw [List.extract_eq_take_drop, stopIndex, Nat.add_sub_cancel_left]
  exact (List.prefix_iff_eq_take.mp isPrefix_runUntil).symm

theorem isPrefix_extract {j : Nat} (short : j ≤ stopIndex close opening ts s) :
    ts.extract s j <+: runUntil close opening 0 (ts.drop s) := by
  rw [List.extract_eq_take_drop]
  refine List.prefix_of_prefix_length_le (List.take_prefix _ _) isPrefix_runUntil ?_
  refine Nat.le_trans (List.length_take_le _ _) ?_
  unfold stopIndex at short
  omega

theorem tally_extract_le (other : opening ≠ some close) {j : Nat}
    (short : j ≤ stopIndex close opening ts s) :
    tally (some close) (ts.extract s j) ≤ tally opening (ts.extract s j) := by
  have within := tally_le_of_prefix_runUntil other (isPrefix_extract short)
  rwa [Nat.zero_add] at within

/-- before a closing token that is read over, more groups are opened than closed -/
theorem tally_extract_lt (other : opening ≠ some close) {j : Nat} (le : s ≤ j)
    (short : j < stopIndex close opening ts s) (closes : ts[j]?.map Token.kind = some close) :
    tally (some close) (ts.extract s j) < tally opening (ts.extract s j) := by
  obtain ⟨t, found, kind⟩ := Option.map_eq_some_iff.mp closes
  obtain ⟨inside, rfl⟩ := List.getElem?_eq_some_iff.mp found
  have longer : ts.extract s (j + 1) = ts.extract s j ++ [ts[j]] := by
    rw [List.extract_eq_take_drop, List.extract_eq_take_drop, Nat.succ_sub le,
      List.take_add_one, List.getElem?_drop, Nat.add_sub_cancel' le, found]
    rfl
  have within := tally_extract_le other short
  have notOpen : some ts[j].kind ≠ opening := fun same => other (same ▸ congrArg some kind)
  rw [longer, tally_append, tally_append, tally_singleton_of_eq (congrArg some kind),
    tally_singleton_of_ne notOpen] at within
  omega

/-- the tokens that are read over end at the end of the list or at a closing token that ends them -/
theorem closes_stopIndex (other : opening ≠ some close) (within : s ≤ ts.length) :
    Closes close opening ts s (stopIndex close opening ts s) ∨
      stopIndex close opening ts s = ts.length := by
  obtain ⟨after, split, ends⟩ := runUntil_append close opening 0 (ts.drop s)
  cases after with
  | nil =>
    have size := congrArg List.length split
    rw [List.append_nil, List.length_drop] at size
    right
    unfold stopIndex
    omega
  | cons t after =>
    left
    have next : ts[stopIndex close opening ts s]? = some t := by
      rw [stopIndex, ← List.getElem?_drop, ← List.head?_drop, drop_length_runUntil split,
        List.head?_cons]
    refine ⟨Nat.le_add_right _ _, ?_, ?_⟩
    · rw [next, Option.map_some, ends t rfl]
    · have balanced := tally_runUntil other split
      rw [extract_stopIndex]
      omega

/-- **The stop is the first closing token that ends what begins at `s`.** -/
theorem isFirst_closes (other : opening ≠ some close) (within : s ≤ ts.length) :
    IsFirst (Closes close opening ts s) ts.length (stopIndex close opening ts s) := by
  refine isFirst_of ?_ ?_ (closes_stopIndex other within)
  · rintro j ⟨le, closes, balanced⟩
    refine Nat.le_of_not_lt fun short => ?_
    have more := tally_extract_lt other le short closes
    omega
  · rintro j ⟨-, closes, -⟩
    exact lt_length_of_kind closes

/-- Without a kind that opens groups, the stop is the first closing token. -/
theorem isFirst_close (within : s ≤ ts.length) :
    IsFirst (fun j => s ≤ j ∧ ts[j]?.map Token.kind = some close) ts.length
      (stopIndex close none ts s) := by
  have other : (none : Option Kind) ≠ some close := nofun
  refine isFirst_of ?_ ?_ ((closes_stopIndex other within).imp_left ?_)
  · rintro j ⟨le, closes⟩
    refine Nat.le_of_not_lt fun short => ?_
    have more := tally_extract_lt other le short closes
    rw [tally_none] at more
    exact Nat.not_lt_zero _ more
  · rintro j ⟨-, closes⟩
    exact lt_length_of_kind closes
  · rintro ⟨le, closes, -⟩
    exact ⟨le, closes⟩

end

/-! ## The text between two tokens -/

theorem Covers.head_lt_getLast {mode : Mode} {n : Nat} {c : Cursor} (h : c.Covers mode n)
    {run : List Token} (part : run <:+: c.rest) {first last : Token}
    (hf : run.head? = some first) (hl : run.getLast? = some last) : first.position < last.stop := by
  have ordered := h.ordered.sublist part.sublist
  cases run with
  | nil => cases hf
  | cons t run =>
    obtain rfl := Option.some.inj hf
    have front := h.position_lt_stop (part.subset List.mem_cons_self)
    have back := h.position_lt_stop (part.subset (List.mem_of_getLast? hl))
    rcases List.mem_cons.mp (List.mem_of_getLast? hl) with rfl | mem
    · exact back
    · have behind := (List.pairwise_cons.mp ordered).1 last mem
      omega

/-- **What some tokens in a row span** is the part of the text from the start of the first of them to
the stop of the last one. -/
theorem Covers.exists_span {mode : Mode} {c : Cursor} (h : c.Covers mode c.source.length)
    {run : List Token} (part : run <:+: c.rest) {first last : Token}
    (hf : run.head? = some first) (hl : run.getLast? = some last) :
    ∃ u v, c.source = u ++ c.span run ++ v ∧ first.position = c.offset + u.length ∧
      last.stop = first.position + (c.span run).length := by
  have lt := h.head_lt_getLast part hf hl
  have start := (h.within first (part.subset (List.mem_of_head? hf))).1
  have stop := (h.within last (part.subset (List.mem_of_getLast? hl))).2
  obtain ⟨n, hn⟩ := Int.eq_ofNat_of_zero_le (Int.sub_nonneg_of_le start)
  obtain ⟨m, hm⟩ := Int.eq_ofNat_of_zero_le (Int.sub_nonneg_of_le (Int.le_of_lt lt))
  have spanned : c.span run = (c.source.drop n).take m := by
    unfold Cursor.span
    rw [hf, hl]
    dsimp only
    rw [hn, hm, Int.toNat_natCast, Int.toNat_natCast]
  rw [spanned]
  refine ⟨c.source.take n, (c.source.drop n).drop m, ?_, ?_, ?_⟩
  · rw [List.append_assoc, List.take_append_drop, List.take_append_drop]
  · rw [List.length_take]
    omega
  · rw [List.length_take, List.length_drop]
    omega

theorem Covers.span_eq_nil_iff {mode : Mode} {c : Cursor} (h : c.Covers mode c.source.length)
    {run : List Token} (part : run <:+: c.rest) : c.span run = [] ↔ run = [] := by
  refine ⟨fun none => ?_, fun none => by rw [none]; rfl⟩
  by_cases moved : run = []
  · exact moved
  have hf := List.head?_eq_some_head moved
  have hl := List.getLast?_eq_some_getLast moved
  obtain ⟨u, v, -, -, stop⟩ := h.exists_span part hf hl
  have lt := h.head_lt_getLast part hf hl
  rw [none, List.length_nil] at stop
  omega

/-! ## Reading over a group -/

/-- **A reader that looks for a closing token** from any index of a text on stops at the first one
that ends what begins there, or at the end, and nowhere before has more groups closed than opened.
If no kind opens groups it stops at the first closing token.  It returns the part of the text from
the start of the first token that it reads over to the stop of the last one, and nothing if it reads
over none. -/
theorem ofText_takeUntil {mode : Mode} {source : List Char} {offset : Int} {start : Cursor}
    (h : ofText mode source offset = .ok start) {s : Nat} (within : s ≤ start.rest.length)
    (close : Kind) (opening : Option Kind) :
    let ts := start.rest
    let text := ((start.skip s).takeUntil close opening).1
    let next := ((start.skip s).takeUntil close opening).2
    (opening ≠ some close → IsFirst (Closes close opening ts s) ts.length next.index ∧
      ∀ j ≤ next.index, tally (some close) (ts.extract s j) ≤ tally opening (ts.extract s j)) ∧
    (opening = none → IsFirst (fun j => s ≤ j ∧ ts[j]?.map Token.kind = some close) ts.length
      next.index) ∧
    (s ≤ next.index ∧ next.index ≤ ts.length ∧ next = start.skip next.index) ∧
    (text = [] ↔ next.index = s) ∧
    (s < next.index → ∃ first last u v, ts[s]? = some first ∧ ts[next.index - 1]? = some last ∧
      source = u ++ text ++ v ∧ first.position = offset + u.length ∧
      last.stop = first.position + text.length) := by
  intro ts text next
  obtain ⟨source', offset', first, covers⟩ := starts_of_ofText h
  have index : next.index = stopIndex close opening ts s := by
    show start.index + s + _ = _
    rw [first, Nat.zero_add]
    rfl
  rw [← source'] at covers
  have part : runUntil close opening 0 (ts.drop s) <:+: ts :=
    isPrefix_runUntil.isInfix.trans (List.drop_suffix s ts).isInfix
  have skipped : next = start.skip next.index := by
    rw [index]
    exact skip_skip s _ start
  refine ⟨fun other => ⟨?_, ?_⟩, ?_, ⟨?_, ?_, skipped⟩, ?_, ?_⟩
  · rw [index]
    exact isFirst_closes other within
  · intro j short
    rw [index] at short
    exact tally_extract_le other short
  · rintro rfl
    rw [index]
    exact isFirst_close within
  · rw [index]
    exact Nat.le_add_right _ _
  · rw [index]
    exact stopIndex_le within
  · rw [index, Nat.add_eq_left, List.length_eq_zero_iff]
    exact covers.span_eq_nil_iff part
  · intro moved
    rw [index, stopIndex, Nat.lt_add_right_iff_pos] at moved
    have long := List.ne_nil_of_length_pos moved
    have hf := List.head?_eq_some_head long
    have hl := List.getLast?_eq_some_getLast long
    obtain ⟨u, v, whole, place, stop⟩ := covers.exists_span part hf hl
    rw [source'] at whole
    rw [offset'] at place
    refine ⟨_, _, u, v, ?_, ?_, whole, place, stop⟩
    · rw [← hf, List.head?_eq_getElem?, getElem?_runUntil moved, Nat.add_zero]
    · rw [← hl, List.getLast?_eq_getElem?, getElem?_runUntil (Nat.sub_lt moved Nat.one_pos), index,
        Nat.add_sub_assoc moved]

/-- a group within a group, in a text that stands before the start of the input: the reader passes
over the inner group, or stops in it if no kind opens groups -/
theorem ofText_takeUntil_nested :
    let start : Cursor := ⟨"((a pr) or b pr)".toList, -20, 0, [⟨.openParen, ['('], -20⟩,
      ⟨.openParen, ['('], -19⟩, ⟨.name, ['a'], -18⟩, ⟨.comparison, [' ', 'p', 'r'], -17⟩,
      ⟨.closeParen, [')'], -14⟩, ⟨.logical, [' ', 'o', 'r', ' '], -13⟩, ⟨.name, ['b'], -9⟩,
      ⟨.comparison, [' ', 'p', 'r'], -8⟩, ⟨.closeParen, [')'], -5⟩]⟩
    let group := (start.skip 1).takeUntil .closeParen (some .openParen)
    let flat := (start.skip 1).takeUntil .closeParen none
    (ofText .filter "((a pr) or b pr)".toList (-20) = .ok start ∧ 1 ≤ start.rest.length ∧
      some Kind.openParen ≠ some .closeParen) ∧
    group = ("(a pr) or b pr".toList, start.skip 8) ∧
    IsFirst (Closes .closeParen (some .openParen) start.rest 1) 9 8 ∧
    (∃ u v, "((a pr) or b pr)".toList = u ++ "(a pr) or b pr".toList ++ v ∧ u.length = 1) ∧
    flat = ("(a pr".toList, start.skip 4) ∧
    IsFirst (fun j => 1 ≤ j ∧ start.rest[j]?.map Token.kind = some .closeParen) 9 4 := by
  intro start group flat
  have read : ofText .filter "((a pr) or b pr)".toList (-20) = .ok start := by rfl
  have within : 1 ≤ start.rest.length := by decide
  have other : some Kind.openParen ≠ some .closeParen := by decide
  obtain ⟨balanced, -, -, -, part⟩ := ofText_takeUntil read within .closeParen (some .openParen)
  obtain ⟨-, first, -⟩ := ofText_takeUntil read within .closeParen none
  obtain ⟨opening, last, u, v, begins, -, whole, place, -⟩ := part (by decide)
  obtain rfl := Option.some.inj begins
  have front : u.length = 1 := by
    dsimp only at place
    omega
  exact ⟨⟨read, within, other⟩, by rfl, (balanced other).1, ⟨u, v, whole, front⟩, by rfl, first rfl⟩

end Cursor

end Scim
