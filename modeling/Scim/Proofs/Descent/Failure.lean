import Scim.Proofs.Phrase.Matched

/-!
# How reading can fail

* `Meets`            a result is as wanted, or a failure as allowed;
* `Ends`             where the whole text ends, or the contents of a group in it;
* `Located`          a fault is at a token of the whole text, or where a text ends;
* `Breaks`           the tokens follow the grammar up to a comparison that the tree cannot hold;
* `Allowed`          the failures of reading tokens: faults, such comparisons, and a budget that is
                     too small.
-/

namespace Scim

open Grammar Phrase

namespace Descent

variable {α β : Type}

/-- A result as wanted, or a failure as allowed. -/
def Meets (x : Except Failed α) (wanted : α → Prop) (allowed : Failed → Prop) : Prop :=
  match x with
  | .ok a => wanted a
  | .error e => allowed e

theorem Meets.bind {x : Except Failed α} {f : α → Except Failed β} {wanted : α → Prop}
    {wanted' : β → Prop} {allowed allowed' : Failed → Prop} (h : Meets x wanted allowed)
    (failed : ∀ e, allowed e → allowed' e) (next : ∀ a, wanted a → Meets (f a) wanted' allowed') :
    Meets (x >>= f) wanted' allowed' := by
  cases x with
  | ok a => exact next a h
  | error e => exact failed e h

theorem Meets.mono {x : Except Failed α} {wanted wanted' : α → Prop}
    {allowed allowed' : Failed → Prop} (h : Meets x wanted allowed)
    (failed : ∀ e, allowed e → allowed' e) (result : ∀ a, wanted a → wanted' a) :
    Meets x wanted' allowed' := by
  cases x with
  | ok a => exact result a h
  | error e => exact failed e h

theorem Meets.ok {x : Except Failed α} {wanted : α → Prop} {allowed : Failed → Prop}
    (h : Meets x wanted allowed) {a : α} (hx : x = .ok a) : wanted a := by
  subst hx
  exact h

theorem Meets.error {x : Except Failed α} {wanted : α → Prop} {allowed : Failed → Prop}
    (h : Meets x wanted allowed) {e : Failed} (hx : x = .error e) : allowed e := by
  subst hx
  exact h

/-! ## Places -/

/-- Where the whole text ends, or the contents of a group in it. -/
inductive Ends (whole : List Token) (stop : Int) : Int → Prop where
  | whole : Ends whole stop stop
  | group {before after : List Token} {t closing : Token} :
      whole = before ++ t :: closing :: after → closing.kind = .closeParen → Ends whole stop t.stop

/-- A fault at a token of the whole text, or where a text ends; it is no stray character. -/
def Located (whole : List Token) (stop : Int) (f : Fault) : Prop :=
  f.cause ≠ .strayCharacter ∧
    ((∃ t ∈ whole, f.token = some t.text ∧ f.position = t.position) ∨
      (f.token = none ∧ Ends whole stop f.position))

theorem ends_of_getLast {whole ts after : List Token} {last closing : Token} {stop : Int}
    (part : ts ++ closing :: after <:+: whole) (hl : ts.getLast? = some last)
    (closes : closing.kind = .closeParen) : Ends whole stop last.stop := by
  obtain ⟨before, behind, rfl⟩ := part
  obtain ⟨init, rfl⟩ := List.getLast?_eq_some_iff.mp hl
  have split : before ++ (init ++ [last] ++ closing :: after) ++ behind =
      (before ++ init) ++ last :: closing :: (after ++ behind) := by simp
  exact .group split closes

theorem located_of_mem {whole : List Token} {stop : Int} {t : Token} (h : t ∈ whole) {cause : Cause}
    (grammatical : cause ≠ .strayCharacter) : Located whole stop ⟨cause, some t.text, t.position⟩ :=
  ⟨grammatical, .inl ⟨t, h, rfl, rfl⟩⟩

/-! ## Comparisons that the tree cannot hold -/

/-- The tokens follow the grammar up to a comparison that the tree cannot hold: a whole number has
too many digits, or the word of the operator is none of the ten. -/
inductive Breaks : Place → List Token → Invalid → Prop where
  | longNumber {place : Place} {name operator number : Token} {rest : List Token} :
      name.kind = .name → operator.kind = .comparison →
      wordOf operator ≠ Operator.pr.word.toList → LongNumber number →
      Breaks place (name :: operator :: number :: rest) (.longNumber number.text.length)
  | unknownOperator {place : Place} {name operator literal : Token} {v : Value}
      {rest : List Token} :
      name.kind = .name → operator.kind = .comparison →
      (∀ o : Operator, wordOf operator ≠ o.word.toList) → Literal literal v →
      Breaks place (name :: operator :: literal :: rest)
        (.unknownOperator (Text.lowercase (String.ofList (wordOf operator))))
  | group {place : Place} {opening closing : Token} {inner rest : List Token} {e : Invalid} :
      opening.kind = .openParen → Matched inner → closing.kind = .closeParen →
      Breaks place inner e → Breaks place (opening :: (inner ++ closing :: rest)) e
  | negation {place : Place} {word opening closing : Token} {inner rest : List Token}
      {e : Invalid} :
      word.kind = .negation → opening.kind = .openParen → Matched inner →
      closing.kind = .closeParen → Breaks place inner e →
      Breaks place (word :: opening :: (inner ++ closing :: rest)) e
  | valuePath {name opening : Token} {inner : List Token} {e : Invalid} :
      name.kind = .name → (pathOf name).names.length = 1 → opening.kind = .openBracket →
      Breaks .brackets inner e → Breaks .filter (name :: opening :: inner) e
  | later {place : Place} {first : Operand} {link : Token} {ts : List Token} {e : Invalid} :
      first.Valid place → link.kind = .logical → Breaks place ts e →
      Breaks place (first.tokens ++ link :: ts) e

theorem Breaks.ne_nil {place : Place} {ts : List Token} {e : Invalid} (h : Breaks place ts e) :
    ts ≠ [] := by
  cases h with
  | later _ _ _ => exact List.append_ne_nil_of_right_ne_nil _ (List.cons_ne_nil _ _)
  | _ => exact List.cons_ne_nil _ _

/-- The failures of reading tokens, given the comparisons that can be at fault and whether the
budget can be too small. -/
inductive Allowed (whole : List Token) (stop : Int) (breaks : Invalid → Prop) (few : Prop) :
    Failed → Prop where
  | fault {f : Fault} : Located whole stop f → Allowed whole stop breaks few (.fault f)
  | invalid {e : Invalid} : breaks e → Allowed whole stop breaks few (.invalid e)
  | exhausted : few → Allowed whole stop breaks few .exhausted

section

variable {whole ts : List Token} {stop last : Int} {breaks breaks' : Invalid → Prop}
  {few few' : Prop}

theorem Allowed.lift (broken : ∀ e, breaks e → breaks' e) (short : few → few') :
    ∀ e, Allowed whole stop breaks few e → Allowed whole stop breaks' few' e
  | _, .fault located => .fault located
  | _, .invalid b => .invalid (broken _ b)
  | _, .exhausted f => .exhausted (short f)

/-- The failures of single tokens. -/
abbrev Misplaced (whole : List Token) (stop : Int) : Failed → Prop :=
  Allowed whole stop (fun _ => False) False

theorem Misplaced.lift :
    ∀ e, Misplaced whole stop e → Allowed whole stop breaks few e :=
  Allowed.lift (fun _ => False.elim) False.elim

/-! ## Single tokens -/

theorem misplaced_missing {cause : Cause} (grammatical : cause ≠ .strayCharacter)
    (part : ts <:+: whole) (ends : Ends whole stop last) :
    Misplaced whole stop (missing cause last ts) := by
  cases ts with
  | nil => exact .fault ⟨grammatical, .inr ⟨rfl, ends⟩⟩
  | cons t rest => exact .fault (located_of_mem (part.subset (List.mem_cons_self ..)) grammatical)

theorem meets_take (kinds : List Kind) (part : ts <:+: whole) (ends : Ends whole stop last) :
    Meets (take kinds last ts) (fun r => ts = r.1 :: r.2 ∧ r.1.kind ∈ kinds)
      (Misplaced whole stop) := by
  have refused : Misplaced whole stop (missing (.expected kinds) last ts) :=
    misplaced_missing nofun part ends
  unfold take
  cases ts with
  | nil => exact refused
  | cons t rest =>
    dsimp only
    split
    · next known => exact ⟨rfl, List.contains_iff_mem.mp known⟩
    · exact refused

theorem meets_take_bind {kind : Kind} {f : Token × List Token → Except Failed β}
    {wanted : β → Prop} (part : ts <:+: whole) (ends : Ends whole stop last)
    (next : ∀ t rest, ts = t :: rest → t.kind = kind → rest <:+: whole →
      Meets (f (t, rest)) wanted (Allowed whole stop breaks few)) :
    Meets (take [kind] last ts >>= f) wanted (Allowed whole stop breaks few) := by
  refine (meets_take [kind] part ends).bind Misplaced.lift ?_
  rintro ⟨t, rest⟩ ⟨rfl, known⟩
  exact next t rest rfl (List.mem_singleton.mp known) ((List.suffix_cons t rest).isInfix.trans part)

theorem meets_expectEnd (part : ts <:+: whole) (ends : Ends whole stop last) :
    Meets (expectEnd last ts) (fun _ => ts = []) (Misplaced whole stop) := by
  have dangling : Misplaced whole stop (missing .danglingOperator last ts) :=
    misplaced_missing nofun part ends
  have trailing : Misplaced whole stop (missing .trailingToken last ts) :=
    misplaced_missing nofun part ends
  unfold expectEnd
  cases ts with
  | nil => exact rfl
  | cons t rest =>
    dsimp only
    split
    · exact dangling
    · exact trailing

end

end Descent

end Scim
