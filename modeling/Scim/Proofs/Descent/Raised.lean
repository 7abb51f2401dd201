import Scim.Proofs.Descent.Outcome
import Scim.Proofs.Phrase.Passage

/-!
# Where faults are raised

A fault is raised in the passage that is read at that moment, at one of its tokens or at its end.

* `Stretch`            a passage with the tokens of it from a place on;
* `Raised`             a fault at the place of a stretch;
* `Raised.unique`      the stretch in which a fault is raised is determined by the fault;
* `Reading`            the tokens left of a passage of which matched ones are read;
* `Faults`             the faults of a result;
* `raised_filterWithin`, `raised_pathWithin`    every fault of a descent is raised in some
                       stretch.
-/

namespace Scim

open Grammar Phrase

namespace Descent

/-- Tokens that are a complete expression, no filter, or the target of a path. -/
def Complete (ts : List Token) : Prop :=
  (∃ place node, Derived place node ts) ∨ ∃ n, DerivedTarget n ts

/-- A passage, the position of its end, and the tokens of it from a place on. -/
structure Stretch where
  tokens : List Token
  stop : Int
  rest : List Token

/-- A fault at the place of a stretch: at a token with matched ones before it, or at the end of the
passage.  A name that spells an operator is at fault as such only behind a complete expression. -/
inductive Raised (whole : List Token) (stop : Int) (f : Fault) : Stretch → Prop where
  | token {read after : List Token} {t : Token} {last : Int} :
      Passage whole stop (read ++ t :: after) last → Matched read → f.token = some t.text →
      f.position = t.position →
      (f.cause = .danglingOperator → isDangling t = true ∧ Complete read) →
      Raised whole stop f ⟨read ++ t :: after, last, t :: after⟩
  | ending {ts : List Token} {last : Int} :
      Passage whole stop ts last → f.token = none → f.position = last →
      f.cause ≠ .danglingOperator → Raised whole stop f ⟨ts, last, []⟩

/-- **The stretch in which a fault is raised** is determined by the token and the position that the
fault shows. -/
theorem Raised.unique {mode : Mode} {text : List Char} {whole : List Token} {f f' : Fault}
    {s s' : Stretch} (tiles : Tiles mode 0 text whole) (h : Raised whole text.length f s)
    (h' : Raised whole text.length f' s') (token : f.token = f'.token)
    (position : f.position = f'.position) : s = s' := by
  cases h with
  | token passage matched shown place _ =>
    cases h' with
    | token passage' matched' _ place' _ =>
      have same := place.symm.trans (position.trans place')
      obtain ⟨tokens, rfl⟩ := passage.unique_of_token tiles passage' matched matched' same
      obtain ⟨front, behind, final⟩ := passage.infix
      have first := final.symm
      have second := final.symm
      rw [tokens] at second
      rw [List.append_assoc, List.append_assoc, List.cons_append, ← List.append_assoc]
        at first second
      obtain ⟨-, rfl, rest⟩ := eq_of_place tiles first second (.inl same)
      rw [tokens, List.append_cancel_right rest]
    | ending _ none _ _ => cases shown.symm.trans (token.trans none)
  | ending passage none place _ =>
    cases h' with
    | token _ _ shown _ _ => cases shown.symm.trans (token.symm.trans none)
    | ending passage' _ place' _ =>
      obtain rfl := place.symm.trans (position.trans place')
      rw [passage.unique_of_end tiles passage']

/-! ## Readers in a passage -/

/-- The tokens `ts` are left of a passage that ends at `last`, and matched ones are read. -/
structure Reading (whole : List Token) (stop : Int) (read : List Token) (last : Int)
    (ts : List Token) : Prop where
  passage : Passage whole stop (read ++ ts) last
  matched : Matched read

/-- The faults of a result. -/
def Faults {α : Type} (x : Except Failed α) (holds : Fault → Prop) : Prop :=
  ∀ f, x = .error (.fault f) → holds f

section

variable {α β : Type} {holds : Fault → Prop}

theorem Faults.bind {x : Except Failed α} {f : α → Except Failed β} (h : Faults x holds)
    (next : ∀ a, x = .ok a → Faults (f a) holds) : Faults (x >>= f) holds := by
  cases x with
  | ok a => exact next a rfl
  | error e =>
    intro g same
    cases same
    exact h g rfl

theorem faults_ok (a : α) : Faults (.ok a) holds := nofun

theorem faults_valid (x : Except Invalid α) : Faults (valid x) holds := by
  cases x <;> exact nofun

theorem faults_fault {f : Fault} (h : holds f) : Faults (α := α) (.error (.fault f)) holds := by
  intro g same
  cases same
  exact h

end

/-- A fault that is raised in some stretch. -/
abbrev Somewhere (whole : List Token) (stop : Int) (f : Fault) : Prop := ∃ s, Raised whole stop f s

section

variable {whole read ts : List Token} {stop last : Int} {α : Type}

namespace Reading

theorem part (h : Reading whole stop read last ts) : ts <:+: whole :=
  (List.suffix_append read ts).isInfix.trans h.passage.infix

theorem after (used : List Token) {rest : List Token}
    (h : Reading whole stop read last (used ++ rest)) (matched : Matched used) :
    Reading whole stop (read ++ used) last rest where
  passage := by
    rw [List.append_assoc]
    exact h.passage
  matched := h.matched.append matched

theorem ends (h : Reading whole stop read last ts) : Ends whole stop last := by
  obtain ⟨-, rfl⟩ | group := h.passage.cases
  · exact .whole
  · obtain ⟨before, opening, closing, after, split, -, closes⟩ := group.group
    obtain ⟨init, t, ends, rfl⟩ := group.ends
    rw [ends] at split
    have inside : whole = (before ++ opening :: init) ++ t :: closing :: after :=
      split.trans (by simp)
    exact .group inside closes

theorem faults_at (used : List Token) {after : List Token} {t : Token} {cause : Cause}
    (h : Reading whole stop read last (used ++ t :: after)) (matched : Matched used)
    (grammatical : cause ≠ .danglingOperator) :
    Faults (α := α) (.error (faultAt cause t)) (Somewhere whole stop) := by
  have here := h.after _ matched
  exact faults_fault
    ⟨_, .token here.passage here.matched rfl rfl fun same => absurd same grammatical⟩

theorem faults_missing {cause : Cause} (h : Reading whole stop read last ts)
    (grammatical : cause ≠ .danglingOperator) :
    Faults (α := α) (.error (missing cause last ts)) (Somewhere whole stop) := by
  cases ts with
  | nil => exact faults_fault ⟨_, .ending h.passage rfl rfl grammatical⟩
  | cons t after => exact h.faults_at [] .nil grammatical

theorem faults_take (h : Reading whole stop read last ts) (kinds : List Kind) :
    Faults (take kinds last ts) (Somewhere whole stop) := by
  have refused : Faults (α := Token × List Token) (.error (missing (.expected kinds) last ts))
      (Somewhere whole stop) := h.faults_missing nofun
  unfold take
  cases ts with
  | nil => exact refused
  | cons t rest =>
    dsimp only
    split
    · exact faults_ok _
    · exact refused

theorem faults_take_bind {kind : Kind} {f : Token × List Token → Except Failed α}
    (h : Reading whole stop read last ts) (notOpen : kind ≠ .openParen)
    (notClose : kind ≠ .closeParen)
    (next : ∀ t rest, ts = t :: rest → t.kind = kind → Reading whole stop (read ++ [t]) last rest →
      Faults (f (t, rest)) (Somewhere whole stop)) :
    Faults (take [kind] last ts >>= f) (Somewhere whole stop) := by
  refine (h.faults_take [kind]).bind ?_
  rintro ⟨t, rest⟩ taken
  obtain ⟨rfl, known⟩ := (meets_take [kind] h.part h.ends).ok taken
  have isKind : t.kind = kind := List.mem_singleton.mp known
  exact next t rest rfl isKind
    (h.after [t] (.of_kind isKind notOpen notClose .nil))

theorem faults_expectEnd (h : Reading whole stop read last ts) (complete : Complete read) :
    Faults (expectEnd last ts) (Somewhere whole stop) := by
  have trailing : Faults (α := Unit) (.error (missing .trailingToken last ts))
      (Somewhere whole stop) := h.faults_missing nofun
  unfold expectEnd
  cases ts with
  | nil => exact faults_ok _
  | cons t rest =>
    dsimp only
    split
    · next spells =>
      exact faults_fault ⟨_, .token h.passage h.matched rfl rfl fun _ => ⟨spells, complete⟩⟩
    · exact trailing

theorem faults_comparison (h : Reading whole stop read last ts) (path : AttributePath) :
    Faults (comparison path last ts) (Somewhere whole stop) := by
  unfold comparison
  refine h.faults_take_bind nofun nofun ?_
  rintro operator rest rfl - here
  dsimp only
  split
  · exact (faults_valid _).bind fun _ _ => faults_ok _
  · refine (here.faults_take Kind.values).bind fun _ _ => ?_
    exact (faults_valid _).bind fun _ _ => (faults_valid _).bind fun _ _ => faults_ok _

end Reading

end

/-! ## What is read -/

theorem Derived.matched {place : Place} {node : Option Node} {ts : List Token}
    (h : Derived place node ts) : Matched ts := by
  cases node with
  | none => exact Vacant.matched h
  | some n =>
    obtain ⟨c, valid, -, rfl⟩ := h
    exact valid.matched

theorem DerivedOperand.matched {place : Place} {node : Option Node} {ts : List Token}
    (h : DerivedOperand place node ts) : Matched ts := by
  cases node with
  | none => exact Vacant.matched h
  | some n =>
    obtain ⟨d, valid, -, rfl⟩ := h
    exact valid.matched

/-- What reads the contents of groups and brackets, and where its faults are raised. -/
structure Sound (whole : List Token) (stop : Int) (budget : Nat) (inner : Inner) : Prop where
  keeps : KeepsInner whole stop budget inner
  raised : ∀ f, inner = some f → ∀ place read last ts, Reading whole stop read last ts →
    Faults (f place last ts) (Somewhere whole stop)

section

variable {whole read ts : List Token} {stop last : Int} {place : Place} {budget : Nat}
  {inner : Inner}

theorem faults_descend_bind {α : Type} {f : (Place → Reader (Option Node)) → Except Failed α}
    (sound : Sound whole stop budget inner)
    (next : ∀ less inside, Keeps whole stop less inside →
      (∀ place read last ts, Reading whole stop read last ts →
        Faults (inside place last ts) (Somewhere whole stop)) →
          Faults (f inside) (Somewhere whole stop)) :
    Faults (descend inner >>= f) (Somewhere whole stop) := by
  cases inner with
  | none => exact nofun
  | some inside =>
    obtain ⟨less, -, kept⟩ := sound.keeps
    exact next less inside kept (sound.raised inside rfl)

theorem faults_toEnd {α β : Type} {x : Except Failed (α × List Token)} {f : α → β}
    (h : Reading whole stop read last ts) (faults : Faults x (Somewhere whole stop))
    (result : ∀ r, x = .ok r → ∃ used, ts = used ++ r.2 ∧ Matched used ∧ Complete (read ++ used)) :
    Faults (x >>= fun r => expectEnd last r.2 >>= fun _ => pure (f r.1))
      (Somewhere whole stop) := by
  refine faults.bind fun r same => ?_
  obtain ⟨used, rfl, matched, complete⟩ := result r same
  exact ((h.after _ matched).faults_expectEnd complete).bind fun _ _ => faults_ok _

theorem faults_contents {less : Nat} {inside : Place → Reader (Option Node)}
    (keeps : Keeps whole stop less inside)
    (raised : ∀ place read last ts, Reading whole stop read last ts →
      Faults (inside place last ts) (Somewhere whole stop))
    (passage : ∀ t, ts.getLast? = some t → Passage whole stop ts t.stop) :
    Faults (contents inside place ts) (Somewhere whole stop) := by
  unfold contents
  cases hl : ts.getLast? with
  | none => exact faults_ok _
  | some t =>
    have here : Reading whole stop [] t.stop ts := ⟨passage t hl, .nil⟩
    refine faults_toEnd (f := id) here (raised place [] t.stop ts here) fun r same => ?_
    obtain ⟨used, split, derived⟩ := (keeps place t.stop ts here.part here.ends).ok same
    exact ⟨used, split, derived.matched, .inl ⟨place, r.1, derived⟩⟩

theorem faults_group (sound : Sound whole stop budget inner)
    (h : Reading whole stop read last ts) :
    Faults (group inner place last ts) (Somewhere whole stop) := by
  unfold group
  refine (h.faults_take [.openParen]).bind ?_
  rintro ⟨opening, rest⟩ taken
  obtain ⟨rfl, known⟩ := (meets_take [.openParen] h.part h.ends).ok taken
  have opens : opening.kind = .openParen := List.mem_singleton.mp known
  refine faults_descend_bind sound fun less inside keeps raised => ?_
  obtain ⟨behind, split, ends⟩ := Cursor.runUntil_append .closeParen (some .openParen) 0 rest
  have left : rest.drop (enclosed rest).length = behind := Cursor.drop_length_runUntil split
  change rest = enclosed rest ++ behind at split
  rw [left]
  cases behind with
  | nil =>
    -- no parenthesis closes the group, so the passage is at its end
    refine Faults.bind (faults_fault ⟨_, .ending h.passage rfl rfl nofun⟩) ?_
    rintro r ⟨⟩
  | cons closing after =>
    have closes : closing.kind = .closeParen := ends closing rfl
    have inside_matched := matched_enclosed split
    generalize enclosed rest = us at split inside_matched
    subst split
    have whole_passage := h.passage
    refine Faults.bind ?_ fun r _ => ?_
    · unfold take
      dsimp only
      rw [if_pos (by rw [closes]; rfl)]
      exact faults_ok _
    · refine Faults.bind ?_ fun _ _ => faults_ok _
      exact faults_contents keeps raised fun t final =>
        .group whole_passage opens closes inside_matched final

theorem faults_negation (sound : Sound whole stop budget inner)
    (h : Reading whole stop read last ts) :
    Faults (negation inner place last ts) (Somewhere whole stop) := by
  unfold negation
  refine h.faults_take_bind nofun nofun ?_
  rintro word rest rfl - here
  exact (faults_group sound here).bind fun _ _ => faults_ok _

theorem faults_bracketed (sound : Sound whole stop budget inner) (path : AttributePath)
    (h : Reading whole stop read last ts) :
    Faults (bracketed inner path last ts) (Somewhere whole stop) := by
  unfold bracketed
  refine h.faults_take_bind (by decide) (by decide) ?_
  rintro opening rest rfl opens here
  refine faults_descend_bind sound fun less inside keeps raised => ?_
  refine (raised .brackets _ last rest here).bind ?_
  rintro ⟨node, more⟩ done
  obtain ⟨used, rfl, derived⟩ := (keeps .brackets last rest here.part here.ends).ok done
  dsimp only
  split
  · exact h.faults_at [] .nil (by rintro ⟨⟩)
  · refine ((here.after _ derived.matched).faults_take [.closeBracket]).bind ?_
    rintro r -
    split
    · rintro _ ⟨⟩
    · exact faults_ok _

theorem faults_condition (sound : Sound whole stop budget inner)
    (h : Reading whole stop read last ts) :
    Faults (condition inner place last ts) (Somewhere whole stop) := by
  unfold condition
  refine h.faults_take_bind nofun nofun ?_
  rintro name rest rfl - here
  have refused {cause : Cause} (grammatical : cause ≠ .danglingOperator) :
      Faults (α := Option Node × List Token) (.error (faultAt cause name)) (Somewhere whole stop) :=
    h.faults_at [] .nil grammatical
  refine (faults_valid _).bind fun path _ => ?_
  show Faults (ite _ _ _) _
  split
  · split
    · exact refused nofun
    · split
      · exact refused nofun
      · exact (faults_bracketed sound path here).bind fun _ _ =>
          (faults_valid _).bind fun _ _ => faults_ok _
  · exact (here.faults_comparison path).bind fun _ _ => faults_ok _

theorem faults_operand (sound : Sound whole stop budget inner)
    (h : Reading whole stop read last ts) :
    Faults (operand inner place last ts) (Somewhere whole stop) := by
  have refused : Faults (α := Option Node × List Token)
      (.error (missing (missingOperand place) last ts)) (Somewhere whole stop) :=
    h.faults_missing (by cases place <;> nofun)
  unfold operand
  cases ts.head?.map Token.kind with
  | none => exact refused
  | some kind =>
    cases kind with
    | openParen => exact faults_group sound h
    | negation => exact faults_negation sound h
    | name => exact faults_condition sound h
    | _ => exact refused

theorem faults_moreOperands (sound : Sound whole stop budget inner) (n : Nat)
    (h : Reading whole stop read last ts) :
    Faults (moreOperands (operand inner place) n last ts) (Somewhere whole stop) := by
  induction n generalizing read ts with
  | zero => exact faults_ok _
  | succ n ih =>
    unfold moreOperands
    split
    · refine h.faults_take_bind (by decide) (by decide) ?_
      rintro link rest rfl - here
      refine (faults_operand sound here).bind ?_
      rintro ⟨node, more⟩ done
      obtain ⟨used, rfl, derived⟩ := (meets_operand sound.keeps here.part here.ends).ok done
      dsimp only
      split
      · exact h.faults_at [] .nil (by decide)
      · next same =>
        obtain ⟨rfl, rfl⟩ := Prod.mk.inj same
        exact (ih (here.after _ derived.matched)).bind fun _ _ => faults_ok _
    · exact faults_ok _

theorem faults_expressionOver (sound : Sound whole stop budget inner)
    (h : Reading whole stop read last ts) :
    Faults (expressionOver inner place last ts) (Somewhere whole stop) := by
  unfold expressionOver
  refine (faults_operand sound h).bind ?_
  rintro ⟨first, rest⟩ done
  obtain ⟨used, rfl, derived⟩ := (meets_operand sound.keeps h.part h.ends).ok done
  dsimp only
  split
  · exact faults_ok _
  · refine (faults_moreOperands sound rest.length (h.after _ derived.matched)).bind ?_
    rintro ⟨more, after⟩ -
    dsimp only
    split
    · exact faults_ok _
    · refine Faults.bind ?_ fun _ _ => faults_ok _
      unfold assemble
      split <;> exact nofun

theorem sound_nested (whole : List Token) (stop : Int) (budget : Nat) :
    Sound whole stop budget (nested budget) := by
  induction budget with
  | zero => exact ⟨keeps_nested whole stop 0, nofun⟩
  | succ budget ih =>
    refine ⟨keeps_nested whole stop (budget + 1), ?_⟩
    rintro f same place read last ts h
    obtain rfl := Option.some.inj same
    rw [expression_eq]
    exact faults_expressionOver ih h

/-! ## Filters and paths -/

theorem raised_filterWithin (budget : Nat) (stop : Int) (ts : List Token) :
    Faults (filterWithin budget stop ts) (Somewhere ts stop) := by
  unfold filterWithin
  split
  · exact faults_ok _
  · have here : Reading ts stop [] stop ts := ⟨.whole, .nil⟩
    have sound := sound_nested ts stop (budget + 1)
    refine faults_toEnd (f := id) here (sound.raised _ rfl .filter [] stop ts here) fun r done => ?_
    obtain ⟨used, split, derived⟩ := (meets_expression budget here.part .whole).ok done
    exact ⟨used, split, derived.matched, .inl ⟨.filter, r.1, derived⟩⟩

theorem Bracketed.matched {path : AttributePath} {rest ts : List Token} {n : Node}
    (h : Bracketed path rest n ts) : ∃ used, ts = used ++ rest ∧ Matched used := by
  obtain @⟨opening, closing, inner, opens, valid, closes⟩ := h
  refine ⟨opening :: (inner.tokens ++ [closing]), by simp, ?_⟩
  exact .of_kind opens nofun nofun (valid.matched.append (.of_kind closes nofun nofun .nil))

theorem SubAttribute.matched {sub : Option String} {ts : List Token} (h : SubAttribute sub ts) :
    Matched ts := by
  cases h with
  | none => exact .nil
  | some isSub => exact .of_kind isSub nofun nofun .nil

theorem DerivedTarget.matched {n : Node} {ts : List Token} (h : DerivedTarget n ts) :
    Matched ts := by
  cases h with
  | simple isName => exact .of_kind isName nofun nofun .nil
  | valuePath isName _ brackets sub =>
    obtain ⟨used, rfl, matched⟩ := brackets.matched
    exact .of_kind isName nofun nofun (matched.append sub.matched)

theorem faults_target (budget : Nat) (h : Reading whole stop read last ts) :
    Faults (target budget last ts) (Somewhere whole stop) := by
  unfold target
  refine h.faults_take_bind nofun nofun ?_
  rintro name rest rfl - here
  refine (faults_valid _).bind fun path _ => ?_
  show Faults (ite _ _ _) _
  split
  · split
    · exact h.faults_at [] .nil nofun
    · have sound := sound_nested whole stop budget
      refine (faults_bracketed sound path here).bind ?_
      rintro ⟨filter, more⟩ done
      obtain ⟨used, rfl, matched⟩ :=
        ((meets_bracketed sound.keeps path here.part here.ends).ok done).matched
      refine Faults.bind ?_ fun _ _ => (faults_valid _).bind fun _ _ => faults_ok _
      unfold subAttribute
      split
      · exact ((here.after _ matched).faults_take [.subAttribute]).bind fun _ _ => faults_ok _
      · exact faults_ok _
  · exact faults_ok _

theorem raised_pathWithin (budget : Nat) (stop : Int) (ts : List Token) :
    Faults (pathWithin budget stop ts) (Somewhere ts stop) := by
  unfold pathWithin
  split
  · exact faults_ok _
  · have here : Reading ts stop [] stop ts := ⟨.whole, .nil⟩
    refine faults_toEnd (f := some) here (faults_target budget here) fun r done => ?_
    obtain ⟨used, split, derived⟩ := (meets_target budget here.part .whole).ok done
    exact ⟨used, split, derived.matched, .inr ⟨r.1, derived⟩⟩

end

end Descent

end Scim
