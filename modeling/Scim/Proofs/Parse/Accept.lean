import Scim.Proofs.Parse.Basic

/-!
# The texts that are filters

* `Mode.parse_eq_ok_iff`         without limits the parser returns what the grammar derives from the
                                 tokens of the text;
* `Filter.parse_iff_derivation`  for filters: no filter for tokens with nothing inside, the tree of
                                 the only derivation for tokens that have one, and a refusal
                                 otherwise.
-/

namespace Scim

open Grammar Descent Phrase

theorem Grammar.refuse_eq_ok_iff {α : Type} {mode : Mode} {text : String} {x : Except Failed α}
    {a : α} : refuse mode text x = .ok a ↔ x = .ok a := by
  cases x with
  | ok b =>
    show (Except.ok b : Except Refusal α) = .ok a ↔ _
    rw [Except.ok.injEq, Except.ok.injEq]
  | error e => exact ⟨nofun, nofun⟩

theorem Mode.parse_eq_ok_iff {mode : Mode} {text : String} {ts : List Token}
    (scanned : scan mode text.toList 0 = .ok ts) {node : Option Node} :
    mode.parse .unlimited text = .ok node ↔ mode.Derives node ts := by
  rw [parse_unlimited scanned, refuse_eq_ok_iff, descend_eq_ok_iff]

theorem Mode.parse_eq_ok_iff_exists {mode : Mode} {text : String} {node : Option Node} :
    mode.parse .unlimited text = .ok node ↔
      ∃ ts, Tiles mode 0 text.toList ts ∧ mode.Derives node ts := by
  constructor
  · intro accepted
    cases scanned : scan mode text.toList 0 with
    | ok ts => exact ⟨ts, scan_eq_ok_iff.mp scanned, (parse_eq_ok_iff scanned).mp accepted⟩
    | error stray =>
      rw [parse_eq, Limits.start_unlimited, scanned] at accepted
      cases accepted
  · rintro ⟨ts, tiles, derives⟩
    exact (parse_eq_ok_iff tiles.scan_eq).mpr derives

/-- **Filters are parsed by their grammar.**  A text gives no filter if its tokens are those of a
group with nothing inside, or none; it gives a tree if its tokens have a derivation, the only one,
and the tree is that of the derivation; any other text is refused. -/
theorem Filter.parse_iff_derivation (text : String) (ts : List Token)
    (scanned : scan .filter text.toList 0 = .ok ts) :
    (Filter.parse .unlimited text = .ok none ↔ Vacant ts) ∧
      (∀ n, Filter.parse .unlimited text = .ok (some n) ↔
        ∃ c : Chain, c.Valid .filter ∧ c.tree = n ∧ c.tokens = ts) ∧
      (∀ c c' : Chain, c.Valid .filter → c'.Valid .filter → c.tokens = ts → c'.tokens = ts →
        c = c') ∧
      ((∃ r, Filter.parse .unlimited text = .error r) ↔
        ¬ Vacant ts ∧ ¬ ∃ c : Chain, c.Valid .filter ∧ c.tokens = ts) := by
  have read (node : Option Node) :
      Filter.parse .unlimited text = .ok node ↔ Derived .filter node ts :=
    Mode.parse_eq_ok_iff scanned
  refine ⟨read none, fun n => read (some n), ?_, ?_, ?_⟩
  · intro c c' valid valid' tokens tokens'
    have same : c.tokens ++ [] = c'.tokens ++ [] := by rw [tokens, tokens']
    exact (valid.unique valid' unlinked_nil unlinked_nil same).1
  · rintro ⟨r, refused⟩
    constructor
    · intro vacant
      have accepted := (read none).mpr vacant
      rw [refused] at accepted
      cases accepted
    · rintro ⟨c, valid, tokens⟩
      have accepted := (read (some c.tree)).mpr ⟨c, valid, rfl, tokens⟩
      rw [refused] at accepted
      cases accepted
  · rintro ⟨notVacant, noChain⟩
    cases result : Filter.parse .unlimited text with
    | error r => exact ⟨r, rfl⟩
    | ok node =>
      have derived := (read node).mp result
      cases node with
      | none => exact absurd derived notVacant
      | some n =>
        obtain ⟨c, valid, -, tokens⟩ := derived
        exact absurd ⟨c, valid, tokens⟩ noChain

/-- a value path and a negation in a group -/
theorem Filter.parse_mixed_group :
    Filter.parse .unlimited "(a[b eq 1] or not(c pr))" = .ok (some (.connective .disjunction
      [.valuePath ⟨none, ["a"]⟩ (.comparison ⟨⟨none, ["a", "b"]⟩, .eq, .int 1⟩) none,
        .negation (.comparison ⟨⟨none, ["c"]⟩, .pr, .null⟩)])) := by
  let opening : Token := ⟨.openParen, ['('], 0⟩
  let a : Token := ⟨.name, ['a'], 1⟩
  let bracket : Token := ⟨.openBracket, ['['], 2⟩
  let b : Token := ⟨.name, ['b'], 3⟩
  let eq : Token := ⟨.comparison, [' ', 'e', 'q', ' '], 4⟩
  let one : Token := ⟨.number, ['1'], 8⟩
  let bracket' : Token := ⟨.closeBracket, [']'], 9⟩
  let link : Token := ⟨.logical, [' ', 'o', 'r', ' '], 10⟩
  let no : Token := ⟨.negation, ['n', 'o', 't'], 14⟩
  let paren : Token := ⟨.openParen, ['('], 17⟩
  let c : Token := ⟨.name, ['c'], 18⟩
  let pr : Token := ⟨.comparison, [' ', 'p', 'r'], 19⟩
  let paren' : Token := ⟨.closeParen, [')'], 22⟩
  let closing : Token := ⟨.closeParen, [')'], 23⟩
  have scanned : scan .filter "(a[b eq 1] or not(c pr))".toList 0 =
      .ok [opening, a, bracket, b, eq, one, bracket', link, no, paren, c, pr, paren', closing] := by
    rfl
  have inner : (Chain.mk (.comparison b eq one .eq (.int 1)) .nil).Valid .brackets :=
    .mk (.comparison rfl rfl (by decide) (by decide) (.whole rfl (by decide) (by decide))) .nil
  have path : (Operand.valuePath a bracket _ bracket').Valid .filter :=
    .valuePath rfl rfl rfl inner rfl
  have presence : (Chain.mk (.presence c pr) .nil).Valid .filter :=
    .mk (.presence rfl rfl (by decide)) .nil
  have negation : (Operand.negation no paren _ paren').Valid .filter :=
    .negation rfl rfl presence rfl
  have valid : (Chain.mk (.group opening (.mk _ (.cons link _ .nil)) closing) .nil).Valid .filter :=
    .mk (.group rfl (.mk path (.cons rfl negation .nil)) rfl) .nil
  exact ((Filter.parse_iff_derivation _ _ scanned).2.1 _).mpr ⟨_, valid, by rfl, by rfl⟩

end Scim
