import Scim.Grammar.Expression
import Scim.Proofs.Scan.Lexeme

/-!
# Names, operators and literals

What single tokens stand for.

* `AttributePath.named`      the attribute path of the text of a name;
* `ofText_eq`                reading the text of a name does not fail and gives this path;
* `ofWord?_wordOf`           a word in lower case is that of an operator;
* `Phrase.Literal`           the values of literals;
* `Phrase.LongNumber`        the whole numbers of too many digits;
* `value_eq_ok_iff`, `value_eq_error_iff`    reading a literal gives its value, and fails for long
                             whole numbers only.
-/

namespace Scim

open Grammar Number Text

/-! ## Names -/

namespace AttributePath

/-- The attribute path of the text of a name: the schema ends at the last colon. -/
def named (text : List Char) : AttributePath :=
  match splitLastColon text with
  | some (schema, name) => ⟨some (String.ofList schema), (partsAt '.' name).map String.ofList⟩
  | none => ⟨none, (partsAt '.' text).map String.ofList⟩

theorem partsAt_ne_nil (mark : Char) (cs : List Char) : partsAt mark cs ≠ [] := by
  cases cs with
  | nil => exact List.cons_ne_nil _ _
  | cons c cs =>
    unfold partsAt
    split
    · exact List.cons_ne_nil _ _
    · split <;> exact List.cons_ne_nil _ _

theorem make_eq (schema : Option String) {names : List String} (h : names ≠ []) :
    make schema names = .ok ⟨schema, names⟩ := by
  unfold make
  rw [List.isEmpty_eq_false_iff.mpr h]
  rfl

theorem ofText_eq (text : List Char) : ofText text = .ok (named text) := by
  have parts (cs : List Char) : (partsAt '.' cs).map String.ofList ≠ [] := by
    intro none
    exact partsAt_ne_nil '.' cs (List.map_eq_nil_iff.mp none)
  unfold ofText named
  cases splitLastColon text with
  | some found => exact make_eq (some _) (parts found.2)
  | none => exact make_eq none (parts text)

end AttributePath

/-! ## Operators -/

theorem lowerAscii_lowerAscii (c : Char) : lowerAscii (lowerAscii c) = lowerAscii c := by
  have all : ∀ n < 0x5b, 0x41 ≤ n → lowerAscii (Char.ofNat (n + 0x20)) = Char.ofNat (n + 0x20) := by
    decide
  by_cases upper : 0x41 ≤ c.toNat ∧ c.toNat ≤ 0x5a
  · have lower : lowerAscii c = Char.ofNat (c.toNat + 0x20) := if_pos upper
    rw [lower]
    exact all c.toNat (by omega) upper.1
  · have same : lowerAscii c = c := if_neg upper
    rw [same, same]

theorem map_lowerAscii_wordOf (t : Token) : (wordOf t).map lowerAscii = wordOf t := by
  unfold wordOf
  rw [List.map_map]
  congr 1
  funext c
  exact lowerAscii_lowerAscii c

theorem Operator.mem_all (o : Operator) : o ∈ Operator.all := by
  cases o <;> decide

theorem Operator.word_injective {o o' : Operator} (h : o.word.toList = o'.word.toList) :
    o = o' := by
  revert h
  cases o <;> cases o' <;> decide

theorem ofWord?_wordOf {t : Token} {o : Operator} :
    Operator.ofWord? (String.ofList (wordOf t)) = some o ↔ wordOf t = o.word.toList := by
  unfold Operator.ofWord?
  rw [String.toList_ofList, map_lowerAscii_wordOf]
  constructor
  · intro found
    have same : o.word.toList = wordOf t := by simpa using List.find?_some found
    exact same.symm
  · intro word
    cases found : Operator.all.find? fun o => decide (o.word.toList = wordOf t) with
    | none =>
      have missed := List.find?_eq_none.mp found o o.mem_all
      exact absurd (decide_eq_true word.symm) missed
    | some o' =>
      have same : o'.word.toList = wordOf t := by simpa using List.find?_some found
      rw [Operator.word_injective (same.trans word)]

theorem Operator.toList_word_pr : Operator.pr.word.toList = ['p', 'r'] := by decide

theorem make_cases (path : AttributePath) (t : Token) (v : Value) :
    (∃ o : Operator, wordOf t = o.word.toList ∧
        Comparison.make path (String.ofList (wordOf t)) v = .ok ⟨path, o, v⟩) ∨
      ((∀ o : Operator, wordOf t ≠ o.word.toList) ∧
        Comparison.make path (String.ofList (wordOf t)) v =
          .error (.unknownOperator (Text.lowercase (String.ofList (wordOf t))))) := by
  unfold Comparison.make
  cases found : Operator.ofWord? (String.ofList (wordOf t)) with
  | some o => exact .inl ⟨o, ofWord?_wordOf.mp found, rfl⟩
  | none =>
    refine .inr ⟨?_, rfl⟩
    intro o word
    rw [ofWord?_wordOf.mpr word] at found
    cases found

namespace Phrase

/-! ## Literals -/

/-- The values of literals. -/
inductive Literal : Token → Value → Prop where
  | string {t : Token} : t.kind = .string →
      Literal t (.string (String.ofList (t.text.drop 1).dropLast))
  | whole {t : Token} : t.kind = .number → '.' ∉ t.text → t.text.length ≤ maxNumeralDigits →
      Literal t (.int (digitsValue t.text))
  | decimal {t : Token} {whole fraction : List Char} : t.kind = .number → '.' ∉ whole →
      t.text = whole ++ '.' :: fraction →
      Literal t (.double (.ofDecimal false (digitsValue (whole ++ fraction)) (-fraction.length)))
  | boolean {t : Token} : t.kind = .boolean →
      Literal t (.bool (decide (t.text.map lowerAscii = ['t', 'r', 'u', 'e'])))
  | null {t : Token} : t.kind = .null → Literal t .null

def LongNumber (t : Token) : Prop :=
  t.kind = .number ∧ '.' ∉ t.text ∧ maxNumeralDigits < t.text.length

theorem splitAtMark_of_notMem {mark : Char} {cs : List Char} (h : mark ∉ cs) :
    splitAtMark mark cs = (cs, none) := by
  have all : (cs ++ []).dropWhile (· != mark) = [] :=
    List.dropWhile_append_of_pos (Lexeme.bne_of_notMem h)
  rw [List.append_nil] at all
  unfold splitAtMark
  rw [all]

theorem splitAtMark_append {mark : Char} {cs rest : List Char} (h : mark ∉ cs) :
    splitAtMark mark (cs ++ mark :: rest) = (cs, some rest) := by
  have keep := Lexeme.bne_of_notMem h
  unfold splitAtMark
  rw [List.dropWhile_append_of_pos keep, List.takeWhile_append_of_pos keep,
    List.dropWhile_cons_of_neg (by simp), List.takeWhile_cons_of_neg (by simp), List.append_nil]

theorem number_cases (text : List Char) :
    ('.' ∉ text ∧ Grammar.number text = wholeNumber text) ∨
      ∃ whole fraction, '.' ∉ whole ∧ text = whole ++ '.' :: fraction ∧ Grammar.number text =
        .ok (.double (.ofDecimal false (digitsValue (whole ++ fraction)) (-fraction.length))) := by
  unfold Grammar.number
  by_cases point : '.' ∈ text
  · obtain ⟨whole, fraction, rfl, first⟩ := List.eq_append_cons_of_mem point
    refine .inr ⟨whole, fraction, first, rfl, ?_⟩
    rw [splitAtMark_append first]
  · refine .inl ⟨point, ?_⟩
    rw [splitAtMark_of_notMem point]

theorem value_eq_ok_iff {t : Token} {v : Value} (h : t.kind ∈ Kind.values) :
    value t = .ok v ↔ Literal t v := by
  constructor
  · intro read
    unfold value at read
    cases kind : t.kind with
    | string =>
      rw [kind] at read
      obtain rfl := Except.ok.inj read
      exact .string kind
    | boolean =>
      rw [kind] at read
      obtain rfl := Except.ok.inj read
      exact .boolean kind
    | null =>
      rw [kind] at read
      obtain rfl := Except.ok.inj read
      exact .null kind
    | number =>
      rw [kind] at read
      dsimp only at read
      rcases number_cases t.text with ⟨point, whole⟩ | ⟨whole, fraction, point, text, made⟩
      · rw [whole] at read
        unfold wholeNumber at read
        split at read
        · cases read
        · next short =>
          obtain rfl := Except.ok.inj read
          exact .whole kind point (Nat.le_of_not_lt short)
      · rw [made] at read
        obtain rfl := Except.ok.inj read
        exact .decimal kind point text
    | _ =>
      rw [kind] at h
      simp [Kind.values] at h
  · intro literal
    unfold value
    cases literal with
    | string kind => rw [kind]
    | boolean kind => rw [kind]
    | null kind => rw [kind]
    | whole kind point short =>
      rw [kind]
      unfold Grammar.number wholeNumber
      rw [splitAtMark_of_notMem point]
      exact if_neg (Nat.not_lt.mpr short)
    | decimal kind point text =>
      rw [kind, text]
      unfold Grammar.number
      dsimp only
      rw [splitAtMark_append point]

theorem value_eq_error_iff {t : Token} {e : Invalid} :
    value t = .error e ↔ LongNumber t ∧ e = .longNumber t.text.length := by
  constructor
  · intro read
    unfold value at read
    cases kind : t.kind with
    | number =>
      rw [kind] at read
      dsimp only at read
      rcases number_cases t.text with ⟨point, whole⟩ | ⟨whole, fraction, point, text, made⟩
      · rw [whole] at read
        unfold wholeNumber at read
        split at read
        · next long =>
          obtain rfl := Except.error.inj read
          exact ⟨⟨kind, point, long⟩, rfl⟩
        · cases read
      · rw [made] at read
        cases read
    | _ =>
      rw [kind] at read
      cases read
  · rintro ⟨⟨kind, point, long⟩, rfl⟩
    unfold value Grammar.number wholeNumber
    rw [kind]
    dsimp only
    rw [splitAtMark_of_notMem point]
    exact if_pos long

theorem Literal.mem_values {t : Token} {v : Value} (h : Literal t v) : t.kind ∈ Kind.values := by
  cases h with
  | string kind => rw [kind]; decide
  | whole kind _ _ => rw [kind]; decide
  | decimal kind _ _ => rw [kind]; decide
  | boolean kind => rw [kind]; decide
  | null kind => rw [kind]; decide

theorem Literal.unique {t : Token} {v w : Value} (hv : Literal t v) (hw : Literal t w) : v = w := by
  have readV := (value_eq_ok_iff hv.mem_values).mpr hv
  have readW := (value_eq_ok_iff hv.mem_values).mpr hw
  exact Except.ok.inj (readV.symm.trans readW)

end Phrase

end Scim
