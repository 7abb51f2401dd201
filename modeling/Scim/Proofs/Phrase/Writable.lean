import Mathlib.Data.List.Basic
import Mathlib.Data.List.TakeWhile
import Scim.Proofs.Number.Digits
import Scim.Proofs.Phrase.Lone

/-!
# Attributes and values as they are written

* `AttributePath.Writable`     plain names, behind a plain schema if there is one;
* `Writable.lexeme?_fullName`  the full name of such a path is a single name;
* `Value.written`              the text of a value;
* `Value.Writable`             the values that have one;
* `Writable.exists_literal`    this text is a single literal, which stands for the value;
* `lexeme?_operator`           a word of an operator between two blanks.
-/

namespace Scim

open Grammar Lexeme Text

/-! ## Plain characters -/

theorem forall_isAlphanum {P : Char → Prop}
    (h : ∀ n < 128, (Char.ofNat n).isAlphanum = true → P (Char.ofNat n)) {c : Char}
    (hc : c.isAlphanum = true) : P c := by
  have upper (letter : c.isUpper = true) : c.toNat ≤ 90 :=
    UInt32.le_iff_toNat_le.mp (of_decide_eq_true letter).2
  have lower (letter : c.isLower = true) : c.toNat ≤ 122 :=
    UInt32.le_iff_toNat_le.mp (of_decide_eq_true (Bool.and_eq_true_iff.mp letter).2)
  have digit (number : c.isDigit = true) : c.toNat ≤ 57 := (Char.isDigit_iff_toNat.mp number).2
  have small : c.toNat < 128 := by
    rcases Bool.or_eq_true_iff.mp hc with letter | number
    · rcases Bool.or_eq_true_iff.mp letter with letter | letter
      · exact Nat.lt_of_le_of_lt (upper letter) (by decide)
      · exact Nat.lt_of_le_of_lt (lower letter) (by decide)
    · exact Nat.lt_of_le_of_lt (digit number) (by decide)
  have same := Char.ofNat_toNat c
  rw [← same] at hc ⊢
  exact h c.toNat small hc

theorem isAlphanum_of_isAlpha {c : Char} (h : c.isAlpha = true) : c.isAlphanum = true :=
  Bool.or_eq_true_iff.mpr (.inl h)

theorem isSegment_of_isAlphanum {c : Char} (h : c.isAlphanum = true) : isSegment c = true :=
  forall_isAlphanum (P := fun c => isSegment c = true) (by decide +kernel) h

theorem isDigit_eq_false_of_isAlpha {c : Char} (h : c.isAlpha = true) : isDigit c = false :=
  forall_isAlphanum (P := fun c => c.isAlpha = true → isDigit c = false) (by decide +kernel)
    (isAlphanum_of_isAlpha h) h

theorem foldLetter_of_isAlphanum {c : Char} (h : c.isAlphanum = true) :
    foldLetter c = c.toLower :=
  forall_isAlphanum (P := fun c => foldLetter c = c.toLower) (by decide +kernel) h

/-! ## Plain paths -/

/-- A letter, and then letters, digits and some other characters. -/
def IsWord (others : List Char) (s : String) : Prop :=
  ∃ c cs, s.toList = c :: cs ∧ c.isAlpha = true ∧ ∀ d ∈ cs, d.isAlphanum = true ∨ d ∈ others

/-- A name of letters, digits, underscores and hyphens. -/
def IsName (name : String) : Prop := IsWord ['_', '-'] name

/-- A schema of letters, digits, underscores, dots, colons and hyphens. -/
def IsSchema (schema : String) : Prop := IsWord ['_', '.', ':', '-'] schema

/-- The words that are not read as a name. -/
def keywords : List String := ["true", "false", "null", "not"]

/-- Plain names, behind a plain schema if there is one.  A single name without a schema is no
keyword in any case. -/
structure AttributePath.Writable (p : AttributePath) : Prop where
  names_ne_nil : p.names ≠ []
  isName : ∀ name ∈ p.names, IsName name
  isSchema : ∀ schema, p.schema = some schema → IsSchema schema
  isFree : ∀ name, p = ⟨none, [name]⟩ → name.toLower ∉ keywords

theorem IsWord.all {others : List Char} {s : String} {p : Char → Bool} (h : IsWord others s)
    (alphanum : ∀ c, c.isAlphanum = true → p c = true) (other : others.all p = true) :
    s.toList ≠ [] ∧ ∀ c ∈ s.toList, p c = true := by
  obtain ⟨c, cs, text, letter, rest⟩ := h
  rw [text]
  refine ⟨List.cons_ne_nil c cs, List.forall_mem_cons.mpr ⟨?_, ?_⟩⟩
  · exact alphanum c (isAlphanum_of_isAlpha letter)
  · intro d hd
    exact (rest d hd).elim (alphanum d) (List.all_eq_true.mp other d)

theorem IsName.isSegment {name : String} (h : IsName name) : IsSegment name.toList :=
  h.all (fun _ => isSegment_of_isAlphanum) (by decide)

theorem IsSchema.continuesName {schema : String} (h : IsSchema schema) :
    schema.toList ≠ [] ∧ ∀ c ∈ schema.toList, Lexeme.continuesName c = true := by
  refine h.all (fun c letter => ?_) (by decide)
  rw [Lexeme.continuesName, isSegment_of_isAlphanum letter]
  rfl

namespace AttributePath.Writable

variable {p : AttributePath} (h : p.Writable)

include h

/-- The parts of the full name. -/
def spelling : Spelling where
  schema := p.schema.map String.toList
  segments := p.names.map String.toList
  segments_ne_nil := mt List.map_eq_nil_iff.mp h.names_ne_nil
  isSegment := by
    intro s hs
    obtain ⟨name, mem, rfl⟩ := List.mem_map.mp hs
    exact (h.isName name mem).isSegment
  isSchema := by
    intro s hs
    obtain ⟨schema, same, rfl⟩ := Option.map_eq_some_iff.mp hs
    obtain ⟨long, inside⟩ := (h.isSchema schema same).continuesName
    exact ⟨long, fun c hc => isSchema_of_continuesName (inside c hc)⟩

theorem path_spelling : h.spelling.path = p := by
  have same : String.ofList ∘ String.toList = id := funext fun _ => String.ofList_toList
  rw [Spelling.path, spelling, Option.map_map, List.map_map, same, Option.map_id, List.map_id]
  rfl

theorem text_spelling : h.spelling.text = p.fullName.toList := by
  rw [← Spelling.fullName_path, h.path_spelling]

theorem named_fullName : AttributePath.named p.fullName.toList = p := by
  rw [← h.text_spelling, Spelling.named_text, h.path_spelling]

theorem continuesName_fullName : ∀ c ∈ p.fullName.toList, continuesName c = true := by
  have inside : ∀ c ∈ dotted h.spelling.segments, continuesName c = true := by
    intro c hc
    rcases mem_dotted hc with rfl | ⟨s, hs, mem⟩
    · rfl
    · rw [continuesName, (h.spelling.isSegment s hs).2 c mem]
      rfl
  have text := h.text_spelling
  obtain ⟨schema, names⟩ := p
  rw [← text]
  cases schema with
  | none => exact inside
  | some schema =>
    have front := (h.isSchema schema rfl).continuesName.2
    exact List.forall_mem_append.mpr ⟨front, List.forall_mem_cons.mpr ⟨rfl, inside⟩⟩

theorem head_fullName : ∃ c cs, p.fullName.toList = c :: cs ∧ c.isAlpha = true := by
  have text := h.text_spelling
  obtain ⟨schema, names⟩ := p
  rw [← text]
  cases schema with
  | some schema =>
    obtain ⟨c, cs, first, letter, -⟩ := h.isSchema schema rfl
    refine ⟨c, cs ++ ':' :: dotted h.spelling.segments, ?_, letter⟩
    show schema.toList ++ _ = _
    rw [first]
    rfl
  | none =>
    obtain ⟨name, names, rfl⟩ := List.exists_cons_of_ne_nil h.names_ne_nil
    obtain ⟨c, cs, first, letter, -⟩ := h.isName name (List.mem_cons_self ..)
    refine ⟨c, dotted (cs :: names.map String.toList), ?_, letter⟩
    show dotted (name.toList :: names.map String.toList) = _
    rw [first, dotted_cons_head]

theorem fold_fullName : p.fullName.toList.map foldLetter ∉ keywords.map String.toList := by
  intro keyword
  have plain : ∀ word ∈ keywords.map String.toList, '.' ∉ word ∧ ':' ∉ word := by decide
  have unmarked {c : Char} (same : foldLetter c = c) (mark : c ∈ p.fullName.toList) :
      c ∈ p.fullName.toList.map foldLetter := List.mem_map.mpr ⟨c, mark, same⟩
  have text := h.text_spelling
  obtain ⟨schema, names⟩ := p
  cases schema with
  | some schema =>
    refine (plain _ keyword).2 (unmarked rfl ?_)
    rw [← text]
    exact List.mem_append_right _ (List.mem_cons_self ..)
  | none =>
    obtain ⟨name, names, rfl⟩ := List.exists_cons_of_ne_nil h.names_ne_nil
    cases names with
    | cons next names =>
      refine (plain _ keyword).1 (unmarked rfl ?_)
      rw [← text]
      show '.' ∈ dotted (name.toList :: next.toList :: names.map String.toList)
      rw [dotted_cons_cons]
      exact List.mem_append_right _ (List.mem_cons_self ..)
    | nil =>
      have alone : (⟨none, [name]⟩ : AttributePath).fullName.toList = name.toList := by
        rw [← text]
        exact dotted_singleton _
      have folded : ∀ c ∈ name.toList, (foldLetter c == c.toLower) = true := by
        refine ((h.isName name (List.mem_cons_self ..)).all ?_ (by decide)).2
        intro c letter
        rw [foldLetter_of_isAlphanum letter]
        exact beq_self_eq_true _
      have lower : name.toList.map foldLetter = name.toLower.toList := by
        show _ = (name.map Char.toLower).toList
        rw [String.toList_map]
        exact List.map_congr_left fun c hc => eq_of_beq (folded c hc)
      rw [alone, lower] at keyword
      obtain ⟨word, mem, same⟩ := List.mem_map.mp keyword
      rw [String.toList_inj] at same
      exact h.isFree name rfl (same ▸ mem)

end AttributePath.Writable

/-! ## Names as lexemes -/

theorem literal?_eq_none {words : List (List Char)} {cs : List Char}
    (all : ∀ c ∈ cs, continuesName c = true) (other : cs.map foldLetter ∉ words) :
    literal? words cs = none := by
  unfold literal?
  cases found : anyWord? words cs with
  | none => rfl
  | some text =>
    obtain ⟨word, mem, spelled⟩ := List.exists_of_findSome?_eq_some found
    obtain ⟨⟨rest, rfl⟩, rfl⟩ := word?_eq_some_iff.mp spelled
    cases rest with
    | nil =>
      rw [List.append_nil] at other
      exact absurd mem other
    | cons c rest =>
      have goesOn : continuesName c = true :=
        all c (List.mem_append_right _ (List.mem_cons_self ..))
      simp [Option.filter_some, goesOn]

/-- **The full name of a plain path** is a single name before a blank or bracket. -/
theorem AttributePath.Writable.lexeme?_fullName {p : AttributePath} (h : p.Writable) {b : List Char}
    (hb : Stops b) :
    Mode.filter.lexeme? (p.fullName.toList ++ b) = some (.name, p.fullName.toList) := by
  have other := h.fold_fullName
  have alone : h.spelling.Lone := by
    obtain ⟨c, cs, text, letter⟩ := h.head_fullName
    refine ⟨?_, ?_⟩
    · have notDigit : isDigit c = false := isDigit_eq_false_of_isAlpha letter
      rw [h.text_spelling, text]
      simp [number?, notDigit]
    · intro words known
      have listed : ∀ words ∈ literalWords, words ⊆ keywords.map String.toList := by decide
      rw [h.text_spelling]
      exact literal?_eq_none h.continuesName_fullName fun mem => other (listed words known mem)
  have name := alone.lexeme? .filter
  rw [h.text_spelling] at name
  refine Mode.lexeme?_name_append name ?_ hb
  intro same
  rw [same] at other
  exact other (by decide)

/-! ## Values -/

/-- The text of a value.  A double has none. -/
def Value.written : Value → String
  | null => "null"
  | bool b => if b then "true" else "false"
  | int n => toString n
  | double _ => ""
  | string s => "\"" ++ s ++ "\""

/-- The values that have a text: numbers are whole, not negative and of 4300 digits at most, and
strings hold no quotation mark. -/
inductive Value.Writable : Value → Prop where
  | null : Writable .null
  | bool (b : Bool) : Writable (.bool b)
  | int {n : Int} : 0 ≤ n → (toString n).length ≤ 4300 → Writable (.int n)
  | string {s : String} : '"' ∉ s.toList → Writable (.string s)

theorem lexeme?_of_number {cs text : List Char} (h : number? cs = some text) :
    Mode.filter.lexeme? cs = some (.number, text) := by
  simp [Mode.lexeme?, Mode.kinds, Mode.filterKinds, Kind.lexeme?, h]

theorem lexeme?_toDigits (n : Nat) :
    Mode.filter.lexeme? (Nat.toDigits 10 n) = some (.number, Nat.toDigits 10 n) := by
  have digits : ∀ c ∈ Nat.toDigits 10 n, isDigit c = true := by
    intro c hc
    rw [isDigit, digitValue?_of_mem_toDigits hc]
    rfl
  have whole : (Nat.toDigits 10 n).takeWhile isDigit = Nat.toDigits 10 n :=
    List.takeWhile_eq_self_iff.mpr digits
  have run : number? (Nat.toDigits 10 n) = some (Nat.toDigits 10 n) := by
    simp [number?, whole, Nat.toDigits_ne_nil]
  exact lexeme?_of_number run

theorem lexeme?_quoted {s : List Char} (free : '"' ∉ s) :
    Mode.filter.lexeme? ('"' :: (s ++ ['"'])) = some (.string, '"' :: (s ++ ['"'])) := by
  have run : string? ('"' :: (s ++ ['"'])) = some ('"' :: (s ++ ['"'])) := string?_body free []
  have other : number? ('"' :: (s ++ ['"'])) = none := rfl
  simp [Mode.lexeme?, Mode.kinds, Mode.filterKinds, Kind.lexeme?, run, other]

/-- **The text of a value** is a single literal, which stands for it. -/
theorem Value.Writable.exists_literal {v : Value} (h : v.Writable) :
    ∃ kind, (∀ p, Phrase.Literal ⟨kind, v.written.toList, p⟩ v) ∧
      Mode.filter.lexeme? v.written.toList = some (kind, v.written.toList) := by
  cases h with
  | null => exact ⟨.null, fun _ => .null rfl, rfl⟩
  | bool b =>
    cases b with
    | true => exact ⟨.boolean, fun _ => .boolean rfl, rfl⟩
    | false => exact ⟨.boolean, fun _ => .boolean rfl, rfl⟩
  | @int n positive short =>
    obtain ⟨k, rfl⟩ := Int.eq_ofNat_of_zero_le positive
    have text : (Value.int k).written.toList = Nat.toDigits 10 k := Nat.toList_repr
    have noPoint : '.' ∉ Nat.toDigits 10 k := fun point =>
      absurd (digitValue?_of_mem_toDigits point) (by decide)
    have whole (p : Int) : Phrase.Literal ⟨.number, Nat.toDigits 10 k, p⟩
        (.int (digitsValue (Nat.toDigits 10 k))) := by
      refine .whole rfl noPoint ?_
      rw [← text]
      exact short
    rw [digitsValue_toDigits] at whole
    rw [text]
    exact ⟨.number, whole, lexeme?_toDigits k⟩
  | @string s free =>
    have text : (Value.string s).written.toList = '"' :: (s.toList ++ ['"']) := by
      simp [Value.written]
    have literal (p : Int) : Phrase.Literal ⟨.string, '"' :: (s.toList ++ ['"']), p⟩
        (.string (String.ofList (('"' :: (s.toList ++ ['"'])).drop 1).dropLast)) := .string rfl
    rw [List.drop_succ_cons, List.drop_zero, List.dropLast_concat, String.ofList_toList] at literal
    rw [text]
    exact ⟨.string, literal, lexeme?_quoted free⟩

/-! ## Operators -/

theorem Phrase.Literal.takeWhile_blank {kind : Kind} {cs : List Char} {p : Int} {v : Value}
    (h : Phrase.Literal ⟨kind, cs, p⟩ v) (run : Mode.filter.lexeme? cs = some (kind, cs)) :
    cs.takeWhile isBlank = [] := by
  have value : kind ∈ Kind.values := h.mem_values
  cases cs with
  | nil => rfl
  | cons c cs =>
    refine List.takeWhile_cons_of_neg fun blank => ?_
    have missed : kind.lexeme? (c :: cs) = none := by
      refine Kind.lexeme?_blank ?_ ?_ blank cs
      all_goals
        rintro rfl
        exact absurd value (by decide)
    rw [(Mode.exists_of_lexeme?_eq_some run).1] at missed
    cases missed

theorem lexeme?_operator {o : Operator} (h : o ≠ .pr) {v : List Char}
    (solid : v.takeWhile isBlank = []) :
    Mode.filter.lexeme? (' ' :: (o.word.toList ++ ' ' :: v)) =
      some (.comparison, ' ' :: (o.word.toList ++ [' '])) := by
  rw [← solid]
  cases o with
  | pr => exact absurd rfl h
  | _ => rfl

theorem wordOf_operator (o : Operator) (p : Int) :
    wordOf ⟨.comparison, ' ' :: (o.word.toList ++ [' ']), p⟩ = o.word.toList := by
  show (stripBlanks (' ' :: (o.word.toList ++ [' ']))).map lowerAscii = _
  cases o <;> decide

end Scim
