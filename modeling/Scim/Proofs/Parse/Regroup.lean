import Scim.Proofs.Parse.Basic

/-!
# Groups are not scanned anew

Scanning the text of a group again gives the tokens of the group, so a parser is a single pass over
the tokens of the whole text, and a stray character is found by the first scan or not at all.

* `scan_takeUntil`            the text up to a closing parenthesis, scanned where it stands;
* `Fault.not_stray_message`   only stray characters are called unexpected characters;
* `groups_are_slices`         all of it.
-/

namespace Scim

open Grammar Descent

/-- the text up to a closing parenthesis, scanned where it stands, gives the tokens up to there -/
theorem scan_takeUntil {mode : Mode} {source : List Char} {offset : Int} {ts : List Token}
    (scanned : scan mode source offset = .ok ts) {s : Nat} {w : List Char} {c : Cursor}
    (taken : (Cursor.skip s ⟨source, offset, 0, ts⟩).takeUntil .closeParen (some .openParen) =
      (w, c))
    (moved : s < c.index) :
    ∃ t, ts[s]? = some t ∧ scan mode w t.position = .ok ((ts.drop s).take (c.index - s)) := by
  have fits : (Cursor.skip s ⟨source, offset, 0, ts⟩).Fits mode :=
    Cursor.Fits.skip ⟨[], scan_eq_ok_iff.mp scanned⟩ s
  obtain ⟨after, split, ends⟩ := Cursor.runUntil_append .closeParen (some .openParen) 0 (ts.drop s)
  have spanned : (Cursor.skip s ⟨source, offset, 0, ts⟩).span (enclosed (ts.drop s)) = w :=
    congrArg Prod.fst taken
  have index : 0 + s + (enclosed (ts.drop s)).length = c.index :=
    congrArg (fun r => r.2.index) taken
  change ts.drop s = enclosed (ts.drop s) ++ after at split
  have counted : c.index - s = (enclosed (ts.drop s)).length := by omega
  have slice : (ts.drop s).take (c.index - s) = enclosed (ts.drop s) := by
    rw [counted]
    have front := congrArg (List.take (enclosed (ts.drop s)).length) split
    rwa [List.take_left] at front
  rw [slice]
  generalize enclosed (ts.drop s) = run at split spanned counted
  cases hf : run.head? with
  | none =>
    rw [List.head?_eq_none_iff.mp hf] at counted
    simp at counted
    omega
  | some first =>
    cases hl : run.getLast? with
    | none =>
      rw [List.getLast?_eq_none_iff.mp hl] at hf
      cases hf
    | some last =>
      obtain ⟨tiles, -⟩ := fits.tiles_span split ends hf hl
      rw [spanned] at tiles
      refine ⟨first, ?_, tiles.scan_eq⟩
      obtain ⟨more, rfl⟩ := List.head?_eq_some_iff.mp hf
      rw [← List.head?_drop, split]
      rfl

/-! ## Messages -/

/-- How the message for a stray character begins. -/
def Fault.strayWords : String := "Unexpected character"

theorem not_startsWith {words text : List Char} {a b : Char} (k : Nat) (hw : words[k]? = some a)
    (ht : text[k]? = some b) (other : a ≠ b) : ¬ words <+: text := by
  rintro ⟨rest, rfl⟩
  have short := (List.getElem?_eq_some_iff.mp hw).1
  rw [List.getElem?_append_left short, hw] at ht
  exact other (Option.some.inj ht)

theorem Fault.not_stray_message {f : Fault} (h : f.cause ≠ .strayCharacter) :
    ¬ Fault.strayWords.toList <+: f.message.toList := by
  obtain ⟨cause, token, position⟩ := f
  have words : strayWords.toList = ['U', 'n', 'e', 'x', 'p', 'e', 'c', 't', 'e', 'd', ' ', 'c',
    'h', 'a', 'r', 'a', 'c', 't', 'e', 'r'] := rfl
  rw [words]
  unfold message shown valuePath
  dsimp only
  cases cause with
  | strayCharacter => exact absurd rfl h
  | expected kinds =>
    cases token with
    | none =>
      dsimp only
      simp only [String.toList_append, List.append_assoc]
      exact not_startsWith 11 (a := 'c') (b := 'e') rfl rfl (by decide)
    | some token =>
      dsimp only
      simp only [String.toList_append, List.append_assoc]
      exact not_startsWith 11 (a := 'c') (b := '\'') rfl rfl (by decide)
  | expectedOperand =>
    cases token with
    | none =>
      dsimp only
      rw [String.toList_append]
      exact not_startsWith 11 (a := 'c') (b := 'e') rfl rfl (by decide)
    | some token =>
      dsimp only
      simp only [String.toList_append, List.append_assoc]
      exact not_startsWith 0 (a := 'U') (b := 'E') rfl rfl (by decide)
  | danglingOperator =>
    dsimp only
    simp only [String.toList_append, List.append_assoc]
    exact not_startsWith 11 (a := 'c') (b := 'e') rfl rfl (by decide)
  | trailingToken =>
    dsimp only
    simp only [String.toList_append, List.append_assoc]
    exact not_startsWith 11 (a := 'c') (b := '\'') rfl rfl (by decide)
  | emptyOperand | expectedComparison =>
    dsimp only
    simp only [String.toList_append, List.append_assoc]
    exact not_startsWith 0 (a := 'U') (b := 'E') rfl rfl (by decide)
  | nestedValuePath | deepValuePath | emptyValuePath name =>
    dsimp only
    simp only [String.toList_append, List.append_assoc]
    exact not_startsWith 0 (a := 'U') (b := 'V') rfl rfl (by decide)

/-- **Groups are slices of the tokens.**  A group scanned again where it stands gives its tokens, so
a parser without limits does what the descent over the tokens of the whole text does, and it calls
no character unexpected once the text is scanned. -/
theorem groups_are_slices :
    (∀ (mode : Mode) (source : List Char) (offset : Int) (ts : List Token) (s : Nat) (w : List Char)
        (c : Cursor), scan mode source offset = .ok ts →
      (Cursor.skip s ⟨source, offset, 0, ts⟩).takeUntil .closeParen (some .openParen) = (w, c) →
      s < c.index →
        ∃ t, ts[s]? = some t ∧
          scan mode w t.position = .ok ((ts.drop s).take (c.index - s))) ∧
    (∀ (mode : Mode) (text : String),
      mode.parse .unlimited text = refuse mode text (match scan mode text.toList 0 with
        | .ok ts => mode.descend text.length ts
        | .error stray => .error (.fault stray.fault))) ∧
    (∀ (mode : Mode) (text : String) (ts : List Token) (p : Problem),
      scan mode text.toList 0 = .ok ts → mode.parse .unlimited text = .error (.problem p) →
        ¬ Fault.strayWords.toList <+: p.message.toList) := by
  refine ⟨?_, ?_, ?_⟩
  · intro mode source offset ts s w c scanned taken moved
    exact scan_takeUntil scanned taken moved
  · intro mode text
    rw [Mode.parse_eq, Limits.start_unlimited]
    cases scan mode text.toList 0 <;> rfl
  · intro mode text ts p scanned refused
    cases Mode.refused_of_parse refused with
    | length long => cases long
    | depth _ deep => cases deep
    | stray unscanned =>
      rw [scanned] at unscanned
      cases unscanned
    | fault _ located => exact Fault.not_stray_message located.1

/-- the group of `(a pr)`, scanned again -/
theorem scan_contents_of_group :
    scan .filter ['a', ' ', 'p', 'r'] 1 =
      .ok [⟨.name, ['a'], 1⟩, ⟨.comparison, [' ', 'p', 'r'], 2⟩] := by
  have again := groups_are_slices.1 .filter ['(', 'a', ' ', 'p', 'r', ')'] 0
    [⟨.openParen, ['('], 0⟩, ⟨.name, ['a'], 1⟩, ⟨.comparison, [' ', 'p', 'r'], 2⟩,
      ⟨.closeParen, [')'], 5⟩] 1 _ _ rfl rfl (by decide)
  obtain ⟨t, first, rescanned⟩ := again
  obtain rfl := Option.some.inj first
  exact rescanned

end Scim
