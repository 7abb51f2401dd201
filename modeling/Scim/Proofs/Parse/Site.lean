import Scim.Proofs.Parse.Basic

/-!
# Where problems are

A problem of a text that has a place in it points at a token there, or at the end of the text or of
a group.

* `Site.Within`         a place in a text;
* `stray_within`        the place of a stray character;
* `Tiles.token_within`  the place of a token;
* `Tiles.end_within`    the place where a text or the contents of a group end;
* `Mode.site_within`    every place is one in the text that is parsed.
-/

namespace Scim

open Grammar Descent Text

/-! ## Places in a text -/

/-- A place in a text: the token that stands there, or, if there is none, the end of the text or a
closing parenthesis behind blanks. -/
structure Site.Within (text : String) (site : Site) : Prop where
  expression : site.expression = some text
  position : ∃ p : Nat, site.position = some (p : Int) ∧ p ≤ text.length ∧
    match site.token with
    | some token => token ≠ "" ∧ (text.toList.drop p).take token.length = token.toList
    | none => (text.toList.drop p).dropWhile isBlank = [] ∨
        ((text.toList.drop p).dropWhile isBlank).head? = some ')'

theorem within_of_split {text : String} {u run v : List Char} {p : Int} (long : run ≠ [])
    (split : text.toList = u ++ (run ++ v)) (place : p = u.length) :
    Site.Within text ⟨some (String.ofList run), some p, some text⟩ := by
  refine ⟨rfl, u.length, congrArg some place, ?_, ?_, ?_⟩
  · have size := congrArg List.length split
    rw [String.length_toList, List.length_append] at size
    omega
  · intro empty
    exact long (by rw [← String.toList_ofList (l := run), empty]; rfl)
  · rw [split, List.drop_left, String.length_ofList, List.take_left, String.toList_ofList]

theorem stray_within {mode : Mode} {text : String} {s : Stray}
    (h : scan mode text.toList 0 = .error s) :
    Site.Within text ⟨some (String.ofList [s.char]), some s.position, some text⟩ := by
  obtain ⟨u, v, split, place⟩ := stray_of_scan mode 0 text.toList s h
  rw [Int.zero_add] at place
  exact within_of_split (List.cons_ne_nil _ _) split place

theorem Tiles.token_within {mode : Mode} {text : String} {ts : List Token}
    (h : Tiles mode 0 text.toList ts) {t : Token} (ht : t ∈ ts) :
    Site.Within text ⟨some (String.ofList t.text), some t.position, some text⟩ := by
  obtain ⟨before, after, rfl⟩ := List.append_of_mem ht
  obtain ⟨u, v, split, place, run, -⟩ := h.split
  rw [Int.zero_add] at place
  exact within_of_split (Mode.exists_of_lexeme?_eq_some run).2.1 split place

theorem Tiles.end_within {mode : Mode} {text : String} {ts : List Token} {p : Int}
    (h : Tiles mode 0 text.toList ts) (ends : Ends ts text.length p) :
    Site.Within text ⟨none, some p, some text⟩ := by
  cases ends with
  | whole =>
    refine ⟨rfl, text.length, rfl, Nat.le_refl _, .inl ?_⟩
    rw [← String.length_toList, List.drop_length]
    rfl
  | @group before after t closing split closes =>
    rw [split] at h
    obtain ⟨u, v, whole, place, -, behind⟩ := h.split
    have here : t.stop = ((u ++ t.text).length : Nat) := by
      rw [Token.stop, place, List.length_append]
      omega
    have stops : EndsGroup (closing :: after) := by
      intro t' ht
      obtain rfl := Option.some.inj ht
      exact closes
    rw [← List.append_assoc] at whole
    refine ⟨rfl, (u ++ t.text).length, congrArg some here, ?_, ?_⟩
    · have size := congrArg List.length whole
      rw [String.length_toList, List.length_append] at size
      omega
    · rw [whole, List.drop_left]
      exact behind.dropWhile_blank stops

/-! ## The places of problems -/

theorem Tiles.located_within {mode : Mode} {text : String} {ts : List Token} {f : Fault}
    (h : Tiles mode 0 text.toList ts) (located : Located ts text.length f) :
    Site.Within text ⟨f.token.map String.ofList, some f.position, some text⟩ := by
  obtain ⟨-, ⟨t, ht, token, position⟩ | ⟨token, ends⟩⟩ := located
  · rw [token, position]
    exact h.token_within ht
  · rw [token]
    exact h.end_within ends

theorem Problem.site?_ofFault (mode : Mode) (text : String) (f : Fault) :
    (Problem.ofFault mode text f).site? =
      some ⟨f.token.map String.ofList, some f.position, some text⟩ := by
  unfold Problem.ofFault Problem.site?
  dsimp only
  split <;> rfl

/-- **Every place that is reported is one in the text.** -/
theorem Mode.site_within (mode : Mode) (limits : Limits) (text : String) (p : Problem) (site : Site)
    (refused : mode.parse limits text = .error (.problem p)) (reported : p.site? = some site) :
    site.Within text := by
  cases Mode.refused_of_parse refused with
  | length _ => cases reported
  | depth _ _ => cases reported
  | stray scanned =>
    rw [Problem.site?_ofFault] at reported
    obtain rfl := Option.some.inj reported
    exact stray_within scanned
  | fault scanned located =>
    rw [Problem.site?_ofFault] at reported
    obtain rfl := Option.some.inj reported
    exact (scan_eq_ok_iff.mp scanned).located_within located

/-- a comparison without an operator, two groups deep -/
theorem Site.within_nested_groups : Site.Within "((a))" ⟨none, some 3, some "((a))"⟩ := by
  have scanned : scan .filter "((a))".toList 0 = .ok
      [⟨.openParen, ['('], 0⟩, ⟨.openParen, ['('], 1⟩, ⟨.name, ['a'], 2⟩,
        ⟨.closeParen, [')'], 3⟩, ⟨.closeParen, [')'], 4⟩] := rfl
  have refused : Mode.parse .filter .unlimited "((a))" =
      .error (.problem (.ofFault .filter "((a))" ⟨.expected [.comparison], none, 3⟩)) := by
    rw [Mode.parse_unlimited scanned]
    rfl
  exact Mode.site_within .filter .unlimited "((a))" _ _ refused rfl

end Scim
