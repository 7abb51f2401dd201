import Scim.Proofs.Parse.Accept
import Scim.Proofs.Phrase.Alike
import Scim.Proofs.Phrase.Framed
import Scim.Proofs.Scan.Margin

/-!
# Blanks that do not matter

Blanks around an accepted text, behind its opening and before its closing parentheses and brackets
do not change what it is read as, as long as they do not become part of an operator: the words of
the logical and comparison operators take the blank before them, and `not` the blank behind it.

* `Loose`                tokens that may have blanks around them and between parentheses;
* `Absorbed`             blanks around a text that become part of an operator;
* `Mode.parse_padded`    what an accepted text with more blanks is read as.
-/

namespace Scim

open Text Grammar Descent Phrase Lexeme

/-! ## The tokens -/

namespace Phrase

/-- Tokens that do not begin with an operator, stand beside parentheses and brackets as in a
derivation, and end with a token that cannot go on, if there is more than a name. -/
structure Loose (ts : List Token) : Prop where
  first : ∀ t ∈ ts.head?, t.IsFresh
  inner : ts.IsChain Beside
  last : (∃ name : Token, name.kind = .name ∧ ts = [name]) ∨ ∀ t ∈ ts.getLast?, t.IsSettled

theorem Loose.first_behind {before after : List Token} {t : Token}
    (loose : Loose (before ++ t :: after)) (opens : t.kind.opens = true) :
    ∀ t' ∈ after.head?, t'.IsFresh := by
  obtain ⟨-, behind, -⟩ := List.isChain_append.mp loose.inner
  intro t' ht'
  exact ((List.isChain_cons.mp behind).1 t' ht').2 opens

theorem Loose.last_before {before after : List Token} {t : Token}
    (loose : Loose (before ++ t :: after)) (closes : t.kind.closes = true) :
    ∀ t' ∈ before.getLast?, t'.IsSettled := by
  obtain ⟨-, -, beside⟩ := List.isChain_append.mp loose.inner
  intro t' ht'
  exact (beside t' ht' t rfl).1 closes

theorem Framed.loose {ts : List Token} (h : Framed ts) : Loose ts :=
  ⟨fun t ht => (h.first t ht).1, h.inner, .inr fun t ht => (h.last t ht).1⟩

theorem Framed.loose_append {ts : List Token} {sub : Token} (h : Framed ts) (long : ts ≠ [])
    (isSub : sub.kind = .subAttribute) : Loose (ts ++ [sub]) := by
  refine ⟨?_, ?_, .inr ?_⟩
  · intro t ht
    obtain ⟨t', ts, rfl⟩ := List.exists_cons_of_ne_nil long
    exact (h.first t ht).1
  · refine h.inner.append (.singleton sub) ?_
    intro x hx y hy
    obtain rfl := Option.some.inj hy
    exact beside_of_plain (h.last x hx).2 (by rw [isSub]; rfl)
  · intro t ht
    rw [List.getLast?_concat] at ht
    obtain rfl := Option.some.inj ht
    exact .inr (.inr (.inl isSub))

theorem loose_of_derivedTarget {n : Node} {ts : List Token} (h : DerivedTarget n ts) :
    Loose ts := by
  cases h with
  | @simple name isName =>
    refine ⟨?_, .singleton name, .inl ⟨name, isName, rfl⟩⟩
    intro t ht
    obtain rfl := Option.some.inj ht
    exact isFresh_of_kind isName (by decide)
  | valuePath isName _ bracketed sub =>
    obtain ⟨opens, valid, closes⟩ := bracketed
    have front := (valid.framed.enclose (by rw [opens]; rfl) (by rw [closes]; rfl)).cons
      (List.cons_ne_nil _ _) isName (.inl rfl)
    cases sub with
    | none => exact front.loose
    | some isSub =>
      have whole := front.loose_append (List.cons_ne_nil _ _) isSub
      rwa [List.cons_append, List.cons_append, List.append_assoc] at whole

end Phrase

/-- **The tokens of accepted texts** are loose. -/
theorem Mode.Derives.loose {mode : Mode} {node : Option Node} {ts : List Token}
    (h : mode.Derives node ts) : Loose ts := by
  cases mode with
  | filter => exact (framed_of_derived h).loose
  | path =>
    cases node with
    | none =>
      obtain rfl : ts = [] := h
      exact framed_nil.loose
    | some n => exact loose_of_derivedTarget h

/-! ## Blanks around a text -/

/-- Blanks `w` and `w'` around a text become part of an operator: those before it, its own
included, if it begins like an operator with `w'` behind it, and those behind it, if it is the word
`not`.  Which texts begin like an operator is left open. -/
def Absorbed (begins : List Char → Bool) (w cs w' : List Char) : Prop :=
  (w ++ cs.takeWhile isBlank ≠ [] ∧ begins (cs.dropWhile isBlank ++ w') = true) ∨
    (w' ≠ [] ∧ (cs.dropWhile isBlank).map foldLetter = ['n', 'o', 't'])

instance (begins : List Char → Bool) (w cs w' : List Char) : Decidable (Absorbed begins w cs w') :=
  inferInstanceAs (Decidable (_ ∨ _))

section

variable {mode : Mode} {p : Int} {cs w w' : List Char} {ts : List Token}

theorem blank_front (hw : ∀ c ∈ w, isBlank c = true) :
    ∀ c ∈ w ++ cs.takeWhile isBlank, isBlank c = true := by
  intro c hc
  rcases List.mem_append.mp hc with hc | hc
  · exact hw c hc
  · exact List.all_eq_true.mp List.all_takeWhile c hc

theorem padded_eq (w cs w' : List Char) :
    w ++ (cs ++ w') = (w ++ cs.takeWhile isBlank) ++ (cs.dropWhile isBlank ++ w') := by
  rw [List.append_assoc, ← List.append_assoc (cs.takeWhile isBlank),
    List.takeWhile_append_dropWhile]

theorem head?_shift_isFresh (fresh : ∀ t ∈ ts.head?, t.IsFresh) (n : Int) :
    ∀ t ∈ (ts.map (Token.shift n)).head?, t.IsFresh := by
  intro t ht
  rw [List.head?_map] at ht
  obtain ⟨t', first, rfl⟩ := Option.map_eq_some_iff.mp ht
  exact fresh t' first

theorem Tiles.pad (h : Tiles mode 0 cs ts) (loose : Loose ts) (hw : ∀ c ∈ w, isBlank c = true)
    (hw' : ∀ c ∈ w', isBlank c = true) (free : ¬ Absorbed beginsOperator w cs w') :
    Tiles mode 0 (w ++ (cs ++ w')) (ts.map (Token.shift w.length)) := by
  obtain ⟨before, behind⟩ := not_or.mp free
  have core := h.drop_blanks loose.first
  have longer : Tiles mode (0 + (cs.takeWhile isBlank).length) (cs.dropWhile isBlank ++ w') ts := by
    rcases loose.last with ⟨name, isName, rfl⟩ | settled
    · refine core.append_blanks_of_name isName (isBlank_head_dropWhile cs) hw' ?_
      by_cases none : w' = []
      · exact .inl none
      · exact .inr fun word => behind ⟨none, word⟩
    · exact core.append_blanks settled hw'
  have moved := longer.shift w.length
  have place : 0 + ((cs.takeWhile isBlank).length : Int) + w.length =
      0 + (w ++ cs.takeWhile isBlank).length := by
    rw [List.length_append]
    omega
  rw [place] at moved
  have begins : w ++ cs.takeWhile isBlank = [] ∨
      beginsOperator (cs.dropWhile isBlank ++ w') = false := by
    by_cases none : w ++ cs.takeWhile isBlank = []
    · exact .inl none
    · exact .inr (Bool.eq_false_iff.mpr fun begins => before ⟨none, begins⟩)
  rw [padded_eq]
  exact moved.blanks (blank_front hw) (head?_shift_isFresh loose.first _) begins

section

variable (word : cs.map foldLetter = ['n', 'o', 't']) (hw' : ∀ c ∈ w', isBlank c = true)

include word

theorem exists_cons_of_word : ∃ c rest, cs = c :: rest ∧ isBlank c = false := by
  cases cs with
  | nil => cases word
  | cons c rest =>
    have letter : foldLetter c = 'n' := (List.cons.inj word).1
    exact ⟨c, rest, rfl, isBlank_eq_false_of_foldLetter (by rw [letter]; rfl)⟩

include hw'

theorem not_marked_of_word : ¬ Marked (cs ++ w') := by
  intro mark
  obtain ⟨c, mem, solid⟩ := (mark.behind_word (by rw [word]; decide)).ne_blank
  rw [hw' c mem] at solid
  cases solid

variable (long : w' ≠ [])

include long

theorem negation?_of_word : negation? (cs ++ w') = some (cs ++ w'.takeWhile isBlank) := by
  have spelled : word? ['n', 'o', 't'] (cs ++ w') = some cs :=
    word?_eq_some_iff.mpr ⟨List.prefix_append _ _, word⟩
  have blanks : w'.takeWhile isBlank ≠ [] := by
    obtain ⟨d, ds, rfl⟩ := List.exists_cons_of_ne_nil long
    rw [List.takeWhile_cons, if_pos (hw' d List.mem_cons_self)]
    exact List.cons_ne_nil _ _
  refine negation?_eq_some_iff.mpr ⟨cs, spelled, .inl ?_, ?_⟩
  · rwa [List.drop_left]
  · rw [List.drop_left]

/-- the negation is found before the name is -/
theorem Tiles.kind_ne_name_of_word {t : Token} (h : Tiles mode p (cs ++ w') [t]) :
    t.kind ≠ .name := by
  intro isName
  have missed := negation?_of_word word hw' long
  obtain ⟨c, rest, split, solid⟩ := exists_cons_of_word word
  generalize whole : cs ++ w' = cs' at h missed
  cases h with
  | @blank _ d _ _ _ hd _ =>
    rw [split] at whole
    rw [← (List.cons.inj whole).1, solid] at hd
    cases hd
  | @token _ kind text rest' _ found _ =>
    obtain rfl : kind = .name := isName
    have none : negation? (text ++ rest') = none :=
      (Mode.lexeme?_eq_name_iff.mp found).2 .negation (by decide)
    rw [none] at missed
    cases missed

theorem Tiles.not_loose_of_word (h : Tiles mode p (cs ++ w') ts) : ¬ Loose ts := by
  intro loose
  rcases loose.last with ⟨name, isName, rfl⟩ | settled
  · exact h.kind_ne_name_of_word word hw' long isName
  · cases last : ts.getLast? with
    | none =>
      obtain ⟨c, rest, rfl, solid⟩ := exists_cons_of_word word
      rw [List.getLast?_eq_none_iff.mp last] at h
      rw [h.isBlank_of_nil c List.mem_cons_self] at solid
      cases solid
    | some t =>
      have mem := List.mem_of_getLast? last
      exact not_marked_of_word word hw' (h.marked mem (h.marked_of_settled mem (settled t last)))

end

theorem Tiles.not_loose_of_absorbed (h : Tiles mode 0 (w ++ (cs ++ w')) ts)
    (hw : ∀ c ∈ w, isBlank c = true) (hw' : ∀ c ∈ w', isBlank c = true)
    (absorbed : Absorbed beginsSpaced w cs w') : ¬ Loose ts := by
  intro loose
  rw [padded_eq] at h
  rcases absorbed with ⟨long, begins⟩ | ⟨long, word⟩
  · exact h.head_of_blanks (blank_front hw) long begins loose.first
  · have core := h.drop_blanks loose.first
    have solid : ∀ c ∈ (cs.dropWhile isBlank ++ w').head?, isBlank c = false := by
      have some : cs.dropWhile isBlank ≠ [] := by
        intro none
        rw [none] at word
        cases word
      rw [List.head?_append_of_ne_nil _ some]
      exact isBlank_head_dropWhile cs
    rw [List.dropWhile_append_of_pos (blank_front hw), dropWhile_blank_of_head solid] at core
    exact core.not_loose_of_word word hw' long loose

end

/-! ## Blanks beside parentheses and brackets -/

/-- The characters `w` written into a text behind its first `k`. -/
def insertAt (k : Nat) (w cs : List Char) : List Char := cs.take k ++ (w ++ cs.drop k)

theorem insertAt_append (u v w : List Char) : insertAt u.length w (u ++ v) = u ++ (w ++ v) := by
  rw [insertAt, List.take_left, List.drop_left]

section

variable {mode : Mode} {cs w : List Char} {before after : List Token} {t : Token}
  (h : Tiles mode 0 cs (before ++ t :: after))

include h

theorem Tiles.tiles_insert_iff (opens : t.kind.opens = true) :
    Tiles mode t.stop (cs.drop t.stop.toNat) after ∧
      ∀ w ts, Tiles mode 0 (insertAt t.stop.toNat w cs) ts ↔
        ∃ after', ts = before ++ t :: after' ∧
          Tiles mode t.stop (w ++ cs.drop t.stop.toNat) after' := by
  obtain ⟨c, wall⟩ := Kind.exists_wall_of_opens opens
  obtain ⟨u, v, rfl, text, place, tail, other⟩ := h.swap wall
  have stop : t.stop.toNat = (u ++ [c]).length := by
    rw [Token.stop, place, text]
    simp
  have split : u ++ c :: v = (u ++ [c]) ++ v := by simp
  rw [split, stop, List.drop_left]
  refine ⟨tail, fun w ts => ?_⟩
  rw [insertAt_append, List.append_assoc]
  exact other (w ++ v) ts

variable (hw : ∀ c ∈ w, isBlank c = true)

include hw

theorem Tiles.insert_behind (loose : Loose (before ++ t :: after)) (opens : t.kind.opens = true)
    (free : w = [] ∨ beginsOperator (cs.drop t.stop.toNat) = false) :
    Tiles mode 0 (insertAt t.stop.toNat w cs)
      (before ++ t :: after.map (Token.shift w.length)) := by
  obtain ⟨tail, other⟩ := h.tiles_insert_iff opens
  have first := head?_shift_isFresh (loose.first_behind opens) w.length
  exact (other w _).mpr ⟨_, rfl, (tail.shift w.length).blanks hw first free⟩

theorem Tiles.not_loose_of_insert {ts : List Token} (opens : t.kind.opens = true) (long : w ≠ [])
    (begins : beginsSpaced (cs.drop t.stop.toNat) = true)
    (h' : Tiles mode 0 (insertAt t.stop.toNat w cs) ts) : ¬ Loose ts := by
  intro loose
  obtain ⟨after', rfl, tail⟩ := ((h.tiles_insert_iff opens).2 w ts).mp h'
  exact tail.head_of_blanks hw long begins (loose.first_behind opens)

theorem Tiles.insert_before (loose : Loose (before ++ t :: after)) (closes : t.kind.closes = true) :
    Tiles mode 0 (insertAt t.position.toNat w cs)
      (before ++ (t :: after).map (Token.shift w.length)) := by
  obtain ⟨c, wall, isClose⟩ := Kind.exists_wall_of_closes closes
  have other : c ≠ '(' := by rcases isClose with rfl | rfl <;> decide
  obtain ⟨u, v, rfl, text, place, front, tail⟩ := h.front wall other
  have at' : t.position.toNat = u.length := by
    rw [place]
    simp
  rw [at', insertAt_append]
  have closing : Tiles mode t.position ([c] ++ v) (t :: after) := by
    have found : mode.lexeme? ([c] ++ v) = some (t.kind, [c]) := Mode.lexeme?_cons_wall wall v
    rw [← text] at found ⊢
    exact .token found tail
  have moved := closing.shift w.length
  rw [place] at moved
  have first : ∀ t' ∈ (t :: after).head?, t'.IsFresh := by
    intro t' ht'
    obtain rfl := Option.some.inj ht'
    exact isFresh_of_wall wall
  have behind := moved.blanks hw (head?_shift_isFresh first _)
    (.inr (beginsOperator_of_stops (stops_wall (Kind.isWall_of_wall? wall) v)))
  refine front.append_of_settled (loose.last_before closes) ((trails_cons isClose v).blanks hw) ?_
    behind
  rintro ⟨x, mem, isSub⟩
  obtain ⟨before', after', rfl⟩ := List.append_of_mem mem
  rw [List.append_assoc, List.cons_append] at h
  have none := h.eq_nil_behind_subAttribute isSub
  simp at none

end

/-! ## Parsing -/

section

variable {mode : Mode} {text padded : String}

theorem Mode.refused_of_not_loose (h : ∀ ts, Tiles mode 0 text.toList ts → ¬ Loose ts) :
    ∃ e, mode.parse .unlimited text = .error e := by
  cases result : mode.parse .unlimited text with
  | error e => exact ⟨e, rfl⟩
  | ok node =>
    obtain ⟨ts, tiles, derives⟩ := Mode.parse_eq_ok_iff_exists.mp result
    exact absurd derives.loose (h ts tiles)

theorem Mode.parse_of_alike {r : Option Node} {ts us : List Token} (h : mode.Derives r ts)
    (alike : List.Forall₂ Alike ts us) (tiles : Tiles mode 0 padded.toList us) :
    mode.parse .unlimited padded = .ok r :=
  Mode.parse_eq_ok_iff_exists.mpr ⟨us, tiles, h.alike alike⟩

def IsBlank (w : String) : Prop := w.toList.all isBlank = true

instance (w : String) : Decidable (IsBlank w) :=
  inferInstanceAs (Decidable (w.toList.all isBlank = true))

theorem IsBlank.isBlank {w : String} (h : IsBlank w) : ∀ c ∈ w.toList, isBlank c = true :=
  List.all_eq_true.mp h

theorem toList_padded (w text w' : String) :
    (w ++ text ++ w').toList = w.toList ++ (text.toList ++ w'.toList) := by
  simp

theorem Mode.refused_of_absorbed (mode : Mode) {w w' : String} (hw : IsBlank w) (hw' : IsBlank w')
    (absorbed : Absorbed beginsSpaced w.toList text.toList w'.toList) :
    ∃ e, mode.parse .unlimited (w ++ text ++ w') = .error e := by
  refine Mode.refused_of_not_loose fun ts padded => ?_
  rw [toList_padded] at padded
  exact padded.not_loose_of_absorbed hw.isBlank hw'.isBlank absorbed

/-- The text `w` written into `text` behind its first `k` characters. -/
def inserted (text : String) (k : Int) (w : String) : String :=
  String.ofList (insertAt k.toNat w.toList text.toList)

/-- **Blanks in an accepted text.**  Blanks around it, behind an opening and before a closing
parenthesis or bracket leave its reading as it is, unless they stand before what looks like an
operator that takes them, or make the name `not` the word.  Where they do and the operator is not
`pr`, the text is refused. -/
theorem Mode.parse_padded (mode : Mode) (text : String) (r : Option Node)
    (accepted : mode.parse .unlimited text = .ok r) :
    (∀ w w' : String, IsBlank w → IsBlank w' →
      (¬ Absorbed beginsOperator w.toList text.toList w'.toList →
        mode.parse .unlimited (w ++ text ++ w') = .ok r) ∧
      (Absorbed beginsSpaced w.toList text.toList w'.toList →
        ∃ e, mode.parse .unlimited (w ++ text ++ w') = .error e)) ∧
    ∀ ts, scan mode text.toList 0 = .ok ts → ∀ t ∈ ts, ∀ w : String, IsBlank w →
      (t.kind.opens = true → (w = "" ∨ beginsOperator (text.toList.drop t.stop.toNat) = false) →
        mode.parse .unlimited (inserted text t.stop w) = .ok r) ∧
      (t.kind.opens = true → beginsSpaced (text.toList.drop t.stop.toNat) = true → w ≠ "" →
        ∃ e, mode.parse .unlimited (inserted text t.stop w) = .error e) ∧
      (t.kind.closes = true → mode.parse .unlimited (inserted text t.position w) = .ok r) := by
  refine ⟨fun w w' hw hw' => ⟨fun free => ?_, mode.refused_of_absorbed hw hw'⟩, ?_⟩
  · obtain ⟨ts, tiles, derives⟩ := Mode.parse_eq_ok_iff_exists.mp accepted
    have padded := tiles.pad derives.loose hw.isBlank hw'.isBlank free
    rw [← toList_padded] at padded
    exact Mode.parse_of_alike derives (forall₂_shift _ ts) padded
  · intro ts scanned t mem w hw
    have derives := (Mode.parse_eq_ok_iff scanned).mp accepted
    obtain ⟨before, after, rfl⟩ := List.append_of_mem mem
    have tiles := scan_eq_ok_iff.mp scanned
    have chars (k : Int) : (inserted text k w).toList = insertAt k.toNat w.toList text.toList :=
      String.toList_ofList
    refine ⟨fun opens free => ?_, fun opens begins long => ?_, fun closes => ?_⟩
    · have padded := tiles.insert_behind hw.isBlank derives.loose opens
        (free.imp_left fun none => by rw [none]; rfl)
      rw [← chars] at padded
      have moved := List.Forall₂.cons (alike_refl t) (forall₂_shift w.toList.length after)
      exact Mode.parse_of_alike derives (List.rel_append (forall₂_refl before) moved) padded
    · refine Mode.refused_of_not_loose fun ts padded => ?_
      rw [chars] at padded
      exact tiles.not_loose_of_insert hw.isBlank opens (by simpa using long) begins padded
    · have padded := tiles.insert_before hw.isBlank derives.loose closes
      rw [← chars] at padded
      have moved := forall₂_shift w.toList.length (t :: after)
      exact Mode.parse_of_alike derives (List.rel_append (forall₂_refl before) moved) padded

end

/-- blanks in texts with attributes that have the name of an operator -/
theorem Mode.parse_padded_names :
    let padding := " \t"
    Filter.parse .unlimited "(eq eq 1)" =
        .ok (some (.comparison ⟨⟨none, ["eq"]⟩, .eq, .int 1⟩)) ∧
      Filter.parse .unlimited (padding ++ "(eq eq 1)" ++ padding) =
        .ok (some (.comparison ⟨⟨none, ["eq"]⟩, .eq, .int 1⟩)) ∧
      Filter.parse .unlimited (inserted "(eq eq 1)" 8 padding) =
        .ok (some (.comparison ⟨⟨none, ["eq"]⟩, .eq, .int 1⟩)) ∧
      ∃ e, Filter.parse .unlimited (inserted "(eq eq 1)" 1 padding) = .error e := by
  intro padding
  let opening : Token := ⟨.openParen, ['('], 0⟩
  let name : Token := ⟨.name, ['e', 'q'], 1⟩
  let operator : Token := ⟨.comparison, [' ', 'e', 'q', ' '], 3⟩
  let literal : Token := ⟨.number, ['1'], 7⟩
  let closing : Token := ⟨.closeParen, [')'], 8⟩
  have scanned : scan .filter "(eq eq 1)".toList 0 =
      .ok [opening, name, operator, literal, closing] := rfl
  have valid : (Chain.mk (.group opening (.mk (.comparison name operator literal .eq (.int 1)) .nil)
      closing) .nil).Valid .filter :=
    .mk (.group rfl (.mk (.comparison rfl rfl (by decide) (by decide)
      (.whole rfl (by decide) (by decide))) .nil) rfl) .nil
  have accepted : Filter.parse .unlimited "(eq eq 1)" =
      .ok (some (.comparison ⟨⟨none, ["eq"]⟩, .eq, .int 1⟩)) :=
    (Mode.parse_eq_ok_iff scanned).mpr ⟨_, valid, by rfl, rfl⟩
  have blank : IsBlank padding := by decide
  obtain ⟨around, inside⟩ := Mode.parse_padded .filter "(eq eq 1)" _ accepted
  have free : ¬ Absorbed beginsOperator padding.toList "(eq eq 1)".toList padding.toList := by
    decide
  refine ⟨accepted, (around padding padding blank blank).1 free, ?_, ?_⟩
  · exact (inside _ scanned closing (by simp) padding blank).2.2 rfl
  · exact (inside _ scanned opening (by simp) padding blank).2.1 rfl (by decide) (by decide)

/-- blanks that make the name of an attribute an operator -/
theorem Mode.exists_absorbed_blank :
    (Filter.parse .unlimited "eq eq 1" = .ok (some (.comparison ⟨⟨none, ["eq"]⟩, .eq, .int 1⟩)) ∧
      IsBlank " " ∧ ∃ e, Filter.parse .unlimited (" " ++ "eq eq 1" ++ "") = .error e) ∧
    (Path.parse .unlimited "not" = .ok (some (.path ⟨none, ["not"]⟩)) ∧
      ∃ e, Path.parse .unlimited ("" ++ "not" ++ " ") = .error e) := by
  refine ⟨⟨?_, by decide, ?_⟩, ?_, ?_⟩
  · let name : Token := ⟨.name, ['e', 'q'], 0⟩
    let operator : Token := ⟨.comparison, [' ', 'e', 'q', ' '], 2⟩
    let literal : Token := ⟨.number, ['1'], 6⟩
    have scanned : scan .filter "eq eq 1".toList 0 = .ok [name, operator, literal] := rfl
    have valid : (Chain.mk (.comparison name operator literal .eq (.int 1)) .nil).Valid .filter :=
      .mk (.comparison rfl rfl (by decide) (by decide) (.whole rfl (by decide) (by decide))) .nil
    exact (Mode.parse_eq_ok_iff scanned).mpr ⟨_, valid, by rfl, rfl⟩
  · exact Mode.refused_of_absorbed .filter (by decide) (by decide) (by decide)
  · let name : Token := ⟨.name, ['n', 'o', 't'], 0⟩
    have scanned : scan .path "not".toList 0 = .ok [name] := rfl
    have derived : DerivedTarget (.path (pathOf name)) [name] := .simple rfl
    exact (Mode.parse_eq_ok_iff scanned).mpr derived
  · exact Mode.refused_of_absorbed .path (by decide) (by decide) (by decide)

end Scim
