import Scim.Proofs.Parse.Padding
import Scim.Proofs.Scan.Language

/-!
# The targets of paths

A path is an attribute, or a value path that is also a filter, possibly with a sub-attribute behind
it.

* `derivedTarget_valuePath_iff`   a value path is derived as a target if it is as a filter that
                                  begins with a name;
* `derivedTarget_sub_iff`         a sub-attribute stands behind a value path;
* `Path.parse_sub_iff`            so it does in the text;
* `Path.parse_cases`              what a text is a path of, and which texts are refused.
-/

namespace Scim

open Text Grammar Descent Phrase

/-! ## Tokens -/

theorem derivedTarget_path_iff {p : AttributePath} {ts : List Token} :
    DerivedTarget (.path p) ts ↔ ∃ name : Token, ts = [name] ∧ name.kind = .name ∧
      p = pathOf name := by
  constructor
  · rintro ⟨isName⟩
    exact ⟨_, rfl, isName, rfl⟩
  · rintro ⟨name, rfl, isName, rfl⟩
    exact .simple isName

theorem Phrase.Chain.Valid.of_valuePath {c : Chain} {p : AttributePath} {n : Node} {name : Token}
    {rest : List Token} (h : c.Valid .filter) (tree : c.tree = .valuePath p n none)
    (tokens : c.tokens = name :: rest) (isName : name.kind = .name) :
    DerivedTarget (.valuePath p n none) (name :: rest) := by
  cases h with
  | @mk _ first more valid links =>
    cases links with
    | cons isLink operand more =>
      obtain ⟨kind, ns, same⟩ := Node.exists_connective_chained first.tree _ _
      exact nomatch same.symm.trans tree
    | nil =>
      change first.tree = _ at tree
      change first.tokens ++ [] = _ at tokens
      rw [List.append_nil] at tokens
      cases valid with
      | group opens _ _ =>
        obtain ⟨rfl, -⟩ := List.cons.inj tokens
        exact nomatch opens.symm.trans isName
      | negation _ _ _ _ => cases tree
      | presence _ _ _ => cases tree
      | comparison _ _ _ _ _ => cases tree
      | valuePath isName single opens inner closes =>
        obtain ⟨rfl, rfl⟩ := List.cons.inj tokens
        obtain ⟨rfl, rfl, -⟩ := Node.valuePath.inj tree
        exact .valuePath isName single (.mk opens inner closes) .none

/-- **A value path is a target** if it is a filter that begins with a name. -/
theorem derivedTarget_valuePath_iff {p : AttributePath} {n : Node} {ts : List Token} :
    DerivedTarget (.valuePath p n none) ts ↔
      (∃ (name : Token) (rest : List Token), ts = name :: rest ∧ name.kind = .name) ∧
        Derived .filter (some (.valuePath p n none)) ts := by
  constructor
  · intro h
    cases h with
    | @valuePath name _ _ _ _ isName single bracketed sub =>
      cases sub
      cases bracketed with
      | @mk opening closing inner opens inside closes =>
        refine ⟨⟨name, _, rfl, isName⟩, .mk (.valuePath name opening inner closing) .nil, ?_, rfl, ?_⟩
        · exact .mk (.valuePath isName single opens inside closes) .nil
        · exact List.append_nil _
  · rintro ⟨⟨name, rest, rfl, isName⟩, c, valid, tree, tokens⟩
    exact valid.of_valuePath tree tokens isName

theorem derivedTarget_sub_iff {p : AttributePath} {n : Node} {s : String} {ts : List Token} :
    DerivedTarget (.valuePath p n (some s)) ts ↔
      ∃ (front : List Token) (sub : Token), ts = front ++ [sub] ∧ sub.kind = .subAttribute ∧
        s = String.ofList (sub.text.drop 1) ∧ DerivedTarget (.valuePath p n none) front := by
  constructor
  · intro h
    cases h with
    | @valuePath name _ _ _ _ isName single bracketed found =>
      cases found with
      | @some sub isSub =>
        cases bracketed with
        | @mk opening closing inner opens inside closes =>
          refine ⟨name :: opening :: (inner.tokens ++ [closing]), sub, by simp, isSub, rfl, ?_⟩
          exact .valuePath isName single (.mk opens inside closes) .none
  · rintro ⟨front, sub, rfl, isSub, rfl, h⟩
    cases h with
    | @valuePath name _ _ _ _ isName single bracketed found =>
      cases found
      cases bracketed with
      | mk opens inside closes =>
        rw [List.cons_append, List.cons_append, List.append_assoc]
        exact .valuePath isName single (.mk opens inside closes) (.some isSub)

theorem Descent.DerivedTarget.exists_last {p : AttributePath} {n : Node} {ts : List Token}
    (h : DerivedTarget (.valuePath p n none) ts) :
    ∃ (before : List Token) (closing : Token), ts = before ++ [closing] ∧
      closing.kind = .closeBracket := by
  cases h with
  | @valuePath name _ _ _ _ isName single bracketed found =>
    cases found
    cases bracketed with
    | @mk opening closing inner opens inside closes =>
      exact ⟨name :: opening :: inner.tokens, closing, by simp, closes⟩

/-! ## Texts -/

namespace Path

variable {text : String}

theorem parse_eq_ok_iff {node : Option Node} : Path.parse .unlimited text = .ok node ↔
    ∃ ts, Tiles .path 0 text.toList ts ∧ DerivedPath node ts :=
  @Mode.parse_eq_ok_iff_exists .path text node

theorem parse_none_iff : Path.parse .unlimited text = .ok none ↔ IsBlank text := by
  rw [parse_eq_ok_iff]
  constructor
  · rintro ⟨_, tiles, rfl⟩
    exact List.all_eq_true.mpr tiles.isBlank_of_nil
  · intro blank
    exact ⟨[], tiles_of_blank blank.isBlank, rfl⟩

theorem parse_path_iff {p : AttributePath} : Path.parse .unlimited text = .ok (some (.path p)) ↔
    ∃ name, scan .path text.toList 0 = .ok [name] ∧ name.kind = .name ∧ p = pathOf name := by
  rw [parse_eq_ok_iff]
  constructor
  · rintro ⟨ts, tiles, derived⟩
    obtain ⟨name, rfl, isName, same⟩ := derivedTarget_path_iff.mp derived
    exact ⟨name, tiles.scan_eq, isName, same⟩
  · rintro ⟨name, scanned, isName, same⟩
    exact ⟨[name], scan_eq_ok_iff.mp scanned, derivedTarget_path_iff.mpr ⟨name, rfl, isName, same⟩⟩

theorem tiles_of_filter {mode : Mode} {cs : List Char} {ts : List Token}
    (h : Tiles .filter 0 cs ts) : Tiles mode 0 cs ts := by
  cases mode with
  | filter => exact h
  | path => exact (tiles_filter_iff.mp h).1

/-- **A value path is a path** if it is a filter that begins with a name. -/
theorem parse_valuePath_iff (mode : Mode) {p : AttributePath} {n : Node} :
    Path.parse .unlimited text = .ok (some (.valuePath p n none)) ↔
      (∃ name rest, scan mode text.toList 0 = .ok (name :: rest) ∧ name.kind = .name) ∧
        Filter.parse .unlimited text = .ok (some (.valuePath p n none)) := by
  have read : Filter.parse .unlimited text = .ok (some (.valuePath p n none)) ↔
      ∃ ts, Tiles .filter 0 text.toList ts ∧ Derived .filter (some (.valuePath p n none)) ts :=
    @Mode.parse_eq_ok_iff_exists .filter text _
  rw [read, parse_eq_ok_iff]
  constructor
  · rintro ⟨ts, tiles, derived⟩
    have plain : Tiles .filter 0 text.toList ts := by
      refine tiles_filter_iff.mpr ⟨tiles, fun t mem isSub => ?_⟩
      -- a sub-attribute would be the last token, but that is the closing bracket
      obtain ⟨before, closing, rfl, closes⟩ := DerivedTarget.exists_last derived
      obtain ⟨us, vs, split⟩ := List.append_of_mem mem
      rw [split] at tiles
      obtain rfl := tiles.eq_nil_behind_subAttribute isSub
      obtain ⟨-, same⟩ := List.append_inj' split rfl
      obtain rfl := List.singleton_inj.mp same
      exact nomatch closes.symm.trans isSub
    obtain ⟨⟨name, rest, rfl, isName⟩, derived⟩ := derivedTarget_valuePath_iff.mp derived
    exact ⟨⟨name, rest, (tiles_of_filter plain).scan_eq, isName⟩, _, plain, derived⟩
  · rintro ⟨⟨name, rest, scanned, isName⟩, ts, tiles, derived⟩
    obtain rfl := (tiles_of_filter tiles).unique (scan_eq_ok_iff.mp scanned)
    exact ⟨_, tiles_of_filter tiles,
      derivedTarget_valuePath_iff.mpr ⟨⟨name, rest, rfl, isName⟩, derived⟩⟩

/-- **A sub-attribute stands behind a value path** and a dot, and only blanks behind it. -/
theorem parse_sub_iff {p : AttributePath} {n : Node} {s : String} :
    Path.parse .unlimited text = .ok (some (.valuePath p n (some s))) ↔
      ∃ t w : String, text = t ++ "." ++ s ++ w ∧ IsBlank w ∧ IsSegment s.toList ∧
        Path.parse .unlimited t = .ok (some (.valuePath p n none)) := by
  have wall : Kind.closeBracket.wall? = some ']' := rfl
  constructor
  · intro h
    obtain ⟨ts, tiles, derived⟩ := parse_eq_ok_iff.mp h
    obtain ⟨front, sub, rfl, isSub, rfl, target⟩ := derivedTarget_sub_iff.mp derived
    obtain ⟨before, closing, rfl, closes⟩ := target.exists_last
    rw [List.append_assoc] at tiles
    obtain ⟨u, v, whole, -, -, tail, other⟩ := tiles.swap (by rw [closes]; exact wall)
    obtain ⟨blanks, rest, rfl, blank, found, behind⟩ := Tiles.exists_first tail
    rw [isSub] at found
    obtain ⟨segment, w, split, name, isSegment, trailing⟩ :=
      Lexeme.subAttribute?_eq_some_iff.mp (Mode.exists_of_lexeme?_eq_some found).1
    have front : Tiles .path 0 (u ++ ']' :: blanks) (before ++ [closing]) :=
      (other blanks _).mpr ⟨[], rfl, tiles_of_blank blank⟩
    have inside : sub.text.drop 1 = segment := by rw [name]; rfl
    refine ⟨String.ofList (u ++ ']' :: blanks), String.ofList w, ?_, ?_, ?_, ?_⟩
    · apply String.toList_injective
      rw [whole, split, inside]
      simp
    · exact List.all_eq_true.mpr (by rwa [String.toList_ofList])
    · rwa [String.toList_ofList, inside]
    · exact parse_eq_ok_iff.mpr ⟨_, by rwa [String.toList_ofList], target⟩
  · rintro ⟨t, w, rfl, blank, isSegment, accepted⟩
    obtain ⟨ts, tiles, target⟩ := parse_eq_ok_iff.mp accepted
    obtain ⟨before, closing, rfl, closes⟩ := DerivedTarget.exists_last target
    obtain ⟨u, v, whole, -, -, tail, other⟩ := tiles.swap (by rw [closes]; exact wall)
    let sub : Token := ⟨.subAttribute, '.' :: s.toList, closing.stop + v.length⟩
    have isSub : sub.kind = .subAttribute := rfl
    have behind : Tiles .path closing.stop (v ++ '.' :: (s.toList ++ w.toList)) [sub] := by
      refine Tiles.blanks (tiles_sub isSegment blank.isBlank) tail.isBlank_of_nil ?_ (.inr ?_)
      · intro t ht
        obtain rfl := Option.some.inj ht
        exact isFresh_of_kind isSub (by decide)
      · exact beginsOperator_dot _
    refine parse_eq_ok_iff.mpr ⟨before ++ closing :: [sub], ?_, ?_⟩
    · have text : (t ++ "." ++ s ++ w).toList =
          u ++ ']' :: (v ++ '.' :: (s.toList ++ w.toList)) := by
        simp [whole]
      rw [text]
      exact (other _ _).mpr ⟨_, rfl, behind⟩
    · refine derivedTarget_sub_iff.mpr ⟨before ++ [closing], sub, by simp, isSub, ?_, target⟩
      exact (String.ofList_toList).symm

/-- **What a text is a path of.**  It is no path if it is blank, an attribute if it is a single
name, a value path if it begins with a name and is the same value path as a filter, and a value path
with a sub-attribute if a dot, a segment and blanks stand behind a value path.  Any other text is
refused. -/
theorem parse_cases (text : String) :
    (Path.parse .unlimited text = .ok none ↔ IsBlank text) ∧
      (∀ p, Path.parse .unlimited text = .ok (some (.path p)) ↔
        ∃ name, scan .path text.toList 0 = .ok [name] ∧ name.kind = .name ∧ p = pathOf name) ∧
      (∀ mode p n, Path.parse .unlimited text = .ok (some (.valuePath p n none)) ↔
        (∃ name rest, scan mode text.toList 0 = .ok (name :: rest) ∧ name.kind = .name) ∧
          Filter.parse .unlimited text = .ok (some (.valuePath p n none))) ∧
      (∀ p n s, Path.parse .unlimited text = .ok (some (.valuePath p n (some s))) ↔
        ∃ t w : String, text = t ++ "." ++ s ++ w ∧ IsBlank w ∧ IsSegment s.toList ∧
          Path.parse .unlimited t = .ok (some (.valuePath p n none))) ∧
      ((∃ r, Path.parse .unlimited text = .error r) ↔
        ¬ IsBlank text ∧ (¬ ∃ name, scan .path text.toList 0 = .ok [name] ∧ name.kind = .name) ∧
        (∀ p n, ¬ ((∃ name rest, scan .path text.toList 0 = .ok (name :: rest) ∧
            name.kind = .name) ∧ Filter.parse .unlimited text = .ok (some (.valuePath p n none)))) ∧
        ∀ p n s, ¬ ∃ t w : String, text = t ++ "." ++ s ++ w ∧ IsBlank w ∧ IsSegment s.toList ∧
          Path.parse .unlimited t = .ok (some (.valuePath p n none))) := by
  refine ⟨parse_none_iff, fun p => parse_path_iff, fun mode p n => parse_valuePath_iff mode,
    fun p n s => parse_sub_iff, ?_, ?_⟩
  · rintro ⟨r, refused⟩
    have never {node : Option Node} : Path.parse .unlimited text ≠ .ok node := by
      rw [refused]
      exact nofun
    refine ⟨fun blank => never (parse_none_iff.mpr blank), ?_, ?_, ?_⟩
    · rintro ⟨name, scanned, isName⟩
      exact never (parse_path_iff.mpr ⟨name, scanned, isName, rfl⟩)
    · intro p n found
      exact never ((parse_valuePath_iff .path).mpr found)
    · intro p n s found
      exact never (parse_sub_iff.mpr found)
  · rintro ⟨notBlank, notName, notValuePath, notSub⟩
    cases result : Path.parse .unlimited text with
    | error r => exact ⟨r, rfl⟩
    | ok node =>
      exfalso
      obtain ⟨ts, tiles, derived⟩ := parse_eq_ok_iff.mp result
      cases node with
      | none => exact notBlank (parse_none_iff.mp result)
      | some n =>
        cases derived with
        | simple _ =>
          obtain ⟨name, scanned, isName, -⟩ := parse_path_iff.mp result
          exact notName ⟨name, scanned, isName⟩
        | valuePath _ _ _ sub =>
          cases sub with
          | none => exact notValuePath _ _ ((parse_valuePath_iff .path).mp result)
          | some _ => exact notSub _ _ _ (parse_sub_iff.mp result)

end Path

end Scim
