import Scim.Proofs.Parse.Accept
import Scim.Proofs.Phrase.Spelled
import Scim.Proofs.Scan.Recased

/-!
# Parsing texts in other letter case

Outside of strings the case of ASCII letters matters to names alone.

* `lowerName`                a name in lower case;
* `named_map_lowerAscii`     the attribute path of a name in lower case;
* `RecasedToken.spelled`     tokens in other letter case say the same but for names;
* `Mode.parse_recased`       two texts in other letter case have the same tokens but for case, and
                             both are refused, or have the same result but for the case of names.
-/

namespace Scim

open Text Grammar Descent Phrase

def lowerName (s : String) : String := String.ofList (s.toList.map lowerAscii)

theorem lowerName_ofList (cs : List Char) :
    lowerName (String.ofList cs) = String.ofList (cs.map lowerAscii) := by
  unfold lowerName
  rw [String.toList_ofList]

/-! ## Attribute paths in lower case -/

namespace AttributePath

theorem partsAt_map_lowerAscii {mark : Char} (h : Caseless mark) (cs : List Char) :
    partsAt mark (cs.map lowerAscii) = (partsAt mark cs).map (List.map lowerAscii) := by
  induction cs with
  | nil => rfl
  | cons c cs ih =>
    simp only [List.map_cons, partsAt, lowerAscii_eq_iff h, ih]
    split
    · rfl
    · cases partsAt mark cs <;> rfl

theorem splitLastColon_map_lowerAscii (cs : List Char) :
    splitLastColon (cs.map lowerAscii) =
      (splitLastColon cs).map fun found => (found.1.map lowerAscii, found.2.map lowerAscii) := by
  induction cs with
  | nil => rfl
  | cons c cs ih =>
    rw [List.map_cons, splitLastColon, splitLastColon, ih]
    cases splitLastColon cs with
    | some found => rfl
    | none =>
      simp only [Option.map_none, lowerAscii_eq_iff (show Caseless ':' by decide)]
      split <;> rfl

/-- **The attribute path of a name in lower case** is that of the name, in lower case. -/
theorem named_map_lowerAscii (text : List Char) :
    named (text.map lowerAscii) = (named text).mapNames lowerName := by
  have names (cs : List Char) : (partsAt '.' (cs.map lowerAscii)).map String.ofList =
      ((partsAt '.' cs).map String.ofList).map lowerName := by
    rw [partsAt_map_lowerAscii (by decide), List.map_map, List.map_map]
    exact List.map_congr_left fun part _ => (lowerName_ofList part).symm
  unfold named mapNames
  rw [splitLastColon_map_lowerAscii]
  cases splitLastColon text with
  | none =>
    dsimp only [Option.map_none]
    rw [names]
  | some found =>
    dsimp only [Option.map_some]
    rw [names, lowerName_ofList]

end AttributePath

/-! ## Tokens in other letter case -/

theorem stripBlanks_map_lowerAscii (cs : List Char) :
    stripBlanks (cs.map lowerAscii) = (stripBlanks cs).map lowerAscii := by
  unfold stripBlanks trim
  rw [dropWhile_map_lowerAscii isBlank_lowerAscii, ← List.map_reverse,
    dropWhile_map_lowerAscii isBlank_lowerAscii, ← List.map_reverse]

variable {t t' : Token}

theorem RecasedToken.value_eq (h : RecasedToken t t') : Grammar.value t' = Grammar.value t := by
  unfold Grammar.value
  rw [h.kind, h.lower]
  cases kind : t.kind with
  | string => rw [h.text (.inl kind)]
  | number => rw [h.text (.inr kind)]
  | _ => rfl

/-- **Tokens in other letter case say the same** but for names. -/
theorem RecasedToken.spelled (h : RecasedToken t t') : Spelled lowerName t t' where
  kind := h.kind
  word := by
    unfold wordOf
    rw [← stripBlanks_map_lowerAscii, ← stripBlanks_map_lowerAscii, h.lower]
  value _ := h.value_eq
  path _ := by
    unfold pathOf
    rw [← AttributePath.named_map_lowerAscii, ← AttributePath.named_map_lowerAscii, h.lower]
  sub _ := by
    rw [lowerName_ofList, lowerName_ofList, List.map_drop, List.map_drop, h.lower]

/-! ## Parsing -/

namespace Mode

variable {mode : Mode} {ts ts' : List Token}

theorem Derives.recased {node : Option Node} (h : mode.Derives node ts)
    (same : List.Forall₂ RecasedToken ts ts') : ∃ node', mode.Derives node' ts' ∧
      node'.map (Node.mapNames lowerName) = node.map (Node.mapNames lowerName) :=
  h.spelled (same.imp fun _ _ => RecasedToken.spelled)

theorem Derives.of_recased {node' : Option Node} (h : mode.Derives node' ts')
    (same : List.Forall₂ RecasedToken ts ts') : ∃ node, mode.Derives node ts := by
  have back : List.Forall₂ (Spelled lowerName) ts' ts :=
    same.flip.imp fun _ _ token => token.spelled.symm
  obtain ⟨node, derives, -⟩ := h.spelled back
  exact ⟨node, derives⟩

/-- **Outside of strings the case of ASCII letters matters to names alone.**  Two texts that differ
there have tokens of the same kinds at the same places, or both stop at the same stray place; and
without limits both are refused, or both are accepted, with results that are the same once every
schema, name and sub-attribute is in lower case. -/
theorem parse_recased (mode : Mode) {text text' : String}
    (h : Recased text.toList text'.toList) :
    (∀ p, SameScan (scan mode text.toList p) (scan mode text'.toList p)) ∧
      ((∃ node node', mode.parse .unlimited text = .ok node ∧
          mode.parse .unlimited text' = .ok node' ∧
          node'.map (Node.mapNames lowerName) = node.map (Node.mapNames lowerName)) ∨
        ∃ r r', mode.parse .unlimited text = .error r ∧
          mode.parse .unlimited text' = .error r') := by
  refine ⟨fun p => scan_recased mode p _ _ h, ?_⟩
  have scans := scan_recased mode 0 _ _ h
  generalize scanned : scan mode text.toList 0 = x at scans
  generalize scanned' : scan mode text'.toList 0 = y at scans
  cases scans with
  | stray _ _ =>
    rw [parse_eq, parse_eq, Limits.start_unlimited, Limits.start_unlimited, scanned, scanned']
    exact .inr ⟨_, _, rfl, rfl⟩
  | tokens same =>
    cases result : mode.parse .unlimited text with
    | ok node =>
      obtain ⟨node', derives', names⟩ := ((parse_eq_ok_iff scanned).mp result).recased same
      exact .inl ⟨node, node', rfl, (parse_eq_ok_iff scanned').mpr derives', names⟩
    | error r =>
      cases result' : mode.parse .unlimited text' with
      | error r' => exact .inr ⟨r, r', rfl, rfl⟩
      | ok node' =>
        obtain ⟨node, derives⟩ := ((parse_eq_ok_iff scanned').mp result').of_recased same
        rw [(parse_eq_ok_iff scanned).mpr derives] at result
        cases result

/-- a value path and operators in other letter case, and a string that stays -/
theorem parse_recased_valuePath :
    let tree (a b c : String) : Node := .connective .conjunction
      [.valuePath ⟨none, [a]⟩ (.comparison ⟨⟨none, [a, b]⟩, .eq, .string "X"⟩) none,
        .comparison ⟨⟨none, [c]⟩, .pr, .null⟩]
    Recased "A[b EQ \"X\"] AND c Pr".toList "a[B eq \"X\"] and C pR".toList ∧
      Mode.filter.parse .unlimited "A[b EQ \"X\"] AND c Pr" = .ok (some (tree "A" "b" "c")) ∧
      ∃ node, Mode.filter.parse .unlimited "a[B eq \"X\"] and C pR" = .ok node ∧
        node.map (Node.mapNames lowerName) = some (tree "a" "b" "c") := by
  intro tree
  have behind : Recased "] AND c Pr".toList "] and C pR".toList :=
    @Recased.append [] [] "] AND c Pr".toList "] and C pR".toList (by decide) (by decide) .nil
  have recased : Recased "A[b EQ \"X\"] AND c Pr".toList "a[B eq \"X\"] and C pR".toList :=
    @Recased.append _ _ "A[b EQ ".toList "a[B eq ".toList (by decide) (by decide)
      (@Recased.string ['X'] _ _ (by decide) behind)
  have scanned : scan .filter "A[b EQ \"X\"] AND c Pr".toList 0 = .ok
      [⟨.name, ['A'], 0⟩, ⟨.openBracket, ['['], 1⟩, ⟨.name, ['b'], 2⟩,
        ⟨.comparison, [' ', 'E', 'Q', ' '], 3⟩, ⟨.string, ['"', 'X', '"'], 7⟩,
        ⟨.closeBracket, [']'], 10⟩, ⟨.logical, [' ', 'A', 'N', 'D', ' '], 11⟩,
        ⟨.name, ['c'], 16⟩, ⟨.comparison, [' ', 'P', 'r'], 17⟩] := by rfl
  have inner : (Chain.mk (.comparison ⟨.name, ['b'], 2⟩ ⟨.comparison, [' ', 'E', 'Q', ' '], 3⟩
      ⟨.string, ['"', 'X', '"'], 7⟩ .eq (.string "X")) .nil).Valid .brackets :=
    .mk (.comparison rfl rfl (by decide) (by decide) (.string rfl)) .nil
  have valid : (Chain.mk (.valuePath ⟨.name, ['A'], 0⟩ ⟨.openBracket, ['['], 1⟩ _
      ⟨.closeBracket, [']'], 10⟩) (.cons ⟨.logical, [' ', 'A', 'N', 'D', ' '], 11⟩
        (.presence ⟨.name, ['c'], 16⟩ ⟨.comparison, [' ', 'P', 'r'], 17⟩) .nil)).Valid .filter :=
    .mk (.valuePath rfl rfl rfl inner rfl) (.cons rfl (.presence rfl rfl (by decide)) .nil)
  have accepted : Mode.filter.parse .unlimited "A[b EQ \"X\"] AND c Pr" =
      .ok (some (tree "A" "b" "c")) :=
    (parse_eq_ok_iff scanned).mpr ⟨_, valid, by rfl, rfl⟩
  refine ⟨recased, accepted, ?_⟩
  obtain ⟨-, ⟨node, node', first, second, names⟩ | ⟨r, -, refused, -⟩⟩ :=
    parse_recased .filter recased
  · rw [accepted] at first
    obtain rfl := Except.ok.inj first
    exact ⟨node', second, names.trans rfl⟩
  · rw [accepted] at refused
    cases refused

end Mode

end Scim
