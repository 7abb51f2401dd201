import Scim.Proofs.Scan.Insert
import Scim.Proofs.Scan.Word

/-!
# Tokens that cannot go on

* `Token.IsSettled`            a value, a parenthesis or bracket, a sub-attribute, or `pr`;
* `Token.IsSettled.marked`     such a token holds a character that is not part of the words and
                               blanks of operators;
* `Tiles.append_of_settled`    the tokens of a text that ends with such a token, and of the text
                               behind it.
-/

namespace Scim

open Text Lexeme Grammar

/-- A token that cannot go on behind it: a value, a parenthesis or bracket, a sub-attribute, or
`pr`. -/
def Token.IsSettled (t : Token) : Prop :=
  t.kind ∈ Kind.values ∨ t.kind.wall?.isSome = true ∨ t.kind = .subAttribute ∨
    t.kind = .comparison ∧ wordOf t = Operator.pr.word.toList

theorem isSettled_of_wall {t : Token} {c : Char} (h : t.kind.wall? = some c) : t.IsSettled :=
  .inr (.inl (by rw [h]; rfl))

theorem isMark_of_foldLetter {c d : Char} (h : foldLetter c = d) (hs : isStop d = false)
    (hd : spacedWords.flatten.contains d = false) : isMark c = true := by
  have notBlank : isBlank c = false := isBlank_eq_false_of_foldLetter (by rw [h]; exact hs)
  simp only [isMark, notBlank, h, hd, Bool.not_false, Bool.and_self]

theorem marked_of_map {cs word : List Char} (h : cs.map foldLetter = word) {d : Char}
    (mem : d ∈ word) (hs : isStop d = false) (hd : spacedWords.flatten.contains d = false) :
    Marked cs := by
  rw [← h] at mem
  obtain ⟨c, mem, same⟩ := List.mem_map.mp mem
  exact ⟨c, mem, isMark_of_foldLetter same hs hd⟩

theorem isMark_of_isDigit {c : Char} (h : isDigit c = true) : isMark c = true := by
  have solid : isBlank c = false := by
    cases hc : isBlank c with
    | false => rfl
    | true =>
      rw [isDigit_eq_false_of_isStop (isStop_of_isBlank hc)] at h
      cases h
  have letters : spacedWords.flatten.all (fun d => decide (0x61 ≤ d.toNat ∧ d.toNat ≤ 0x7a)) =
      true := by decide
  have codes : ∀ n ∈ [0x130, 0x131, 0x17f, 0x212a] ++ List.range' 0x41 26 ++ List.range' 0x61 26,
      isDigit (Char.ofNat n) = false := by decide
  have other : foldLetter c ∉ spacedWords.flatten := by
    intro mem
    obtain ⟨low, high⟩ := of_decide_eq_true (List.all_eq_true.mp letters _ mem)
    have code : c.toNat ∈
        [0x130, 0x131, 0x17f, 0x212a] ++ List.range' 0x41 26 ++ List.range' 0x61 26 := by
      simp only [List.mem_append, List.mem_cons, List.not_mem_nil, or_false, List.mem_range'_1]
      by_cases special : c.toNat = 0x130 ∨ c.toNat = 0x131 ∨ c.toNat = 0x17f ∨ c.toNat = 0x212a
      · omega
      · have plain : foldLetter c = lowerAscii c := by
          unfold foldLetter
          rw [if_neg (by omega), if_neg (by omega), if_neg (by omega)]
        by_cases upper : 0x41 ≤ c.toNat ∧ c.toNat ≤ 0x5a
        · omega
        · have same : lowerAscii c = c := if_neg upper
          rw [plain, same] at low high
          omega
    have none := codes c.toNat code
    rw [Char.ofNat_toNat, h] at none
    cases none
  have absent : spacedWords.flatten.contains (foldLetter c) = false := by
    simpa using other
  simp only [isMark, solid, absent, Bool.not_false, Bool.and_self]

theorem number?_marked {cs text : List Char} (h : number? cs = some text) : Marked text := by
  have first : cs.takeWhile isDigit <+: text := by
    unfold number? at h
    dsimp only at h
    split at h
    · cases h
    · split at h
      · split at h
        · obtain rfl := Option.some.inj h
          exact List.prefix_rfl
        · obtain rfl := Option.some.inj h
          exact List.prefix_append _ _
      · obtain rfl := Option.some.inj h
        exact List.prefix_rfl
  have long : cs.takeWhile isDigit ≠ [] := by
    intro none
    simp [number?, none] at h
  obtain ⟨c, rest, digits⟩ := List.exists_cons_of_ne_nil long
  have mem : c ∈ cs.takeWhile isDigit := by
    rw [digits]
    exact List.mem_cons_self
  have digit : isDigit c = true := List.all_eq_true.mp List.all_takeWhile c mem
  exact ⟨c, first.subset mem, isMark_of_isDigit digit⟩

theorem literal?_spelled {words : List (List Char)} {cs text : List Char}
    (h : literal? words cs = some text) : text.map foldLetter ∈ words := by
  unfold literal? at h
  obtain ⟨found, -⟩ := Option.filter_eq_some_iff.mp h
  obtain ⟨word, mem, read⟩ := List.exists_of_findSome?_eq_some found
  rw [(word?_eq_some_iff.mp read).2]
  exact mem

theorem mem_of_mem_stripBlanks {cs : List Char} {c : Char} (h : c ∈ stripBlanks cs) : c ∈ cs := by
  have front := (List.dropWhile_sublist isBlank).subset (List.mem_reverse.mp h)
  exact (List.dropWhile_sublist isBlank).subset (List.mem_reverse.mp front)

theorem isMark_of_lowerAscii {c : Char} (h : lowerAscii c = 'p') : isMark c = true := by
  have upper : ∀ n ∈ List.range' 0x41 26, Char.ofNat (n + 0x20) = 'p' →
      isMark (Char.ofNat n) = true := by decide
  unfold lowerAscii at h
  split at h
  · next range =>
    have mark := upper c.toNat (by rw [List.mem_range'_1]; omega) h
    rwa [Char.ofNat_toNat] at mark
  · rw [h]
    decide

theorem subAttribute?_marked {cs text : List Char} (h : subAttribute? cs = some text) :
    Marked text := by
  cases cs with
  | nil => cases h
  | cons c rest =>
    by_cases dot : c = '.'
    · subst dot
      simp only [subAttribute?] at h
      split at h
      · cases h
      · rw [← Option.some.inj h]
        exact ⟨'.', List.mem_cons_self, by decide⟩
    · simp [subAttribute?, dot] at h

theorem Token.IsSettled.marked {t : Token} {cs : List Char} (h : t.IsSettled)
    (run : t.kind.lexeme? cs = some t.text) : Marked t.text := by
  rcases h with value | wall | sub | ⟨comparison, word⟩
  · cases kind : t.kind with
    | string =>
      rw [kind] at run
      cases cs with
      | nil => cases run
      | cons c rest =>
        by_cases quote : c = '"'
        · subst quote
          obtain ⟨-, text⟩ := string?_cons_eq_some_iff.mp run
          rw [← text]
          exact ⟨'"', List.mem_cons_self, by decide⟩
        · simp [Kind.lexeme?, string?, quote] at run
    | number =>
      rw [kind] at run
      exact number?_marked run
    | boolean =>
      rw [kind] at run
      have spelled := literal?_spelled run
      simp only [List.mem_cons, List.not_mem_nil, or_false] at spelled
      rcases spelled with spelled | spelled
      · exact marked_of_map spelled (d := 'u') (by decide) (by decide) (by decide)
      · exact marked_of_map spelled (d := 'f') (by decide) (by decide) (by decide)
    | null =>
      rw [kind] at run
      have spelled := literal?_spelled run
      simp only [List.mem_cons, List.not_mem_nil, or_false] at spelled
      exact marked_of_map spelled (d := 'u') (by decide) (by decide) (by decide)
    | _ =>
      rw [kind] at value
      exact absurd value (by decide)
  · obtain ⟨c, hc⟩ := Option.isSome_iff_exists.mp wall
    rw [Kind.eq_of_wall? hc run]
    refine ⟨c, List.mem_cons_self, ?_⟩
    rcases isWall_cases (Kind.isWall_of_wall? hc) with rfl | rfl | rfl | rfl <;> decide
  · rw [sub] at run
    exact subAttribute?_marked run
  · have first : 'p' ∈ (stripBlanks t.text).map lowerAscii := by
      show 'p' ∈ wordOf t
      rw [word]
      decide
    obtain ⟨c, mem, letter⟩ := List.mem_map.mp first
    exact ⟨c, mem_of_mem_stripBlanks mem, isMark_of_lowerAscii letter⟩

theorem Tiles.marked_of_settled {mode : Mode} {p : Int} {cs : List Char} {ts : List Token}
    {t : Token} (h : Tiles mode p cs ts) (mem : t ∈ ts) (settled : t.IsSettled) :
    Marked t.text := by
  obtain ⟨before, after, rfl⟩ := List.append_of_mem mem
  obtain ⟨u, v, -, -, found, -⟩ := h.split
  exact settled.marked (Mode.exists_of_lexeme?_eq_some found).1

/-- **The tokens of a text and of the text behind it**, if the text in front ends with a settled
token. -/
theorem Tiles.append_of_settled {mode : Mode} {p : Int} {a b : List Char} {ts us : List Token}
    (h : Tiles mode p a ts) (last : ∀ t ∈ ts.getLast?, t.IsSettled) (hb : Trails b)
    (sub : (∃ t ∈ ts, t.kind = .subAttribute) → ∀ c ∈ b, isBlank c = true)
    (h' : Tiles mode (p + a.length) b us) : Tiles mode p (a ++ b) (ts ++ us) :=
  h.append (fun t ht => h.marked_of_settled (List.mem_of_getLast? ht) (last t ht)) hb sub h'

end Scim
