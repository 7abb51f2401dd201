import Mathlib.Data.List.Forall2
import Scim.Proofs.Number.Digits
import Scim.Proofs.Scan.Lowered
import Scim.Proofs.Scan.Rescan

/-!
# Texts in other letter case

* `Recased cs cs'`             outside of strings the ASCII letters may be of another case;
* `Kind.quote_notMem`          no token but a string holds a quotation mark;
* `RecasedToken`               tokens of one kind at one place, the same but for letter case, which
                               strings and numbers do not change;
* `SameScan`                   such tokens, or stray characters at the same place;
* `scan_recased`               scanning two texts in other letter case.
-/

namespace Scim

open Text Lexeme

/-- The same text, but outside of strings its ASCII letters may be of another case.  A quotation
mark without a partner begins no string. -/
inductive Recased : List Char → List Char → Prop where
  | nil : Recased [] []
  | letter {c d : Char} {cs cs' : List Char} : c ≠ '"' → lowerAscii c = lowerAscii d →
      Recased cs cs' → Recased (c :: cs) (d :: cs')
  | string {body cs cs' : List Char} : '"' ∉ body → Recased cs cs' →
      Recased ('"' :: (body ++ '"' :: cs)) ('"' :: (body ++ '"' :: cs'))
  | unpaired {cs cs' : List Char} : '"' ∉ cs → Recased cs cs' → Recased ('"' :: cs) ('"' :: cs')

namespace Recased

variable {cs cs' : List Char}

theorem lower (h : Recased cs cs') : cs.map lowerAscii = cs'.map lowerAscii := by
  induction h with
  | nil => rfl
  | letter _ same _ ih => rw [List.map_cons, List.map_cons, same, ih]
  | string _ _ ih => simp only [List.map_cons, List.map_append, ih]
  | unpaired _ _ ih => rw [List.map_cons, List.map_cons, ih]

theorem append {text text' : List Char} (free : '"' ∉ text)
    (same : text.map lowerAscii = text'.map lowerAscii) (h : Recased cs cs') :
    Recased (text ++ cs) (text' ++ cs') := by
  induction text generalizing text' with
  | nil =>
    obtain rfl : text' = [] := List.map_eq_nil_iff.mp same.symm
    exact h
  | cons c text ih =>
    obtain ⟨other, later⟩ := not_or.mp (mt List.mem_cons.mpr free)
    cases text' with
    | nil => cases same
    | cons d text' =>
      obtain ⟨first, others⟩ := List.cons.inj same
      exact .letter (Ne.symm other) first (ih later others)

theorem of_unquoted {text rest : List Char} (h : Recased (text ++ rest) cs') (free : '"' ∉ text) :
    ∃ text' rest', cs' = text' ++ rest' ∧ text.map lowerAscii = text'.map lowerAscii ∧
      Recased rest rest' := by
  induction text generalizing cs' with
  | nil => exact ⟨[], cs', rfl, rfl, h⟩
  | cons c text ih =>
    obtain ⟨other, later⟩ := not_or.mp (mt List.mem_cons.mpr free)
    generalize whole : c :: text ++ rest = cs at h
    cases h with
    | nil => cases whole
    | @letter _ d _ _ _ same tail =>
      obtain ⟨rfl, rfl⟩ := List.cons.inj whole
      obtain ⟨text', rest', rfl, lowered, behind⟩ := ih tail later
      exact ⟨d :: text', rest', rfl, by rw [List.map_cons, List.map_cons, same, lowered], behind⟩
    | string _ _ => exact absurd (List.cons.inj whole).1.symm other
    | unpaired _ _ => exact absurd (List.cons.inj whole).1.symm other

theorem of_string {text rest : List Char} (h : Recased (text ++ rest) cs')
    (found : string? (text ++ rest) = some text) :
    ∃ rest', cs' = text ++ rest' ∧ Recased rest rest' := by
  generalize whole : text ++ rest = cs at h found
  cases h with
  | nil => cases found
  | letter other _ _ => simp [string?, other] at found
  | @string body r r' free tail =>
    rw [string?_body free] at found
    obtain rfl := Option.some.inj found
    obtain rfl : rest = r := by simpa using whole
    exact ⟨r', by simp, tail⟩
  | unpaired free _ =>
    rw [string?_of_notMem free] at found
    cases found

end Recased

/-! ## Quotation marks -/

theorem ne_quote_of_isBlank {c : Char} (h : isBlank c = true) : c ≠ '"' := by
  rintro rfl
  cases h

theorem quote_notMem_of_solid {text : List Char} (h : ∀ c ∈ text, isSolid c = true) :
    '"' ∉ text := fun mem => (isSolid_iff.mp (h _ mem)).2 rfl

theorem quote_notMem_blanks (cs : List Char) : '"' ∉ cs.takeWhile isBlank :=
  fun mem => ne_quote_of_isBlank (List.all_eq_true.mp List.all_takeWhile _ mem) rfl

theorem quote_notMem_spacedWord {words : List (List Char)} (hw : SolidWords words)
    {cs text : List Char} (found : spacedWord? words cs = some text) : '"' ∉ text := by
  obtain ⟨word, spelled, -, rfl⟩ := spacedWord?_eq_some_iff.mp found
  exact mt List.mem_append.mp (not_or.mpr
    ⟨quote_notMem_of_solid (solid_of_anyWord? hw spelled), quote_notMem_blanks _⟩)

/-- **No token but a string** holds a quotation mark. -/
theorem Kind.quote_notMem {kind : Kind} (h : kind ≠ .string) {cs text : List Char}
    (found : kind.lexeme? cs = some text) : '"' ∉ text := by
  cases kind with
  | string => exact absurd rfl h
  | number => exact quote_notMem_of_solid (solid_of_number? found)
  | boolean | null =>
    exact quote_notMem_of_solid (solid_of_spelled (by decide) (literal?_spelled found))
  | openParen | closeParen | openBracket | closeBracket =>
    rw [eq_of_char? found]
    decide
  | negation =>
    obtain ⟨word, spelled, -, rfl⟩ := negation?_eq_some_iff.mp found
    exact mt List.mem_append.mp (not_or.mpr
      ⟨quote_notMem_of_solid (solid_of_word? (by decide) spelled), quote_notMem_blanks _⟩)
  | logical =>
    obtain ⟨-, word, spelled, rfl⟩ := logical?_eq_some_iff.mp found
    exact mt List.mem_append.mp (not_or.mpr
      ⟨quote_notMem_blanks _, quote_notMem_spacedWord (by decide) spelled⟩)
  | comparison =>
    cases cs with
    | nil => cases found
    | cons c cs =>
      obtain ⟨blank, word, spelled, rfl⟩ := comparison?_cons_eq_some_iff.mp found
      have free : '"' ∉ word := by
        rcases spelled with spaced | ⟨-, presence⟩
        · exact quote_notMem_spacedWord (by decide) spaced
        · exact quote_notMem_of_solid (solid_of_word? (by decide) presence)
      exact mt List.mem_cons.mp (not_or.mpr ⟨(ne_quote_of_isBlank blank).symm, free⟩)
  | name =>
    obtain ⟨n, rfl⟩ := exists_spelling found
    exact quote_notMem_of_solid fun c mem => isSolid_of_isSchema (n.isSchema_of_mem mem)
  | subAttribute =>
    obtain ⟨s, w, -, rfl, segment, -⟩ := subAttribute?_eq_some_iff.mp found
    exact quote_notMem_of_solid (List.forall_mem_cons.mpr ⟨by decide, solid_of_segment segment⟩)

theorem map_lowerAscii_number {cs text : List Char} (found : number? cs = some text) :
    text.map lowerAscii = text := by
  refine (List.map_congr_left fun c mem => ?_).trans (List.map_id text)
  rcases digit_or_point found c mem with digit | rfl
  · exact lowerAscii_of_isDigit digit
  · rfl

/-! ## Tokens -/

/-- Tokens that are the same but for letter case, which strings and numbers do not change. -/
structure RecasedToken (t t' : Token) : Prop where
  kind : t'.kind = t.kind
  position : t'.position = t.position
  lower : t'.text.map lowerAscii = t.text.map lowerAscii
  text : t.kind = .string ∨ t.kind = .number → t'.text = t.text

variable {mode : Mode} {cs cs' : List Char}

theorem Mode.lexeme?_lower (mode : Mode) (same : cs.map lowerAscii = cs'.map lowerAscii) :
    (mode.lexeme? cs').map (fun found => (found.1, found.2.map lowerAscii)) =
      (mode.lexeme? cs).map fun found => (found.1, found.2.map lowerAscii) := by
  rw [← mode.lexeme?_map_lowerAscii, ← mode.lexeme?_map_lowerAscii, same]

theorem Mode.lexeme?_lower_none (same : cs.map lowerAscii = cs'.map lowerAscii)
    (missed : mode.lexeme? cs = none) : mode.lexeme? cs' = none := by
  have lowered := mode.lexeme?_lower same
  rw [missed, Option.map_none, Option.map_eq_none_iff] at lowered
  exact lowered

theorem Recased.token {kind : Kind} {text rest : List Char} (h : Recased (text ++ rest) cs')
    (found : mode.lexeme? (text ++ rest) = some (kind, text)) :
    ∃ text' rest', cs' = text' ++ rest' ∧ Recased rest rest' ∧
      mode.lexeme? (text' ++ rest') = some (kind, text') ∧
      ∀ p, RecasedToken ⟨kind, text, p⟩ ⟨kind, text', p⟩ := by
  have lowered := mode.lexeme?_lower h.lower
  rw [found, Option.map_some, Option.map_eq_some_iff] at lowered
  obtain ⟨⟨kind', text'⟩, found', same⟩ := lowered
  obtain ⟨rfl, same⟩ := Prod.mk.inj same
  obtain ⟨run, -, -⟩ := Mode.exists_of_lexeme?_eq_some found
  obtain ⟨run', -, rest', rfl⟩ := Mode.exists_of_lexeme?_eq_some found'
  have size : text'.length = text.length := by simpa using congrArg List.length same
  by_cases isString : kind' = .string
  · subst isString
    obtain ⟨r, whole, behind⟩ := h.of_string run
    obtain ⟨rfl, rfl⟩ := List.append_inj whole size
    exact ⟨text', rest', rfl, behind, found', fun p => ⟨rfl, rfl, rfl, fun _ => rfl⟩⟩
  · obtain ⟨u, r, whole, lower, behind⟩ := h.of_unquoted (Kind.quote_notMem isString run)
    have size' : text'.length = u.length := by
      rw [size]
      simpa using congrArg List.length lower
    obtain ⟨rfl, rfl⟩ := List.append_inj whole size'
    refine ⟨text', rest', rfl, behind, found', fun p => ⟨rfl, rfl, same, ?_⟩⟩
    rintro (string | number)
    · exact absurd string isString
    · obtain rfl : kind' = .number := number
      rwa [map_lowerAscii_number run, map_lowerAscii_number run'] at same

/-! ## Scanning -/

/-- The same tokens but for letter case, or stray characters at the same place. -/
inductive SameScan : Except Stray (List Token) → Except Stray (List Token) → Prop where
  | tokens {ts ts' : List Token} : List.Forall₂ RecasedToken ts ts' → SameScan (.ok ts) (.ok ts')
  | stray {s s' : Stray} : lowerAscii s'.char = lowerAscii s.char → s'.position = s.position →
      SameScan (.error s) (.error s')

theorem SameScan.cons {t t' : Token} {x y : Except Stray (List Token)} (ht : RecasedToken t t')
    (h : SameScan x y) : SameScan (x.map (t :: ·)) (y.map (t' :: ·)) := by
  cases h with
  | tokens later => exact .tokens (.cons ht later)
  | stray char place => exact .stray char place

theorem Recased.of_cons {c : Char} (h : Recased (c :: cs) cs') :
    ∃ d ds, cs' = d :: ds ∧ lowerAscii d = lowerAscii c ∧ (c ≠ '"' → Recased cs ds) := by
  cases h with
  | letter _ same rest => exact ⟨_, _, rfl, same.symm, fun _ => rest⟩
  | string _ _ => exact ⟨_, _, rfl, rfl, absurd rfl⟩
  | unpaired _ _ => exact ⟨_, _, rfl, rfl, absurd rfl⟩

/-- **Scanning two texts in other letter case** gives the same tokens but for letter case, or stops
at the same place. -/
theorem scan_recased (mode : Mode) (p : Int) (cs : List Char) :
    ∀ cs', Recased cs cs' → SameScan (scan mode cs p) (scan mode cs' p) := by
  have blank {c d : Char} (same : lowerAscii d = lowerAscii c) : isBlank d = isBlank c := by
    rw [← isBlank_lowerAscii, same, isBlank_lowerAscii]
  refine scan_induction mode ?_ ?_ ?_ ?_ p cs
  · intro p cs' h
    cases h
    rw [scan_nil]
    exact .tokens .nil
  · intro p c cs missed hc ih cs' h
    have missed' := Mode.lexeme?_lower_none h.lower missed
    obtain ⟨d, ds, rfl, same, behind⟩ := h.of_cons
    rw [scan_blank p missed hc, scan_blank p missed' ((blank same).trans hc)]
    exact ih ds (behind (ne_quote_of_isBlank hc))
  · intro p c cs missed hc cs' h
    have missed' := Mode.lexeme?_lower_none h.lower missed
    obtain ⟨d, ds, rfl, same, -⟩ := h.of_cons
    rw [scan_stray p missed hc, scan_stray p missed' ((blank same).trans hc)]
    exact .stray same rfl
  · intro p kind text cs found ih cs' h
    obtain ⟨text', rest', rfl, behind, found', token⟩ := h.token found
    have size : text'.length = text.length := by
      simpa using congrArg List.length (token p).lower
    rw [scan_token p found, scan_token p found', size]
    exact (ih rest' behind).cons (token p)

end Scim
