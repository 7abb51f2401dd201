import Scim.Proofs.Scan.Cut
import Scim.Token.Scan

/-!
# The tokens of a text tile it

* `Tiles mode p cs ts`     the tokens `ts`, one after the other, cover the text `cs` that stands at
                           `p`, up to blanks between them;
* `scan_induction`         induction along a scan;
* `scan_eq_ok_iff`         scanning gives the tokens that tile the text;
* `Tiles.split`            a text cut at one of its tokens;
* `Tiles.cut`              the text that some of the first tokens cover, cut off behind the last of
                           them, is tiled by them alone;
* `Tiles.slice`            the part of a text from the first to the last of some tokens in a row is
                           tiled by them, if they are the last ones or a `)` follows them.
-/

namespace Scim

open Text Lexeme

/-- The tokens of a text at a position: at each place the first kind of the language with a run
there, or a blank that no kind takes. -/
inductive Tiles (mode : Mode) : Int → List Char → List Token → Prop where
  | nil (p : Int) : Tiles mode p [] []
  | blank {p : Int} {c : Char} {cs : List Char} {ts : List Token} :
      mode.lexeme? (c :: cs) = none → isBlank c = true → Tiles mode (p + 1) cs ts →
      Tiles mode p (c :: cs) ts
  | token {p : Int} {kind : Kind} {text cs : List Char} {ts : List Token} :
      mode.lexeme? (text ++ cs) = some (kind, text) → Tiles mode (p + text.length) cs ts →
      Tiles mode p (text ++ cs) (⟨kind, text, p⟩ :: ts)

/-! ## Scanning step by step -/

theorem scanFrom_taken (mode : Mode) (n : Nat) (p : Int) (cs : List Char) (h : n ≤ cs.length) :
    scanFrom mode n p cs = scanFrom mode 0 (p + n) (cs.drop n) := by
  induction n generalizing p cs with
  | zero => simp
  | succ n ih =>
    cases cs with
    | nil => simp at h
    | cons c cs =>
      rw [scanFrom, ih (p + 1) cs (Nat.le_of_succ_le_succ h), List.drop_succ_cons]
      congr 1
      omega

theorem scan_nil (mode : Mode) (p : Int) : scan mode [] p = .ok [] := by
  simp [scan, scanFrom]

theorem scan_token {mode : Mode} {kind : Kind} {text cs : List Char} (p : Int)
    (h : mode.lexeme? (text ++ cs) = some (kind, text)) :
    scan mode (text ++ cs) p = (scan mode cs (p + text.length)).map (⟨kind, text, p⟩ :: ·) := by
  cases text with
  | nil => exact absurd rfl (Mode.exists_of_lexeme?_eq_some h).2.1
  | cons c text =>
    unfold scan
    rw [List.cons_append] at h ⊢
    rw [scanFrom, h]
    dsimp only
    rw [List.length_cons, Nat.add_sub_cancel, scanFrom_taken mode text.length (p + 1) (text ++ cs)
      (by simp), List.drop_left]
    congr 2
    omega

theorem scan_blank {mode : Mode} {c : Char} {cs : List Char} (p : Int)
    (h : mode.lexeme? (c :: cs) = none) (hc : isBlank c = true) :
    scan mode (c :: cs) p = scan mode cs (p + 1) := by
  unfold scan
  rw [scanFrom, h]
  dsimp only
  rw [if_pos hc]

theorem scan_stray {mode : Mode} {c : Char} {cs : List Char} (p : Int)
    (h : mode.lexeme? (c :: cs) = none) (hc : isBlank c = false) :
    scan mode (c :: cs) p = .error ⟨c, p⟩ := by
  unfold scan
  rw [scanFrom, h]
  dsimp only
  rw [if_neg (by rw [hc]; exact Bool.false_ne_true)]

theorem Tiles.scan_eq {mode : Mode} {p : Int} {cs : List Char} {ts : List Token}
    (h : Tiles mode p cs ts) : scan mode cs p = .ok ts := by
  induction h with
  | nil p => exact scan_nil mode p
  | blank missed hc _ ih => rw [scan_blank _ missed hc, ih]
  | token found _ ih => rw [scan_token _ found, ih]; rfl

/-- Induction along a scan: at each place a token, a blank that no kind takes, or a stray
character. -/
@[elab_as_elim]
theorem scan_induction (mode : Mode) {motive : Int → List Char → Prop} (nil : ∀ p, motive p [])
    (blank : ∀ p c cs, mode.lexeme? (c :: cs) = none → isBlank c = true → motive (p + 1) cs →
      motive p (c :: cs))
    (stray : ∀ p c cs, mode.lexeme? (c :: cs) = none → isBlank c = false → motive p (c :: cs))
    (token : ∀ p kind text cs, mode.lexeme? (text ++ cs) = some (kind, text) →
      motive (p + text.length) cs → motive p (text ++ cs)) (p : Int) (cs : List Char) :
    motive p cs := by
  -- on the length, since a token takes several characters at once
  induction size : cs.length using Nat.strongRecOn generalizing p cs with
  | ind n ih =>
    subst size
    cases cs with
    | nil => exact nil p
    | cons c cs =>
      cases run : mode.lexeme? (c :: cs) with
      | none =>
        cases hc : isBlank c with
        | true => exact blank p c cs run hc (ih cs.length (Nat.lt_succ_self _) _ cs rfl)
        | false => exact stray p c cs run hc
      | some found =>
        obtain ⟨kind, text⟩ := found
        obtain ⟨-, long, rest, whole⟩ := Mode.exists_of_lexeme?_eq_some run
        have shorter : rest.length < (c :: cs).length := by
          have taken := List.length_pos_iff.mpr long
          rw [whole, List.length_append]
          omega
        have behind := ih rest.length shorter (p + text.length) rest rfl
        rw [whole] at run ⊢
        exact token p kind text rest run behind

theorem tiles_of_scan_eq (mode : Mode) (p : Int) (cs : List Char) :
    ∀ ts, scan mode cs p = .ok ts → Tiles mode p cs ts := by
  refine scan_induction mode ?_ ?_ ?_ ?_ p cs
  · intro p ts h
    rw [scan_nil] at h
    obtain rfl := Except.ok.inj h
    exact .nil p
  · intro p c cs missed hc ih ts h
    rw [scan_blank p missed hc] at h
    exact .blank missed hc (ih ts h)
  · intro p c cs missed hc ts h
    rw [scan_stray p missed hc] at h
    cases h
  · intro p kind text cs found ih ts h
    rw [scan_token p found] at h
    cases more : scan mode cs (p + text.length) with
    | error s =>
      rw [more] at h
      cases h
    | ok ts' =>
      rw [more] at h
      obtain rfl := Except.ok.inj h
      exact .token found (ih ts' more)

theorem scan_eq_ok_iff {mode : Mode} {cs : List Char} {p : Int} {ts : List Token} :
    scan mode cs p = .ok ts ↔ Tiles mode p cs ts :=
  ⟨tiles_of_scan_eq mode p cs ts, Tiles.scan_eq⟩

theorem tiles_blank_iff {mode : Mode} {p : Int} {c : Char} {cs : List Char} {ts : List Token}
    (h : mode.lexeme? (c :: cs) = none) (hc : isBlank c = true) :
    Tiles mode p (c :: cs) ts ↔ Tiles mode (p + 1) cs ts := by
  rw [← scan_eq_ok_iff, ← scan_eq_ok_iff, scan_blank p h hc]

theorem tiles_token_iff {mode : Mode} {p : Int} {kind : Kind} {text cs : List Char}
    {ts : List Token} (h : mode.lexeme? (text ++ cs) = some (kind, text)) :
    Tiles mode p (text ++ cs) ts ↔
      ∃ ts', ts = ⟨kind, text, p⟩ :: ts' ∧ Tiles mode (p + text.length) cs ts' := by
  constructor
  · intro tiles
    have scanned := tiles.scan_eq
    rw [scan_token p h] at scanned
    cases more : scan mode cs (p + text.length) with
    | error s =>
      rw [more] at scanned
      cases scanned
    | ok ts' =>
      rw [more] at scanned
      exact ⟨ts', (Except.ok.inj scanned).symm, scan_eq_ok_iff.mp more⟩
  · rintro ⟨ts', rfl, tail⟩
    exact .token h tail

theorem stray_of_scan (mode : Mode) (p : Int) (cs : List Char) :
    ∀ s, scan mode cs p = .error s →
      ∃ u v, cs = u ++ s.char :: v ∧ s.position = p + u.length := by
  refine scan_induction mode ?_ ?_ ?_ ?_ p cs
  · intro p s h
    rw [scan_nil] at h
    cases h
  · intro p c cs missed hc ih s h
    rw [scan_blank p missed hc] at h
    obtain ⟨u, v, rfl, place⟩ := ih s h
    refine ⟨c :: u, v, rfl, ?_⟩
    rw [place, List.length_cons]
    omega
  · intro p c cs missed hc s h
    rw [scan_stray p missed hc] at h
    obtain rfl := Except.error.inj h
    exact ⟨[], cs, rfl, by simp⟩
  · intro p kind text cs found ih s h
    rw [scan_token p found] at h
    cases more : scan mode cs (p + text.length) with
    | ok ts =>
      rw [more] at h
      cases h
    | error s' =>
      rw [more] at h
      obtain rfl := Except.error.inj h
      obtain ⟨u, v, rfl, place⟩ := ih s' more
      refine ⟨text ++ u, v, by rw [List.append_assoc], ?_⟩
      rw [place, List.length_append]
      omega

/-! ## Where the tokens are -/

theorem Tiles.split {mode : Mode} {p : Int} {cs : List Char} {before after : List Token} {t : Token}
    (h : Tiles mode p cs (before ++ t :: after)) : ∃ u v, cs = u ++ (t.text ++ v) ∧
      t.position = p + u.length ∧ mode.lexeme? (t.text ++ v) = some (t.kind, t.text) ∧
      Tiles mode t.stop v after := by
  generalize whole : before ++ t :: after = ts at h
  induction h generalizing before with
  | nil p => simp at whole
  | @blank p c cs ts missed hc rest ih =>
    obtain ⟨u, v, rfl, place, run, tail⟩ := ih whole
    refine ⟨c :: u, v, rfl, ?_, run, tail⟩
    rw [place, List.length_cons]
    omega
  | @token p kind text cs ts found rest ih =>
    cases before with
    | nil =>
      obtain ⟨rfl, rfl⟩ := List.cons.inj whole
      exact ⟨[], cs, rfl, by simp, found, rest⟩
    | cons t' before =>
      obtain ⟨-, whole⟩ := List.cons.inj whole
      obtain ⟨u, v, rfl, place, run, tail⟩ := ih whole
      refine ⟨text ++ u, v, by rw [List.append_assoc], ?_, run, tail⟩
      rw [place, List.length_append]
      omega

/-- A list of tokens with which a text goes on behind a group: it is empty or starts with a `)`. -/
def EndsGroup (ts : List Token) : Prop := ∀ t ∈ ts.head?, t.kind = .closeParen

theorem Tiles.dropWhile_blank {mode : Mode} {p : Int} {cs : List Char} {ts : List Token}
    (h : Tiles mode p cs ts) (he : EndsGroup ts) :
    cs.dropWhile isBlank = [] ∨ (cs.dropWhile isBlank).head? = some ')' := by
  induction h with
  | nil p => exact .inl rfl
  | @blank p c cs ts missed hc rest ih =>
    rw [List.dropWhile_cons, if_pos hc]
    exact ih he
  | @token p kind text cs ts found rest ih =>
    have close : kind = .closeParen := he _ rfl
    obtain ⟨run, -⟩ := Mode.exists_of_lexeme?_eq_some found
    rw [close] at run
    cases text with
    | nil => cases (Kind.prefixed_lexeme? .closeParen _ _ run).1 rfl
    | cons c text =>
      by_cases paren : c = ')'
      · subst paren
        exact .inr rfl
      · simp [Kind.lexeme?, char?, paren] at run

theorem Tiles.behind {mode : Mode} {p : Int} {cs : List Char} {ts : List Token}
    (h : Tiles mode p cs ts) (he : EndsGroup ts) : Behind cs := by
  cases cs with
  | nil => exact ⟨stops_nil, nofun⟩
  | cons c cs =>
    by_cases hc : isBlank c = true
    · have other : c ≠ '(' := by
        rintro rfl
        cases hc
      exact ⟨stops_cons (by simp [isStop, hc]), fun same => other (Option.some.inj same)⟩
    · have behind := h.dropWhile_blank he
      rw [List.dropWhile_cons, if_neg hc] at behind
      rcases behind with none | paren
      · cases none
      · obtain rfl := Option.some.inj paren
        exact ⟨stops_cons rfl, by simp⟩

/-! ## Cutting a text behind a group -/

theorem Tiles.cut {mode : Mode} {p : Int} {cs : List Char} {ts after : List Token} {last : Token}
    (h : Tiles mode p cs (ts ++ after)) (hl : ts.getLast? = some last) (he : EndsGroup after) :
    ∃ a b, cs = a ++ b ∧ last.stop = p + a.length ∧ Tiles mode p a ts ∧
      Tiles mode last.stop b after := by
  generalize whole : ts ++ after = all at h
  induction h generalizing ts with
  | nil p =>
    obtain ⟨rfl, -⟩ := List.append_eq_nil_iff.mp whole
    cases hl
  | @blank p c cs all missed hc rest ih =>
    obtain ⟨a, b, rfl, place, front, back⟩ := ih hl whole
    refine ⟨c :: a, b, rfl, ?_, .blank ?_ hc front, back⟩
    · rw [place, List.length_cons]
      omega
    · exact Mode.lexeme?_cut_none (back.behind he) hc missed
  | @token p kind text cs all found rest ih =>
    cases ts with
    | nil => cases hl
    | cons t ts =>
      obtain ⟨rfl, same⟩ := List.cons.inj whole
      cases ts with
      | nil =>
        obtain rfl := Option.some.inj hl
        obtain rfl : after = all := same
        have alone := Mode.lexeme?_of_append (rest.behind he) found (Nat.le_refl _)
        have front : Tiles mode p (text ++ []) [⟨kind, text, p⟩] :=
          .token (by rwa [List.append_nil]) (.nil _)
        rw [List.append_nil] at front
        exact ⟨text, cs, rfl, rfl, front, rest⟩
      | cons t' ts =>
        rw [List.getLast?_cons_cons] at hl
        obtain ⟨a, b, rfl, place, front, back⟩ := ih hl same
        refine ⟨text ++ a, b, by rw [List.append_assoc], ?_, .token ?_ front, back⟩
        · rw [place, List.length_append]
          omega
        · rw [← List.append_assoc] at found
          exact Mode.lexeme?_of_append (back.behind he) found (by simp)

theorem Tiles.slice {mode : Mode} {p : Int} {cs : List Char} {before ts after : List Token}
    {first last : Token} (h : Tiles mode p cs (before ++ ts ++ after))
    (hf : ts.head? = some first) (hl : ts.getLast? = some last) (he : EndsGroup after) :
    ∃ u a b, cs = u ++ a ++ b ∧ first.position = p + u.length ∧
      last.stop = first.position + a.length ∧ Tiles mode first.position a ts := by
  cases ts with
  | nil => cases hf
  | cons t ts =>
    obtain rfl := Option.some.inj hf
    rw [List.append_assoc, List.cons_append] at h
    obtain ⟨u, v, rfl, place, run, tail⟩ := h.split
    have from' : Tiles mode t.position (t.text ++ v) (t :: ts ++ after) := .token run tail
    obtain ⟨a, b, rest, stop, front, -⟩ := from'.cut hl he
    exact ⟨u, a, b, by rw [rest, List.append_assoc], place, stop, front⟩

end Scim
