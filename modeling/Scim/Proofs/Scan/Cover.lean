import Scim.Proofs.Scan.Slice

/-!
# What a scan covers

A scan takes a text from its start, up to the end or to a stray character, and nothing gets lost.

* `Taken mode rest p cs ts`    from the text `cs`, which stands at `p` before `rest`, the scan takes
                               the tokens `ts` and the blanks between them;
* `scan_error_iff`             a scan fails at a character behind what it has taken;
* `Cursor.Covers`              the tokens of a cursor and the blanks between them make up the first
                               characters of its text;
* `Cursor.ofText_shift`        a text that stands elsewhere has the same tokens there;
* `Cursor.ofText_covers`       so it is for every text.
-/

namespace Scim

open Text Lexeme

/-! ## Scanning up to a place -/

/-- From the text before `rest` the scan takes tokens, and blanks that begin none. -/
inductive Taken (mode : Mode) (rest : List Char) : Int → List Char → List Token → Prop where
  | nil (p : Int) : Taken mode rest p [] []
  | blank {p : Int} {c : Char} {cs : List Char} {ts : List Token} :
      mode.lexeme? (c :: (cs ++ rest)) = none → isBlank c = true → Taken mode rest (p + 1) cs ts →
      Taken mode rest p (c :: cs) ts
  | token {p : Int} {kind : Kind} {text cs : List Char} {ts : List Token} :
      mode.lexeme? (text ++ (cs ++ rest)) = some (kind, text) →
      Taken mode rest (p + text.length) cs ts →
      Taken mode rest p (text ++ cs) (⟨kind, text, p⟩ :: ts)

theorem Tiles.taken {mode : Mode} {p : Int} {cs : List Char} {ts : List Token}
    (h : Tiles mode p cs ts) : Taken mode [] p cs ts := by
  induction h with
  | nil p => exact .nil p
  | blank missed hc _ ih => exact .blank (by rwa [List.append_nil]) hc ih
  | token found _ ih => exact .token (by rwa [List.append_nil]) ih

theorem Taken.scan_eq {mode : Mode} {rest : List Char} {p : Int} {cs : List Char} {ts : List Token}
    (h : Taken mode rest p cs ts) :
    scan mode (cs ++ rest) p = (scan mode rest (p + cs.length)).map (ts ++ ·) := by
  induction h with
  | nil p =>
    rw [List.nil_append, List.length_nil, Int.natCast_zero, Int.add_zero]
    cases scan mode rest p <;> rfl
  | @blank p c cs ts missed hc _ ih =>
    rw [List.cons_append, scan_blank p missed hc, ih, List.length_cons]
    congr 2
    omega
  | @token p kind text cs ts found _ ih =>
    rw [List.append_assoc, scan_token p found, ih, List.length_append, Int.natCast_add,
      ← Int.add_assoc]
    cases scan mode rest (p + text.length + cs.length) <;> rfl

theorem taken_of_scan_error (mode : Mode) (p : Int) (cs : List Char) :
    ∀ s, scan mode cs p = .error s → ∃ u v ts, cs = u ++ s.char :: v ∧
      s.position = p + u.length ∧ mode.lexeme? (s.char :: v) = none ∧ isBlank s.char = false ∧
      Taken mode (s.char :: v) p u ts := by
  refine scan_induction mode ?_ ?_ ?_ ?_ p cs
  · intro p s h
    rw [scan_nil] at h
    cases h
  · intro p c cs missed hc ih s h
    rw [scan_blank p missed hc] at h
    obtain ⟨u, v, ts, rfl, place, stuck, solid, taken⟩ := ih s h
    refine ⟨c :: u, v, ts, rfl, ?_, stuck, solid, .blank missed hc taken⟩
    rw [place, List.length_cons]
    omega
  · intro p c cs missed hc s h
    rw [scan_stray p missed hc] at h
    obtain rfl := Except.error.inj h
    exact ⟨[], cs, [], rfl, by simp, missed, hc, .nil p⟩
  · intro p kind text cs found ih s h
    rw [scan_token p found] at h
    cases more : scan mode cs (p + text.length) with
    | ok ts =>
      rw [more] at h
      cases h
    | error s' =>
      rw [more] at h
      obtain rfl := Except.error.inj h
      obtain ⟨u, v, ts, rfl, place, stuck, solid, taken⟩ := ih s' more
      refine ⟨text ++ u, v, ⟨kind, text, p⟩ :: ts, by rw [List.append_assoc], ?_, stuck, solid,
        .token found taken⟩
      rw [place, List.length_append]
      omega

/-- **A scan fails** at a character that is no blank and begins no token, behind the tokens and
blanks that it has taken. -/
theorem scan_error_iff {mode : Mode} {p : Int} {cs : List Char} {s : Stray} :
    scan mode cs p = .error s ↔ ∃ u v ts, cs = u ++ s.char :: v ∧ s.position = p + u.length ∧
      mode.lexeme? (s.char :: v) = none ∧ isBlank s.char = false ∧
      Taken mode (s.char :: v) p u ts := by
  refine ⟨taken_of_scan_error mode p cs s, ?_⟩
  rintro ⟨u, v, ts, rfl, place, stuck, solid, taken⟩
  rw [taken.scan_eq, scan_stray _ stuck solid, ← place]
  rfl

/-! ## Where the tokens are -/

namespace Taken

variable {mode : Mode} {rest : List Char} {p : Int} {cs : List Char} {ts : List Token}

theorem split (h : Taken mode rest p cs ts) {t : Token} (ht : t ∈ ts) :
    ∃ u v, cs = u ++ (t.text ++ v) ∧ t.position = p + u.length ∧
      mode.lexeme? (t.text ++ (v ++ rest)) = some (t.kind, t.text) := by
  induction h with
  | nil p => cases ht
  | @blank p c cs ts missed hc _ ih =>
    obtain ⟨u, v, rfl, place, found⟩ := ih ht
    refine ⟨c :: u, v, rfl, ?_, found⟩
    rw [place, List.length_cons]
    omega
  | @token p kind text cs ts found _ ih =>
    rcases List.mem_cons.mp ht with rfl | ht
    · exact ⟨[], cs, rfl, by simp, found⟩
    · obtain ⟨u, v, rfl, place, found⟩ := ih ht
      refine ⟨text ++ u, v, by rw [List.append_assoc], ?_, found⟩
      rw [place, List.length_append]
      omega

theorem le_position (h : Taken mode rest p cs ts) {t : Token} (ht : t ∈ ts) : p ≤ t.position := by
  obtain ⟨u, v, -, place, -⟩ := h.split ht
  omega

theorem ordered (h : Taken mode rest p cs ts) : ts.Pairwise fun t u => t.stop ≤ u.position := by
  induction h with
  | nil p => exact .nil
  | blank _ _ _ ih => exact ih
  | token _ later ih => exact .cons (fun u hu => later.le_position hu) ih

theorem uncovered (h : Taken mode rest p cs ts) {u v : List Char} {c : Char}
    (whole : cs = u ++ c :: v)
    (outside : ∀ t ∈ ts, ¬ (t.position ≤ p + u.length ∧ p + u.length < t.stop)) :
    isBlank c = true ∧ mode.lexeme? (c :: (v ++ rest)) = none := by
  induction h generalizing u with
  | nil p => simp at whole
  | @blank p d cs ts missed hd _ ih =>
    cases u with
    | nil =>
      obtain ⟨rfl, rfl⟩ := List.cons.inj whole
      exact ⟨hd, missed⟩
    | cons x u =>
      obtain ⟨-, same⟩ := List.cons.inj whole
      refine ih same fun t ht => ?_
      have apart := outside t ht
      rw [List.length_cons] at apart
      omega
  | @token p kind text cs ts found _ ih =>
    have first := outside _ List.mem_cons_self
    have behind : text.length ≤ u.length := by
      unfold Token.stop at first
      dsimp only at first
      omega
    obtain ⟨w, rfl⟩ : text <+: u :=
      List.prefix_of_prefix_length_le ⟨cs, whole⟩ (List.prefix_append u _) behind
    rw [List.append_assoc, List.append_cancel_left_eq] at whole
    refine ih whole fun t ht => ?_
    have apart := outside t (List.mem_cons_of_mem _ ht)
    rw [List.length_append] at apart
    omega

theorem exists_gaps (h : Taken mode rest p cs ts) :
    ∃ gaps last, gaps.length = ts.length ∧ (∀ gap ∈ gaps, ∀ c ∈ gap, isBlank c = true) ∧
      (∀ c ∈ last, isBlank c = true) ∧
      cs = (List.zipWith (fun gap t => gap ++ t.text) gaps ts).flatten ++ last := by
  induction h with
  | nil p => exact ⟨[], [], rfl, List.forall_mem_nil _, List.forall_mem_nil _, rfl⟩
  | @blank p c cs ts _ hc _ ih =>
    obtain ⟨gaps, last, size, blanks, tail, rfl⟩ := ih
    cases ts with
    | nil =>
      obtain rfl := List.length_eq_zero_iff.mp size
      exact ⟨[], c :: last, rfl, List.forall_mem_nil _, List.forall_mem_cons.mpr ⟨hc, tail⟩, rfl⟩
    | cons t ts =>
      -- the blank goes before the first gap
      obtain ⟨gap, gaps, rfl⟩ := List.exists_cons_of_length_eq_add_one size
      obtain ⟨first, others⟩ := List.forall_mem_cons.mp blanks
      refine ⟨(c :: gap) :: gaps, last, size, ?_, tail, rfl⟩
      exact List.forall_mem_cons.mpr ⟨List.forall_mem_cons.mpr ⟨hc, first⟩, others⟩
  | @token p kind text cs ts _ _ ih =>
    obtain ⟨gaps, last, size, blanks, tail, rfl⟩ := ih
    refine ⟨[] :: gaps, last, congrArg (· + 1) size, ?_, tail, ?_⟩
    · exact List.forall_mem_cons.mpr ⟨List.forall_mem_nil _, blanks⟩
    · simp

end Taken

namespace Cursor

/-- The tokens of a cursor and the blanks between them make up the first `n` characters of its
text: they stand in order, each is the part of the text from its position to its stop and the first
lexeme there, and every other character is a blank that begins no lexeme. -/
structure Covers (mode : Mode) (n : Nat) (c : Cursor) : Prop where
  ne_nil : ∀ t ∈ c.rest, t.text ≠ []
  ordered : c.rest.Pairwise fun t u => t.stop ≤ u.position
  within : ∀ t ∈ c.rest, c.offset ≤ t.position ∧ t.stop ≤ c.offset + n
  span : ∀ t ∈ c.rest, c.span [t] = t.text
  lexeme : ∀ t ∈ c.rest,
    mode.lexeme? (c.source.drop (t.position - c.offset).toNat) = some (t.kind, t.text)
  blank : ∀ i x, i < n → c.source[i]? = some x →
    (∀ t ∈ c.rest, ¬ (t.position ≤ c.offset + i ∧ c.offset + i < t.stop)) →
      isBlank x = true ∧ mode.lexeme? (c.source.drop i) = none
  gaps : ∃ gaps last, gaps.length = c.rest.length ∧
    (∀ gap ∈ gaps, ∀ x ∈ gap, isBlank x = true) ∧ (∀ x ∈ last, isBlank x = true) ∧
      c.source.take n = (List.zipWith (fun gap t => gap ++ t.text) gaps c.rest).flatten ++ last

theorem Covers.position_lt_stop {mode : Mode} {n : Nat} {c : Cursor} (h : c.Covers mode n) {t : Token}
    (mem : t ∈ c.rest) : t.position < t.stop := by
  have long := List.length_pos_iff.mpr (h.ne_nil t mem)
  unfold Token.stop
  omega

theorem covers_of_taken {mode : Mode} {offset : Int} {u rest : List Char} {ts : List Token}
    (h : Taken mode rest offset u ts) (index : Nat) :
    (⟨u ++ rest, offset, index, ts⟩ : Cursor).Covers mode u.length where
  ne_nil := by
    intro t ht
    obtain ⟨_, _, _, _, found⟩ := h.split ht
    exact (Mode.exists_of_lexeme?_eq_some found).2.1
  ordered := h.ordered
  within := by
    intro t ht
    obtain ⟨before, behind, rfl, place, -⟩ := h.split ht
    unfold Token.stop
    rw [List.length_append, List.length_append]
    dsimp only
    omega
  span := by
    intro t ht
    obtain ⟨before, behind, rfl, place, -⟩ := h.split ht
    have start : (t.position - offset).toNat = before.length := by omega
    have size : (t.stop - t.position).toNat = t.text.length := by
      unfold Token.stop
      omega
    show ((before ++ (t.text ++ behind) ++ rest).drop (t.position - offset).toNat).take
      (t.stop - t.position).toNat = _
    rw [start, size, List.append_assoc, List.drop_left, List.append_assoc, List.take_left]
  lexeme := by
    intro t ht
    obtain ⟨before, behind, rfl, place, found⟩ := h.split ht
    have start : (t.position - offset).toNat = before.length := by omega
    dsimp only
    rw [start, List.append_assoc, List.drop_left, List.append_assoc]
    exact found
  blank := by
    intro i x short here outside
    dsimp only at here outside ⊢
    rw [List.getElem?_append_left short] at here
    obtain ⟨short, rfl⟩ := List.getElem?_eq_some_iff.mp here
    have cut : u = u.take i ++ u[i] :: u.drop (i + 1) := by
      rw [← List.drop_eq_getElem_cons short, List.take_append_drop]
    have here : (u.take i).length = i := List.length_take_of_le (Nat.le_of_lt short)
    rw [List.drop_append_of_le_length (Nat.le_of_lt short), List.drop_eq_getElem_cons short]
    exact h.uncovered cut (by rwa [here])
  gaps := by
    dsimp only
    rw [List.take_left]
    exact h.exists_gaps

theorem ofText_eq_ok_iff {mode : Mode} {source : List Char} {offset : Int} {c : Cursor} :
    ofText mode source offset = .ok c ↔
      ∃ ts, scan mode source offset = .ok ts ∧ ⟨source, offset, 0, ts⟩ = c := by
  unfold ofText
  cases scan mode source offset with
  | ok ts => simp
  | error s => simp

/-! ## Texts that stand elsewhere -/

/-- A cursor over the same text, which stands `n` characters further. -/
def shift (n : Int) (c : Cursor) : Cursor :=
  { c with offset := c.offset + n, rest := c.rest.map (Token.shift n) }

end Cursor

def Stray.shift (n : Int) (s : Stray) : Stray := { s with position := s.position + n }

def Fault.shift (n : Int) (f : Fault) : Fault := { f with position := f.position + n }

theorem scan_shift (mode : Mode) (n p : Int) (cs : List Char) : scan mode cs (p + n) =
    ((scan mode cs p).map (List.map (Token.shift n))).mapError (Stray.shift n) := by
  refine scan_induction mode ?_ ?_ ?_ ?_ p cs
  · intro p
    rw [scan_nil, scan_nil]
    rfl
  · intro p c cs missed hc ih
    rw [scan_blank _ missed hc, scan_blank _ missed hc, ← ih, Int.add_right_comm]
  · intro p c cs missed hc
    rw [scan_stray _ missed hc, scan_stray _ missed hc]
    rfl
  · intro p kind text cs found ih
    rw [scan_token _ found, scan_token _ found, Int.add_right_comm, ih]
    cases scan mode cs (p + text.length) <;> rfl

namespace Cursor

theorem ofText_shift (mode : Mode) (source : List Char) (n p : Int) : ofText mode source (p + n) =
    ((ofText mode source p).map (shift n)).mapError (Fault.shift n) := by
  unfold ofText
  rw [scan_shift]
  cases scan mode source p <;> rfl

/-- **A text is its tokens and blanks**, up to its end or to a stray character: the character at
which the scan fails is no blank and begins a lexeme of no kind.  A text that stands elsewhere has
the same tokens there, or fails at the same character. -/
theorem ofText_covers (mode : Mode) (source : List Char) (offset : Int) :
    (∀ c, ofText mode source offset = .ok c →
      c.source = source ∧ c.offset = offset ∧ c.index = 0 ∧ c.Covers mode source.length) ∧
    (∀ f, ofText mode source offset = .error f → ∃ n x, f.position = offset + (n : Nat) ∧
      source[n]? = some x ∧ isBlank x = false ∧ f.cause = .strayCharacter ∧ f.token = some [x] ∧
      (∀ kind ∈ mode.kinds, kind.lexeme? (source.drop n) = none) ∧
      ∃ ts, (⟨source, offset, 0, ts⟩ : Cursor).Covers mode n) ∧
    ofText mode source offset =
      ((ofText mode source 0).map (shift offset)).mapError (Fault.shift offset) := by
  refine ⟨?_, ?_, ?_⟩
  · intro c h
    unfold ofText at h
    cases scanned : scan mode source offset with
    | error s =>
      rw [scanned] at h
      cases h
    | ok ts =>
      rw [scanned] at h
      obtain rfl := Except.ok.inj h
      have covers := covers_of_taken (scan_eq_ok_iff.mp scanned).taken 0
      rw [List.append_nil] at covers
      exact ⟨rfl, rfl, rfl, covers⟩
  · intro f h
    unfold ofText at h
    cases scanned : scan mode source offset with
    | ok ts =>
      rw [scanned] at h
      cases h
    | error s =>
      rw [scanned] at h
      obtain rfl := Except.error.inj h
      obtain ⟨u, v, ts, rfl, place, stuck, solid, taken⟩ := scan_error_iff.mp scanned
      refine ⟨u.length, s.char, place, by simp, solid, rfl, rfl, ?_, ts, covers_of_taken taken 0⟩
      rw [List.drop_left]
      intro kind known
      exact Option.map_eq_none_iff.mp (List.findSome?_eq_none_iff.mp stuck kind known)
  · have moved := ofText_shift mode source offset 0
    rwa [Int.zero_add] at moved

/-- two tokens between blanks, and a comma behind a name, both seven characters into a text -/
theorem ofText_covers_elsewhere :
    let c : Cursor := ⟨" a pr\t".toList, 7, 0,
      [⟨.name, ['a'], 8⟩, ⟨.comparison, [' ', 'p', 'r'], 9⟩]⟩
    (ofText .filter " a pr\t".toList 7 = .ok c ∧ c.Covers .filter 6) ∧
      ofText .path "a ,".toList 7 = .error ⟨.strayCharacter, some [','], 9⟩ ∧
        ∃ ts, (⟨"a ,".toList, 7, 0, ts⟩ : Cursor).Covers .path 2 := by
  intro c
  have read : ofText .filter " a pr\t".toList 7 = .ok c := by rfl
  have stuck : ofText .path "a ,".toList 7 = .error ⟨.strayCharacter, some [','], 9⟩ := by rfl
  obtain ⟨-, -, -, covers⟩ := (ofText_covers .filter " a pr\t".toList 7).1 c read
  obtain ⟨n, _, place, _, _, _, _, _, partly⟩ := (ofText_covers .path "a ,".toList 7).2.1 _ stuck
  have here : n = 2 := by
    dsimp only at place
    omega
  rw [here] at partly
  exact ⟨⟨read, covers⟩, stuck, partly⟩

end Cursor

end Scim
