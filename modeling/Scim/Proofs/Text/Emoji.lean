import Scim.Text.Emoji

/-!
# Texts with emoji codes

* `Emoji.written_pieces`     the pieces of a text are all that is written in it;
* `Emoji.Cut`                a place between two pieces of a text;
* `Emoji.Covered`            a place inside a code that an emoji is shown for;
* `Emoji.cut_or_covered`     every place in a text is one or the other;
* `Emoji.pieces_of_noColon`  a text without colons has no codes.
-/

namespace Scim.Text.Emoji

@[simp] theorem written_nil : written [] = [] := rfl

@[simp] theorem written_cons (p : Piece) (ps : List Piece) :
    written (p :: ps) = p.written ++ written ps := List.flatMap_cons

@[simp] theorem written_append (ps qs : List Piece) :
    written (ps ++ qs) = written ps ++ written qs := List.flatMap_append

@[simp] theorem shown_append (ps qs : List Piece) :
    shown (ps ++ qs) = shown ps ++ shown qs := List.flatMap_append

@[simp] theorem written_plain (cs : List Char) : written (cs.map .plain) = cs := by
  rw [written, List.flatMap_map]
  exact List.flatMap_singleton' cs

@[simp] theorem shown_plain (cs : List Char) : shown (cs.map .plain) = cs := by
  rw [shown, List.flatMap_map]
  exact List.flatMap_singleton' cs

variable (emoji : List Char → Option (List Char))

theorem written_codeOf (name : List Char) :
    written (codeOf emoji name) = ':' :: name ++ [':'] := by
  unfold codeOf
  split
  · rw [written_cons, written_nil, List.append_nil]
  · rw [written_plain]

/-- What is still to be put into a piece. -/
def pending : Option (List Char) → List Char
  | none => []
  | some name => ':' :: name

theorem written_piecesFrom (before : Option (List Char)) (cs : List Char) :
    written (piecesFrom emoji before cs) = pending before ++ cs := by
  induction cs generalizing before with
  | nil =>
    cases before with
    | none => rfl
    | some name => rw [piecesFrom, written_plain, pending, List.append_nil]
  | cons c cs ih =>
    cases before with
    | none =>
      rw [piecesFrom]
      split
      · next colon => rw [ih, colon]; rfl
      · rw [written_cons, ih]; rfl
    | some name =>
      rw [piecesFrom]
      split
      · next colon =>
        rw [written_append, written_codeOf, ih, colon, pending, pending, List.append_assoc]
        rfl
      · split
        · rw [written_append, written_plain, ih, pending, pending, List.append_assoc]
          rfl
        · rw [ih, pending, pending, List.cons_append, List.cons_append, List.append_assoc]
          rfl

/-- **The pieces of a text** are all that is written in it. -/
theorem written_pieces (cs : List Char) : written (pieces emoji cs) = cs :=
  written_piecesFrom emoji none cs

theorem pieces_of_noColon {cs : List Char} (h : ':' ∉ cs) : pieces emoji cs = cs.map .plain := by
  unfold pieces
  induction cs with
  | nil => rfl
  | cons c cs ih =>
    obtain ⟨first, others⟩ := not_or.mp (mt List.mem_cons.mpr h)
    rw [piecesFrom, if_neg (Ne.symm first), ih others, List.map_cons]

theorem replace_of_noColon {cs : List Char} (h : ':' ∉ cs) : replace emoji cs = cs := by
  rw [replace, pieces_of_noColon emoji h, shown_plain]

theorem replace_spaces (cs : List Char) :
    replace emoji (' ' :: ' ' :: cs) = ' ' :: ' ' :: replace emoji cs := rfl

/-! ## Places -/

/-- The place stands between two pieces of the text. -/
structure Cut (cs : List Char) (place : Nat) (before behind : List Piece) : Prop where
  pieces : pieces emoji cs = before ++ behind
  place : (written before).length = place

/-- The place stands inside a code that an emoji is shown for. -/
inductive Covered (cs : List Char) (place : Nat) : Prop
  | intro (before behind : List Piece) (name picture : List Char) :
      emoji name = some picture →
      pieces emoji cs = before ++ ⟨':' :: name ++ [':'], picture⟩ :: behind →
      (written before).length < place → place < (written before).length + name.length + 2 →
      Covered cs place

variable {emoji}

/-- A piece is a character or the code of an emoji. -/
def Known (emoji : List Char → Option (List Char)) (p : Piece) : Prop :=
  (∃ c, p = .plain c) ∨
    ∃ name picture, emoji name = some picture ∧ p = ⟨':' :: name ++ [':'], picture⟩

theorem known_of_mem_plain {p : Piece} {cs : List Char} (h : p ∈ cs.map .plain) :
    Known emoji p := by
  obtain ⟨c, -, rfl⟩ := List.mem_map.mp h
  exact .inl ⟨c, rfl⟩

theorem known_of_mem_codeOf {p : Piece} {name : List Char} (h : p ∈ codeOf emoji name) :
    Known emoji p := by
  unfold codeOf at h
  split at h
  · next picture known =>
    obtain rfl := List.mem_singleton.mp h
    exact .inr ⟨name, picture, known, rfl⟩
  · exact known_of_mem_plain h

theorem known_of_mem_piecesFrom {p : Piece} {before : Option (List Char)} {cs : List Char}
    (h : p ∈ piecesFrom emoji before cs) : Known emoji p := by
  induction cs generalizing before with
  | nil =>
    cases before with
    | none => cases h
    | some name => exact known_of_mem_plain h
  | cons c cs ih =>
    cases before with
    | none =>
      rw [piecesFrom] at h
      split at h
      · exact ih h
      · rcases List.mem_cons.mp h with rfl | h
        · exact .inl ⟨c, rfl⟩
        · exact ih h
    | some name =>
      rw [piecesFrom] at h
      split at h
      · exact (List.mem_append.mp h).elim known_of_mem_codeOf ih
      · split at h
        · exact (List.mem_append.mp h).elim known_of_mem_plain ih
        · exact ih h

theorem between_or_inside {ps : List Piece} {place : Nat} (h : place ≤ (written ps).length) :
    (∃ before behind, ps = before ++ behind ∧ (written before).length = place) ∨
    ∃ before p behind, ps = before ++ p :: behind ∧ (written before).length < place ∧
      place < (written before).length + p.written.length := by
  induction ps generalizing place with
  | nil => exact .inl ⟨[], [], rfl, (Nat.le_zero.mp h).symm⟩
  | cons p ps ih =>
    rw [written_cons, List.length_append] at h
    by_cases start : place = 0
    · exact .inl ⟨[], p :: ps, rfl, start.symm⟩
    by_cases inside : place < p.written.length
    · refine .inr ⟨[], p, ps, rfl, Nat.pos_of_ne_zero start, ?_⟩
      rwa [written_nil, List.length_nil, Nat.zero_add]
    have rest : place - p.written.length ≤ (written ps).length := by omega
    rcases ih rest with ⟨before, behind, rfl, same⟩ | ⟨before, q, behind, rfl, above, below⟩
    · refine .inl ⟨p :: before, behind, rfl, ?_⟩
      rw [written_cons, List.length_append]
      omega
    · refine .inr ⟨p :: before, q, behind, rfl, ?_, ?_⟩
      · rw [written_cons, List.length_append]
        omega
      · rw [written_cons, List.length_append]
        omega

/-- **A place in a text** stands between two pieces, or inside a code that an emoji is shown for. -/
theorem cut_or_covered {cs : List Char} {place : Nat} (h : place ≤ cs.length) :
    (∃ before behind, Cut emoji cs place before behind) ∨ Covered emoji cs place := by
  rw [← written_pieces emoji cs] at h
  rcases between_or_inside h with
    ⟨before, behind, split, same⟩ | ⟨before, p, behind, split, low, high⟩
  · exact .inl ⟨before, behind, split, same⟩
  · have mem : p ∈ pieces emoji cs := by
      rw [split]
      exact List.mem_append_right before List.mem_cons_self
    rcases known_of_mem_piecesFrom mem with ⟨c, rfl⟩ | ⟨name, picture, known, rfl⟩
    · have one : (Piece.plain c).written.length = 1 := rfl
      omega
    · have length : (':' :: name ++ [':']).length = name.length + 2 := by simp
      refine .inr ⟨before, behind, name, picture, known, split, low, ?_⟩
      rw [Nat.add_assoc, ← length]
      exact high

end Scim.Text.Emoji
