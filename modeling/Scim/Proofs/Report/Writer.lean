import Scim.Proofs.Report.Lines
import Scim.Report.Writer

/-!
# What is known of writers

Reports are written by libraries of which only this is used:

* `Writer.Lawful`             the laws of a writer;
* `Writer.lawful_ofTables`    a writer by tables obeys them, if the tables do;
* `Writer.lawful_standard`    in particular the writer that knows no emoji.
-/

namespace Scim

open Text

namespace Writer

/-- **The laws of a writer.**  It is left open which emoji it knows, how many cells other characters
take and how it draws other trees; texts may come without the blanks at the ends of their lines. -/
structure Lawful (w : Writer) : Prop where
  /-- A list of texts is not too deep. -/
  flat : 2 ≤ w.deepest
  /-- Control characters take no cell. -/
  control : ∀ c, isControl c = true → w.width c = 0
  /-- Guides take as many cells as characters. -/
  guide : Outline.GuideWidth w.width
  /-- A text is written without signals, and tabs are expanded. -/
  text : ∀ cs, Printed (w.text cs) (shown w.width cs)
  /-- So is a text with emoji for their codes. -/
  coded : ∀ cs, Printed (w.coded cs) (shown w.width (Emoji.replace w.emoji cs))
  /-- A tree is drawn line by line, if it fits on the screen and its labels on lines. -/
  drawing : ∀ o : Outline, o.Within 20 → o.Clear →
    w.drawing o = (o.lines w.width).flatMap (· ++ ['\n'])

theorem exists_feed {width : Char → Nat} {cs ds : List Char} (h : Printed cs (shown width ds)) :
    ∃ front, cs = front ++ ['\n'] := by
  have last : cs.getLast? = some '\n' := by
    rw [h.getLast?_eq, shown, List.getLast?_concat]
  exact List.getLast?_eq_some_iff.mp last

theorem lawful_ofTables {deepest : Nat} {width : Char → Nat}
    (emoji : List Char → Option (List Char)) (flat : 2 ≤ deepest)
    (control : ∀ c, isControl c = true → width c = 0) (guide : Outline.GuideWidth width) :
    (ofTables deepest width emoji).Lawful where
  flat := flat
  control := control
  guide := guide
  text _ := .refl _
  coded _ := .refl _
  drawing _ _ _ := rfl

theorem cellWidth_of_isControl {c : Char} (h : isControl c = true) : cellWidth c = 0 := by
  have ranges := of_decide_eq_true h
  have none : zeroWidth.holds c = true := by
    rw [Ranges.holds_iff]
    rcases ranges with low | high
    · exact ⟨(0x0, 0x1f), List.mem_cons_self, Nat.zero_le _, Nat.le_of_lt_succ low⟩
    · exact ⟨(0x7f, 0x9f), List.mem_cons_of_mem _ List.mem_cons_self, high⟩
  rw [cellWidth, if_neg (by omega), if_pos none]

theorem guideWidth_cellWidth : Outline.GuideWidth cellWidth := by
  simp only [Outline.GuideWidth, List.forall_mem_cons]
  have line : cellWidth '│' = 1 := by decide +kernel
  have fork : cellWidth '├' = 1 := by decide +kernel
  have corner : cellWidth '└' = 1 := by decide +kernel
  have stroke : cellWidth '─' = 1 := by decide +kernel
  exact ⟨by decide, line, fork, corner, stroke, List.forall_mem_nil _⟩

/-- **The writer that knows no emoji** obeys the laws. -/
theorem lawful_standard : standard.Lawful :=
  lawful_ofTables _ (by decide) (fun _ => cellWidth_of_isControl) guideWidth_cellWidth

end Writer

end Scim
