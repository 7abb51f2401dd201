import Scim.Proofs.Report.Envelope
import Scim.Proofs.Text.Emoji

/-!
# The caret below a place

A message about a place in the expression is followed by the expression and a caret, which stands as
many characters behind the start of the line as the place.

* `Report.Marked`            below some text the expression is printed, and a caret in a column;
* `Report.frontOf`, `Report.backOf`    how an expression is laid out before a place and from it on;
* `Report.Stands`            the column in which the character at a place is printed;
* `Command.marked_of_finished`    a message about a place marks the expression;
* `Command.caret_stands`     the caret stands below the character if there are as many cells before
                             the place as characters.
-/

namespace Scim

open Text

namespace Report

section
variable (writer : Writer)

/-- Below some text the line of the expression is printed, with emoji for their codes, and below it
a caret in the given column. -/
structure Marked (input errors : String) (above line : List Char) (caret : Nat) : Prop where
  whole : errors.toList =
    above ++ '\n' :: (line ++ (List.replicate caret ' ' ++ ['^', '\n']))
  laid : Printed line
    (shown writer.width (Emoji.replace writer.emoji (' ' :: ' ' :: input.toList)))
  column : caret =
    columnAfter writer.width 0 (above ++ '\n' :: (line ++ List.replicate caret ' '))

/-- How pieces before a place are laid out. -/
def frontOf (before : List Emoji.Piece) : List Char :=
  expandTabs writer.width (dropSignals (' ' :: ' ' :: Emoji.shown before))

/-- How pieces behind other ones are laid out. -/
def backOf (before behind : List Emoji.Piece) : List Char :=
  expandTabsFrom writer.width (columnAfter writer.width 0 (frontOf writer before))
    (dropSignals (Emoji.shown behind))

/-- The column in which what is behind some pieces begins on the line of the expression: the one
that these pieces lead to, and where the next character is printed unless it is a blank. -/
structure Stands (above line : List Char) (before behind : List Emoji.Piece) (character : Nat) :
    Prop where
  laid : Printed line (frontOf writer before ++ backOf writer before behind ++ ['\n'])
  column : character = columnAfter writer.width 0 (above ++ '\n' :: frontOf writer before)
  printed : ∀ c more, backOf writer before behind = c :: more → isBlank c = false →
    ∃ front back, line = front ++ c :: back ∧
      character = columnAfter writer.width 0 (above ++ '\n' :: front)

end

variable {writer : Writer}

theorem columnAfter_frontOf (lawful : writer.Lawful) (before : List Emoji.Piece) :
    columnAfter writer.width 0 (frontOf writer before) =
      columnAfter writer.width 2 (Emoji.shown before) := by
  rw [frontOf, expandTabs, columnAfter_expandTabsFrom lawful.guide.space,
    columnAfter_dropSignals lawful.control, columnAfter_cons, columnAfter_cons,
    nextColumn_of_plain (by decide) (by decide), nextColumn_of_plain (by decide) (by decide),
    lawful.guide.space]

theorem shown_eq (lawful : writer.Lawful) (before behind : List Emoji.Piece) :
    shown writer.width (' ' :: ' ' :: Emoji.shown (before ++ behind)) =
      frontOf writer before ++ backOf writer before behind ++ ['\n'] := by
  have cut : ' ' :: ' ' :: Emoji.shown (before ++ behind) =
      (' ' :: ' ' :: Emoji.shown before) ++ Emoji.shown behind := by
    rw [Emoji.shown_append, List.cons_append, List.cons_append]
  rw [shown, cut, dropSignals_append, expandTabs, expandTabsFrom_append, backOf, frontOf,
    expandTabs, columnAfter_expandTabsFrom lawful.guide.space]

theorem shown_caret (width : Char → Nat) (place : Nat) :
    shown width (' ' :: ' ' :: List.replicate place ' ' ++ ['^']) =
      List.replicate (place + 2) ' ' ++ ['^', '\n'] := by
  have spaces : ' ' :: ' ' :: List.replicate place ' ' = List.replicate (place + 2) ' ' := rfl
  have plain : ∀ c ∈ List.replicate (place + 2) ' ' ++ ['^'], c = ' ' ∨ c = '^' := by
    intro c hc
    rcases List.mem_append.mp hc with hc | hc
    · exact .inl (List.eq_of_mem_replicate hc)
    · exact .inr (List.mem_singleton.mp hc)
  have loud : dropSignals (List.replicate (place + 2) ' ' ++ ['^']) = _ :=
    List.filter_eq_self.mpr fun c hc => by
      rcases plain c hc with rfl | rfl <;> decide
  have noTab : '\t' ∉ List.replicate (place + 2) ' ' ++ ['^'] := by
    intro tab
    rcases plain _ tab with same | same <;> cases same
  rw [shown, spaces, loud, expandTabs, expandTabsFrom_of_noTab noTab, List.append_assoc]
  rfl

theorem marked_caretLines (lawful : writer.Lawful) (above : List Char) (input : String)
    (place : Nat) :
    Marked writer input (String.ofList (above ++ '\n' :: caretLines writer input place)) above
      (writer.coded (' ' :: ' ' :: input.toList)) (place + 2) := by
  have noColon : ':' ∉ ' ' :: ' ' :: List.replicate place ' ' ++ ['^'] := by simp
  have caret : writer.coded (' ' :: ' ' :: List.replicate place ' ' ++ ['^']) =
      List.replicate (place + 2) ' ' ++ ['^', '\n'] := by
    have printed := lawful.coded (' ' :: ' ' :: List.replicate place ' ' ++ ['^'])
    rw [Emoji.replace_of_noColon writer.emoji noColon, shown_caret] at printed
    refine printed.eq ?_
    rw [trimLines_spaces (by decide)]
    rfl
  obtain ⟨front, ended⟩ := Writer.exists_feed (lawful.coded (' ' :: ' ' :: input.toList))
  refine ⟨?_, lawful.coded _, ?_⟩
  · rw [String.toList_ofList, caretLines, caret]
  · rw [columnAfter_feed, ended, List.append_assoc, List.singleton_append, columnAfter_feed,
      columnAfter_spaces lawful.guide.space, Nat.zero_add]

theorem stands_of_cut (lawful : writer.Lawful) {input errors : String} {above line : List Char}
    {caret place : Nat} {before behind : List Emoji.Piece}
    (marked : Marked writer input errors above line caret)
    (cut : Emoji.Cut writer.emoji input.toList place before behind) :
    Stands writer above line before behind
      (columnAfter writer.width 2 (Emoji.shown before)) := by
  have laid := marked.laid
  rw [Emoji.replace_spaces, Emoji.replace, cut.pieces, shown_eq lawful] at laid
  refine ⟨laid, ?_, ?_⟩
  · rw [columnAfter_feed, columnAfter_frontOf lawful]
  · intro c more back plain
    rw [back, List.append_assoc, List.cons_append] at laid
    obtain ⟨front, rest, same, columns⟩ := laid.exists_front writer.width plain
    refine ⟨front, rest, same, ?_⟩
    rw [columnAfter_feed, columns, columnAfter_frontOf lawful]

end Report

namespace Command

section

variable {libraries : Libraries} (lawful : libraries.writer.Lawful)
  {environment : String → Option String} {limits : Limits} {mode : Mode}
  {arguments rest : List String} {settings : Settings} {expression : String} {p : Problem}
  {place : Nat} (defaults : Limits.ofEnvironment environment libraries.limits = .ok limits)
  (options : readSettings libraries arguments = .ok (settings, mode.label :: rest))
  (argument : readExpression libraries rest = .ok expression)
  (tree : settings.style.form = .tree) (loud : settings.style.quiet = false)
  (refused : mode.parse (limitsFor settings limits) expression = .error (.problem p))
  (placed : p.place? = some (place : Int))

include defaults options argument tree loud refused placed

theorem finishes_iff_near :
    (∃ code screen, run environment arguments libraries = .finished code screen) ↔
      (place : Int) < Report.lineCapacity := by
  have finishes : (∃ code screen, run environment arguments libraries = .finished code screen) ↔
      ∃ s, (failure mode expression p.failure).render settings.style libraries.writer = .ok s := by
    simp [run_eq_execute defaults options argument, finished_of_problem refused]
  rw [finishes, exists_render_failure (Mode.placed_of_parse refused) tree, loud, placed]
  simp

include lawful

theorem marked_of_finished {code : Nat} {screen : Screen}
    (finished : run environment arguments libraries = .finished code screen) :
    ∃ above line, Report.Marked libraries.writer expression screen.errors above line
      (place + 2) := by
  rw [run_eq_execute defaults options argument] at finished
  obtain ⟨rfl, s, rendered, rfl⟩ := (finished_of_problem refused).mp finished
  rw [Report.render_tree_failure tree (Mode.placed_of_parse refused), loud, placed,
    if_neg Bool.false_ne_true] at rendered
  dsimp only at rendered
  split at rendered
  · cases rendered
  · split at rendered
    · cases rendered
    · rw [← Except.ok.inj rendered]
      obtain ⟨message, ended⟩ :=
        Writer.exists_feed (lawful.text ("Error: ".toList ++ p.text.toList))
      let above := (notes settings mode (limitsFor settings limits) expression).toList ++ message
      have errors : notes settings mode (limitsFor settings limits) expression ++
          String.ofList (libraries.writer.text ("Error: ".toList ++ p.text.toList) ++
            Report.caretLines libraries.writer expression place) =
          String.ofList (above ++ '\n' :: Report.caretLines libraries.writer expression place) := by
        rw [← String.toList_inj, ended]
        simp [above]
      have marked := Report.marked_caretLines lawful above expression place
      rw [← errors] at marked
      exact ⟨above, _, marked⟩

end

/-- **The caret stands below the character at the place** if there are as many cells before it as
characters.  It stands as many characters behind the start of the line as the place, and the
character where what is shown before it leads to.  A character in the code of an emoji is not
printed. -/
theorem caret_stands {libraries : Libraries} (lawful : libraries.writer.Lawful)
    {environment : String → Option String} {limits : Limits} {mode : Mode}
    {arguments rest : List String} {settings : Settings} {expression : String} {p : Problem}
    {position : Int} (defaults : Limits.ofEnvironment environment libraries.limits = .ok limits)
    (options : readSettings libraries arguments = .ok (settings, mode.label :: rest))
    (argument : readExpression libraries rest = .ok expression)
    (tree : settings.style.form = .tree) (loud : settings.style.quiet = false)
    (refused : mode.parse (limitsFor settings limits) expression = .error (.problem p))
    (placed : p.place? = some position) :
    ∃ place : Nat, position = place ∧ place ≤ expression.length ∧
      ((∃ code screen, run environment arguments libraries = .finished code screen) ↔
        (place : Int) < Report.lineCapacity) ∧
      ((∃ before behind, Emoji.Cut libraries.writer.emoji expression.toList place before behind) ∨
        Emoji.Covered libraries.writer.emoji expression.toList place) ∧
      ∀ code screen, run environment arguments libraries = .finished code screen →
        ∃ above line caret,
          Report.Marked libraries.writer expression screen.errors above line caret ∧
          caret = place + 2 ∧
          ∀ before behind,
            Emoji.Cut libraries.writer.emoji expression.toList place before behind →
            ∃ character, Report.Stands libraries.writer above line before behind character ∧
              character = columnAfter libraries.writer.width 2 (Emoji.shown before) ∧
              ('\t' ∉ Emoji.shown before → '\n' ∉ Emoji.shown before →
                (character = caret ↔
                  cells libraries.writer.width (Emoji.shown before) = place)) ∧
              (before = (expression.toList.take place).map .plain →
                (∀ c ∈ expression.toList.take place, libraries.writer.width c = 1) →
                character = caret) := by
  obtain ⟨place, rfl, within⟩ := (Mode.placed_of_parse refused).place_within placed
  have near := finishes_iff_near defaults options argument tree loud refused placed
  have inside : place ≤ expression.toList.length := by rwa [String.length_toList]
  refine ⟨place, rfl, within, near, Emoji.cut_or_covered inside, ?_⟩
  intro code screen finished
  obtain ⟨above, line, marked⟩ :=
    marked_of_finished lawful defaults options argument tree loud refused placed finished
  refine ⟨above, line, _, marked, rfl, ?_⟩
  intro before behind cut
  have flat (noTab : '\t' ∉ Emoji.shown before) (noFeed : '\n' ∉ Emoji.shown before) :
      columnAfter libraries.writer.width 2 (Emoji.shown before) = place + 2 ↔
        cells libraries.writer.width (Emoji.shown before) = place := by
    rw [columnAfter_of_flat noTab noFeed, Nat.add_comm, Nat.add_right_cancel_iff]
  refine ⟨_, Report.stands_of_cut lawful marked cut, rfl, flat, ?_⟩
  rintro plain single
  have length : (expression.toList.take place).length = place := List.length_take_of_le inside
  obtain ⟨noTab, noFeed, cells⟩ := cells_of_single lawful.control single
  rw [plain, Emoji.shown_plain] at flat ⊢
  exact (flat noTab noFeed).mpr (cells.trans length)

/-- the caret below a character behind characters of one cell -/
theorem caret_stands_below :
    ∃ code screen, run (fun _ => none) ["filter", "a x"] = .finished code screen ∧
      ∃ above line, Report.Marked .standard "a x" screen.errors above line 4 ∧
        Report.Stands .standard above line [.plain 'a', .plain ' '] [.plain 'x'] 4 := by
  have scanned : scan .filter "a x".toList 0 = .ok [⟨.name, ['a'], 0⟩, ⟨.name, ['x'], 2⟩] := by
    rfl
  have started := Limits.start_eq {} scanned
  have refused : Mode.filter.parse {} "a x" = .error (.problem
      (.ofFault .filter "a x" ⟨.expected [.comparison], some ['x'], 2⟩)) := by
    rw [Mode.parse_of_start started, Mode.parse_unlimited scanned]
    rfl
  obtain ⟨place, position, -, near, -, points⟩ :=
    caret_stands Writer.lawful_standard ofEnvironment_none (readSettings_label .filter ["a x"])
      (readExpression_of_plain rfl) rfl rfl refused rfl
  obtain rfl : place = 2 := Int.ofNat.inj position.symm
  obtain ⟨code, screen, finished⟩ := near.mpr (by decide)
  obtain ⟨above, line, caret, marked, rfl, stands⟩ := points code screen finished
  obtain ⟨character, shown, rfl, -⟩ :=
    stands [.plain 'a', .plain ' '] [.plain 'x'] ⟨by decide, rfl⟩
  exact ⟨code, screen, finished, above, line, marked, shown⟩

/-- the caret beside a character behind a wide one -/
theorem caret_beside_wide :
    ∃ p code screen before behind, Mode.filter.parse {} "a eq \"日\" x" = .error (.problem p) ∧
      p.place? = some 9 ∧
      run (fun _ => none) ["filter", "a eq \"日\" x"] = .finished code screen ∧
      Emoji.Cut Writer.standard.emoji "a eq \"日\" x".toList 9 before behind ∧
      ∃ above line, Report.Marked .standard "a eq \"日\" x" screen.errors above line 11 ∧
        Report.Stands .standard above line before behind 12 := by
  have scanned : scan .filter "a eq \"日\" x".toList 0 = .ok
      [⟨.name, ['a'], 0⟩, ⟨.comparison, [' ', 'e', 'q', ' '], 1⟩, ⟨.string, ['"', '日', '"'], 5⟩,
        ⟨.name, ['x'], 9⟩] := by
    rfl
  have started := Limits.start_eq {} scanned
  let p : Problem := .ofFault .filter "a eq \"日\" x" ⟨.trailingToken, some ['x'], 9⟩
  have refused : Mode.filter.parse {} "a eq \"日\" x" = .error (.problem p) := by
    rw [Mode.parse_of_start started, Mode.parse_unlimited scanned]
    rfl
  have placed : p.place? = some ((9 : Nat) : Int) := rfl
  have options := readSettings_label .filter ["a eq \"日\" x"]
  have argument : readExpression .standard ["a eq \"日\" x"] = _ := readExpression_of_plain rfl
  have near := finishes_iff_near ofEnvironment_none options argument rfl rfl refused placed
  obtain ⟨code, screen, finished⟩ := near.mpr (by decide)
  obtain ⟨above, line, marked⟩ := marked_of_finished Writer.lawful_standard ofEnvironment_none
    options argument rfl rfl refused placed finished
  have cut : Emoji.Cut Writer.standard.emoji "a eq \"日\" x".toList 9
      ("a eq \"日\" ".toList.map .plain) [.plain 'x'] := ⟨by decide, rfl⟩
  have stands := Report.stands_of_cut Writer.lawful_standard marked cut
  have column : columnAfter cellWidth 2 "a eq \"日\" ".toList = 12 := by decide +kernel
  rw [Emoji.shown_plain] at stands
  refine ⟨p, code, screen, _, _, refused, placed, finished, cut, above, line, marked, ?_⟩
  rw [← column]
  exact stands

end Command

end Scim
