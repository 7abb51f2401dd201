import Scim.Text.Terminal

/-!
# Columns of a terminal

A text moves the cursor of a terminal: a tab to the next tab stop, a line feed to the start of the
next line, and any other character by the cells that it takes.

* `isControl`                   the control characters;
* `columnAfter`                 the column of the cursor behind a text;
* `expandTabsFrom_append`       tabs are expanded from the column where they stand;
* `columnAfter_expandTabsFrom`  expanding them leaves the cursor where it is;
* `columnAfter_dropSignals`     so does dropping signals, if controls take no cell;
* `columnAfter_of_flat`         without tabs and line feeds it moves by the cells of the text.
-/

namespace Scim.Text

def isControl (c : Char) : Bool := decide (c.toNat < 0x20 ∨ (0x7f ≤ c.toNat ∧ c.toNat ≤ 0x9f))

theorem isControl_of_isSignal {c : Char} (h : isSignal c = true) : isControl c = true := by
  have signal := of_decide_eq_true h
  refine decide_eq_true ?_
  omega

theorem isControl_tab : isControl '\t' = true := by decide

theorem isControl_feed : isControl '\n' = true := by decide

section
variable (width : Char → Nat)

/-- The column of the cursor behind a character. -/
def nextColumn (column : Nat) (c : Char) : Nat :=
  if c = '\t' then column + (tabStop - column % tabStop)
  else if c = '\n' then 0
  else column + width c

/-- The column of the cursor behind a text that begins at a column. -/
def columnAfter (column : Nat) (cs : List Char) : Nat := cs.foldl (nextColumn width) column

end

variable {width : Char → Nat}

@[simp] theorem columnAfter_nil (column : Nat) : columnAfter width column [] = column := rfl

@[simp] theorem columnAfter_cons (column : Nat) (c : Char) (cs : List Char) :
    columnAfter width column (c :: cs) = columnAfter width (nextColumn width column c) cs := rfl

theorem columnAfter_append (column : Nat) (cs ds : List Char) :
    columnAfter width column (cs ++ ds) = columnAfter width (columnAfter width column cs) ds :=
  List.foldl_append

theorem nextColumn_of_plain {c : Char} (noTab : c ≠ '\t') (noFeed : c ≠ '\n') (column : Nat) :
    nextColumn width column c = column + width c := by
  rw [nextColumn, if_neg noTab, if_neg noFeed]

theorem columnAfter_feed (column : Nat) (cs ds : List Char) :
    columnAfter width column (cs ++ '\n' :: ds) = columnAfter width 0 ds := by
  rw [columnAfter_append, columnAfter_cons]
  rfl

theorem columnAfter_spaces (space : width ' ' = 1) (column n : Nat) :
    columnAfter width column (List.replicate n ' ') = column + n := by
  have step (column : Nat) : nextColumn width column ' ' = column + 1 := by
    rw [nextColumn_of_plain (by decide) (by decide), space]
  induction n generalizing column with
  | zero => rfl
  | succ n ih =>
    rw [List.replicate_succ, columnAfter_cons, step, ih]
    omega

/-! ## Tabs -/

theorem expandTabsFrom_cons (column : Nat) (c : Char) (cs : List Char) :
    expandTabsFrom width column (c :: cs) =
      (if c = '\t' then tabSpaces column else [c]) ++
        expandTabsFrom width (nextColumn width column c) cs := by
  rw [expandTabsFrom, nextColumn]
  by_cases tab : c = '\t'
  · rw [if_pos tab, if_pos tab, if_pos tab]
  · rw [if_neg tab, if_neg tab, if_neg tab]
    by_cases feed : c = '\n'
    · rw [if_pos feed, if_pos feed]
      rfl
    · rw [if_neg feed, if_neg feed]
      rfl

theorem expandTabsFrom_append (column : Nat) (cs ds : List Char) :
    expandTabsFrom width column (cs ++ ds) =
      expandTabsFrom width column cs ++
        expandTabsFrom width (columnAfter width column cs) ds := by
  induction cs generalizing column with
  | nil => rfl
  | cons c cs ih =>
    rw [List.cons_append, expandTabsFrom_cons, expandTabsFrom_cons, ih, List.append_assoc,
      columnAfter_cons]

/-- **Expanding tabs** leaves the cursor where it is. -/
theorem columnAfter_expandTabsFrom (space : width ' ' = 1) (column : Nat) (cs : List Char) :
    columnAfter width column (expandTabsFrom width column cs) = columnAfter width column cs := by
  induction cs generalizing column with
  | nil => rfl
  | cons c cs ih =>
    have step : columnAfter width column (if c = '\t' then tabSpaces column else [c]) =
        nextColumn width column c := by
      split
      · next tab => rw [tabSpaces, columnAfter_spaces space, nextColumn, if_pos tab]
      · rfl
    rw [expandTabsFrom_cons, columnAfter_append, step, ih, columnAfter_cons]

theorem expandTabsFrom_of_noTab {cs : List Char} (noTab : '\t' ∉ cs) (column : Nat) :
    expandTabsFrom width column cs = cs := by
  induction cs generalizing column with
  | nil => rfl
  | cons c cs ih =>
    obtain ⟨first, others⟩ := not_or.mp (mt List.mem_cons.mpr noTab)
    rw [expandTabsFrom_cons, if_neg (Ne.symm first), ih others]
    rfl

/-! ## Signals -/

/-- **Dropping signals** leaves the cursor where it is. -/
theorem columnAfter_dropSignals (control : ∀ c, isControl c = true → width c = 0) (column : Nat)
    (cs : List Char) : columnAfter width column (dropSignals cs) = columnAfter width column cs := by
  unfold dropSignals
  induction cs generalizing column with
  | nil => rfl
  | cons c cs ih =>
    cases signal : isSignal c with
    | true =>
      have noTab : c ≠ '\t' := by rintro rfl; cases signal
      have noFeed : c ≠ '\n' := by rintro rfl; cases signal
      rw [List.filter_cons_of_neg (by simp [signal]), ih, columnAfter_cons,
        nextColumn_of_plain noTab noFeed, control c (isControl_of_isSignal signal), Nat.add_zero]
    | false =>
      rw [List.filter_cons_of_pos (by simp [signal]), columnAfter_cons, ih, columnAfter_cons]

theorem dropSignals_append (cs ds : List Char) :
    dropSignals (cs ++ ds) = dropSignals cs ++ dropSignals ds := List.filter_append ..

/-! ## Cells -/

/-- **Without tabs and line feeds** the cursor moves by the cells of the text. -/
theorem columnAfter_of_flat {cs : List Char} (noTab : '\t' ∉ cs) (noFeed : '\n' ∉ cs)
    (column : Nat) : columnAfter width column cs = column + cells width cs := by
  induction cs generalizing column with
  | nil => rfl
  | cons c cs ih =>
    obtain ⟨tab, noTab⟩ := not_or.mp (mt List.mem_cons.mpr noTab)
    obtain ⟨feed, noFeed⟩ := not_or.mp (mt List.mem_cons.mpr noFeed)
    rw [columnAfter_cons, nextColumn_of_plain (Ne.symm tab) (Ne.symm feed), ih noTab noFeed,
      cells_cons, Nat.add_assoc]

theorem cells_of_single (control : ∀ c, isControl c = true → width c = 0) {cs : List Char}
    (h : ∀ c ∈ cs, width c = 1) : '\t' ∉ cs ∧ '\n' ∉ cs ∧ cells width cs = cs.length := by
  refine ⟨fun tab => ?_, fun feed => ?_, ?_⟩
  · cases (h _ tab).symm.trans (control _ isControl_tab)
  · cases (h _ feed).symm.trans (control _ isControl_feed)
  · induction cs with
    | nil => rfl
    | cons c cs ih =>
      obtain ⟨first, others⟩ := List.forall_mem_cons.mp h
      rw [cells_cons, first, ih others, List.length_cons, Nat.add_comm]

end Scim.Text
