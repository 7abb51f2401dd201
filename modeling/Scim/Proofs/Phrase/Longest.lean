import Scim.Proofs.Phrase.Lone
import Scim.Proofs.Scan.Cover
import Scim.Proofs.Scan.Lowered

/-!
# Names are as long as possible

A schema may hold colons itself, so several beginnings of a text can be names.  The scanner takes
the longest of them, and the attribute path of a name loses nothing of its text.

* `IsFullName`            the texts of names;
* `Longest`               the longest beginning of a text with a property;
* `name?_eq_some_iff`     the scanner takes the longest name at the start of a text;
* `Emits`                 the tokens that a scan gives, also before a stray character;
* `Spelling.path_parts`   the schema and the names of the attribute path of a name;
* `Emits.longest_name`    a name among the tokens of a text, with its attribute path.
-/

namespace Scim

open Text Lexeme

/-- The text of a name: segments joined by dots, behind a schema and a colon if there is one. -/
def IsFullName (text : List Char) : Prop := ∃ n : Spelling, n.text = text

/-- The longest beginning of a text with a property. -/
structure Longest (p : List Char → Prop) (cs text : List Char) : Prop where
  begins : text <+: cs
  holds : p text
  longest : ∀ w, w <+: cs → p w → w.length ≤ text.length

theorem Longest.unique {p : List Char → Prop} {cs text other : List Char} (h : Longest p cs text)
    (h' : Longest p cs other) : text = other := by
  have size : text.length = other.length :=
    Nat.le_antisymm (h'.longest text h.begins h.holds) (h.longest other h'.begins h'.holds)
  exact (List.prefix_of_prefix_length_le h.begins h'.begins (Nat.le_of_eq size)).eq_of_length size

/-! ## The longest name -/

/-- **The scanner takes the longest name** at the start of a text. -/
theorem Lexeme.name?_eq_some_iff {cs text : List Char} :
    name? cs = some text ↔ Longest IsFullName cs text := by
  have taken {text : List Char} (found : name? cs = some text) : Longest IsFullName cs text := by
    refine ⟨(prefixed_name? _ _ found).2, exists_spelling found, ?_⟩
    rintro w ⟨rest, rfl⟩ ⟨n, rfl⟩
    obtain ⟨text', found', le⟩ := n.exists_name?_append rest
    rw [found] at found'
    rwa [Option.some.inj found']
  refine ⟨taken, fun h => ?_⟩
  obtain ⟨rest, rfl⟩ := h.begins
  obtain ⟨n, rfl⟩ := h.holds
  obtain ⟨text, found, -⟩ := n.exists_name?_append rest
  rw [found, (taken found).unique h]

/-! ## Tokens that a scan gives -/

/-- A scan of a text that stands at `offset` gives a token: it takes the characters before the token,
and the token is the lexeme at its place.  What follows need not scan. -/
def Emits (mode : Mode) (source : List Char) (offset : Int) (t : Token) : Prop :=
  ∃ u v ts, source = u ++ (t.text ++ v) ∧ t.position = offset + u.length ∧
    Taken mode (t.text ++ v) offset u ts ∧ mode.lexeme? (t.text ++ v) = some (t.kind, t.text)

theorem Taken.emits {mode : Mode} {rest : List Char} {p : Int} {cs : List Char} {ts : List Token}
    (h : Taken mode rest p cs ts) {t : Token} (mem : t ∈ ts) : Emits mode (cs ++ rest) p t := by
  induction h with
  | nil p => cases mem
  | @blank p c cs ts missed hc _ ih =>
    obtain ⟨u, v, before, whole, place, taken, found⟩ := ih mem
    rw [whole] at missed
    refine ⟨c :: u, v, before, congrArg (c :: ·) whole, ?_, .blank missed hc taken, found⟩
    rw [place, List.length_cons]
    omega
  | @token p kind text cs ts first _ ih =>
    rcases List.mem_cons.mp mem with rfl | mem
    · exact ⟨[], cs ++ rest, [], List.append_assoc _ _ _, by simp, .nil p, first⟩
    · obtain ⟨u, v, before, whole, place, taken, found⟩ := ih mem
      rw [whole] at first
      refine ⟨text ++ u, v, ⟨kind, text, p⟩ :: before, ?_, ?_, .token first taken, found⟩
      · rw [List.append_assoc, whole, List.append_assoc]
      · rw [place, List.length_append]
        omega

theorem emits_iff_mem {mode : Mode} {source : List Char} {offset : Int} {ts : List Token}
    {t : Token} (scanned : scan mode source offset = .ok ts) :
    Emits mode source offset t ↔ t ∈ ts := by
  constructor
  · rintro ⟨u, v, before, rfl, place, taken, found⟩
    rw [taken.scan_eq, scan_token _ found, ← place] at scanned
    cases more : scan mode v (t.position + t.text.length) with
    | error s =>
      rw [more] at scanned
      cases scanned
    | ok after =>
      rw [more] at scanned
      obtain rfl := Except.ok.inj scanned
      exact List.mem_append_right _ List.mem_cons_self
  · intro mem
    have emits := (scan_eq_ok_iff.mp scanned).taken.emits mem
    rwa [List.append_nil] at emits

/-! ## The names of a text -/

theorem Spelling.path_parts (n : Spelling) : (∀ s, n.path.schema = some s → s ≠ "") ∧
    n.path.names ≠ [] ∧ ∀ s ∈ n.path.names, s ≠ "" ∧ ':' ∉ s.toList ∧ '.' ∉ s.toList := by
  refine ⟨?_, mt List.map_eq_nil_iff.mp n.segments_ne_nil, ?_⟩
  · intro s named
    obtain ⟨schema, found, rfl⟩ := Option.map_eq_some_iff.mp named
    exact mt String.ofList_eq_empty_iff.mp (n.isSchema schema found).1
  · intro s mem
    obtain ⟨segment, known, rfl⟩ := List.mem_map.mp mem
    obtain ⟨long, inside⟩ := n.isSegment segment known
    rw [String.toList_ofList]
    refine ⟨mt String.ofList_eq_empty_iff.mp long, ?_, ?_⟩
    · exact fun colon => absurd (inside ':' colon) (by decide)
    · exact fun dot => absurd (inside '.' dot) (by decide)

theorem Spelling.Lone.not_literal {n : Spelling} (h : n.Lone) :
    n.text.map foldLetter ∉ literalWords.flatten := by
  intro mem
  obtain ⟨words, known, spelled⟩ := List.mem_flatten.mp mem
  have literal := (literal?_eq_some_iff known).mpr ⟨spelled, [], (List.append_nil _).symm, rfl⟩
  rw [h.literal words known] at literal
  cases literal

/-- **A name among the tokens of a text is as long as possible**: no longer part of the text that
begins at its place is a name.  It begins with no digit, and if the whole text scans it is none of
the literals.  Its attribute path has no empty part, no name there holds one of the marks, and the
full name of the path is the text of the token. -/
theorem Emits.longest_name {mode : Mode} {source : List Char} {offset : Int} {t : Token}
    (h : Emits mode source offset t) (isName : t.kind = .name) :
    (∃ u v, source = u ++ (t.text ++ v) ∧ t.position = offset + u.length ∧
      Longest IsFullName (t.text ++ v) t.text) ∧
    (∃ c cs, t.text = c :: cs ∧ isDigit c = false) ∧
    (∀ c, Cursor.ofText mode source offset = .ok c → t ∈ c.rest ∧
      ∀ word ∈ ["true", "false", "null"],
        t.text.map lowerAscii ≠ word.toList ∧ t.text.map foldLetter ≠ word.toList) ∧
    ∃ path, AttributePath.ofText t.text = .ok path ∧ (∀ s, path.schema = some s → s ≠ "") ∧
      path.names ≠ [] ∧ (∀ s ∈ path.names, s ≠ "" ∧ ':' ∉ s.toList ∧ '.' ∉ s.toList) ∧
      path.fullName.toList = t.text := by
  have emitted := h
  obtain ⟨u, v, before, whole, place, -, found⟩ := h
  rw [isName, Mode.lexeme?_eq_name_iff] at found
  obtain ⟨run, missed⟩ := found
  obtain ⟨n, text⟩ := exists_spelling run
  refine ⟨⟨u, v, whole, place, name?_eq_some_iff.mp run⟩, ?_, ?_, n.path, ?_⟩
  · have number : number? (t.text ++ v) = none := missed .number (by decide)
    obtain ⟨c, cs, split⟩ := n.exists_cons
    rw [text] at split
    rw [split] at number
    exact ⟨c, cs, split, number?_cons_eq_none_iff.mp number⟩
  · intro c read
    obtain ⟨ts, scanned, rfl⟩ := Cursor.ofText_eq_ok_iff.mp read
    have mem := (emits_iff_mem scanned).mp emitted
    obtain ⟨m, lone, same⟩ := (scan_eq_ok_iff.mp scanned).exists_lone mem isName
    have other := lone.not_literal
    rw [same] at other
    refine ⟨mem, fun word literal => ?_⟩
    have words : ∀ word ∈ ["true", "false", "null"],
        word.toList ∈ literalWords.flatten ∧ word.toList.map foldLetter = word.toList := by decide
    obtain ⟨known, plain⟩ := words word literal
    have notFolded : t.text.map foldLetter ≠ word.toList := fun folded => other (folded ▸ known)
    refine ⟨fun lower => notFolded ?_, notFolded⟩
    rw [← map_foldLetter_map_lowerAscii, lower, plain]
  · obtain ⟨schema, long, names⟩ := n.path_parts
    refine ⟨?_, schema, long, names, ?_⟩
    · rw [← text, AttributePath.ofText_eq, n.named_text]
    · rw [n.fullName_path, text]

/-- a schema that holds colons, and a name that ends before a blank -/
theorem Emits.longest_name_behind_colons :
    let t : Token := ⟨.name, "::x:é:y.z".toList, -4⟩
    let path : AttributePath := ⟨some "::x:é", ["y", "z"]⟩
    (Emits .path "::x:é:y.z pr".toList (-4) t ∧ t.kind = .name) ∧
    Longest IsFullName "::x:é:y.z pr".toList t.text ∧
    (∀ word ∈ ["true", "false", "null"], t.text.map lowerAscii ≠ word.toList) ∧
    AttributePath.ofText t.text = .ok path ∧ path.fullName.toList = t.text := by
  intro t path
  have read : Cursor.ofText .path "::x:é:y.z pr".toList (-4) = .ok ⟨"::x:é:y.z pr".toList, -4, 0,
      [t, ⟨.comparison, " pr".toList, 5⟩]⟩ := by rfl
  have emits : Emits .path "::x:é:y.z pr".toList (-4) t := by
    obtain ⟨ts, scanned, same⟩ := Cursor.ofText_eq_ok_iff.mp read
    rw [emits_iff_mem scanned, (Cursor.mk.inj same).2.2.2]
    exact List.mem_cons_self
  have made : AttributePath.ofText t.text = .ok path := by rfl
  obtain ⟨⟨u, v, whole, place, longest⟩, -, literal, path', made', -, -, -, full⟩ :=
    Emits.longest_name emits rfl
  obtain rfl := Except.ok.inj (made'.symm.trans made)
  have first : u = [] := by
    rw [← List.length_eq_zero_iff]
    have : t.position = -4 := rfl
    omega
  rw [first, List.nil_append] at whole
  rw [← whole] at longest
  exact ⟨⟨emits, rfl⟩, longest, fun word mem => ((literal _ read).2 word mem).1, made, full⟩

/-- Before a character that belongs to no token, a literal is taken for a name. -/
example : Emits .filter "null.".toList 0 ⟨.name, "null".toList, 0⟩ :=
  ⟨[], ['.'], [], rfl, rfl, .nil 0, by rfl⟩

end Scim
