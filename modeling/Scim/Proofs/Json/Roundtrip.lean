import Scim.Proofs.Json.Numbers

/-!
# Printed values are read back

* `Json.induct`        induction over the parts of a value;
* `Json.doubles`       the doubles in a value;
* `readString_append`  a printed string is read back;
* `ReadsBack`          a printed value is read back, whatever follows it;
* `readsBack`          so is every value whose doubles are canonical;
* `read?_pretty`       the text of such a value stands for this value.
-/

namespace Scim.Json

open Number Text

/-! ## The parts of values -/

/-- Induction over the parts of a value. -/
theorem induct {P : Json → Prop} (null : P .null) (bool : ∀ b, P (.bool b)) (int : ∀ n, P (.int n))
    (double : ∀ x, P (.double x)) (string : ∀ s, P (.string s))
    (array : ∀ items, (∀ v ∈ items, P v) → P (.array items))
    (object : ∀ fields : List (String × Json), (∀ field ∈ fields, P field.2) → P (.object fields)) :
    ∀ j, P j :=
  @Json.rec P (fun items => ∀ v ∈ items, P v) (fun fields => ∀ field ∈ fields, P field.2)
    (fun field => P field.2) null bool int double string array object nofun
    (fun _ _ first more => List.forall_mem_cons.mpr ⟨first, more⟩) nofun
    (fun _ _ first more => List.forall_mem_cons.mpr ⟨first, more⟩) (fun _ _ value => value)

mutual

/-- The doubles in a value. -/
def doubles : Json → List Double
  | .double x => [x]
  | .array items => doublesOfItems items
  | .object fields => doublesOfFields fields
  | _ => []

def doublesOfItems : List Json → List Double
  | [] => []
  | v :: items => v.doubles ++ doublesOfItems items

def doublesOfFields : List (String × Json) → List Double
  | [] => []
  | (_, v) :: fields => v.doubles ++ doublesOfFields fields

end

theorem doublesOfItems_eq (items : List Json) : doublesOfItems items = items.flatMap doubles := by
  induction items with
  | nil => rfl
  | cons v items ih => rw [doublesOfItems, ih, List.flatMap_cons]

theorem doublesOfFields_eq (fields : List (String × Json)) :
    doublesOfFields fields = fields.flatMap fun field => field.2.doubles := by
  induction fields with
  | nil => rfl
  | cons field fields ih => rw [doublesOfFields, ih, List.flatMap_cons]

/-! ## Strings -/

theorem readCodes_escapeUnit {n : Nat} (h : n < 0x20) {cs : List Char} {codes : List Nat}
    {rest : List Char} (read : readCodes cs = some (codes, rest)) :
    readCodes (escapeUnit n ++ cs) = some (n :: codes, rest) := by
  have units : ∀ n < 0x20, ∃ x y z w, hexDigits 4 n = [x, y, z, w] ∧ unitOf? x y z w = some n := by
    intro n small
    refine ⟨_, _, _, _, rfl, ?_⟩
    revert n
    decide
  obtain ⟨x, y, z, w, digits, unit⟩ := units n h
  unfold escapeUnit
  rw [digits]
  show readCodes ('\\' :: 'u' :: x :: y :: z :: w :: cs) = _
  rw [readCodes, if_neg (by decide), if_pos rfl]
  simp only [unit, read, Option.bind_eq_bind, Option.bind_some]
  rfl

theorem readCodes_escapeChar (c : Char) {cs : List Char} {codes : List Nat} {rest : List Char}
    (read : readCodes cs = some (codes, rest)) :
    readCodes (escapeChar false c ++ cs) = some (c.toNat :: codes, rest) := by
  have pair (letter : Char) {char : Char} (known : escaped? letter = some char)
      (other : letter ≠ 'u') :
      readCodes ('\\' :: letter :: cs) = some (char.toNat :: codes, rest) := by
    have notUnit (x y z w : Char) (more : List Char) :
        letter = 'u' → cs = x :: y :: z :: w :: more → False := fun same _ => other same
    rw [readCodes.eq_3 _ _ _ notUnit, if_neg (by decide), if_pos rfl]
    simp only [known, read, Option.bind_eq_bind, Option.bind_some]
    rfl
  unfold escapeChar
  split
  · next h => exact h ▸ pair '"' rfl (by decide)
  split
  · next h => exact h ▸ pair '\\' rfl (by decide)
  split
  · next h => exact h ▸ pair 'n' rfl (by decide)
  split
  · next h => exact h ▸ pair 'r' rfl (by decide)
  split
  · next h => exact h ▸ pair 't' rfl (by decide)
  split
  · next h =>
    rw [h]
    exact pair 'b' rfl (by decide)
  split
  · next h =>
    rw [h]
    exact pair 'f' rfl (by decide)
  split
  · next control =>
    unfold escapeCode
    rw [if_pos (by omega)]
    exact readCodes_escapeUnit control read
  · next quote backslash _ _ _ _ _ control =>
    rw [Bool.false_and, if_neg Bool.false_ne_true]
    show readCodes (c :: cs) = _
    rw [readCodes.eq_def]
    dsimp only
    rw [if_neg quote, if_neg backslash, if_neg control, read]
    rfl

theorem readCodes_append (cs rest : List Char) :
    readCodes (cs.flatMap (escapeChar false) ++ '"' :: rest) =
      some (cs.map Char.toNat, rest) := by
  induction cs with
  | nil =>
    show readCodes ('"' :: rest) = some ([], rest)
    rw [readCodes.eq_def]
    exact if_pos rfl
  | cons c cs ih =>
    rw [List.flatMap_cons, List.append_assoc]
    exact readCodes_escapeChar c ih

theorem joinCodes_map_toNat (cs : List Char) : joinCodes (cs.map Char.toNat) = some cs := by
  induction cs with
  | nil => rfl
  | cons c cs ih =>
    have valid : c.toNat.isValidChar := c.valid
    rw [List.map_cons, joinCodes.eq_def]
    dsimp only
    rw [if_pos valid, ih, Char.ofNat_toNat]
    rfl

/-- **A printed string is read back.** -/
theorem readString_append (s : String) (rest : List Char) :
    readString (s.toList.flatMap (escapeChar false) ++ '"' :: rest) = some (s, rest) := by
  unfold readString
  simp only [readCodes_append, joinCodes_map_toNat, Option.bind_eq_bind, Option.bind_some,
    String.ofList_toList]
  rfl

/-! ## Spaces -/

theorem skipGap_append {gap : List Char} (h : ∀ c ∈ gap, isGap c = true) (cs : List Char) :
    skipGap (gap ++ cs) = skipGap cs :=
  List.dropWhile_append_of_pos h

theorem readValue_gap {gap : List Char} (h : ∀ c ∈ gap, isGap c = true) (fuel : Nat)
    (cs : List Char) : readValue fuel (gap ++ cs) = readValue fuel cs := by
  cases fuel with
  | zero => rfl
  | succ fuel => rw [readValue, readValue, skipGap_append h]

theorem isGap_of_mem_lineBreak {level : Nat} {c : Char} (h : c ∈ lineBreak level) :
    isGap c = true := by
  rcases List.mem_cons.mp h with rfl | h
  · rfl
  · rw [List.eq_of_mem_replicate h]
    rfl

/-! ## Values -/

/-- A reader takes a text for a part, whatever follows it, if no number goes on there. -/
def Takes {α : Type} (read : List Char → Option (α × List Char)) (text : List Char) (part : α) :
    Prop :=
  ∀ rest, Ends rest → read (text ++ rest) = some (part, rest)

/-- A printed value is read back. -/
def ReadsBack (v : Json) : Prop :=
  ∀ fuel level, (prettyText level v).length ≤ fuel →
    Takes (readValue fuel) (prettyText level v) v

theorem ends_cons {c : Char} (h : c.isDigit = false ∧ c ≠ '.' ∧ c ≠ 'e' ∧ c ≠ 'E')
    (cs : List Char) : Ends (c :: cs) := by
  rintro d same
  obtain rfl := Option.some.inj same
  exact h

theorem ends_lineBreak (level : Nat) (cs : List Char) : Ends (lineBreak level ++ cs) :=
  ends_cons (by decide) _

theorem exists_of_readNumber {cs : List Char} {r : Json × List Char} (h : readNumber cs = some r) :
    ∃ c more, cs = c :: more ∧ (c = '-' ∨ c.isDigit = true) := by
  cases cs with
  | nil => cases h
  | cons c more =>
    refine ⟨c, more, rfl, ?_⟩
    by_contra other
    obtain ⟨notMinus, notDigit⟩ := not_or.mp other
    have unsigned : splitMinus (c :: more) = ([], c :: more) := by
      unfold splitMinus
      split
      · next same => exact absurd (List.cons.inj same).1 notMinus
      · rfl
    unfold readNumber at h
    rw [unsigned] at h
    simp [readDigits, notDigit] at h

theorem readValue_of_readNumber {cs : List Char} {r : Json × List Char} (fuel : Nat)
    (h : readNumber cs = some r) : readValue (fuel + 1) cs = some r := by
  obtain ⟨c, more, rfl, first⟩ := exists_of_readNumber h
  have no (d : Char) (other : d ≠ '-' ∧ d.isDigit = false) : c ≠ d := by
    rintro rfl
    rcases first with rfl | digit
    · exact other.1 rfl
    · rw [other.2] at digit
      cases digit
  have solid : isGap c = false := by
    simp [isGap, no ' ' (by decide), no '\t' (by decide), no '\n' (by decide),
      no '\r' (by decide)]
  have kept : skipGap (c :: more) = c :: more := List.dropWhile_cons_of_neg (by simp [solid])
  have noWord : readWord (c :: more) = none := by
    simp [readWord, words, (no 'n' (by decide)).symm, (no 't' (by decide)).symm,
      (no 'f' (by decide)).symm]
  rw [readValue, kept]
  split
  · next same => exact absurd (List.cons.inj same).1 (no '"' (by decide))
  · next same => exact absurd (List.cons.inj same).1 (no '[' (by decide))
  · next same => exact absurd (List.cons.inj same).1 (no '\x7b' (by decide))
  · rw [noWord, h]
    rfl

theorem readsBack_string (s : String) : ReadsBack (.string s) := by
  intro fuel level short rest _
  obtain ⟨fuel, rfl⟩ : ∃ k, fuel = k + 1 := Nat.exists_eq_succ_of_ne_zero (by
    rintro rfl
    cases short)
  have text : prettyText level (.string s) ++ rest =
      '"' :: (s.toList.flatMap (escapeChar false) ++ '"' :: rest) := by
    simp [prettyText, stringText]
  rw [text, readValue]
  show ((readString _).bind _) = _
  rw [readString_append]
  rfl

theorem skipGap_lineBreak (level : Nat) {c : Char} (h : isGap c = false) (cs : List Char) :
    skipGap (lineBreak level ++ c :: cs) = c :: cs := by
  rw [skipGap_append fun _ => isGap_of_mem_lineBreak]
  exact List.dropWhile_cons_of_neg (by simp [h])

/-! ## Parts -/

/-- A reader of parts that skips spaces and does not begin at the closing character. -/
structure Opens {α : Type} (read : List Char → Option (α × List Char)) (closing : Char) :
    Prop where
  skips : ∀ gap cs, (∀ c ∈ gap, isGap c = true) → read (gap ++ cs) = read cs
  refuses : ∀ cs, read (closing :: cs) = none
  closes : isGap closing = false ∧ closing ≠ ','

section

variable {α : Type} {read : List Char → Option (α × List Char)} {closing : Char}
  (h : Opens read closing)

include h

theorem readParts_gap {gap : List Char} (spaces : ∀ c ∈ gap, isGap c = true) (fuel : Nat)
    (cs : List Char) :
    readParts read closing fuel (gap ++ cs) = readParts read closing fuel cs := by
  cases fuel with
  | zero => rfl
  | succ fuel => rw [readParts, readParts, h.skips gap cs spaces]

/-- **Parts on lines of their own** are read up to the closing character. -/
theorem readParts_separated {texts : List (List Char)} {parts : List α}
    (taken : List.Forall₂ (Takes read) texts parts) (long : texts ≠ []) {fuel : Nat}
    (enough : texts.length ≤ fuel) (level outer : Nat) (rest : List Char) :
    readParts read closing fuel (separated (',' :: lineBreak level) texts ++
      (lineBreak outer ++ closing :: rest)) = some (parts, rest) := by
  induction taken generalizing fuel with
  | nil => exact absurd rfl long
  | @cons text part texts parts first others ih =>
    obtain ⟨fuel, rfl⟩ : ∃ k, fuel = k + 1 :=
      Nat.exists_eq_succ_of_ne_zero (Nat.pos_iff_ne_zero.mp (Nat.lt_of_lt_of_le
        (Nat.succ_pos _) enough))
    cases others with
    | nil =>
      have here := first (lineBreak outer ++ closing :: rest) (ends_lineBreak _ _)
      show readParts read closing (fuel + 1) (text ++ (lineBreak outer ++ closing :: rest)) = _
      rw [readParts, here]
      simp only [Option.bind_eq_bind, Option.bind_some, skipGap_lineBreak outer h.closes.1,
        if_neg h.closes.2, if_pos]
      rfl
    | @cons next _ texts _ _ _ =>
      have later := ih (List.cons_ne_nil _ _) (Nat.le_of_succ_le_succ enough)
      have here := first (',' :: (lineBreak level ++
        (separated (',' :: lineBreak level) (next :: texts) ++
          (lineBreak outer ++ closing :: rest)))) (ends_cons (by decide) _)
      have split : separated (',' :: lineBreak level) (text :: next :: texts) =
          text ++ (',' :: lineBreak level) ++ separated (',' :: lineBreak level) (next :: texts) :=
        rfl
      have comma (cs : List Char) : skipGap (',' :: cs) = ',' :: cs := rfl
      rw [split, List.append_assoc, List.append_assoc, List.cons_append, readParts, here]
      simp only [Option.bind_eq_bind, Option.bind_some, comma, if_pos,
        readParts_gap h fun _ => isGap_of_mem_lineBreak, later]
      rfl

theorem readBlock_of_readParts {fuel : Nat} {cs : List Char} {r : List α × List Char}
    (found : readParts read closing fuel cs = some r) :
    readBlock read closing fuel cs = some r := by
  have stripped : readParts read closing fuel (skipGap cs) = some r := by
    have whole : cs.takeWhile isGap ++ skipGap cs = cs := List.takeWhile_append_dropWhile
    rw [← whole, readParts_gap h fun c hc => List.all_eq_true.mp List.all_takeWhile c hc] at found
    exact found
  unfold readBlock
  rw [if_neg, stripped]
  intro first
  obtain ⟨more, same⟩ := List.head?_eq_some_iff.mp first
  cases fuel with
  | zero => cases stripped
  | succ fuel =>
    rw [same, readParts, h.refuses] at stripped
    cases stripped

/-- **A block of parts** is read behind its opening character. -/
theorem readBlock_block {texts : List (List Char)} {parts : List α}
    (taken : List.Forall₂ (Takes read) texts parts) {fuel : Nat} (enough : texts.length ≤ fuel)
    (level : Nat) (opening : Char) (rest : List Char) :
    ∃ inside, block level opening closing texts ++ rest = opening :: inside ∧
      readBlock read closing fuel inside = some (parts, rest) := by
  cases taken with
  | nil =>
    refine ⟨closing :: rest, rfl, ?_⟩
    have solid : skipGap (closing :: rest) = closing :: rest :=
      List.dropWhile_cons_of_neg (by simp [h.closes.1])
    unfold readBlock
    rw [solid]
    exact if_pos rfl
  | @cons text part texts parts first others =>
    have found := readParts_separated h (.cons first others) (List.cons_ne_nil text texts) enough
      (level + 1) level rest
    refine ⟨lineBreak (level + 1) ++ (separated (',' :: lineBreak (level + 1)) (text :: texts) ++
      (lineBreak level ++ closing :: rest)), ?_, readBlock_of_readParts h ?_⟩
    · simp [block]
    · rwa [readParts_gap h fun _ => isGap_of_mem_lineBreak]

end

/-! ## Arrays and objects -/

theorem length_le_separated {separator : List Char} (long : separator ≠ [])
    (texts : List (List Char)) :
    (∀ text ∈ texts, text.length ≤ (separated separator texts).length) ∧
      texts.length ≤ (separated separator texts).length + 1 := by
  induction texts with
  | nil => exact ⟨nofun, Nat.zero_le _⟩
  | cons text texts ih =>
    cases texts with
    | nil => exact ⟨List.forall_mem_singleton.mpr (Nat.le_refl _), Nat.succ_le_succ (Nat.zero_le _)⟩
    | cons next texts =>
      have split : separated separator (text :: next :: texts) =
          text ++ separator ++ separated separator (next :: texts) := rfl
      have positive := List.length_pos_iff.mpr long
      rw [split, List.length_append, List.length_append]
      refine ⟨List.forall_mem_cons.mpr ⟨by omega, fun other hother => ?_⟩, ?_⟩
      · have := ih.1 other hother
        omega
      · have := ih.2
        rw [List.length_cons]
        omega

theorem length_lt_block (level : Nat) (opening closing : Char) (texts : List (List Char)) :
    (∀ text ∈ texts, text.length < (block level opening closing texts).length) ∧
      texts.length < (block level opening closing texts).length := by
  obtain ⟨each, many⟩ := length_le_separated (List.cons_ne_nil ',' (lineBreak (level + 1))) texts
  unfold block
  cases texts with
  | nil => exact ⟨nofun, Nat.succ_pos 1⟩
  | cons text texts =>
    simp only [List.isEmpty_cons, Bool.false_eq_true, if_false, List.length_append,
      List.length_cons, List.length_nil] at many ⊢
    refine ⟨fun other hother => ?_, by omega⟩
    have := each other hother
    omega

theorem opens_readValue (fuel : Nat) : Opens (readValue fuel) ']' where
  skips gap cs spaces := readValue_gap spaces fuel cs
  refuses cs := by cases fuel <;> rfl
  closes := by decide

theorem opens_readField (fuel : Nat) : Opens (readField (readValue fuel)) '\x7d' where
  skips gap cs spaces := by
    unfold readField
    rw [skipGap_append spaces]
  refuses cs := rfl
  closes := by decide

theorem takes_items {items : List Json} (h : ∀ v ∈ items, ReadsBack v) {fuel level : Nat}
    (short : ∀ text ∈ prettyItems level items, text.length ≤ fuel) :
    List.Forall₂ (Takes (readValue fuel)) (prettyItems level items) items := by
  induction items with
  | nil => exact .nil
  | cons v items ih =>
    obtain ⟨first, others⟩ := List.forall_mem_cons.mp h
    obtain ⟨low, lower⟩ := List.forall_mem_cons.mp short
    exact .cons (first fuel level low) (ih others lower)

theorem takes_fields {fields : List (String × Json)} (h : ∀ field ∈ fields, ReadsBack field.2)
    {fuel level : Nat} (short : ∀ text ∈ prettyFields level fields, text.length ≤ fuel) :
    List.Forall₂ (Takes (readField (readValue fuel))) (prettyFields level fields) fields := by
  induction fields with
  | nil => exact .nil
  | cons field fields ih =>
    obtain ⟨key, v⟩ := field
    obtain ⟨first, others⟩ := List.forall_mem_cons.mp h
    obtain ⟨low, lower⟩ := List.forall_mem_cons.mp short
    refine .cons ?_ (ih others lower)
    intro rest ends
    have fits : (prettyText level v).length ≤ fuel := by
      rw [List.length_append] at low
      omega
    have value := first fuel level fits rest ends
    have text : stringText false key ++ [':', ' '] ++ prettyText level v ++ rest =
        '"' :: (key.toList.flatMap (escapeChar false) ++ '"' :: ':' ::
          ([' '] ++ (prettyText level v ++ rest))) := by simp [stringText]
    have blank : ∀ c ∈ [' '], isGap c = true := List.forall_mem_singleton.mpr rfl
    rw [text]
    show (readString _).bind _ = _
    rw [readString_append]
    show (readValue fuel ([' '] ++ _)).bind _ = _
    rw [readValue_gap blank, value]
    rfl

theorem exists_block {α : Type} {read : Nat → List Char → Option (α × List Char)} {closing : Char}
    {texts : List (List Char)} {parts : List α} (opens : ∀ fuel, Opens (read fuel) closing)
    (taken : ∀ fuel, (∀ text ∈ texts, text.length ≤ fuel) →
      List.Forall₂ (Takes (read fuel)) texts parts) {fuel level : Nat} {opening : Char}
    (short : (block level opening closing texts).length ≤ fuel) (rest : List Char) :
    ∃ k inside, fuel = k + 1 ∧ block level opening closing texts ++ rest = opening :: inside ∧
      readBlock (read k) closing k inside = some (parts, rest) := by
  obtain ⟨each, many⟩ := length_lt_block level opening closing texts
  obtain ⟨k, rfl⟩ : ∃ k, fuel = k + 1 := Nat.exists_eq_succ_of_ne_zero (by omega)
  have inside := taken k fun text mem =>
    Nat.le_of_lt_succ (Nat.lt_of_lt_of_le (each text mem) short)
  have enough : texts.length ≤ k := Nat.le_of_lt_succ (Nat.lt_of_lt_of_le many short)
  obtain ⟨cs, text, found⟩ := readBlock_block (opens k) inside enough level opening rest
  exact ⟨k, cs, rfl, text, found⟩

theorem readsBack_array {items : List Json} (h : ∀ v ∈ items, ReadsBack v) :
    ReadsBack (.array items) := by
  intro fuel level short rest _
  obtain ⟨k, inside, rfl, text, found⟩ :=
    exists_block opens_readValue (fun _ => takes_items h) short rest
  rw [prettyText, text]
  show (readBlock (readValue k) ']' k inside).bind _ = _
  rw [found]
  rfl

theorem readsBack_object {fields : List (String × Json)}
    (h : ∀ field ∈ fields, ReadsBack field.2) : ReadsBack (.object fields) := by
  intro fuel level short rest _
  obtain ⟨k, inside, rfl, text, found⟩ :=
    exists_block opens_readField (fun _ => takes_fields h) short rest
  rw [prettyText, text]
  show (readBlock (readField (readValue k)) '\x7d' k inside).bind _ = _
  rw [found]
  rfl

/-! ## Whole texts -/

theorem readsBack_of_readNumber {v : Json}
    (h : ∀ level rest, Ends rest → readNumber (prettyText level v ++ rest) = some (v, rest)) :
    ReadsBack v := by
  intro fuel level short rest ends
  obtain ⟨fuel, rfl⟩ : ∃ k, fuel = k + 1 := Nat.exists_eq_succ_of_ne_zero (by
    rintro rfl
    -- there is no number without a character
    have empty := List.length_eq_zero_iff.mp (Nat.le_zero.mp short)
    have read := h level [] nofun
    rw [empty] at read
    cases read)
  exact readValue_of_readNumber fuel (h level rest ends)

/-- **A printed value is read back** if its doubles are canonical. -/
theorem readsBack : ∀ j : Json, (∀ x ∈ j.doubles, x.Canonical) → ReadsBack j := by
  have word {v : Json} (text : List Char) (written : ∀ level, prettyText level v = text)
      (nonempty : text ≠ [])
      (read : ∀ fuel rest, readValue (fuel + 1) (text ++ rest) = some (v, rest)) : ReadsBack v := by
    intro fuel level short rest _
    rw [written] at short ⊢
    obtain ⟨fuel, rfl⟩ : ∃ k, fuel = k + 1 := Nat.exists_eq_succ_of_ne_zero (by
      rintro rfl
      exact nonempty (List.length_eq_zero_iff.mp (Nat.le_zero.mp short)))
    exact read fuel rest
  intro j
  induction j using induct with
  | null => exact fun _ => word "null".toList (fun _ => rfl) (by decide) fun _ _ => rfl
  | bool b =>
    cases b with
    | true => exact fun _ => word "true".toList (fun _ => rfl) (by decide) fun _ _ => rfl
    | false => exact fun _ => word "false".toList (fun _ => rfl) (by decide) fun _ _ => rfl
  | int n => exact fun _ => readsBack_of_readNumber fun _ _ ends => readNumber_intText n ends
  | double x =>
    intro canonical
    have known := canonical x (by simp [doubles])
    exact readsBack_of_readNumber fun _ _ ends => readNumber_doubleText known ends
  | string s => exact fun _ => readsBack_string s
  | array items ih =>
    intro canonical
    rw [doubles, doublesOfItems_eq] at canonical
    exact readsBack_array fun v hv =>
      ih v hv fun x hx => canonical x (List.mem_flatMap.mpr ⟨v, hv, hx⟩)
  | object fields ih =>
    intro canonical
    rw [doubles, doublesOfFields_eq] at canonical
    exact readsBack_object fun field hf =>
      ih field hf fun x hx => canonical x (List.mem_flatMap.mpr ⟨field, hf, hx⟩)

/-- **The text of a value stands for this value**, with spaces behind it. -/
theorem read?_pretty {j : Json} (h : ∀ x ∈ j.doubles, x.Canonical) (gap : List Char)
    (spaces : ∀ c ∈ gap, isGap c = true) :
    read? (j.pretty ++ String.ofList gap) = some j := by
  have ends : Ends gap := by
    intro c hc
    have mem : c ∈ gap := List.mem_of_mem_head? hc
    have known := spaces c mem
    simp only [isGap, Bool.or_eq_true, beq_iff_eq] at known
    rcases known with ((rfl | rfl) | rfl) | rfl <;> decide
  have none : skipGap gap = [] := List.dropWhile_eq_nil_iff.mpr spaces
  have text : (j.pretty ++ String.ofList gap).toList = prettyText 0 j ++ gap := by
    simp [pretty]
  have short : (prettyText 0 j).length ≤ (j.pretty ++ String.ofList gap).length := by
    rw [← String.length_toList, text, List.length_append]
    omega
  unfold read?
  rw [text, readsBack j h _ 0 short gap ends]
  exact if_pos none

end Scim.Json
