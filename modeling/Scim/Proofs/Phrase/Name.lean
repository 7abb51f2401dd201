import Scim.Proofs.Phrase.Leaf
import Scim.Proofs.Scan.Lexeme

/-!
# The texts of names

The text of a name is segments joined by dots, behind a schema and a colon if there is one.

* `Spelling`                the parts of the text of a name, with its `text` and its `path`;
* `exists_spelling`         every name that the scanner takes is such a text;
* `Spelling.exists_name?_append`    where such a text begins it takes no shorter one;
* `Spelling.name?_text`     so it takes every such text as a whole;
* `Spelling.named_text`     the attribute path of the text;
* `Spelling.fullName_path`  whose full name is the text.
-/

namespace Scim

open Lexeme

/-! ## Marks inside a text -/

namespace AttributePath

theorem splitLastColon_of_notMem {cs : List Char} (h : ':' ∉ cs) : splitLastColon cs = none := by
  induction cs with
  | nil => rfl
  | cons c cs ih =>
    obtain ⟨other, later⟩ := not_or.mp (mt List.mem_cons.mpr h)
    unfold splitLastColon
    rw [ih later]
    exact if_neg fun colon => other colon.symm

theorem splitLastColon_append (schema : List Char) {name : List Char} (h : ':' ∉ name) :
    splitLastColon (schema ++ ':' :: name) = some (schema, name) := by
  induction schema with
  | nil =>
    show splitLastColon (':' :: name) = _
    unfold splitLastColon
    rw [splitLastColon_of_notMem h]
    rfl
  | cons c schema ih =>
    show splitLastColon (c :: (schema ++ ':' :: name)) = _
    unfold splitLastColon
    rw [ih]

theorem partsAt_of_notMem {mark : Char} {cs : List Char} (h : mark ∉ cs) :
    partsAt mark cs = [cs] := by
  induction cs with
  | nil => rfl
  | cons c cs ih =>
    obtain ⟨other, later⟩ := not_or.mp (mt List.mem_cons.mpr h)
    unfold partsAt
    rw [if_neg fun same => other same.symm, ih later]

theorem partsAt_append {mark : Char} {part : List Char} (h : mark ∉ part) (cs : List Char) :
    partsAt mark (part ++ mark :: cs) = part :: partsAt mark cs := by
  induction part with
  | nil => exact if_pos rfl
  | cons c part ih =>
    obtain ⟨other, later⟩ := not_or.mp (mt List.mem_cons.mpr h)
    rw [List.cons_append, partsAt, if_neg fun same => other same.symm, ih later]

end AttributePath

/-! ## Segments -/

/-- A segment of a name. -/
def IsSegment (s : List Char) : Prop := s ≠ [] ∧ ∀ c ∈ s, isSegment c = true

/-- Segments joined by dots. -/
def dotted (segments : List (List Char)) : List Char := ['.'].intercalate segments

theorem dotted_singleton (s : List Char) : dotted [s] = s := List.intercalate_singleton

theorem dotted_cons_cons (s t : List Char) (segments : List (List Char)) :
    dotted (s :: t :: segments) = s ++ '.' :: dotted (t :: segments) := by
  rw [dotted, List.intercalate_cons_cons, List.append_assoc, List.singleton_append]
  rfl

theorem dotted_cons_head (c : Char) (s : List Char) (segments : List (List Char)) :
    dotted ((c :: s) :: segments) = c :: dotted (s :: segments) := by
  cases segments with
  | nil => rw [dotted_singleton, dotted_singleton]
  | cons t segments => rw [dotted_cons_cons, dotted_cons_cons, List.cons_append]

theorem mem_dotted {c : Char} {segments : List (List Char)} (h : c ∈ dotted segments) :
    c = '.' ∨ ∃ s ∈ segments, c ∈ s := by
  induction segments with
  | nil => cases h
  | cons s segments ih =>
    cases segments with
    | nil =>
      rw [dotted_singleton] at h
      exact .inr ⟨s, List.mem_singleton_self s, h⟩
    | cons t segments =>
      rw [dotted_cons_cons, List.mem_append, List.mem_cons] at h
      rcases h with here | dot | later
      · exact .inr ⟨s, List.mem_cons_self .., here⟩
      · exact .inl dot
      · refine (ih later).imp_right ?_
        rintro ⟨t, ht, mem⟩
        exact ⟨t, List.mem_cons_of_mem s ht, mem⟩

theorem exists_dotted (cs : List Char) :
    ∃ first segments, dottedTail cs = dotted (first :: segments) ∧
      (∀ c ∈ first, isSegment c = true) ∧ (∀ s ∈ segments, IsSegment s) ∧
      (cs.head?.any isSegment = true → first ≠ []) := by
  induction cs with
  | nil => exact ⟨[], [], rfl, List.forall_mem_nil _, List.forall_mem_nil _, nofun⟩
  | cons c cs ih =>
    obtain ⟨first, segments, text, inside, others, begins⟩ := ih
    by_cases segment : isSegment c = true
    · refine ⟨c :: first, segments, ?_, List.forall_mem_cons.mpr ⟨segment, inside⟩, others,
        fun _ => List.cons_ne_nil _ _⟩
      rw [dottedTail, if_pos segment, text, dotted_cons_head]
    · by_cases dot : c = '.' ∧ cs.head?.any isSegment = true
      · refine ⟨[], first :: segments, ?_, List.forall_mem_nil _,
          List.forall_mem_cons.mpr ⟨⟨begins dot.2, inside⟩, others⟩, fun head => absurd head segment⟩
        rw [dottedTail, if_neg segment, if_pos dot, text, dot.1, dotted_cons_cons, List.nil_append]
      · refine ⟨[], [], ?_, List.forall_mem_nil _, List.forall_mem_nil _,
          fun head => absurd head segment⟩
        rw [dottedTail, if_neg segment, if_neg dot]
        rfl

theorem exists_segments {cs text : List Char} (found : dotted? cs = some text) :
    ∃ segments, segments ≠ [] ∧ (∀ s ∈ segments, IsSegment s) ∧ dotted segments = text := by
  unfold dotted? at found
  split at found
  · next head =>
    obtain ⟨first, segments, text, inside, others, begins⟩ := exists_dotted cs
    obtain rfl := Option.some.inj found
    exact ⟨first :: segments, List.cons_ne_nil _ _,
      List.forall_mem_cons.mpr ⟨⟨begins head, inside⟩, others⟩, text.symm⟩
  · cases found

theorem dottedTail_append {s : List Char} (h : ∀ c ∈ s, isSegment c = true) (cs : List Char) :
    dottedTail (s ++ cs) = s ++ dottedTail cs := by
  induction s with
  | nil => rfl
  | cons c s ih =>
    obtain ⟨first, others⟩ := List.forall_mem_cons.mp h
    rw [List.cons_append, dottedTail, if_pos first, ih others, List.cons_append]

theorem head_dotted {s : List Char} (h : IsSegment s) (segments : List (List Char))
    (rest : List Char) : (dotted (s :: segments) ++ rest).head?.any isSegment = true := by
  obtain ⟨c, cs, rfl⟩ := List.exists_cons_of_ne_nil h.1
  rw [dotted_cons_head]
  exact h.2 c (List.mem_cons_self ..)

section

variable {segments : List (List Char)} (long : segments ≠ []) (h : ∀ s ∈ segments, IsSegment s)

include long h

theorem isPrefix_dottedTail_append (rest : List Char) :
    dotted segments <+: dottedTail (dotted segments ++ rest) := by
  induction segments with
  | nil => exact absurd rfl long
  | cons s segments ih =>
    obtain ⟨⟨-, inside⟩, others⟩ := List.forall_mem_cons.mp h
    cases segments with
    | nil =>
      rw [dotted_singleton, dottedTail_append inside]
      exact List.prefix_append _ _
    | cons t segments =>
      have head := head_dotted (others t (List.mem_cons_self ..)) segments rest
      rw [dotted_cons_cons, List.append_assoc, dottedTail_append inside, List.cons_append,
        dottedTail, if_neg (by decide), if_pos ⟨rfl, head⟩, List.prefix_append_right_inj,
        List.prefix_cons_inj]
      exact ih (List.cons_ne_nil _ _) others

theorem exists_dotted?_append (rest : List Char) :
    ∃ text, dotted? (dotted segments ++ rest) = some text ∧ dotted segments <+: text := by
  have whole := isPrefix_dottedTail_append long h rest
  obtain ⟨s, segments, rfl⟩ := List.exists_cons_of_ne_nil long
  refine ⟨_, ?_, whole⟩
  unfold dotted?
  rw [head_dotted (h s (List.mem_cons_self ..)), if_pos rfl]

theorem partsAt_dotted : AttributePath.partsAt '.' (dotted segments) = segments := by
  have noDot {s : List Char} (inside : ∀ c ∈ s, isSegment c = true) : '.' ∉ s :=
    fun mem => absurd (inside '.' mem) (by decide)
  induction segments with
  | nil => exact absurd rfl long
  | cons s segments ih =>
    obtain ⟨⟨-, inside⟩, others⟩ := List.forall_mem_cons.mp h
    cases segments with
    | nil => rw [dotted_singleton, AttributePath.partsAt_of_notMem (noDot inside)]
    | cons t segments =>
      rw [dotted_cons_cons, AttributePath.partsAt_append (noDot inside),
        ih (List.cons_ne_nil _ _) others]

omit long in
theorem colon_notMem_dotted : ':' ∉ dotted segments := by
  intro mem
  rcases mem_dotted mem with same | ⟨s, hs, inside⟩
  · cases same
  · have segment := (h s hs).2 ':' inside
    cases segment

end

/-! ## Schemas -/

theorem exists_schema {cs text : List Char} (found : qualifiedTail? cs = some text) :
    ∃ schema segments, (∀ c ∈ schema, isSchema c = true) ∧ segments ≠ [] ∧
      (∀ s ∈ segments, IsSegment s) ∧ schema ++ ':' :: dotted segments = text := by
  induction cs generalizing text with
  | nil => cases found
  | cons c cs ih =>
    rw [qualifiedTail?] at found
    split at found
    · next first =>
      split at found
      · next rest deeper =>
        obtain rfl := Option.some.inj found
        obtain ⟨schema, segments, inside, long, parts, rfl⟩ := ih deeper
        exact ⟨c :: schema, segments, List.forall_mem_cons.mpr ⟨first, inside⟩, long, parts, rfl⟩
      · split at found
        · next colon =>
          obtain ⟨name, dotted, rfl⟩ := Option.map_eq_some_iff.mp found
          obtain ⟨segments, long, parts, rfl⟩ := exists_segments dotted
          exact ⟨[], segments, List.forall_mem_nil _, long, parts, by rw [colon]; rfl⟩
        · cases found
    · cases found

theorem qualifiedTail?_of_notMem {cs : List Char} (h : ':' ∉ cs) : qualifiedTail? cs = none := by
  induction cs with
  | nil => rfl
  | cons c cs ih =>
    obtain ⟨other, later⟩ := not_or.mp (mt List.mem_cons.mpr h)
    rw [qualifiedTail?, ih later]
    dsimp only
    rw [if_neg fun colon : c = ':' => other colon.symm, ite_self]

theorem colon_mem_of_qualifiedTail? {cs text : List Char} (found : qualifiedTail? cs = some text) :
    ':' ∈ text := by
  obtain ⟨schema, segments, -, -, -, rfl⟩ := exists_schema found
  exact List.mem_append_right _ List.mem_cons_self

theorem colon_mem_of_qualified? {cs text : List Char} (found : qualified? cs = some text) :
    ':' ∈ text := by
  unfold qualified? at found
  split at found
  · cases found
  · split at found
    · obtain ⟨rest, tail, rfl⟩ := Option.map_eq_some_iff.mp found
      exact List.mem_cons_of_mem _ (colon_mem_of_qualifiedTail? tail)
    · cases found

theorem length_le_of_colon {cs short long : List Char} (hs : short <+: cs) (hl : long <+: cs)
    (free : ':' ∉ short) (mem : ':' ∈ long) : short.length ≤ long.length := by
  refine Nat.le_of_not_lt fun lt => free ?_
  exact (List.prefix_of_prefix_length_le hl hs (Nat.le_of_lt lt)).subset mem

section

variable {segments : List (List Char)} (long : segments ≠ []) (h : ∀ s ∈ segments, IsSegment s)

include long h

theorem exists_qualifiedTail?_append {schema : List Char} (hs : ∀ c ∈ schema, isSchema c = true)
    (rest : List Char) :
    ∃ text, qualifiedTail? (schema ++ ':' :: (dotted segments ++ rest)) = some text ∧
      (schema ++ ':' :: dotted segments).length ≤ text.length := by
  induction schema with
  | nil =>
    rw [List.nil_append, List.nil_append, qualifiedTail?, if_pos (by decide)]
    cases deeper : qualifiedTail? (dotted segments ++ rest) with
    | none =>
      obtain ⟨text, found, whole⟩ := exists_dotted?_append long h rest
      refine ⟨':' :: text, ?_, Nat.succ_le_succ whole.length_le⟩
      dsimp only
      rw [if_pos rfl, found]
      rfl
    | some text =>
      -- a later colon that a name follows
      refine ⟨':' :: text, rfl, Nat.succ_le_succ ?_⟩
      exact length_le_of_colon (List.prefix_append _ _) (prefixed_qualifiedTail? _ _ deeper).2
        (colon_notMem_dotted h) (colon_mem_of_qualifiedTail? deeper)
  | cons c schema ih =>
    obtain ⟨first, others⟩ := List.forall_mem_cons.mp hs
    obtain ⟨text, found, le⟩ := ih others
    refine ⟨c :: text, ?_, Nat.succ_le_succ le⟩
    rw [List.cons_append, qualifiedTail?, if_pos first, found]

end

/-! ## Names -/

/-- The parts of the text of a name. -/
structure Spelling where
  schema : Option (List Char)
  segments : List (List Char)
  segments_ne_nil : segments ≠ []
  isSegment : ∀ s ∈ segments, IsSegment s
  isSchema : ∀ s, schema = some s → s ≠ [] ∧ ∀ c ∈ s, Lexeme.isSchema c = true

namespace Spelling

def text (n : Spelling) : List Char :=
  match n.schema with
  | none => dotted n.segments
  | some schema => schema ++ ':' :: dotted n.segments

def path (n : Spelling) : AttributePath :=
  ⟨n.schema.map String.ofList, n.segments.map String.ofList⟩

/-- **No name at the start of a text is longer** than the one that the scanner takes there. -/
theorem exists_name?_append (n : Spelling) (rest : List Char) :
    ∃ text, name? (n.text ++ rest) = some text ∧ n.text.length ≤ text.length := by
  rw [name?_eq, text]
  cases named : n.schema with
  | none =>
    dsimp only
    cases qualified : qualified? (dotted n.segments ++ rest) with
    | none =>
      obtain ⟨text, found, whole⟩ := exists_dotted?_append n.segments_ne_nil n.isSegment rest
      exact ⟨text, found, whole.length_le⟩
    | some text =>
      refine ⟨text, rfl, ?_⟩
      exact length_le_of_colon (List.prefix_append _ _) (prefixed_qualified? _ _ qualified).2
        (colon_notMem_dotted n.isSegment) (colon_mem_of_qualified? qualified)
  | some schema =>
    obtain ⟨long, inside⟩ := n.isSchema schema named
    obtain ⟨c, schema, rfl⟩ := List.exists_cons_of_ne_nil long
    obtain ⟨first, others⟩ := List.forall_mem_cons.mp inside
    obtain ⟨text, found, le⟩ :=
      exists_qualifiedTail?_append n.segments_ne_nil n.isSegment others rest
    refine ⟨c :: text, ?_, Nat.succ_le_succ le⟩
    dsimp only
    rw [List.append_assoc, List.cons_append, List.cons_append, qualified?, if_pos first, found]
    rfl

/-- **The scanner takes the text of a name as a whole.** -/
theorem name?_text (n : Spelling) : name? n.text = some n.text := by
  obtain ⟨text, found, le⟩ := n.exists_name?_append []
  rw [List.append_nil] at found
  have part := (prefixed_name? _ _ found).2
  rw [found, part.eq_of_length (Nat.le_antisymm part.length_le le)]

/-- **The attribute path of the text of a name** has its parts. -/
theorem named_text (n : Spelling) : AttributePath.named n.text = n.path := by
  have free := colon_notMem_dotted n.isSegment
  have parts := partsAt_dotted n.segments_ne_nil n.isSegment
  rw [AttributePath.named, text, path]
  cases n.schema with
  | none =>
    dsimp only
    rw [AttributePath.splitLastColon_of_notMem free]
    dsimp only
    rw [parts]
    rfl
  | some schema =>
    dsimp only
    rw [AttributePath.splitLastColon_append schema free]
    dsimp only
    rw [parts]
    rfl

/-- **The full name of an attribute path** is the text of its name. -/
theorem fullName_path (n : Spelling) : n.path.fullName.toList = n.text := by
  have name : n.path.name.toList = dotted n.segments := by
    have same : String.toList ∘ String.ofList = id := funext fun _ => String.toList_ofList
    rw [AttributePath.name, String.toList_intercalate, path, List.map_map, same, List.map_id]
    rfl
  rw [AttributePath.fullName, text]
  cases named : n.schema with
  | none =>
    have bare : n.path.schema = none := by rw [path, named, Option.map_none]
    rw [bare]
    exact name
  | some schema =>
    have found : n.path.schema = some (String.ofList schema) := by
      rw [path, named, Option.map_some]
    have long : (String.ofList schema).isEmpty = false :=
      String.isEmpty_eq_false_iff.mpr fun none =>
        (n.isSchema schema named).1 (String.ofList_eq_empty_iff.mp none)
    rw [found]
    dsimp only
    rw [long, if_neg Bool.false_ne_true, String.toList_append, String.toList_append, name,
      String.toList_ofList, List.append_assoc]
    rfl

end Spelling

/-- **A name that the scanner takes** is the text of its parts. -/
theorem exists_spelling {cs text : List Char} (found : name? cs = some text) :
    ∃ n : Spelling, n.text = text := by
  rw [name?_eq, Option.or_eq_some_iff] at found
  rcases found with found | ⟨-, found⟩
  · cases cs with
    | nil => cases found
    | cons c cs =>
      rw [qualified?] at found
      split at found
      · next first =>
        obtain ⟨rest, tail, rfl⟩ := Option.map_eq_some_iff.mp found
        obtain ⟨schema, segments, inside, long, parts, rfl⟩ := exists_schema tail
        refine ⟨⟨some (c :: schema), segments, long, parts, ?_⟩, rfl⟩
        rintro s same
        obtain rfl := Option.some.inj same
        exact ⟨List.cons_ne_nil _ _, List.forall_mem_cons.mpr ⟨first, inside⟩⟩
      · cases found
  · obtain ⟨segments, long, parts, rfl⟩ := exists_segments found
    exact ⟨⟨none, segments, long, parts, nofun⟩, rfl⟩

end Scim
