import Scim.Proofs.Scan.Margin

/-!
# Texts with other blanks

Two texts that differ in their runs of blanks outside of strings.

* `Respaced cs cs'`          every run of blanks outside of strings may be another one;
* `Respaced.of_solid`, `Respaced.of_blank`, `Respaced.of_quote`
                             the two texts by the first character of one;
* `Respaced.front`           the blanks in front, and what stands behind them;
* `Respaced.read_eq`         what does not go on over a blank is the same in both.
-/

namespace Scim

open Text Lexeme

/-! ## Runs of blanks -/

/-- A character that is neither a blank nor a quotation mark. -/
def isSolid (c : Char) : Bool := !isBlank c && c != '"'

theorem isSolid_iff {c : Char} : isSolid c = true ↔ isBlank c = false ∧ c ≠ '"' := by
  simp [isSolid]

/-- The same text with other blanks: outside of strings every run of blanks may be another one.  A
quotation mark without a partner begins no string. -/
inductive Respaced : List Char → List Char → Prop where
  | nil : Respaced [] []
  | solid {c : Char} {cs cs' : List Char} : isSolid c = true → Respaced cs cs' →
      Respaced (c :: cs) (c :: cs')
  | string {body cs cs' : List Char} : '"' ∉ body → Respaced cs cs' →
      Respaced ('"' :: (body ++ '"' :: cs)) ('"' :: (body ++ '"' :: cs'))
  | unpaired {cs cs' : List Char} : '"' ∉ cs → Respaced cs cs' →
      Respaced ('"' :: cs) ('"' :: cs')
  | blanks {w w' cs cs' : List Char} : w ≠ [] → w' ≠ [] → (∀ c ∈ w, isBlank c = true) →
      (∀ c ∈ w', isBlank c = true) → (∀ c ∈ cs.head?, isBlank c = false) → Respaced cs cs' →
      Respaced (w ++ cs) (w' ++ cs')

/-- Two runs of blanks, both empty or none. -/
structure BlankRuns (w w' : List Char) : Prop where
  first : ∀ c ∈ w, isBlank c = true
  second : ∀ c ∈ w', isBlank c = true
  nil_iff : w = [] ↔ w' = []

theorem blankRuns_nil : BlankRuns [] [] :=
  ⟨List.forall_mem_nil _, List.forall_mem_nil _, Iff.rfl⟩

theorem head_append_of_blank {w s : List Char} (hw : ∀ c ∈ w, isBlank c = true) (long : w ≠ []) :
    ∀ c ∈ (w ++ s).head?, isBlank c = true := by
  cases w with
  | nil => exact absurd rfl long
  | cons d w =>
    intro c hc
    obtain rfl := Option.some.inj hc
    exact hw d List.mem_cons_self

theorem takeWhile_blank_eq_nil_iff {s : List Char} :
    s.takeWhile isBlank = [] ↔ ∀ c ∈ s.head?, isBlank c = false := by
  cases s with
  | nil => simp
  | cons c s => simp [List.takeWhile_cons]

theorem takeWhile_blank_append_of_head {w s : List Char} (hw : ∀ c ∈ w, isBlank c = true)
    (hs : ∀ c ∈ s.head?, isBlank c = false) : (w ++ s).takeWhile isBlank = w := by
  rw [List.takeWhile_append_of_pos hw, takeWhile_blank_eq_nil_iff.mpr hs, List.append_nil]

theorem dropWhile_blank_append_of_head {w s : List Char} (hw : ∀ c ∈ w, isBlank c = true)
    (hs : ∀ c ∈ s.head?, isBlank c = false) : (w ++ s).dropWhile isBlank = s := by
  rw [List.dropWhile_append_of_pos hw, dropWhile_blank_of_head hs]

namespace Respaced

variable {cs cs' : List Char}

/-! ## Parts of texts with other blanks -/

theorem head?_eq (h : Respaced cs cs') (head : ∀ c ∈ cs.head?, isBlank c = false) :
    cs'.head? = cs.head? := by
  cases h with
  | nil => rfl
  | solid _ _ => rfl
  | string _ _ => rfl
  | unpaired _ _ => rfl
  | @blanks w _ cs _ long _ hw _ _ _ =>
    obtain ⟨c, w, rfl⟩ := List.exists_cons_of_ne_nil long
    have blank := hw c List.mem_cons_self
    rw [head c rfl] at blank
    cases blank

theorem head_solid (h : Respaced cs cs') (head : ∀ c ∈ cs.head?, isBlank c = false) :
    ∀ c ∈ cs'.head?, isBlank c = false := by
  rw [h.head?_eq head]
  exact head

theorem eq_nil (h : Respaced [] cs') : cs' = [] := by
  generalize none : ([] : List Char) = cs at h
  cases h with
  | nil => rfl
  | blanks long _ _ _ _ _ => exact absurd (List.append_eq_nil_iff.mp none.symm).1 long
  | _ => cases none

theorem of_solid {c : Char} {x : List Char} (h : Respaced (c :: cs) x) (hc : isSolid c = true) :
    ∃ cs', x = c :: cs' ∧ Respaced cs cs' := by
  obtain ⟨notBlank, notQuote⟩ := isSolid_iff.mp hc
  generalize whole : c :: cs = y at h
  cases h with
  | nil => cases whole
  | solid _ rest =>
    obtain ⟨rfl, rfl⟩ := List.cons.inj whole
    exact ⟨_, rfl, rest⟩
  | string _ _ => exact absurd (List.cons.inj whole).1 notQuote
  | unpaired _ _ => exact absurd (List.cons.inj whole).1 notQuote
  | blanks long _ hw _ _ _ =>
    have blank := head_append_of_blank hw long c (by rw [← whole]; rfl)
    rw [notBlank] at blank
    cases blank

theorem of_solid_append {text r x : List Char} (solid : ∀ c ∈ text, isSolid c = true)
    (h : Respaced (text ++ r) x) : ∃ r', x = text ++ r' ∧ Respaced r r' := by
  induction text generalizing x with
  | nil => exact ⟨x, rfl, h⟩
  | cons c text ih =>
    obtain ⟨x, rfl, rest⟩ := of_solid h (solid c List.mem_cons_self)
    obtain ⟨r', rfl, behind⟩ := ih (fun d hd => solid d (List.mem_cons_of_mem c hd)) rest
    exact ⟨r', rfl, behind⟩

theorem solid_append {text r r' : List Char} (solid : ∀ c ∈ text, isSolid c = true)
    (h : Respaced r r') : Respaced (text ++ r) (text ++ r') := by
  induction text with
  | nil => exact h
  | cons c text ih =>
    exact .solid (solid c List.mem_cons_self) (ih fun d hd => solid d (List.mem_cons_of_mem c hd))

theorem of_blank {c : Char} {x : List Char} (h : Respaced (c :: cs) x) (hc : isBlank c = true) :
    ∃ w w' s s', c :: cs = w ++ s ∧ x = w' ++ s' ∧ w ≠ [] ∧ BlankRuns w w' ∧
      (∀ c ∈ s.head?, isBlank c = false) ∧ Respaced s s' := by
  generalize whole : c :: cs = y at h
  cases h with
  | nil => cases whole
  | solid hd _ =>
    obtain ⟨rfl, -⟩ := List.cons.inj whole
    rw [(isSolid_iff.mp hd).1] at hc
    cases hc
  | string _ _ | unpaired _ _ =>
    rw [(List.cons.inj whole).1] at hc
    cases hc
  | blanks long long' hw hw' head rest =>
    exact ⟨_, _, _, _, rfl, rfl, long, ⟨hw, hw', by simp [long, long']⟩, head, rest⟩

theorem blankRuns_append {w w' : List Char} (runs : BlankRuns w w')
    (head : ∀ c ∈ cs.head?, isBlank c = false) (h : Respaced cs cs') :
    Respaced (w ++ cs) (w' ++ cs') := by
  by_cases none : w = []
  · rw [none, runs.nil_iff.mp none]
    exact h
  · exact .blanks none (mt runs.nil_iff.mpr none) runs.first runs.second head h

theorem front (h : Respaced cs cs') :
    BlankRuns (cs.takeWhile isBlank) (cs'.takeWhile isBlank) ∧
      Respaced (cs.dropWhile isBlank) (cs'.dropWhile isBlank) := by
  by_cases blank : ∃ c ∈ cs.head?, isBlank c = true
  · obtain ⟨c, first, hc⟩ := blank
    obtain ⟨cs, rfl⟩ := List.head?_eq_some_iff.mp first
    obtain ⟨w, w', s, s', rfl', rfl, -, runs, head, rest⟩ := of_blank h hc
    have head' := rest.head_solid head
    rw [rfl', takeWhile_blank_append_of_head runs.first head,
      takeWhile_blank_append_of_head runs.second head',
      dropWhile_blank_append_of_head runs.first head,
      dropWhile_blank_append_of_head runs.second head']
    exact ⟨runs, rest⟩
  · have head : ∀ c ∈ cs.head?, isBlank c = false := by simpa using blank
    have head' := h.head_solid head
    rw [takeWhile_blank_eq_nil_iff.mpr head, takeWhile_blank_eq_nil_iff.mpr head',
      dropWhile_blank_of_head head, dropWhile_blank_of_head head']
    exact ⟨blankRuns_nil, h⟩

theorem quote_notMem (h : Respaced cs cs') (free : '"' ∉ cs) : '"' ∉ cs' := by
  induction h with
  | nil => exact free
  | solid _ _ ih =>
    obtain ⟨here, later⟩ := not_or.mp (mt List.mem_cons.mpr free)
    exact mt List.mem_cons.mp (not_or.mpr ⟨here, ih later⟩)
  | string _ _ _ => exact absurd List.mem_cons_self free
  | unpaired _ _ _ => exact absurd List.mem_cons_self free
  | blanks _ _ _ hw' _ _ ih =>
    intro mem
    rcases List.mem_append.mp mem with mem | mem
    · have blank := hw' _ mem
      cases blank
    · exact ih (fun quote => free (List.mem_append_right _ quote)) mem

theorem symm (h : Respaced cs cs') : Respaced cs' cs := by
  induction h with
  | nil => exact .nil
  | solid hc _ ih => exact .solid hc ih
  | string free _ ih => exact .string free ih
  | unpaired free rest ih => exact .unpaired (rest.quote_notMem free) ih
  | blanks long long' hw hw' head rest ih =>
    exact .blanks long' long hw' hw (rest.head_solid head) ih

theorem blank (h : Respaced cs cs') (hb : ∀ c ∈ cs, isBlank c = true) :
    ∀ c ∈ cs', isBlank c = true := by
  induction h with
  | nil => exact hb
  | solid hc _ _ =>
    have here := hb _ List.mem_cons_self
    rw [(isSolid_iff.mp hc).1] at here
    cases here
  | string _ _ _ | unpaired _ _ _ =>
    have here := hb '"' List.mem_cons_self
    cases here
  | blanks _ _ _ hw' _ _ ih =>
    intro c mem
    rcases List.mem_append.mp mem with mem | mem
    · exact hw' c mem
    · exact ih (fun d hd => hb d (List.mem_append_right _ hd)) c mem

theorem of_quote {x : List Char} (h : Respaced ('"' :: cs) x) :
    (∃ body r r', '"' ∉ body ∧ cs = body ++ '"' :: r ∧ x = '"' :: (body ++ '"' :: r') ∧
      Respaced r r') ∨ ∃ cs', x = '"' :: cs' ∧ '"' ∉ cs ∧ '"' ∉ cs' := by
  generalize whole : '"' :: cs = y at h
  cases h with
  | nil => cases whole
  | solid hc _ =>
    obtain ⟨rfl, -⟩ := List.cons.inj whole
    exact absurd rfl (isSolid_iff.mp hc).2
  | string free rest => exact .inl ⟨_, _, _, free, (List.cons.inj whole).2, rfl, rest⟩
  | unpaired free rest =>
    obtain ⟨-, rfl⟩ := List.cons.inj whole
    exact .inr ⟨_, rfl, free, rest.quote_notMem free⟩
  | blanks long _ hw _ _ _ =>
    have blank := head_append_of_blank hw long '"' (by rw [← whole]; rfl)
    cases blank

theorem exists_common (h : Respaced cs cs') :
    ∃ a b b', cs = a ++ b ∧ cs' = a ++ b' ∧ Stops b ∧ Stops b' := by
  induction h with
  | nil => exact ⟨[], [], [], rfl, rfl, stops_nil, stops_nil⟩
  | @solid c _ _ _ _ ih =>
    obtain ⟨a, b, b', rfl, rfl, stops, stops'⟩ := ih
    exact ⟨c :: a, b, b', rfl, rfl, stops, stops'⟩
  | @string body _ _ _ _ ih =>
    obtain ⟨a, b, b', rfl, rfl, stops, stops'⟩ := ih
    exact ⟨'"' :: (body ++ '"' :: a), b, b', by simp, by simp, stops, stops'⟩
  | unpaired _ _ ih =>
    obtain ⟨a, b, b', rfl, rfl, stops, stops'⟩ := ih
    exact ⟨'"' :: a, b, b', rfl, rfl, stops, stops'⟩
  | @blanks w w' cs cs' long long' hw hw' _ _ _ =>
    have stops {v s : List Char} (hv : ∀ c ∈ v, isBlank c = true) (hl : v ≠ []) : Stops (v ++ s) :=
      fun c hc => isStop_of_isBlank (head_append_of_blank hv hl c hc)
    exact ⟨[], w ++ cs, w' ++ cs', rfl, rfl, stops hw long, stops hw' long'⟩

/-- **A run that does not go on over a blank** is the same in both texts. -/
theorem read_eq {α : Type} {read : List Char → α} (h : Respaced cs cs')
    (cut : ∀ a b, Stops b → read (a ++ b) = read a) : read cs' = read cs := by
  obtain ⟨a, b, b', rfl, rfl, stops, stops'⟩ := h.exists_common
  rw [cut a b stops, cut a b' stops']

end Respaced

end Scim
