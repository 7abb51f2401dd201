import Scim.Proofs.Parse.Target
import Scim.Proofs.Phrase.Lone
import Scim.Proofs.Phrase.Parts

/-!
# The attributes of accepted texts

* `IsLone.parse_path`              a path whose full name is a name on its own is read back from it;
* `isLone_comparison`, `isLone_path`, `isLone_valuePath`
                                   the paths of accepted texts are such paths;
* `Node.references`                the full names in a tree, with repetitions;
* `pairwise_idxOf_eraseDups`       a list without its repetitions is in the order of the first
                                   occurrences;
* `Mode.parse_fullName`            the attribute paths of an accepted text and the list of its
                                   attributes.
-/

namespace Scim

open Grammar Descent Phrase

/-! ## Reading full names -/

/-- **A full name on its own** is read back as its path. -/
theorem AttributePath.IsLone.parse_path {p : AttributePath} (h : p.IsLone) :
    Path.parse .unlimited p.fullName = .ok (some (.path p)) := by
  obtain ⟨n, lone, rfl⟩ := h
  let name : Token := ⟨.name, n.text, 0⟩
  have text : n.path.fullName.toList = n.text := n.fullName_path
  have tiles : Tiles .path 0 (n.text ++ []) [name] :=
    .token (by rw [List.append_nil]; exact lone.lexeme? .path) (.nil _)
  rw [List.append_nil] at tiles
  refine Path.parse_path_iff.mpr ⟨name, ?_, rfl, ?_⟩
  · rw [text]
    exact tiles.scan_eq
  · exact n.named_text.symm

/-! ## The paths of accepted texts -/

theorem Tiles.isSegment_sub {mode : Mode} {p : Int} {cs : List Char} {ts : List Token} {t : Token}
    (h : Tiles mode p cs ts) (mem : t ∈ ts) (isSub : t.kind = .subAttribute) :
    IsSegment (t.text.drop 1) := by
  obtain ⟨before, after, rfl⟩ := List.append_of_mem mem
  obtain ⟨u, v, -, -, found, -⟩ := h.split
  have run := (Mode.exists_of_lexeme?_eq_some found).1
  rw [isSub] at run
  obtain ⟨s, w, -, text, segment, -⟩ := Lexeme.subAttribute?_eq_some_iff.mp run
  rw [text]
  exact segment

section

variable {mode : Mode} {n : Node} {cs : List Char} {ts : List Token}
  (tiles : Tiles mode 0 cs ts) (h : mode.Derives (some n) ts)

include tiles h

/-- **The attributes of comparisons** have full names on their own. -/
theorem Mode.Derives.isLone_comparison : ∀ c ∈ n.comparisons, c.path.IsLone := by
  have names : ∀ t ∈ ts, t.kind = .name → (pathOf t).IsLone := fun t => tiles.isLone_pathOf
  have closed : ∀ p q : AttributePath, p.IsLone → q.IsLone → (p.under q).IsLone :=
    fun _ _ => .under
  cases mode with
  | filter =>
    obtain ⟨c, valid, rfl, rfl⟩ := h
    exact valid.forall_path closed names
  | path =>
    cases h with
    | simple _ => exact List.forall_mem_nil _
    | @valuePath name _ _ _ _ isName _ bracketed _ =>
      obtain ⟨_, valid, _⟩ := bracketed
      refine forall_path_under closed valid.plain_tree (names name List.mem_cons_self isName) ?_
      exact valid.forall_path closed fun t ht => names t (by simp [ht])

theorem Mode.Derives.isLone_path {p : AttributePath} (same : n = .path p) : p.IsLone := by
  subst same
  cases mode with
  | filter =>
    obtain ⟨c, valid, tree, rfl⟩ := h
    have normal := valid.normal tiles.lexed
    rw [tree] at normal
    cases normal
  | path =>
    obtain ⟨name, rfl, isName, rfl⟩ := derivedTarget_path_iff.mp h
    exact tiles.isLone_pathOf List.mem_cons_self isName

/-- **The attribute of a value path** has one too, and the sub-attribute behind it is a segment. -/
theorem Mode.Derives.isLone_valuePath {p : AttributePath} {inner : Node} {sub : String}
    (same : n = .valuePath p inner (some sub)) : p.IsLone ∧ IsSegment sub.toList := by
  subst same
  cases mode with
  | filter =>
    obtain ⟨c, valid, tree, rfl⟩ := h
    have normal := valid.normal tiles.lexed
    rw [tree] at normal
    cases normal
  | path =>
    obtain ⟨front, t, rfl, isSub, rfl, target⟩ := derivedTarget_sub_iff.mp h
    obtain ⟨⟨name, rest, rfl, isName⟩, -⟩ := derivedTarget_valuePath_iff.mp target
    have segment := tiles.isSegment_sub (List.mem_append_right _ (List.mem_singleton_self t)) isSub
    cases target with
    | valuePath _ _ _ _ =>
      rw [String.toList_ofList]
      exact ⟨tiles.isLone_pathOf List.mem_cons_self isName, segment⟩

end

/-! ## Lists without repetitions -/

theorem idxOf_lt_of_filter {α : Type} [BEq α] [LawfulBEq α] {l : List α} {a x y : α} (hx : x ≠ a)
    (hy : y ≠ a) (h : (l.filter (!· == a)).idxOf x < (l.filter (!· == a)).idxOf y) :
    l.idxOf x < l.idxOf y := by
  induction l with
  | nil => exact h
  | cons b l ih =>
    by_cases same : b = a
    · subst same
      rw [List.filter_cons_of_neg (by simp)] at h
      rw [List.idxOf_cons_ne _ hx.symm, List.idxOf_cons_ne _ hy.symm]
      exact Nat.succ_lt_succ (ih h)
    · rw [List.filter_cons_of_pos (by simpa using same)] at h
      by_cases first : b = x
      · subst first
        rw [List.idxOf_cons_self] at h ⊢
        by_cases second : b = y
        · subst second
          rw [List.idxOf_cons_self] at h
          exact absurd h (Nat.lt_irrefl 0)
        · rw [List.idxOf_cons_ne _ second]
          exact Nat.succ_pos _
      · by_cases second : b = y
        · subst second
          rw [List.idxOf_cons_self] at h
          exact absurd h (Nat.not_lt_zero _)
        · rw [List.idxOf_cons_ne _ first, List.idxOf_cons_ne _ second] at h ⊢
          exact Nat.succ_lt_succ (ih (Nat.lt_of_succ_lt_succ h))

/-- **A list without its repetitions** is in the order of the first occurrences. -/
theorem pairwise_idxOf_eraseDups {α : Type} [BEq α] [LawfulBEq α] (l : List α) :
    l.eraseDups.Pairwise fun a b => l.idxOf a < l.idxOf b := by
  induction size : l.length using Nat.strongRecOn generalizing l with
  | ind n ih =>
    subst size
    cases l with
    | nil => exact .nil
    | cons a l =>
      have others : ∀ b ∈ (l.filter (!· == a)).eraseDups, b ≠ a := by
        intro b mem
        simpa using (List.mem_filter.mp (List.mem_eraseDups.mp mem)).2
      have short : (l.filter (!· == a)).length < (a :: l).length :=
        Nat.lt_succ_of_le (List.length_filter_le _ l)
      rw [List.eraseDups_cons, List.pairwise_cons]
      constructor
      · intro b mem
        rw [List.idxOf_cons_self, List.idxOf_cons_ne _ (others b mem).symm]
        exact Nat.succ_pos _
      · refine (ih _ short _ rfl).imp_of_mem ?_
        intro x y hx hy before
        have hx := others x hx
        have hy := others y hy
        rw [List.idxOf_cons_ne _ hx.symm, List.idxOf_cons_ne _ hy.symm]
        exact Nat.succ_lt_succ (idxOf_lt_of_filter hx hy before)

/-! ## The list of attributes -/

/-- The full names that a tree refers to, with repetitions: that of an attribute path, or those of
the comparisons and last that of the sub-attribute of a value path. -/
def Node.references : Node → List String
  | path p => [p.fullName]
  | valuePath p inner (some sub) =>
    (inner.comparisons.map fun c => c.path.fullName) ++ [p.fullName ++ "." ++ sub]
  | n => n.comparisons.map fun c => c.path.fullName

theorem Node.attributes_eq {n : Node} (h : ∀ p inner, n ≠ .valuePath p inner (some "")) :
    n.attributes = n.references.eraseDups := by
  cases n with
  | valuePath p inner sub =>
    cases sub with
    | none => rfl
    | some sub =>
      have long : sub.isEmpty = false :=
        String.isEmpty_eq_false_iff.mpr fun none => h p inner (by rw [none])
      simp only [Node.attributes, Node.references, long, Bool.false_eq_true, if_false]
  | path p =>
    show [p.fullName] = [p.fullName].eraseDups
    rw [List.eraseDups_cons]
    rfl
  | _ => rfl

/-- **The attribute paths of an accepted text.**  The path of every comparison, with the attribute
of the brackets around it if there are any, is what its full name is a path of, and so is the path
of an attribute.  The list of attributes holds each full name that the tree refers to once, in the
order of the first occurrences, and each is that of the attribute path that it is a path of. -/
theorem Mode.parse_fullName (mode : Mode) (text : String) (n : Node)
    (accepted : mode.parse .unlimited text = .ok (some n)) :
    (∀ c ∈ n.comparisons, Path.parse .unlimited c.path.fullName = .ok (some (.path c.path))) ∧
      (∀ p, n = .path p → Path.parse .unlimited p.fullName = .ok (some (.path p))) ∧
      n.attributes.Nodup ∧ (∀ a, a ∈ n.attributes ↔ a ∈ n.references) ∧
      (n.attributes.Pairwise fun a b => n.references.idxOf a < n.references.idxOf b) ∧
      ∀ a ∈ n.attributes, ∃ p, Path.parse .unlimited a = .ok (some (.path p)) ∧ p.fullName = a := by
  obtain ⟨ts, tiles, derives⟩ := Mode.parse_eq_ok_iff_exists.mp accepted
  have comparisons := derives.isLone_comparison tiles
  have list : n.attributes = n.references.eraseDups := by
    refine Node.attributes_eq fun p inner same => ?_
    exact (derives.isLone_valuePath tiles same).2.1 rfl
  have order := pairwise_idxOf_eraseDups n.references
  have alone : ∀ a ∈ n.references, ∃ p : AttributePath, p.IsLone ∧ p.fullName = a := by
    have names : ∀ a ∈ n.comparisons.map (fun c => c.path.fullName),
        ∃ p : AttributePath, p.IsLone ∧ p.fullName = a := by
      intro a mem
      obtain ⟨c, inside, rfl⟩ := List.mem_map.mp mem
      exact ⟨c.path, comparisons c inside, rfl⟩
    intro a mem
    cases n with
    | path p =>
      obtain rfl := List.mem_singleton.mp mem
      exact ⟨p, derives.isLone_path tiles rfl, rfl⟩
    | valuePath p inner sub =>
      cases sub with
      | none => exact names a mem
      | some sub =>
        obtain ⟨lone, segment⟩ := derives.isLone_valuePath tiles rfl
        rcases List.mem_append.mp mem with mem | mem
        · exact names a mem
        · obtain rfl := List.mem_singleton.mp mem
          exact ⟨p.append sub, lone.append segment, lone.fullName_append segment⟩
    | _ => exact names a mem
  rw [list]
  refine ⟨fun c mem => (comparisons c mem).parse_path,
    fun p same => (derives.isLone_path tiles same).parse_path, ?_, fun a => List.mem_eraseDups,
    order, ?_⟩
  · exact order.imp fun before same => absurd before (by rw [same]; exact Nat.lt_irrefl _)
  · intro a mem
    obtain ⟨p, lone, rfl⟩ := alone a (List.mem_eraseDups.mp mem)
    exact ⟨p, lone.parse_path, rfl⟩

/-- a schema, and a path of two names behind it -/
theorem Mode.parse_fullName_brackets :
    let n : Node := .valuePath ⟨some "u:v", ["a"]⟩
      (.comparison ⟨⟨some "u:v", ["a", "b", "c"]⟩, .pr, .null⟩) (some "d")
    Mode.path.parse .unlimited "u:v:a[b.c pr].d" = .ok (some n) ∧
      Path.parse .unlimited "u:v:a.b.c" = .ok (some (.path ⟨some "u:v", ["a", "b", "c"]⟩)) ∧
      n.attributes = ["u:v:a.b.c", "u:v:a.d"] ∧
      ∃ p, Path.parse .unlimited "u:v:a.d" = .ok (some (.path p)) ∧ p.fullName = "u:v:a.d" := by
  intro n
  let outer : Token := ⟨.name, "u:v:a".toList, 0⟩
  let opening : Token := ⟨.openBracket, ['['], 5⟩
  let name : Token := ⟨.name, "b.c".toList, 6⟩
  let pr : Token := ⟨.comparison, [' ', 'p', 'r'], 9⟩
  let closing : Token := ⟨.closeBracket, [']'], 12⟩
  let sub : Token := ⟨.subAttribute, ['.', 'd'], 13⟩
  have tokens : scan .path "u:v:a[b.c pr].d".toList 0 =
      .ok [outer, opening, name, pr, closing, sub] := by rfl
  have presence : (Chain.mk (.presence name pr) .nil).Valid .brackets :=
    .mk (.presence rfl rfl (by decide)) .nil
  have brackets : Bracketed (pathOf outer) [sub] _ [opening, name, pr, closing, sub] :=
    .mk (by rfl) presence (by rfl)
  have behind : SubAttribute (some "d") [sub] := @SubAttribute.some sub rfl
  have accepted : Mode.path.parse .unlimited "u:v:a[b.c pr].d" = .ok (some n) :=
    (Mode.parse_eq_ok_iff tokens).mpr (.valuePath (by rfl) (by rfl) brackets behind)
  obtain ⟨comparisons, -, -, -, -, names⟩ := Mode.parse_fullName .path _ n accepted
  have list : n.attributes = ["u:v:a.b.c", "u:v:a.d"] := by decide +kernel
  exact ⟨accepted, comparisons _ (List.mem_singleton_self _), list,
    names _ (by rw [list]; exact List.mem_cons_of_mem _ (List.mem_singleton_self _))⟩

end Scim
