import Mathlib.Data.List.Basic
import Scim.Text.Blank

/-!
# Texts without their blanks

* `stripBlanks_append`        a text without the blanks around it;
* `head?_trim`, `getLast?_trim`
                              what is left begins and ends with a character of another class;
* `stripSpaces_stripBlanks`   where no blank is left there is no space to drop.
-/

namespace Scim

open Text

theorem dropWhile_of_head? {p : Char → Bool} {cs : List Char}
    (h : ∀ c, cs.head? = some c → p c = false) : cs.dropWhile p = cs := by
  cases cs with
  | nil => rfl
  | cons c cs => rw [List.dropWhile_cons, h c rfl, if_neg Bool.false_ne_true]

theorem stripBlanks_append {before w after : List Char} (hb : ∀ c ∈ before, isBlank c = true)
    (hw : ∀ c ∈ w, isBlank c = false) (ha : ∀ c ∈ after, isBlank c = true) :
    stripBlanks (before ++ (w ++ after)) = w := by
  have stays (cs : List Char) (h : ∀ c ∈ cs, isBlank c = false) : cs.dropWhile isBlank = cs :=
    dropWhile_of_head? fun c first => h c (List.mem_of_mem_head? first)
  have gone (cs : List Char) (h : ∀ c ∈ cs, isBlank c = true) : cs.dropWhile isBlank = [] := by
    have all : (cs ++ []).dropWhile isBlank = [] := List.dropWhile_append_of_pos h
    rwa [List.append_nil] at all
  unfold stripBlanks trim
  rw [List.dropWhile_append_of_pos hb]
  cases w with
  | nil =>
    rw [List.nil_append, gone after ha]
    rfl
  | cons c w =>
    have first : isBlank c = false := hw c (List.mem_cons_self ..)
    rw [List.cons_append, List.dropWhile_cons, first, if_neg Bool.false_ne_true, ← List.cons_append,
      List.reverse_append, List.dropWhile_append_of_pos, stays, List.reverse_reverse]
    · intro x hx
      exact hw x (List.mem_reverse.mp hx)
    · intro x hx
      exact ha x (List.mem_reverse.mp hx)

theorem head?_dropWhile {p : Char → Bool} {cs : List Char} {c : Char}
    (h : (cs.dropWhile p).head? = some c) : p c = false := by
  have first := List.head?_dropWhile_not p cs
  rw [h] at first
  simpa using first

theorem getLast?_trim {p : Char → Bool} {cs : List Char} {c : Char}
    (h : (trim p cs).getLast? = some c) : p c = false := by
  rw [trim, List.getLast?_reverse] at h
  exact head?_dropWhile h

theorem head?_trim {p : Char → Bool} {cs : List Char} {c : Char}
    (h : (trim p cs).head? = some c) : p c = false := by
  -- what is left is the front of the text behind the dropped characters
  have front : trim p cs <+: cs.dropWhile p := by
    rw [trim, ← List.reverse_suffix, List.reverse_reverse]
    exact List.dropWhile_suffix p
  obtain ⟨rest, whole⟩ := front
  have first : (cs.dropWhile p).head? = some c := by
    rw [← whole, List.head?_append, h, Option.some_or]
  exact head?_dropWhile first

theorem trim_eq_self {p : Char → Bool} {cs : List Char}
    (first : ∀ c, cs.head? = some c → p c = false)
    (last : ∀ c, cs.getLast? = some c → p c = false) : trim p cs = cs := by
  rw [trim, dropWhile_of_head? first, dropWhile_of_head?, List.reverse_reverse]
  intro c hc
  rw [List.head?_reverse] at hc
  exact last c hc

theorem stripSpaces_stripBlanks (cs : List Char) : stripSpaces (stripBlanks cs) = stripBlanks cs := by
  have other {c : Char} (h : isBlank c = false) : isSpace c = false := by
    cases space : isSpace c with
    | false => rfl
    | true => rw [isBlank_of_isSpace space] at h; exact absurd h (by decide)
  exact trim_eq_self (fun _ h => other (head?_trim h)) fun _ h => other (getLast?_trim h)

end Scim
