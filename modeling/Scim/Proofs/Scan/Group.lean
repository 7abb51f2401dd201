import Scim.Cursor

/-!
# The tokens of a group

The tokens before the closing token that matches no opening one among them.

* `tally`                     the number of tokens of a kind;
* `Cursor.runUntil_append`    the tokens before a closing token and those from there on;
* `Cursor.runUntil_cons`      what reading over one token does to the number of open groups;
* `Cursor.tally_le_of_prefix_runUntil`, `Cursor.tally_runUntil`    so no part of the tokens before a
                              closing token closes more than it opens, and all of them together
                              close what they open.
-/

namespace Scim

/-! ## Counting tokens -/

/-- The number of tokens of a kind; without a kind no token counts. -/
def tally (kind : Option Kind) (ts : List Token) : Nat := ts.countP fun t => some t.kind == kind

theorem tally_append (kind : Option Kind) (ts us : List Token) :
    tally kind (ts ++ us) = tally kind ts + tally kind us := List.countP_append

theorem tally_cons (kind : Option Kind) (t : Token) (ts : List Token) :
    tally kind (t :: ts) = tally kind [t] + tally kind ts := tally_append kind [t] ts

theorem tally_none (ts : List Token) : tally none ts = 0 := by
  simp [tally]

theorem tally_singleton_of_eq {kind : Option Kind} {t : Token} (h : some t.kind = kind) :
    tally kind [t] = 1 := by
  simp [tally, h]

theorem tally_singleton_of_ne {kind : Option Kind} {t : Token} (h : some t.kind ≠ kind) :
    tally kind [t] = 0 := by
  simp [tally, h]

namespace Cursor

/-! ## The tokens before a closing token -/

theorem runUntil_append (close : Kind) (opening : Option Kind) (depth : Nat) (ts : List Token) :
    ∃ after, ts = runUntil close opening depth ts ++ after ∧ ∀ t ∈ after.head?, t.kind = close := by
  induction ts generalizing depth with
  | nil =>
    refine ⟨[], rfl, ?_⟩
    intro t ht
    cases ht
  | cons t ts ih =>
    unfold runUntil
    by_cases closes : t.kind = close
    · rw [if_pos closes]
      cases depth with
      | zero =>
        refine ⟨t :: ts, rfl, ?_⟩
        intro t' ht
        obtain rfl := Option.some.inj ht
        exact closes
      | succ depth =>
        obtain ⟨after, split, ends⟩ := ih depth
        exact ⟨after, by rw [List.cons_append, ← split], ends⟩
    · rw [if_neg closes]
      split
      · obtain ⟨after, split, ends⟩ := ih (depth + 1)
        exact ⟨after, by rw [List.cons_append, ← split], ends⟩
      · obtain ⟨after, split, ends⟩ := ih depth
        exact ⟨after, by rw [List.cons_append, ← split], ends⟩

theorem drop_length_runUntil {close : Kind} {opening : Option Kind} {depth : Nat}
    {ts after : List Token} (h : ts = runUntil close opening depth ts ++ after) :
    ts.drop (runUntil close opening depth ts).length = after := by
  have dropped := congrArg (List.drop (runUntil close opening depth ts).length) h
  rwa [List.drop_left] at dropped

/-! ## Open groups -/

section

variable {close : Kind} {opening : Option Kind} {t : Token}

theorem runUntil_zero_of_close (h : t.kind = close) (ts : List Token) :
    runUntil close opening 0 (t :: ts) = [] := by
  simp [runUntil, h]

theorem runUntil_succ_of_close (h : t.kind = close) (depth : Nat) (ts : List Token) :
    runUntil close opening (depth + 1) (t :: ts) = t :: runUntil close opening depth ts := by
  simp [runUntil, h]

theorem runUntil_of_open (opens : some t.kind = opening) (notClose : t.kind ≠ close) (depth : Nat)
    (ts : List Token) :
    runUntil close opening depth (t :: ts) = t :: runUntil close opening (depth + 1) ts := by
  simp [runUntil, opens, notClose]

theorem runUntil_of_plain (notOpen : some t.kind ≠ opening) (notClose : t.kind ≠ close)
    (depth : Nat) (ts : List Token) :
    runUntil close opening depth (t :: ts) = t :: runUntil close opening depth ts := by
  simp [runUntil, notOpen, notClose]

end

section

variable {close : Kind} {opening : Option Kind} (other : opening ≠ some close)

include other

theorem runUntil_cons (depth : Nat) (t : Token) (ts : List Token) :
    (t.kind = close ∧ depth = 0 ∧ runUntil close opening depth (t :: ts) = []) ∨
      ∃ inner, runUntil close opening depth (t :: ts) = t :: runUntil close opening inner ts ∧
        inner + tally (some close) [t] = depth + tally opening [t] := by
  by_cases closes : t.kind = close
  · have notOpen : some t.kind ≠ opening := fun same => other (same ▸ congrArg some closes)
    cases depth with
    | zero => exact .inl ⟨closes, rfl, runUntil_zero_of_close closes ts⟩
    | succ depth =>
      refine .inr ⟨depth, runUntil_succ_of_close closes depth ts, ?_⟩
      rw [tally_singleton_of_eq (congrArg some closes), tally_singleton_of_ne notOpen]
  · have notClose : some t.kind ≠ some close := fun same => closes (Option.some.inj same)
    rw [tally_singleton_of_ne notClose]
    by_cases opens : some t.kind = opening
    · refine .inr ⟨depth + 1, runUntil_of_open opens closes depth ts, ?_⟩
      rw [tally_singleton_of_eq opens]
    · refine .inr ⟨depth, runUntil_of_plain opens closes depth ts, ?_⟩
      rw [tally_singleton_of_ne opens]

/-- **No part of what is read over closes more than it opens**, up to the groups that are open
before it. -/
theorem tally_le_of_prefix_runUntil {depth : Nat} {ts us : List Token}
    (h : us <+: runUntil close opening depth ts) :
    tally (some close) us ≤ depth + tally opening us := by
  induction us generalizing depth ts with
  | nil => exact Nat.zero_le _
  | cons u us ih =>
    cases ts with
    | nil => cases List.prefix_nil.mp h
    | cons t ts =>
      rcases runUntil_cons other depth t ts with ⟨-, -, ends⟩ | ⟨inner, goesOn, counts⟩
      · rw [ends] at h
        cases List.prefix_nil.mp h
      · rw [goesOn] at h
        obtain ⟨rfl, later⟩ := List.cons_prefix_cons.mp h
        have within := ih later
        rw [tally_cons, tally_cons opening]
        omega

theorem tally_runUntil {depth : Nat} {ts after : List Token} {t : Token}
    (split : ts = runUntil close opening depth ts ++ t :: after) :
    tally (some close) (runUntil close opening depth ts) =
      depth + tally opening (runUntil close opening depth ts) := by
  induction ts generalizing depth with
  | nil => cases (List.append_eq_nil_iff.mp split.symm).2
  | cons u ts ih =>
    rcases runUntil_cons other depth u ts with ⟨-, rfl, ends⟩ | ⟨inner, goesOn, counts⟩
    · rw [ends]
      rfl
    · rw [goesOn] at split ⊢
      have later := ih (List.cons.inj split).2
      rw [tally_cons, tally_cons opening]
      omega

end

end Cursor

end Scim
