import Scim.Proofs.Scan.Group
import Scim.Proofs.Scan.Tiling

/-!
# Scanning a group again

A cursor fits its text if the tokens that it has not read are the last ones of the text.

* `Cursor.Fits`               the tokens of a cursor tile its text;
* `Cursor.Fits.ofText_span`   scanning the part of the text that a group spans, at the place where
                              it stands, gives the tokens of the group.
-/

namespace Scim

namespace Cursor

/-! ## Skipping -/

@[simp] theorem skip_rest (n : Nat) (c : Cursor) : (c.skip n).rest = c.rest.drop n := rfl

@[simp] theorem skip_skip (m n : Nat) (c : Cursor) : (c.skip m).skip n = c.skip (m + n) := by
  simp [skip, Nat.add_assoc]

/-! ## Cursors that fit their text -/

/-- The tokens that a cursor has not read are the last ones of its text. -/
def Fits (mode : Mode) (c : Cursor) : Prop :=
  ∃ before, Tiles mode c.offset c.source (before ++ c.rest)

theorem Fits.skip {mode : Mode} {c : Cursor} (h : c.Fits mode) (n : Nat) :
    (c.skip n).Fits mode := by
  obtain ⟨before, tiles⟩ := h
  refine ⟨before ++ c.rest.take n, ?_⟩
  rw [skip_rest, List.append_assoc, List.take_append_drop]
  exact tiles

/-- the tokens next to be read, if a closing parenthesis or nothing follows them, span a part of the
text that they alone tile -/
theorem Fits.tiles_span {mode : Mode} {c : Cursor} (h : c.Fits mode) {run after : List Token}
    {first last : Token} (split : c.rest = run ++ after) (ends : EndsGroup after)
    (hf : run.head? = some first) (hl : run.getLast? = some last) :
    Tiles mode first.position (c.span run) run ∧
      first.position + (c.span run).length = last.stop := by
  obtain ⟨before, tiles⟩ := h
  rw [split, ← List.append_assoc] at tiles
  obtain ⟨u, a, b, whole, place, stop, alone⟩ := tiles.slice hf hl ends
  have spanned : c.span run = a := by
    unfold Cursor.span
    rw [hf, hl, whole]
    dsimp only
    have start : (first.position - c.offset).toNat = u.length := by omega
    have size : (last.stop - first.position).toNat = a.length := by omega
    rw [start, size, List.append_assoc, List.drop_left, List.take_left]
  rw [spanned]
  exact ⟨alone, stop.symm⟩

/-- **Scanning a group again gives its tokens**, with the same kinds, texts and positions. -/
theorem Fits.ofText_span {mode : Mode} {c : Cursor} (h : c.Fits mode) {run after : List Token}
    {first last : Token} (split : c.rest = run ++ after) (ends : EndsGroup after)
    (hf : run.head? = some first) (hl : run.getLast? = some last) :
    ofText mode (c.span run) first.position = .ok ⟨c.span run, first.position, 0, run⟩ := by
  obtain ⟨tiles, -⟩ := h.tiles_span split ends hf hl
  unfold ofText
  rw [tiles.scan_eq]

end Cursor

end Scim
