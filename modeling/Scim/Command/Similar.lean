/-!
# Similar words

Two words are compared by their longest common runs: the longest run that both hold, the first one
in the first word among equals, then in the same way what stands before it and what stands after it.

* `commonPrefix`       the length of the common start of two words;
* `longestRun`         the longest common run of two words;
* `matched`            the number of characters in common runs;
* `Similar.score`      twice that number and the sum of the lengths, a ratio from zero to one;
* `closest`            the candidates of a ratio of at least three fifths, at most three of them.
-/

namespace Scim.Similar

/-- The length of the common start of two words. -/
def commonPrefix : List Char → List Char → Nat
  | a :: as, b :: bs => if a = b then commonPrefix as bs + 1 else 0
  | _, _ => 0

/-- A common run: where it starts in each of the two words, and its length. -/
structure Run where
  left : Nat
  right : Nat
  size : Nat

/-- The longest common run; among equals the first in the left word, then in the right one. -/
def longestRun (as bs : List Char) : Run :=
  (List.range as.length).foldl (fun best i =>
    (List.range bs.length).foldl (fun best j =>
      let size := commonPrefix (as.drop i) (bs.drop j)
      if best.size < size then ⟨i, j, size⟩ else best) best) ⟨0, 0, 0⟩

/-- The number of characters in common runs; `fuel` bounds the number of runs inside each other. -/
def matched : (fuel : Nat) → List Char → List Char → Nat
  | 0, _, _ => 0
  | fuel + 1, as, bs =>
    let run := longestRun as bs
    if run.size = 0 then 0
    else
      run.size + matched fuel (as.take run.left) (bs.take run.right) +
        matched fuel (as.drop (run.left + run.size)) (bs.drop (run.right + run.size))

/-- Twice the number of common characters, and the number of all characters. -/
def score (a b : String) : Nat × Nat :=
  (2 * matched a.length a.toList b.toList, a.length + b.length)

/-- Whether the ratio is at least three fifths. -/
def isClose (s : Nat × Nat) : Bool := decide (3 * s.2 ≤ 5 * s.1)

/-- Whether the first word is the better candidate: by its ratio, then by the order of words. -/
def isBetter (a b : (Nat × Nat) × String) : Bool :=
  decide (b.1.1 * a.1.2 < a.1.1 * b.1.2) ||
    (decide (b.1.1 * a.1.2 = a.1.1 * b.1.2) && decide (b.2 ≤ a.2))

/-- The three best candidates that are close to a word, in alphabetical order. -/
def closest (word : String) (candidates : List String) : List String :=
  let scored := (candidates.map fun c => (score c word, c)).filter fun s => isClose s.1
  (((scored.mergeSort isBetter).take 3).map Prod.snd).mergeSort fun a b => decide (a ≤ b)

end Scim.Similar
