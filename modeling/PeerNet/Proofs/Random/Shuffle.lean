import Mathlib.Data.List.Perm.Basic
import PeerNet.Random.Source

/-!
# Shuffled lists

Whatever is drawn, shuffling swaps two items at a time, so the items stay the same.
-/

set_option autoImplicit false

namespace PeerNet.RandomSource

variable {G : Type} [RandomSource G] {α : Type}

theorem perm_swapIfInBounds (items : Array α) (first second : Nat) :
    (items.swapIfInBounds first second).toList.Perm items.toList := by
  unfold Array.swapIfInBounds
  split
  · split
    · exact (Array.swap_perm _ _).toList
    · exact .refl _
  · exact .refl _

theorem perm_shuffleFrom (last : Nat) (items : Array α) (source : G) :
    (shuffleFrom last items source).1.toList.Perm items.toList := by
  induction last generalizing items source with
  | zero => exact .refl _
  | succ last ih =>
    rw [shuffleFrom]
    generalize index (last + 2) source = drawn
    exact (ih _ _).trans (perm_swapIfInBounds items _ _)

theorem perm_shuffle (items : List α) (source : G) : (shuffle items source).1.Perm items :=
  perm_shuffleFrom (items.length - 1) items.toArray source

end PeerNet.RandomSource
