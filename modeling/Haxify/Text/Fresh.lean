/-!
# Fresh names

A numbered family of names and a list of those already taken: the search goes up
from a number and stops at the first free name. Each step that meets a taken name
removes it from the list, so the search ends.
-/

namespace Haxify.Text

def leastFree (name : Nat → String) (taken : List String) (start : Nat) : Nat :=
  if name start ∈ taken then leastFree name (taken.erase (name start)) (start + 1)
  else start
termination_by taken.length
decreasing_by
  have := List.length_erase_of_mem ‹name start ∈ taken›
  have := List.length_pos_of_mem ‹name start ∈ taken›
  omega

/-- `base` if it is free, otherwise `base` followed by the least free number from 2 on. -/
def freshName (base : String) (taken : List String) : String :=
  if base ∈ taken then
    base ++ toString (leastFree (fun number => base ++ toString number) taken 2)
  else base

end Haxify.Text
