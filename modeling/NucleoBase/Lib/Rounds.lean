/-
  NucleoBase.Lib.Rounds

  Loops that run on a stream of inputs until a round leaves them, and the
  contract of one that has a deadline: once it has passed, the loop takes at
  most one more of what the rounds bring.
-/

import Mathlib.Data.Nat.Find
import Mathlib.Tactic.Common

namespace NucleoBase
namespace Lib
namespace Rounds

variable {α β : Type*}

variable {body : α → Option β} {takes late : α → Prop} {rounds : Nat → α}

end Rounds
end Lib
end NucleoBase
