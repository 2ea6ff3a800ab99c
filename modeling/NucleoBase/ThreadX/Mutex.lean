/-
  NucleoBase.ThreadX.Mutex

  The ThreadX mutex as its documentation specifies it: an owner and an
  ownership count, obtained recursively by its owner and released by it alone.
  A thread that cannot obtain the mutex is suspended, which a step relation
  expresses by `get` being disabled; `put` by a thread that is not the owner
  is refused (`TX_NOT_OWNED`).

  The type has no invalid value: a held mutex has an owner and a positive
  count.
-/

import Mathlib.Data.Option.Basic
import Mathlib.Tactic.Common

namespace NucleoBase
namespace ThreadX

/-- A ThreadX mutex; `held t n` is owned by `t` with ownership count `n + 1`. -/
inductive Mutex (Thread : Type*)
  | free
  | held (owner : Thread) (again : Nat)
  deriving DecidableEq, Repr

namespace Mutex

variable {Thread : Type*}

/-- `tx_mutex_owner`. -/
def owner : Mutex Thread → Option Thread
  | .free => none
  | .held t _ => some t

@[simp] theorem owner_free : (free : Mutex Thread).owner = none := rfl

@[simp] theorem owner_held (t : Thread) (n : Nat) : (held t n).owner = some t := rfl

variable [DecidableEq Thread]

/-- `tx_mutex_get` with `TX_WAIT_FOREVER`; `none` while the caller is suspended. -/
def get (t : Thread) : Mutex Thread → Option (Mutex Thread)
  | .free => some (.held t 0)
  | .held u n => if u = t then some (.held t (n + 1)) else none

/-- `tx_mutex_put`; `none` is `TX_NOT_OWNED`. -/
def put (t : Thread) : Mutex Thread → Option (Mutex Thread)
  | .free => none
  | .held u 0 => if u = t then some .free else none
  | .held u (n + 1) => if u = t then some (.held t n) else none

@[simp] theorem get_free (t : Thread) : (free : Mutex Thread).get t = some (.held t 0) := rfl

@[simp] theorem put_held_self (t : Thread) : (held t 0).put t = some .free := by
  simp [put]

/-- What a successful get can have done: taken a free mutex, or counted once
    more on one the caller owns. -/
theorem get_eq_some {m m' : Mutex Thread} {t : Thread} :
    m.get t = some m' ↔
      (m = .free ∧ m' = .held t 0) ∨ ∃ n, m = .held t n ∧ m' = .held t (n + 1) := by
  cases m with
  | free => simp [get, eq_comm]
  | held u n =>
      by_cases h : u = t
      · subst h
        simp [get, eq_comm]
      · simp [get, h]

/-- Only the owner releases, and the last release frees the mutex. -/
theorem put_eq_some {m m' : Mutex Thread} {t : Thread} :
    m.put t = some m' ↔
      (m = .held t 0 ∧ m' = .free) ∨ ∃ n, m = .held t (n + 1) ∧ m' = .held t n := by
  cases m with
  | free => simp [put]
  | held u n =>
      by_cases h : u = t
      · subst h
        cases n <;> simp [put, eq_comm]
      · cases n <;> simp [put, h]

/-- A thread that does not own a mutex obtains it only when it is free. -/
theorem get_of_owner_ne {m m' : Mutex Thread} {t : Thread} (ht : m.owner ≠ some t)
    (h : m.get t = some m') : m = .free ∧ m' = .held t 0 := by
  rcases get_eq_some.mp h with h | ⟨n, rfl, -⟩
  · exact h
  · exact absurd rfl ht

end Mutex

end ThreadX
end NucleoBase
