/-
  NucleoBase.Lib.Bpf

  Classic BPF, as far as a filter on half words needs it: loads of two bytes
  at a fixed offset, comparisons with forward jumps, and returns.

  A load outside the packet ends the program with the result 0, which rejects
  the packet; so does running off the end of the program.
-/

import Mathlib.Data.UInt
import Mathlib.Order.Basic
import Mathlib.Tactic.Common

namespace NucleoBase
namespace Lib
namespace Bpf

inductive Instruction
  /-- `BPF_LD | BPF_H | BPF_ABS`. -/
  | loadHalf (offset : Nat)
  /-- `BPF_JMP | BPF_JEQ | BPF_K`; the jumps skip so many instructions. -/
  | jumpEq (k : UInt32) (jt jf : UInt8)
  /-- `BPF_RET | BPF_K`. -/
  | ret (k : UInt32)
  deriving DecidableEq, Repr

abbrev Program := List Instruction

structure Machine where
  pc : Nat
  accumulator : UInt32
  deriving DecidableEq, Repr

/-- Two bytes in network order, if the packet has them. -/
def loadHalf (packet : List UInt8) (offset : Nat) : Option UInt32 :=
  match packet.drop offset with
  | high :: low :: _ => some (high.toUInt32 <<< 8 ||| low.toUInt32)
  | _ => none

/-- One instruction: the next state, or the result of the program. -/
def step (program : Program) (packet : List UInt8) (m : Machine) : Machine ⊕ UInt32 :=
  match program[m.pc]? with
  | none => .inr 0
  | some (.loadHalf offset) =>
      match loadHalf packet offset with
      | none => .inr 0
      | some value => .inl ⟨m.pc + 1, value⟩
  | some (.jumpEq k jt jf) =>
      .inl ⟨m.pc + 1 + (if m.accumulator = k then jt.toNat else jf.toNat), m.accumulator⟩
  | some (.ret k) => .inr k

/-- At most so many instructions. -/
def run (program : Program) (packet : List UInt8) : Nat → Machine → Option UInt32
  | 0, _ => none
  | fuel + 1, m =>
      match step program packet m with
      | .inl next => run program packet fuel next
      | .inr result => some result

/-- The result of a program: how many bytes of the packet are kept. -/
def result (program : Program) (packet : List UInt8) : Option UInt32 :=
  run program packet (program.length + 1) ⟨0, 0⟩

def accepts (program : Program) (packet : List UInt8) : Prop :=
  ∃ k, result program packet = some k ∧ k ≠ 0

variable {program : Program} {packet : List UInt8}

theorem step_forward {m next : Machine} (h : step program packet m = .inl next) :
    m.pc < next.pc ∧ m.pc < program.length := by
  unfold step at h
  split at h
  · exact absurd h (by simp)
  · next hpc =>
      split at h
      · exact absurd h (by simp)
      · obtain rfl := Sum.inl.inj h
        exact ⟨Nat.lt_succ_self _, (List.getElem?_eq_some_iff.mp hpc).1⟩
  · next hpc =>
      obtain rfl := Sum.inl.inj h
      exact ⟨by show m.pc < m.pc + 1 + _; omega, (List.getElem?_eq_some_iff.mp hpc).1⟩
  · exact absurd h (by simp)

/-- Jumps go forward only, so every program ends. -/
theorem run_isSome {fuel : Nat} {m : Machine} (h : program.length < m.pc + fuel) (hfuel : 0 < fuel) :
    (run program packet fuel m).isSome = true := by
  induction fuel generalizing m with
  | zero => omega
  | succ fuel ih =>
      rw [run]
      split
      · next next hstep =>
          obtain ⟨hforward, hinside⟩ := step_forward hstep
          exact ih (by omega) (by omega)
      · rfl

theorem result_isSome (program : Program) (packet : List UInt8) :
    (result program packet).isSome = true :=
  run_isSome (by show program.length < 0 + _; omega) (Nat.succ_pos _)

/-! ## Evaluation -/

/-- From this state the program ends with this result. -/
def Evaluates (program : Program) (packet : List UInt8) (m : Machine) (k : UInt32) : Prop :=
  ∃ fuel, run program packet fuel m = some k

theorem run_mono {fuel : Nat} {m : Machine} {k : UInt32} (h : run program packet fuel m = some k) :
    run program packet (fuel + 1) m = some k := by
  induction fuel generalizing m with
  | zero => exact absurd h (by simp [run])
  | succ fuel ih =>
      rw [run] at h ⊢
      split at h
      · exact ih h
      · exact h

theorem run_le {fuel fuel' : Nat} {m : Machine} {k : UInt32} (hle : fuel ≤ fuel')
    (h : run program packet fuel m = some k) : run program packet fuel' m = some k := by
  induction fuel', hle using Nat.le_induction with
  | base => exact h
  | succ fuel' _ ih => exact run_mono ih

theorem Evaluates.unique {m : Machine} {k k' : UInt32} (h : Evaluates program packet m k)
    (h' : Evaluates program packet m k') : k = k' := by
  obtain ⟨fuel, h⟩ := h
  obtain ⟨fuel', h'⟩ := h'
  have hleft := run_le (Nat.le_max_left fuel fuel') h
  have hright := run_le (Nat.le_max_right fuel fuel') h'
  rw [hleft] at hright
  exact Option.some.inj hright

/-- A program accepts what it evaluates to a result other than 0. -/
theorem accepts_iff {k : UInt32} (h : Evaluates program packet ⟨0, 0⟩ k) :
    accepts program packet ↔ k ≠ 0 := by
  have hsome := result_isSome program packet
  obtain ⟨k', hk'⟩ := Option.isSome_iff_exists.mp hsome
  obtain rfl := h.unique ⟨_, hk'⟩
  constructor
  · rintro ⟨j, hj, hne⟩
    rw [hk'] at hj
    exact Option.some.inj hj ▸ hne
  · exact fun hne => ⟨k, hk', hne⟩

section Rules

variable {pc offset : Nat} {a k k' v : UInt32} {jt jf : UInt8}

theorem Evaluates.of_step {m next : Machine} (hstep : step program packet m = .inl next)
    (h : Evaluates program packet next k) : Evaluates program packet m k := by
  obtain ⟨fuel, h⟩ := h
  refine ⟨fuel + 1, ?_⟩
  rw [run, hstep]
  exact h

theorem Evaluates.of_result {m : Machine} (hstep : step program packet m = .inr k) :
    Evaluates program packet m k := by
  refine ⟨1, ?_⟩
  rw [run, hstep]

theorem Evaluates.load (hpc : program[pc]? = some (.loadHalf offset))
    (hload : loadHalf packet offset = some v) (h : Evaluates program packet ⟨pc + 1, v⟩ k) :
    Evaluates program packet ⟨pc, a⟩ k := by
  refine .of_step ?_ h
  simp only [step, hpc, hload]

theorem Evaluates.load_outside (hpc : program[pc]? = some (.loadHalf offset))
    (hload : loadHalf packet offset = none) : Evaluates program packet ⟨pc, a⟩ 0 := by
  refine .of_result ?_
  simp only [step, hpc, hload]

theorem Evaluates.jump (hpc : program[pc]? = some (.jumpEq k' jt jf)) (heq : a = k')
    (h : Evaluates program packet ⟨pc + 1 + jt.toNat, a⟩ k) :
    Evaluates program packet ⟨pc, a⟩ k := by
  refine .of_step ?_ h
  simp only [step, hpc, if_pos heq]

theorem Evaluates.jump_else (hpc : program[pc]? = some (.jumpEq k' jt jf)) (hne : a ≠ k')
    (h : Evaluates program packet ⟨pc + 1 + jf.toNat, a⟩ k) :
    Evaluates program packet ⟨pc, a⟩ k := by
  refine .of_step ?_ h
  simp only [step, hpc, if_neg hne]

theorem Evaluates.ret (hpc : program[pc]? = some (.ret k)) :
    Evaluates program packet ⟨pc, a⟩ k := by
  refine .of_result ?_
  simp only [step, hpc]

end Rules

end Bpf
end Lib
end NucleoBase
