/-
  NucleoBase.Lib.NorCells

  Cells of NOR flash, by their address: programming can only clear bits, and
  programming within a page goes on at the start of the page when it has
  reached the end.
-/

import Mathlib.Data.UInt
import Mathlib.Logic.Function.Basic
import Mathlib.Tactic.Common

namespace NucleoBase
namespace Lib
namespace NorCells

abbrev Cells := Nat → UInt8

/-- Program a run of cells. -/
def program (cells : Cells) (offset : Nat) : List UInt8 → Cells
  | [] => cells
  | b :: rest => program (Function.update cells offset (cells offset &&& b)) (offset + 1) rest

/-- The cell after this one in its page. -/
def nextInPage (page address : Nat) : Nat := address / page * page + (address + 1) % page

/-- Program cells of one page, as the chip does. -/
def programPage (page : Nat) (cells : Cells) (address : Nat) : List UInt8 → Cells
  | [] => cells
  | b :: rest =>
      programPage page (Function.update cells address (cells address &&& b))
        (nextInPage page address) rest

/-- Overwrite a run of cells. -/
def store (cells : Cells) (offset : Nat) : List UInt8 → Cells
  | [] => cells
  | b :: rest => store (Function.update cells offset b) (offset + 1) rest

def readRange (cells : Cells) (offset count : Nat) : List UInt8 :=
  (List.range count).map fun i => cells (offset + i)

/-- The byte that data at `offset` has for an address. -/
def byteAt (data : List UInt8) (offset address : Nat) : Option UInt8 :=
  if offset ≤ address then data[address - offset]? else none

/-- No bit would have to be set. -/
def NoRise (cells : Cells) (offset : Nat) (data : List UInt8) : Prop :=
  ∀ a b, byteAt data offset a = some b → cells a &&& b = b

variable {cells : Cells} {offset page : Nat} {data xs ys : List UInt8}

/-! ## Addresses -/

theorem byteAt_nil (offset a : Nat) : byteAt [] offset a = none := by
  unfold byteAt
  split <;> rfl

theorem byteAt_cons (b : UInt8) (rest : List UInt8) (offset a : Nat) :
    byteAt (b :: rest) offset a = if a = offset then some b else byteAt rest (offset + 1) a := by
  unfold byteAt
  by_cases heq : a = offset
  · rw [if_pos heq, heq, if_pos (Nat.le_refl _), Nat.sub_self]
    rfl
  · rw [if_neg heq]
    by_cases hle : offset ≤ a
    · obtain ⟨n, rfl⟩ : ∃ n, a = offset + 1 + n := ⟨a - offset - 1, by omega⟩
      rw [if_pos hle, if_pos (by omega), show offset + 1 + n - offset = n + 1 by omega,
        Nat.add_sub_cancel_left]
      rfl
    · rw [if_neg hle, if_neg (by omega)]

theorem byteAt_append (xs ys : List UInt8) (offset a : Nat) :
    byteAt (xs ++ ys) offset a = (byteAt xs offset a).or (byteAt ys (offset + xs.length) a) := by
  induction xs generalizing offset with
  | nil => rw [byteAt_nil]; rfl
  | cons x xs ih =>
      rw [List.cons_append, byteAt_cons, byteAt_cons, ih]
      split
      · rfl
      · rw [List.length_cons, show offset + 1 + xs.length = offset + (xs.length + 1) by omega]

theorem byteAt_eq_none_of_lt {a : Nat} (h : a < offset) : byteAt data offset a = none :=
  if_neg (Nat.not_le.mpr h)

theorem byteAt_eq_none_of_le {a : Nat} (h : offset + data.length ≤ a) :
    byteAt data offset a = none := by
  rw [byteAt, if_pos (by omega)]
  exact List.getElem?_eq_none (by omega)

/-! ## Programming and overwriting, cell by cell -/

theorem program_apply (cells : Cells) (offset : Nat) (data : List UInt8) (a : Nat) :
    program cells offset data a =
      match byteAt data offset a with
      | some b => cells a &&& b
      | none => cells a := by
  induction data generalizing cells offset with
  | nil => rw [byteAt_nil]; rfl
  | cons b rest ih =>
      rw [program, ih, byteAt_cons]
      by_cases heq : a = offset
      · rw [if_pos heq, heq, byteAt_eq_none_of_lt (Nat.lt_succ_self _)]
        simp only [Function.update_self]
      · simp only [if_neg heq, Function.update_of_ne heq]

theorem store_apply (cells : Cells) (offset : Nat) (data : List UInt8) (a : Nat) :
    store cells offset data a = (byteAt data offset a).getD (cells a) := by
  induction data generalizing cells offset with
  | nil => rw [byteAt_nil]; rfl
  | cons b rest ih =>
      rw [store, ih, byteAt_cons]
      by_cases heq : a = offset
      · rw [if_pos heq, heq, byteAt_eq_none_of_lt (Nat.lt_succ_self _)]
        exact Function.update_self _ _ _
      · rw [if_neg heq, Function.update_of_ne heq]

theorem program_append (cells : Cells) (offset : Nat) (xs ys : List UInt8) :
    program cells offset (xs ++ ys) =
      program (program cells offset xs) (offset + xs.length) ys := by
  induction xs generalizing cells offset with
  | nil => rfl
  | cons x xs ih =>
      rw [List.cons_append, program, ih, program, List.length_cons,
        show offset + 1 + xs.length = offset + (xs.length + 1) by omega]

theorem store_append (cells : Cells) (offset : Nat) (xs ys : List UInt8) :
    store cells offset (xs ++ ys) = store (store cells offset xs) (offset + xs.length) ys := by
  induction xs generalizing cells offset with
  | nil => rfl
  | cons x xs ih =>
      rw [List.cons_append, store, ih, store, List.length_cons,
        show offset + 1 + xs.length = offset + (xs.length + 1) by omega]

/-- Data that ends with its page does not wrap. -/
theorem programPage_eq (hfits : offset % page + data.length ≤ page) :
    programPage page cells offset data = program cells offset data := by
  induction data generalizing cells offset with
  | nil => rfl
  | cons b rest ih =>
      rw [List.length_cons] at hfits
      rw [programPage, program]
      rcases Nat.eq_zero_or_pos rest.length with hlast | hmore
      · rw [List.length_eq_zero_iff.mp hlast]
        rfl
      · have hinside : offset % page + 1 < page := by omega
        have hmod : (offset + 1) % page = offset % page + 1 := by
          rw [Nat.add_mod, Nat.mod_eq_of_lt (show 1 < page by omega), Nat.mod_eq_of_lt hinside]
        have hnext : nextInPage page offset = offset + 1 := by
          have hsplit := Nat.div_add_mod' offset page
          rw [nextInPage, hmod]
          omega
        rw [hnext]
        exact ih (by rw [hmod]; omega)

/-! ## Bits that would have to be set -/

theorem noRise_append :
    NoRise cells offset (xs ++ ys) ↔
      NoRise cells offset xs ∧ NoRise cells (offset + xs.length) ys := by
  constructor
  · intro h
    refine ⟨fun a b hb => h a b ?_, fun a b hb => h a b ?_⟩
    · rw [byteAt_append, hb]
      rfl
    · have hnone : byteAt xs offset a = none := by
        by_contra hsome
        have hle : offset + xs.length ≤ a := by
          by_contra hlt
          rw [byteAt_eq_none_of_lt (by omega)] at hb
          exact absurd hb (by simp)
        exact hsome (byteAt_eq_none_of_le hle)
      rw [byteAt_append, hnone, hb]
      rfl
  · rintro ⟨hxs, hys⟩ a b hb
    rw [byteAt_append] at hb
    cases hfirst : byteAt xs offset a with
    | some c =>
        rw [hfirst] at hb
        exact hxs a b (hfirst.trans hb)
    | none =>
        rw [hfirst] at hb
        exact hys a b hb

/-- Cells below the data do not matter. -/
theorem noRise_store (cells : Cells) (offset : Nat) (xs ys : List UInt8) :
    NoRise (store cells offset xs) (offset + xs.length) ys ↔
      NoRise cells (offset + xs.length) ys := by
  refine forall_congr' fun a => forall_congr' fun b => imp_congr_right fun hb => ?_
  have hle : offset + xs.length ≤ a := by
    by_contra hlt
    rw [byteAt_eq_none_of_lt (by omega)] at hb
    exact absurd hb (by simp)
  rw [store_apply, byteAt_eq_none_of_le hle]
  rfl

/-- Where no bit has to be set, programming overwrites. -/
theorem program_eq_store (h : NoRise cells offset data) :
    program cells offset data = store cells offset data := by
  funext a
  rw [program_apply, store_apply]
  cases hbyte : byteAt data offset a with
  | some b => exact h a b hbyte
  | none => rfl

theorem readRange_store (cells : Cells) (offset : Nat) (data : List UInt8) :
    readRange (store cells offset data) offset data.length = data := by
  apply List.ext_getElem
  · simp only [readRange, List.length_map, List.length_range]
  · intro i hi hdata
    simp only [readRange, List.getElem_map, List.getElem_range, store_apply]
    have hbyte : byteAt data offset (offset + i) = some data[i] := by
      rw [byteAt, if_pos (Nat.le_add_right _ _), Nat.add_sub_cancel_left,
        List.getElem?_eq_getElem hdata]
    rw [hbyte]
    rfl

/-- The comparison of the cells with the data, byte by byte. -/
theorem all_readRange_iff :
    (((readRange cells offset data.length).zip data).all fun (c, b) => c &&& b == b) = true ↔
      NoRise cells offset data := by
  rw [List.all_eq_true]
  constructor
  · intro h a b hb
    have hle : offset ≤ a := by
      by_contra hlt
      rw [byteAt_eq_none_of_lt (by omega)] at hb
      exact absurd hb (by simp)
    rw [byteAt, if_pos hle, List.getElem?_eq_some_iff] at hb
    obtain ⟨hlt, rfl⟩ := hb
    have hzip : ((readRange cells offset data.length).zip data)[a - offset]? =
        some (cells a, data[a - offset]) := by
      rw [List.getElem?_zip_eq_some]
      refine ⟨?_, List.getElem?_eq_getElem hlt⟩
      rw [readRange, List.getElem?_map, List.getElem?_range hlt, Option.map_some,
        Nat.add_sub_cancel' hle]
    have hcheck := h _ (List.mem_of_getElem? hzip)
    exact eq_of_beq hcheck
  · rintro h ⟨c, b⟩ hmem
    obtain ⟨i, hi⟩ := List.mem_iff_getElem?.mp hmem
    obtain ⟨hcell, hbyte⟩ := List.getElem?_zip_eq_some.mp hi
    obtain ⟨hlt, rfl⟩ := List.getElem?_eq_some_iff.mp hbyte
    rw [readRange, List.getElem?_map, List.getElem?_range hlt, Option.map_some,
      Option.some.injEq] at hcell
    subst hcell
    refine beq_iff_eq.mpr (h _ _ ?_)
    rw [byteAt, if_pos (Nat.le_add_right _ _), Nat.add_sub_cancel_left,
      List.getElem?_eq_getElem hlt]

end NorCells
end Lib
end NucleoBase
