/-
  NucleoBase.Hal.EtherTypeFilter

  The two filters on the EtherType of a received frame: the program that
  `attach_ether_type_filter` gives to the kernel (linux/Ethernet.cpp), and
  `frameEtherType` (itf/IEthernet.hpp), which both drivers call.

  `frameEtherType` is here once more, offset by offset, with a result of its
  own for a read outside the frame.
-/

import NucleoBase.Hal.EtherType
import NucleoBase.Lib.Bpf

namespace NucleoBase
namespace Hal
namespace EtherTypeFilter

open Lib

/-! ## The kernel's filter -/

/-- The instructions of `attach_ether_type_filter`. -/
def program (type : UInt16) : Bpf.Program :=
  [ .loadHalf 12
  , .jumpEq type.toUInt32 8 0
  , .jumpEq vlanType.toUInt32 1 0
  , .jumpEq serviceVlanType.toUInt32 0 7
  , .loadHalf 16
  , .jumpEq type.toUInt32 4 0
  , .jumpEq vlanType.toUInt32 1 0
  , .jumpEq serviceVlanType.toUInt32 0 3
  , .loadHalf 20
  , .jumpEq type.toUInt32 0 1
  , .ret 0xFFFF
  , .ret 0 ]

/-! ## The loop of `frameEtherType`, by offsets -/

/-- What may go wrong. -/
inductive Fault
  | outside (offset : Nat)
  | unfinished
  deriving DecidableEq, Repr

/-- `frame[offset]`. -/
def readByte (frame : List UInt8) (offset : Nat) : Except Fault UInt8 :=
  match frame[offset]? with
  | some byte => .ok byte
  | none => .error (.outside offset)

/-- `read_ether_type`. -/
def readEtherTypeAt (frame : List UInt8) (offset : Nat) : Except Fault UInt16 := do
  let high ← readByte frame offset
  let low ← readByte frame (offset + 1)
  pure (readEtherType high low)

/-- `VLAN_TAG_SIZE`. -/
def vlanTagSize : Nat := 4

/-- The loop, for at most so many tags. -/
def skipTags (frame : List UInt8) : Nat → Nat → UInt16 → Except Fault (Option UInt16)
  | 0, _, _ => .error .unfinished
  | fuel + 1, offset, type =>
      if type = vlanType ∨ type = serviceVlanType then
        if frame.length < offset + vlanTagSize + 2 then .ok none
        else do
          let type ← readEtherTypeAt frame (offset + vlanTagSize)
          skipTags frame fuel (offset + vlanTagSize) type
      else .ok (some type)

/-- `frameEtherType`. -/
def frameEtherTypeAt (frame : List UInt8) (fuel : Nat) : Except Fault (Option UInt16) :=
  if frame.length < ethernetHeaderBytes then .ok none
  else do
    let type ← readEtherTypeAt frame etherTypeOffset
    skipTags frame fuel etherTypeOffset type

/-! ## The frames that are delivered -/

/-- The check after reception: `m_receiveEtherType` is not set, or is the frame's. -/
def wanted (receiveEtherType : Option UInt16) (frame : List UInt8) : Bool :=
  match receiveEtherType with
  | none => true
  | some type => frameEtherType frame == some type

/-- A frame gets through the Linux backend: `start` attaches a filter if
    `m_receiveEtherType` is set, and `receive` checks again. -/
def linuxDelivers (receiveEtherType : Option UInt16) (frame : List UInt8) : Prop :=
  (∀ type ∈ receiveEtherType, Bpf.accepts (program type) frame) ∧
    wanted receiveEtherType frame = true

/-- A frame gets through the STM32 backend. -/
def stm32Delivers (receiveEtherType : Option UInt16) (frame : List UInt8) : Prop :=
  wanted receiveEtherType frame = true

/-! ## Tags -/

def IsTag (type : UInt16) : Prop := type = vlanType ∨ type = serviceVlanType

instance (type : UInt16) : Decidable (IsTag type) := inferInstanceAs (Decidable (_ ∨ _))

/-- The EtherType at the start of some bytes. -/
def typeOf : List UInt8 → Option UInt16
  | high :: low :: _ => some (readEtherType high low)
  | _ => none

/-- The tags at the start of what follows the addresses. -/
def leadingTagsFrom : List UInt8 → Nat
  | high :: low :: rest =>
      if IsTag (readEtherType high low) then
        match rest with
        | _ :: _ :: tagged => 1 + leadingTagsFrom tagged
        | _ => 1
      else 0
  | _ => 0

def leadingTags (frame : List UInt8) : Nat := leadingTagsFrom (frame.drop etherTypeOffset)

theorem innerEtherType_eq (bytes : List UInt8) :
    innerEtherType bytes =
      match typeOf bytes with
      | none => none
      | some type => if IsTag type then innerEtherType (bytes.drop 4) else some type := by
  match bytes with
  | [] => rfl
  | [_] => rfl
  | [high, low] | [high, low, _] => rfl
  | high :: low :: _ :: _ :: tagged => rfl

theorem leadingTagsFrom_eq (bytes : List UInt8) :
    leadingTagsFrom bytes =
      match typeOf bytes with
      | none => 0
      | some type => if IsTag type then 1 + leadingTagsFrom (bytes.drop 4) else 0 := by
  match bytes with
  | [] => rfl
  | [_] => rfl
  | [high, low] | [high, low, _] => rfl
  | high :: low :: _ :: _ :: tagged => rfl

theorem typeOf_eq_none {bytes : List UInt8} (h : bytes.length < 2) : typeOf bytes = none := by
  match bytes with
  | [] | [_] => rfl
  | _ :: _ :: rest => simp only [List.length_cons] at h; omega

theorem exists_typeOf {bytes : List UInt8} (h : 2 ≤ bytes.length) :
    ∃ high low rest, bytes = high :: low :: rest ∧ typeOf bytes = some (readEtherType high low) := by
  match bytes with
  | [] | [_] => simp only [List.length_cons, List.length_nil] at h; omega
  | high :: low :: rest => exact ⟨high, low, rest, rfl, rfl⟩

/-- A frame too short for a header has no type where the header's would be. -/
theorem frameEtherType_eq (frame : List UInt8) :
    frameEtherType frame = innerEtherType (frame.drop etherTypeOffset) := by
  have hlength : (frame.drop etherTypeOffset).length = frame.length - 12 := List.length_drop
  unfold frameEtherType frameOuterEtherType ethernetHeaderBytes
  by_cases hshort : frame.length < 14
  · rw [if_pos hshort, innerEtherType_eq, typeOf_eq_none (by omega)]
  · have hlong : 2 ≤ (frame.drop etherTypeOffset).length := by omega
    obtain ⟨high, low, rest, hbytes, -⟩ := exists_typeOf hlong
    rw [if_neg hshort, hbytes]

/-! ## The program evaluated -/

theorem toUInt32_readEtherType (high low : UInt8) :
    (readEtherType high low).toUInt32 = high.toUInt32 <<< 8 ||| low.toUInt32 := by
  have hhigh := high.toNat_lt
  have hlow := low.toNat_lt
  have hshift : high.toNat <<< 8 < 2 ^ 16 := by
    rw [Nat.shiftLeft_eq]
    omega
  have hor : high.toNat <<< 8 ||| low.toNat < 2 ^ 16 := Nat.or_lt_two_pow hshift (by omega)
  apply UInt32.toNat_inj.mp
  have h16 : (8 : UInt16).toNat % 16 = 8 := rfl
  have h32 : (8 : UInt32).toNat % 32 = 8 := rfl
  rw [readEtherType, UInt16.toNat_toUInt32, UInt16.toNat_or, UInt16.toNat_shiftLeft, UInt32.toNat_or,
    UInt32.toNat_shiftLeft, UInt8.toNat_toUInt16, UInt8.toNat_toUInt16, UInt8.toNat_toUInt32,
    UInt8.toNat_toUInt32, h16, h32, Nat.mod_eq_of_lt hshift, Nat.mod_eq_of_lt (by omega)]

theorem loadHalf_eq (frame : List UInt8) (offset : Nat) :
    Bpf.loadHalf frame offset = (typeOf (frame.drop offset)).map UInt16.toUInt32 := by
  unfold Bpf.loadHalf
  generalize frame.drop offset = bytes
  match bytes with
  | [] | [_] => rfl
  | high :: low :: _ => exact congrArg some (toUInt32_readEtherType high low).symm

section Level

variable {type t : UInt16} {frame : List UInt8} {pc offset : Nat} {a k : UInt32} {jt jf : UInt8}

theorem toUInt32_ne {t type : UInt16} (h : t ≠ type) : t.toUInt32 ≠ type.toUInt32 :=
  fun heq => h (UInt16.toUInt32_inj.mp heq)

/-- The four instructions that look at one type, and where they jump to. -/
structure Level (type : UInt16) (pc offset : Nat) (jt jf : UInt8) : Prop where
  load : (program type)[pc]? = some (.loadHalf offset)
  found : (program type)[pc + 1]? = some (.jumpEq type.toUInt32 jt 0)
  vlan : (program type)[pc + 2]? = some (.jumpEq vlanType.toUInt32 1 0)
  serviceVlan : (program type)[pc + 3]? = some (.jumpEq serviceVlanType.toUInt32 0 jf)
  accept : pc + 2 + jt.toNat = 10
  reject : pc + 4 + jf.toNat = 11

theorem first_level (type : UInt16) : Level type 0 12 8 7 :=
  ⟨rfl, rfl, rfl, rfl, rfl, rfl⟩

theorem second_level (type : UInt16) : Level type 4 16 4 3 :=
  ⟨rfl, rfl, rfl, rfl, rfl, rfl⟩

theorem evaluates_accept (type : UInt16) (frame : List UInt8) (a : UInt32) :
    Bpf.Evaluates (program type) frame ⟨10, a⟩ 0xFFFF :=
  .ret rfl

theorem evaluates_reject (type : UInt16) (frame : List UInt8) (a : UInt32) :
    Bpf.Evaluates (program type) frame ⟨11, a⟩ 0 :=
  .ret rfl

/-- The result of a level, if `k` is that of the instructions after it. -/
def levelResult (type : UInt16) (found : Option UInt16) (k : UInt32) : UInt32 :=
  match found with
  | none => 0
  | some t => if t = type then 0xFFFF else if IsTag t then k else 0

theorem Level.evaluates (hlevel : Level type pc offset jt jf)
    (hnext : ∀ a, Bpf.Evaluates (program type) frame ⟨pc + 4, a⟩ k) :
    Bpf.Evaluates (program type) frame ⟨pc, a⟩
      (levelResult type (typeOf (frame.drop offset)) k) := by
  have hload := loadHalf_eq frame offset
  cases hfound : typeOf (frame.drop offset) with
  | none =>
      rw [hfound] at hload
      exact .load_outside hlevel.load hload
  | some t =>
      rw [hfound] at hload
      refine .load hlevel.load hload ?_
      unfold levelResult
      by_cases htype : t = type
      · refine .jump hlevel.found (by rw [htype]) ?_
        show Bpf.Evaluates _ _ ⟨pc + 2 + jt.toNat, _⟩ (if t = type then _ else _)
        rw [hlevel.accept, if_pos htype]
        exact evaluates_accept type frame _
      refine .jump_else hlevel.found (toUInt32_ne htype) ?_
      simp only [if_neg htype]
      by_cases hvlan : t = vlanType
      · -- over the comparison with the other tag
        refine .jump hlevel.vlan (by rw [hvlan]) ?_
        rw [if_pos (show IsTag t from .inl hvlan)]
        exact hnext _
      refine .jump_else hlevel.vlan (toUInt32_ne hvlan) ?_
      by_cases hservice : t = serviceVlanType
      · refine .jump hlevel.serviceVlan (by rw [hservice]) ?_
        rw [if_pos (show IsTag t from .inr hservice)]
        exact hnext _
      refine .jump_else hlevel.serviceVlan (toUInt32_ne hservice) ?_
      show Bpf.Evaluates _ _ ⟨pc + 4 + jf.toNat, _⟩ _
      rw [hlevel.reject, if_neg (fun htag : IsTag t => htag.elim hvlan hservice)]
      exact evaluates_reject type frame _

/-- Behind two tags there is one comparison left. -/
theorem third_level (type : UInt16) (frame : List UInt8) (a : UInt32) :
    Bpf.Evaluates (program type) frame ⟨8, a⟩
      (if typeOf (frame.drop 20) = some type then 0xFFFF else 0) := by
  have hload := loadHalf_eq frame 20
  cases hfound : typeOf (frame.drop 20) with
  | none =>
      rw [hfound] at hload
      exact .load_outside rfl hload
  | some t =>
      rw [hfound] at hload
      refine .load rfl hload ?_
      by_cases htype : t = type
      · rw [htype, if_pos rfl]
        exact .jump rfl rfl (evaluates_accept type frame _)
      · rw [if_neg (fun heq => htype (Option.some.inj heq))]
        exact .jump_else rfl (toUInt32_ne htype) (evaluates_reject type frame _)

theorem evaluates_program (type : UInt16) (frame : List UInt8) :
    Bpf.Evaluates (program type) frame ⟨0, 0⟩
      (levelResult type (typeOf (frame.drop 12)) (levelResult type (typeOf (frame.drop 16))
        (if typeOf (frame.drop 20) = some type then 0xFFFF else 0))) :=
  (first_level type).evaluates fun _ =>
    (second_level type).evaluates fun a => third_level type frame a

end Level

/-! ## Equivalence -/

section Equivalence

variable {type : UInt16} {bytes frame : List UInt8} {k : UInt32}

/-- What a level says of a target that is no tag. -/
theorem levelResult_ne_zero (htarget : ¬ IsTag type)
    (hnext : ∀ t, typeOf bytes = some t → IsTag t →
      (k ≠ 0 ↔ innerEtherType (bytes.drop 4) = some type)) :
    levelResult type (typeOf bytes) k ≠ 0 ↔ innerEtherType bytes = some type := by
  rw [innerEtherType_eq]
  unfold levelResult
  cases hfound : typeOf bytes with
  | none => simp
  | some t =>
      by_cases htype : t = type
      · subst htype
        simp [if_neg htarget]
      · by_cases htag : IsTag t
        · simpa [htype, htag] using hnext t hfound htag
        · simp [htype, htag]

theorem last_ne_zero (htarget : ¬ IsTag type) (htags : leadingTagsFrom bytes = 0) :
    (if typeOf bytes = some type then (0xFFFF : UInt32) else 0) ≠ 0 ↔
      innerEtherType bytes = some type := by
  rw [innerEtherType_eq]
  rw [leadingTagsFrom_eq] at htags
  cases hfound : typeOf bytes with
  | none => simp
  | some t =>
      rw [hfound] at htags
      have htag : ¬ IsTag t := by
        intro htag
        simp only [if_pos htag] at htags
        omega
      by_cases htype : t = type <;> simp [htype, htag, htarget]

theorem leadingTagsFrom_drop {t : UInt16} {n : Nat} (hfound : typeOf bytes = some t)
    (htag : IsTag t) (h : leadingTagsFrom bytes ≤ n + 1) : leadingTagsFrom (bytes.drop 4) ≤ n := by
  rw [leadingTagsFrom_eq, hfound] at h
  simp only [if_pos htag] at h
  omega

/-- The kernel's program finds the type behind up to two tags. -/
theorem accepts_iff (htarget : ¬ IsTag type) (htags : leadingTags frame ≤ 2) :
    Bpf.accepts (program type) frame ↔ frameEtherType frame = some type := by
  have hfirst : (frame.drop 12).drop 4 = frame.drop 16 := List.drop_drop
  have hsecond : (frame.drop 16).drop 4 = frame.drop 20 := List.drop_drop
  rw [Bpf.accepts_iff (evaluates_program type frame), frameEtherType_eq]
  show _ ↔ innerEtherType (frame.drop 12) = some type
  refine levelResult_ne_zero htarget fun t hfound htag => ?_
  have hrest := leadingTagsFrom_drop hfound htag htags
  rw [hfirst] at hrest ⊢
  refine levelResult_ne_zero htarget fun u hfound' htag' => ?_
  have hlast := leadingTagsFrom_drop hfound' htag' hrest
  rw [hsecond] at hlast ⊢
  exact last_ne_zero htarget (Nat.le_zero.mp hlast)

end Equivalence

/-! ## Reads inside the frame -/

section Reads

variable {frame : List UInt8} {offset fuel : Nat} {t : UInt16}

theorem readEtherTypeAt_eq (h : offset + 2 ≤ frame.length) :
    ∃ t, readEtherTypeAt frame offset = .ok t ∧ typeOf (frame.drop offset) = some t := by
  have hhigh : frame[offset]? = some frame[offset] := List.getElem?_eq_getElem (by omega)
  have hlow : frame[offset + 1]? = some frame[offset + 1] := List.getElem?_eq_getElem (by omega)
  refine ⟨readEtherType frame[offset] frame[offset + 1], ?_, ?_⟩
  · simp only [readEtherTypeAt, readByte, hhigh, hlow]
    rfl
  · rw [List.drop_eq_getElem_cons (by omega), List.drop_eq_getElem_cons (by omega)]
    rfl

/-- From a type that is in the frame the loop ends, inside the frame.  The induction is on
    the fuel, which the bytes behind the offset bound. -/
theorem skipTags_eq (hlength : offset + 2 ≤ frame.length) (hfuel : frame.length ≤ offset + fuel)
    (hfound : typeOf (frame.drop offset) = some t) :
    skipTags frame fuel offset t = .ok (innerEtherType (frame.drop offset)) := by
  induction fuel generalizing offset t with
  | zero => omega
  | succ fuel ih =>
      have hdrop : (frame.drop offset).drop 4 = frame.drop (offset + vlanTagSize) :=
        List.drop_drop
      rw [innerEtherType_eq, hfound, hdrop]
      unfold skipTags
      by_cases htag : t = vlanType ∨ t = serviceVlanType
      · rw [if_pos htag]
        show _ = Except.ok (if IsTag t then _ else _)
        rw [if_pos (show IsTag t from htag)]
        by_cases hshort : frame.length < offset + vlanTagSize + 2
        · -- cut inside the tag
          have hnone : typeOf (frame.drop (offset + vlanTagSize)) = none :=
            typeOf_eq_none (by rw [List.length_drop]; omega)
          rw [if_pos hshort, innerEtherType_eq, hnone]
        · have hinside : offset + vlanTagSize + 2 ≤ frame.length := by omega
          obtain ⟨u, hread, hnext⟩ := readEtherTypeAt_eq hinside
          rw [if_neg hshort, hread]
          exact ih (by omega) (by simp only [vlanTagSize]; omega) hnext
      · rw [if_neg htag]
        show _ = Except.ok (if IsTag t then _ else _)
        rw [if_neg (show ¬ IsTag t from htag)]

/-- `frameEtherType` ends within as many rounds as the frame has bytes, and reads nothing
    outside it. -/
theorem frameEtherTypeAt_eq (hfuel : frame.length ≤ fuel) :
    frameEtherTypeAt frame fuel = .ok (frameEtherType frame) := by
  rw [frameEtherType_eq]
  unfold frameEtherTypeAt ethernetHeaderBytes
  by_cases hshort : frame.length < 14
  · have hnone : typeOf (frame.drop etherTypeOffset) = none :=
      typeOf_eq_none (by rw [List.length_drop]; simp only [etherTypeOffset]; omega)
    rw [if_pos hshort, innerEtherType_eq, hnone]
  · have hlength : etherTypeOffset + 2 ≤ frame.length := by
      simp only [etherTypeOffset]
      omega
    obtain ⟨t, hread, hfound⟩ := readEtherTypeAt_eq hlength
    rw [if_neg hshort, hread]
    exact skipTags_eq hlength (by omega) hfound

end Reads

/-! ## The results -/

/-- The kernel's program and `frameEtherType` agree on every frame with up to two leading
    tags, so both backends deliver the same frames; and on every frame at all, `frameEtherType`
    ends without a read outside it. -/
theorem etherTypeFilter_equivalent :
    (∀ (frame : List UInt8) (type : UInt16), leadingTags frame ≤ 2 → type ≠ vlanType →
      type ≠ serviceVlanType →
      ((Bpf.accepts (program type) frame ↔ frameEtherType frame = some type) ∧
        (linuxDelivers (some type) frame ↔ stm32Delivers (some type) frame))) ∧
    ∀ frame : List UInt8, frameEtherTypeAt frame frame.length = .ok (frameEtherType frame) := by
  refine ⟨fun frame type htags hvlan hservice => ?_, fun frame => ?_⟩
  · have htarget : ¬ IsTag type := fun h => h.elim hvlan hservice
    have haccepts := accepts_iff htarget htags
    refine ⟨haccepts, fun h => h.2, fun h => ⟨?_, h⟩⟩
    rintro _ ⟨⟩
    simp only [stm32Delivers, wanted, beq_iff_eq] at h
    exact haccepts.mpr h
  · exact frameEtherTypeAt_eq (Nat.le_refl _)

end EtherTypeFilter
end Hal
end NucleoBase
