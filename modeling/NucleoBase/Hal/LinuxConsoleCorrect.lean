/-
  NucleoBase.Hal.LinuxConsoleCorrect

  The console queue is a bounded first-in-first-out queue of chunks that drops
  its oldest chunk when full (`Spec`): every call does to the ring what it does
  to the list the ring holds.  Over whole runs the record of what was queued is
  the record of what left, in order, followed by what is still queued; and the
  drop notices add up, as far as the counter's 64 bits reach.
-/

import NucleoBase.Hal.LinuxConsole

namespace NucleoBase
namespace Hal
namespace LinuxConsole

open Lib

/-! ## The bounded queue -/

/-- What the console is for: a queue of chunks, the number of dropped chunks
    not yet reported, and where text goes. -/
structure Spec where
  queued : List Chunk
  pending : Nat
  mode : Mode
  deriving DecidableEq, Repr

namespace Spec

/-- Append a chunk; a full queue drops its oldest. -/
def push (c : Chunk) (a : Spec) : Spec × List (Entry Chunk) :=
  match a.queued with
  | oldest :: rest =>
      if a.queued.length = queueCapacity then
        ({ a with queued := rest ++ [c], pending := (a.pending + 1) % sizeValues },
          [.dropped oldest, .enqueued c])
      else ({ a with queued := a.queued ++ [c] }, [.enqueued c])
  | [] => ({ a with queued := [c] }, [.enqueued c])

/-- Hand out at most `room` chunks, oldest first. -/
def take (sink : Sink) (room : Nat) (a : Spec) : Spec × List (Entry Chunk) :=
  ({ a with queued := a.queued.drop room }, (a.queued.take room).map (.delivered sink))

/-- Report the dropped chunks, if there are any. -/
def notice (sink : Sink) (a : Spec) : Spec × List (Entry Chunk) :=
  if a.pending ≠ 0 then ({ a with pending := 0 }, [.notice sink a.pending]) else (a, [])

/-- Append chunks one after the other. -/
def pushAll : List Chunk → Spec → Spec × List (Entry Chunk)
  | [], a => (a, [])
  | c :: cs, a =>
      let (a, es) := push c a
      let (a, es') := pushAll cs a
      (a, es ++ es')

end Spec

/-- The chunks of one text: full payloads and a last one that ends the record. -/
def split (channel : Channel) (text : List UInt8) : List Chunk :=
  if h : messagePayloadSize < text.length then
    ⟨channel, text.take messagePayloadSize, false⟩ ::
      split channel (text.drop messagePayloadSize)
  else [⟨channel, text, true⟩]
termination_by text.length
decreasing_by
  simp only [List.length_drop, messagePayloadSize] at h ⊢
  omega

namespace Spec

def exec (a : Spec) : Call → Spec × List (Entry Chunk)
  | .beginBuffering =>
      if a.mode = .passThrough then ({ a with mode := .buffering }, []) else (a, [])
  | .activateInteractive =>
      if a.mode ≠ .plain then ({ a with mode := .interactive }, []) else (a, [])
  | .activatePlain =>
      let (a, es) := notice .stderr { a with mode := .plain }
      let (a, es') := take .stderr a.queued.length a
      (a, es ++ es')
  | .publish channel text =>
      match a.mode with
      | .passThrough => (a, [.passed .stdout text])
      | .plain => (a, [.passed .stderr text])
      | _ => pushAll (split channel text) a
  | .drain capacity =>
      if capacity = 0 ∨ a.mode ≠ .interactive then (a, [])
      else
        let (a, es) := notice .frontend a
        let (a, es') := take .frontend (capacity - es.length) a
        (a, es ++ es')

end Spec

/-! ## The ring holds the queue -/

/-- The chunks in the ring, oldest first. -/
def State.queued (s : State) : List Chunk :=
  (Ring.window queueCapacity s.queue s.head s.count).map Message.chunk

/-- The ring's indices are in range. -/
structure RingOk (s : State) : Prop where
  head : s.head < queueCapacity
  count : s.count ≤ queueCapacity

/-- The queue that a ring stands for. -/
def State.spec (s : State) : Spec := ⟨s.queued, s.dropped, s.mode⟩

def Entry.view : Entry Message → Entry Chunk
  | .enqueued c => .enqueued c
  | .dropped m => .dropped m.chunk
  | .notice sink amount => .notice sink amount
  | .delivered sink m => .delivered sink m.chunk
  | .passed stream text => .passed stream text

@[simp] theorem length_queued (s : State) : s.queued.length = s.count := by
  simp [State.queued]

/-- Taking the message at the head off a ring that is not empty. -/
theorem queued_pop {s : State} {k : Nat} (ok : RingOk s) (hk : s.count = k + 1) :
    s.queued = (s.queue s.head).chunk ::
      { s with head := (s.head + 1) % queueCapacity, count := s.count - 1 }.queued := by
  simp only [State.queued, hk, Nat.add_sub_cancel]
  rw [Ring.window_pop, Nat.mod_eq_of_lt ok.head, List.map_cons]

theorem RingOk.pop {s : State} (ok : RingOk s) :
    RingOk { s with head := (s.head + 1) % queueCapacity, count := s.count - 1 } where
  head := Nat.mod_lt _ (by decide)
  count := Nat.le_trans (Nat.sub_le _ _) ok.count

/-- Storing a message behind the last one of a ring with a free slot. -/
theorem queued_push {s : State} {m : Message} (hc : s.count < queueCapacity) :
    State.queued { s with
      queue := Function.update s.queue ((s.head + s.count) % queueCapacity) m
      count := s.count + 1 } = s.queued ++ [m.chunk] := by
  simp only [State.queued]
  rw [Ring.window_push hc, List.map_append]
  rfl

/-- The copied text is what the slot says, whatever it held before. -/
theorem chunk_memcpy (m : Message) (channel : Channel) (text : List UInt8) (last : Bool) :
    Message.chunk { m with
      channel := channel
      size := text.length
      endOfRecord := last
      text := memcpy m.text 0 text } = ⟨channel, text, last⟩ := by
  simp [Message.chunk, memcpy]

theorem RingOk.enqueue {s : State} {channel : Channel} {text : List UInt8} {last : Bool}
    (ok : RingOk s) : RingOk (enqueue channel text last s).1 := by
  have hc := ok.count
  unfold LinuxConsole.enqueue
  split
  rename_i s' es heq
  split at heq
  · rename_i hfull
    cases heq
    refine ⟨Nat.mod_lt _ (by decide), ?_⟩
    simp only [hfull]
    decide
  · rename_i hfree
    cases heq
    refine ⟨ok.head, ?_⟩
    simp only
    omega

/-- `enqueue` is the bounded queue's append. -/
theorem enqueue_spec {s : State} (channel : Channel) (text : List UInt8) (last : Bool)
    (ok : RingOk s) :
    (enqueue channel text last s).1.spec = (s.spec.push ⟨channel, text, last⟩).1 ∧
      (enqueue channel text last s).2.map Entry.view = (s.spec.push ⟨channel, text, last⟩).2 := by
  have hlen : s.queued.length = s.count := length_queued s
  by_cases hfull : s.count = queueCapacity
  · have hk : s.count = 255 + 1 := hfull
    have hpop := queued_pop ok hk
    have hpush := queued_push
      (s := { s with
        head := (s.head + 1) % queueCapacity
        count := s.count - 1
        dropped := (s.dropped + 1) % sizeValues })
      (m := { s.queue (((s.head + 1) % queueCapacity + (s.count - 1)) % queueCapacity) with
        channel := channel
        size := text.length
        endOfRecord := last
        text := memcpy (s.queue
          (((s.head + 1) % queueCapacity + (s.count - 1)) % queueCapacity)).text 0 text })
      (by simp only [hk]; decide)
    rw [chunk_memcpy] at hpush
    have hspec : s.spec.push ⟨channel, text, last⟩ =
        ({ s.spec with
            queued := State.queued { s with
              head := (s.head + 1) % queueCapacity
              count := s.count - 1 } ++ [⟨channel, text, last⟩]
            pending := (s.dropped + 1) % sizeValues },
          [.dropped (s.queue s.head).chunk, .enqueued ⟨channel, text, last⟩]) := by
      simp only [Spec.push, State.spec, hpop, List.length_cons, length_queued]
      rw [if_pos (by omega)]
    rw [hspec]
    simp only [enqueue, hfull, if_true]
    refine ⟨?_, rfl⟩
    simp only [State.spec, Spec.mk.injEq, and_true]
    simp only [hfull] at hpush
    exact hpush
  · have hspec : s.spec.push ⟨channel, text, last⟩ =
        ({ s.spec with queued := s.queued ++ [⟨channel, text, last⟩] },
          [.enqueued ⟨channel, text, last⟩]) := by
      unfold Spec.push
      cases hq : s.spec.queued with
      | nil =>
          have hnil : s.queued = [] := hq
          rw [hnil]
          rfl
      | cons c cs =>
          have hcons : s.queued = c :: cs := hq
          simp only
          rw [if_neg, hcons]
          rwa [← hcons, hlen]
    have hpush := queued_push (s := s)
      (m := { s.queue ((s.head + s.count) % queueCapacity) with
        channel := channel
        size := text.length
        endOfRecord := last
        text := memcpy (s.queue ((s.head + s.count) % queueCapacity)).text 0 text })
      (by have := ok.count; omega)
    rw [chunk_memcpy] at hpush
    rw [hspec]
    simp only [enqueue, hfull, if_false]
    refine ⟨?_, rfl⟩
    simp only [State.spec, Spec.mk.injEq, and_true]
    exact hpush

theorem takeMessages_spec (sink : Sink) (room : Nat) {s : State} (ok : RingOk s) :
    RingOk (takeMessages sink room s).1 ∧
      (takeMessages sink room s).1.spec = (s.spec.take sink room).1 ∧
      (takeMessages sink room s).2.map Entry.view = (s.spec.take sink room).2 := by
  induction room generalizing s with
  | zero => exact ⟨ok, rfl, rfl⟩
  | succ room ih =>
      have hlen : s.queued.length = s.count := length_queued s
      by_cases h0 : s.count = 0
      · have hnil : s.queued = [] := List.length_eq_zero_iff.mp (hlen.trans h0)
        simp only [takeMessages, h0, if_true]
        refine ⟨ok, ?_, ?_⟩
        · simp [Spec.take, State.spec, hnil]
        · simp [Spec.take, State.spec, hnil]
      · obtain ⟨k, hk⟩ := Nat.exists_eq_succ_of_ne_zero h0
        have hpop := queued_pop ok hk
        obtain ⟨hok, hspec, hes⟩ := ih ok.pop
        simp only [takeMessages, h0, if_false]
        refine ⟨hok, ?_, ?_⟩
        · rw [hspec]
          simp [Spec.take, State.spec, hpop]
        · rw [List.map_cons, hes]
          simp [Spec.take, State.spec, hpop, Entry.view]

theorem takeNotice_spec (sink : Sink) {s : State} (ok : RingOk s) :
    RingOk (takeNotice sink s).1 ∧ (takeNotice sink s).1.spec = (s.spec.notice sink).1 ∧
      (takeNotice sink s).2.map Entry.view = (s.spec.notice sink).2 := by
  by_cases h0 : s.dropped = 0
  · simp [takeNotice, Spec.notice, State.spec, h0, ok]
  · simp only [takeNotice, Spec.notice, State.spec, h0, ne_eq, not_false_eq_true, if_true]
    exact ⟨⟨ok.head, ok.count⟩, rfl, rfl⟩

/-- A text that fits into one message, and one that does not. -/
theorem split_of_le {channel : Channel} {text : List UInt8}
    (h : text.length ≤ messagePayloadSize) : split channel text = [⟨channel, text, true⟩] := by
  rw [split, dif_neg (by omega)]

theorem split_of_gt {channel : Channel} {text : List UInt8}
    (h : messagePayloadSize < text.length) : split channel text =
      ⟨channel, text.take messagePayloadSize, false⟩ ::
        split channel (text.drop messagePayloadSize) := by
  rw [split, dif_pos h]

/-- The loop of `publish` queues the text's chunks. -/
theorem publishChunks_spec {channel : Channel} {text : List UInt8} {s : State} (ok : RingOk s)
    (hne : text ≠ []) :
    RingOk (publishChunks channel text s).1 ∧
      (publishChunks channel text s).1.spec = (s.spec.pushAll (split channel text)).1 ∧
      (publishChunks channel text s).2.map Entry.view =
        (s.spec.pushAll (split channel text)).2 := by
  induction hn : text.length using Nat.strong_induction_on generalizing text s with
  | _ n ih =>
  rw [publishChunks, dif_neg hne]
  by_cases hlong : messagePayloadSize < text.length
  · have hchunk : min text.length messagePayloadSize = messagePayloadSize := by omega
    have hlast : decide (messagePayloadSize = text.length) = false := by
      simp only [decide_eq_false_iff_not]
      omega
    have hrest : text.drop messagePayloadSize ≠ [] := by
      intro hnil
      have := congrArg List.length hnil
      simp only [List.length_drop, List.length_nil] at this
      omega
    have hshort : (text.drop messagePayloadSize).length < n := by
      simp only [List.length_drop, ← hn]
      have : 0 < messagePayloadSize := by decide
      omega
    simp only [hchunk, hlast]
    obtain ⟨hs, hes⟩ := enqueue_spec channel (text.take messagePayloadSize) false ok
    obtain ⟨hok, hs', hes'⟩ := ih _ hshort (s := (enqueue channel
      (text.take messagePayloadSize) false s).1) ok.enqueue hrest rfl
    rw [split_of_gt hlong]
    simp only [Spec.pushAll]
    rw [hs] at hs' hes'
    refine ⟨hok, hs', ?_⟩
    rw [List.map_append, hes, hes']
  · have hchunk : min text.length messagePayloadSize = text.length := by omega
    have hnil : ∀ s : State, publishChunks channel [] s = (s, []) := by
      intro s
      rw [publishChunks, dif_pos rfl]
    obtain ⟨hs, hes⟩ := enqueue_spec channel text true ok
    rw [split_of_le (by omega)]
    simp only [hchunk, List.take_length, List.drop_length, decide_true, hnil, List.append_nil,
      Spec.pushAll]
    exact ⟨ok.enqueue, hs, hes⟩

/-- Every call does to the ring what the bounded queue does. -/
theorem exec_spec {s : State} (ok : RingOk s) (call : Call) :
    RingOk (exec s call).1 ∧ (exec s call).1.spec = (s.spec.exec call).1 ∧
      (exec s call).2.map Entry.view = (s.spec.exec call).2 := by
  cases call with
  | beginBuffering =>
      by_cases hm : s.mode = .passThrough
      · have hm' : s.spec.mode = .passThrough := hm
        simp only [exec, beginBuffering, Spec.exec]
        rw [if_pos hm, if_pos hm']
        exact ⟨⟨ok.head, ok.count⟩, rfl, rfl⟩
      · have hm' : s.spec.mode ≠ .passThrough := hm
        simp only [exec, beginBuffering, Spec.exec]
        rw [if_neg hm, if_neg hm']
        exact ⟨ok, rfl, rfl⟩
  | activateInteractive =>
      by_cases hm : s.mode ≠ .plain
      · have hm' : s.spec.mode ≠ .plain := hm
        simp only [exec, activateInteractive, Spec.exec]
        rw [if_pos hm, if_pos hm']
        exact ⟨⟨ok.head, ok.count⟩, rfl, rfl⟩
      · have hm' : ¬ s.spec.mode ≠ .plain := hm
        simp only [exec, activateInteractive, Spec.exec]
        rw [if_neg hm, if_neg hm']
        exact ⟨ok, rfl, rfl⟩
  | activatePlain =>
      have hok : RingOk { s with mode := .plain } := ⟨ok.head, ok.count⟩
      have hspec : State.spec { s with mode := .plain } = { s.spec with mode := .plain } := rfl
      obtain ⟨hok₁, hs₁, hes₁⟩ := takeNotice_spec .stderr hok
      obtain ⟨hok₂, hs₂, hes₂⟩ := takeMessages_spec .stderr
        (takeNotice .stderr { s with mode := .plain }).1.count hok₁
      have hroom : (takeNotice .stderr { s with mode := .plain }).1.count =
          (Spec.notice .stderr { s.spec with mode := .plain }).1.queued.length := by
        rw [← hspec, ← hs₁]
        exact (length_queued _).symm
      simp only [exec, activatePlain, flushQueue, Spec.exec]
      rw [hs₁, hspec] at hs₂ hes₂
      rw [hroom] at hok₂ hs₂ hes₂ ⊢
      refine ⟨hok₂, hs₂, ?_⟩
      rw [List.map_append, hes₁, hes₂, hspec]
  | publish channel text =>
      have hqueue : s.mode ≠ .passThrough → s.mode ≠ .plain →
          exec s (.publish channel text) =
            (if text = [] then enqueue channel [] true s else publishChunks channel text s) ∧
          s.spec.exec (.publish channel text) = s.spec.pushAll (split channel text) := by
        intro h1 h2
        simp only [exec, publish, Spec.exec, State.spec]
        cases hm : s.mode <;> simp_all
      by_cases h1 : s.mode = .passThrough
      · have h1' : s.spec.mode = .passThrough := h1
        have hexec : exec s (.publish channel text) = (s, [.passed .stdout text]) := by
          simp only [exec, publish, h1]
        have hspec : s.spec.exec (.publish channel text) = (s.spec, [.passed .stdout text]) := by
          simp only [Spec.exec, h1']
        rw [hexec, hspec]
        exact ⟨ok, rfl, rfl⟩
      by_cases h2 : s.mode = .plain
      · have h2' : s.spec.mode = .plain := h2
        have hexec : exec s (.publish channel text) = (s, [.passed .stderr text]) := by
          simp only [exec, publish, h2]
        have hspec : s.spec.exec (.publish channel text) = (s.spec, [.passed .stderr text]) := by
          simp only [Spec.exec, h2']
        rw [hexec, hspec]
        exact ⟨ok, rfl, rfl⟩
      obtain ⟨hexec, hspec⟩ := hqueue h1 h2
      rw [hexec, hspec]
      by_cases htext : text = []
      · subst htext
        obtain ⟨hs, hes⟩ := enqueue_spec channel [] true ok
        rw [if_pos rfl, split_of_le (Nat.zero_le _)]
        simp only [Spec.pushAll, List.append_nil]
        exact ⟨ok.enqueue, hs, hes⟩
      · rw [if_neg htext]
        exact publishChunks_spec ok htext
  | drain capacity =>
      by_cases hc : capacity = 0 ∨ s.mode ≠ .interactive
      · have hc' : capacity = 0 ∨ s.spec.mode ≠ .interactive := hc
        simp only [exec, drain, Spec.exec]
        rw [if_pos hc, if_pos hc']
        exact ⟨ok, rfl, rfl⟩
      · have hc' : ¬ (capacity = 0 ∨ s.spec.mode ≠ .interactive) := hc
        obtain ⟨hok₁, hs₁, hes₁⟩ := takeNotice_spec .frontend ok
        have hlen : (takeNotice .frontend s).2.length = (s.spec.notice .frontend).2.length := by
          rw [← hes₁, List.length_map]
        obtain ⟨hok₂, hs₂, hes₂⟩ := takeMessages_spec .frontend
          (capacity - (takeNotice .frontend s).2.length) hok₁
        simp only [exec, drain, Spec.exec]
        rw [if_neg hc, if_neg hc']
        simp only
        rw [hs₁] at hs₂ hes₂
        rw [hlen] at hok₂ hs₂ hes₂ ⊢
        refine ⟨hok₂, hs₂, ?_⟩
        rw [List.map_append, hes₁, hes₂]

/-! ## The ledger -/

def Entry.enqueuedChunk : Entry Chunk → Option Chunk
  | .enqueued c => some c
  | _ => none

/-- The chunk that an entry takes out of the queue. -/
def Entry.leftChunk : Entry Chunk → Option Chunk
  | .dropped c => some c
  | .delivered _ c => some c
  | _ => none

def Entry.isDropped : Entry Chunk → Bool
  | .dropped _ => true
  | _ => false

def Entry.noticed : Entry Chunk → Nat
  | .notice _ amount => amount
  | _ => 0

/-- The chunks queued, in order. -/
def enqueuedChunks (es : List (Entry Chunk)) : List Chunk := es.filterMap Entry.enqueuedChunk

/-- The chunks drained, flushed or dropped, in order. -/
def leftChunks (es : List (Entry Chunk)) : List Chunk := es.filterMap Entry.leftChunk

/-- How many chunks were dropped. -/
def droppedCount (es : List (Entry Chunk)) : Nat := es.countP Entry.isDropped

/-- The sum of the amounts in the drop notices. -/
def noticeSum (es : List (Entry Chunk)) : Nat := (es.map Entry.noticed).sum

@[simp] theorem enqueuedChunks_append (es es' : List (Entry Chunk)) :
    enqueuedChunks (es ++ es') = enqueuedChunks es ++ enqueuedChunks es' :=
  List.filterMap_append

@[simp] theorem leftChunks_append (es es' : List (Entry Chunk)) :
    leftChunks (es ++ es') = leftChunks es ++ leftChunks es' :=
  List.filterMap_append

@[simp] theorem droppedCount_append (es es' : List (Entry Chunk)) :
    droppedCount (es ++ es') = droppedCount es + droppedCount es' :=
  List.countP_append

@[simp] theorem noticeSum_append (es es' : List (Entry Chunk)) :
    noticeSum (es ++ es') = noticeSum es + noticeSum es' := by
  simp [noticeSum]

/-- From `a` to `b` the entries account for every chunk, and for every drop up
    to the `wraps` of the counter. -/
structure Balanced (a b : Spec) (es : List (Entry Chunk)) : Prop where
  chunks : a.queued ++ enqueuedChunks es = leftChunks es ++ b.queued
  drops : ∃ wraps, a.pending + droppedCount es = noticeSum es + b.pending + wraps * sizeValues

theorem Balanced.refl (a : Spec) : Balanced a a [] where
  chunks := by simp [enqueuedChunks, leftChunks]
  drops := ⟨0, by simp [droppedCount, noticeSum]⟩

theorem Balanced.trans {a b c : Spec} {es es' : List (Entry Chunk)} (h : Balanced a b es)
    (h' : Balanced b c es') : Balanced a c (es ++ es') where
  chunks := by
    have h1 := h.chunks
    have h2 := h'.chunks
    rw [enqueuedChunks_append, leftChunks_append, ← List.append_assoc, h1, List.append_assoc, h2,
      List.append_assoc]
  drops := by
    obtain ⟨k, hk⟩ := h.drops
    obtain ⟨l, hl⟩ := h'.drops
    refine ⟨k + l, ?_⟩
    rw [droppedCount_append, noticeSum_append, Nat.add_mul]
    omega

/-- Only the mode changes. -/
theorem Balanced.mode {a b : Spec} {es : List (Entry Chunk)} (h : Balanced a b es) (m : Mode) :
    Balanced { a with mode := m } b es :=
  ⟨h.chunks, h.drops⟩

theorem push_balanced (c : Chunk) (a : Spec) : Balanced a (a.push c).1 (a.push c).2 := by
  unfold Spec.push
  split
  · rename_i oldest rest hq
    split
    · refine ⟨?_, (a.pending + 1) / sizeValues, ?_⟩
      · simp [enqueuedChunks, leftChunks, List.filterMap_cons, Entry.enqueuedChunk,
          Entry.leftChunk, hq]
      · have hdiv := Nat.div_add_mod (a.pending + 1) sizeValues
        simp only [droppedCount, List.countP_cons, Entry.isDropped, List.countP_nil, noticeSum,
          List.map_cons, Entry.noticed, List.map_nil, List.sum_cons, List.sum_nil]
        rw [Nat.mul_comm] at hdiv
        simp only [if_true, Bool.false_eq_true, if_false]
        omega
    · refine ⟨?_, 0, ?_⟩
      · simp [enqueuedChunks, leftChunks, List.filterMap_cons, Entry.enqueuedChunk, Entry.leftChunk]
      · simp [droppedCount, Entry.isDropped, noticeSum, Entry.noticed]
  · rename_i hq
    refine ⟨?_, 0, ?_⟩
    · simp [enqueuedChunks, leftChunks, List.filterMap_cons, Entry.enqueuedChunk,
        Entry.leftChunk, hq]
    · simp [droppedCount, Entry.isDropped, noticeSum, Entry.noticed]

theorem pushAll_balanced (cs : List Chunk) (a : Spec) :
    Balanced a (a.pushAll cs).1 (a.pushAll cs).2 := by
  induction cs generalizing a with
  | nil => exact .refl a
  | cons c cs ih => exact (push_balanced c a).trans (ih _)

theorem take_balanced (sink : Sink) (room : Nat) (a : Spec) :
    Balanced a (a.take sink room).1 (a.take sink room).2 := by
  have hnone : ∀ cs : List Chunk, enqueuedChunks (cs.map (.delivered sink)) = [] ∧
      leftChunks (cs.map (.delivered sink)) = cs ∧
      droppedCount (cs.map (.delivered sink)) = 0 ∧
      noticeSum (cs.map (.delivered sink)) = 0 := by
    intro cs
    induction cs with
    | nil => exact ⟨rfl, rfl, rfl, rfl⟩
    | cons c cs ih =>
        obtain ⟨h1, h2, h3, h4⟩ := ih
        refine ⟨h1, congrArg (c :: ·) h2, ?_, ?_⟩
        · rw [List.map_cons, droppedCount, List.countP_cons_of_neg (by simp [Entry.isDropped])]
          exact h3
        · rw [List.map_cons, noticeSum, List.map_cons, List.sum_cons]
          exact (Nat.zero_add _).trans h4
  obtain ⟨h1, h2, h3, h4⟩ := hnone (a.queued.take room)
  refine ⟨?_, 0, ?_⟩
  · simp only [Spec.take, h1, h2, List.append_nil, List.take_append_drop]
  · simp only [Spec.take, h3, h4]
    omega

theorem notice_balanced (sink : Sink) (a : Spec) :
    Balanced a (a.notice sink).1 (a.notice sink).2 := by
  unfold Spec.notice
  split
  · refine ⟨?_, 0, ?_⟩
    · simp [enqueuedChunks, leftChunks, List.filterMap_cons, Entry.enqueuedChunk, Entry.leftChunk]
    · simp [droppedCount, Entry.isDropped, noticeSum, Entry.noticed]
  · exact .refl a

theorem passed_balanced (stream : Stream) (text : List UInt8) (a : Spec) :
    Balanced a a [.passed stream text] := by
  refine ⟨?_, 0, ?_⟩
  · simp [enqueuedChunks, leftChunks, List.filterMap_cons, Entry.enqueuedChunk, Entry.leftChunk]
  · simp [droppedCount, Entry.isDropped, noticeSum, Entry.noticed]

theorem exec_balanced (a : Spec) (call : Call) :
    Balanced a (a.exec call).1 (a.exec call).2 := by
  cases call with
  | beginBuffering =>
      simp only [Spec.exec]
      split
      · exact ⟨(Balanced.refl a).chunks, (Balanced.refl a).drops⟩
      · exact .refl a
  | activateInteractive =>
      simp only [Spec.exec]
      split
      · exact ⟨(Balanced.refl a).chunks, (Balanced.refl a).drops⟩
      · exact .refl a
  | activatePlain =>
      have h := (notice_balanced .stderr { a with mode := .plain }).trans
        (take_balanced .stderr (Spec.notice .stderr { a with mode := .plain }).1.queued.length _)
      exact h.mode a.mode
  | publish channel text =>
      simp only [Spec.exec]
      split
      · exact passed_balanced .stdout text a
      · exact passed_balanced .stderr text a
      · exact pushAll_balanced _ a
  | drain capacity =>
      simp only [Spec.exec]
      split
      · exact .refl a
      · exact (notice_balanced .frontend a).trans
          (take_balanced .frontend (capacity - (a.notice .frontend).2.length) _)

/-! ## Notices and records -/

theorem memcpy_append (xs ys src : List UInt8) :
    memcpy (xs ++ ys) xs.length src = xs ++ src ++ ys.drop src.length := by
  simp [memcpy]

theorem length_dropPrefix : dropPrefix.length = 18 := by decide

theorem length_dropSuffix : dropSuffix.length = 22 := by decide

theorem length_toChars {amount : Nat} (h : amount < sizeValues) : (toChars amount).length ≤ 20 := by
  rw [toChars, List.length_map, Nat.length_toDigits_le_iff (by decide) (by decide)]
  refine Nat.lt_trans h ?_
  decide

/-- A drop notice says its amount. -/
theorem makeDropMessage_chunk {amount : Nat} (h : amount < sizeValues) :
    (makeDropMessage amount).chunk =
      ⟨.system, dropPrefix ++ toChars amount ++ dropSuffix, true⟩ := by
  have hp := length_dropPrefix
  have hs := length_dropSuffix
  have hd := length_toChars h
  have hfits : (toChars amount).length ≤
      messagePayloadSize - dropSuffix.length - dropPrefix.length := by
    rw [hp, hs, messagePayloadSize]
    omega
  have h1 : memcpy Message.initial.text 0 dropPrefix =
      dropPrefix ++ Message.initial.text.drop dropPrefix.length := by
    simpa using memcpy_append [] Message.initial.text dropPrefix
  have h2 : memcpy (dropPrefix ++ Message.initial.text.drop dropPrefix.length)
      dropPrefix.length (toChars amount) = (dropPrefix ++ toChars amount) ++
        (Message.initial.text.drop dropPrefix.length).drop (toChars amount).length :=
    memcpy_append _ _ _
  have h3 := memcpy_append (dropPrefix ++ toChars amount)
    ((Message.initial.text.drop dropPrefix.length).drop (toChars amount).length) dropSuffix
  rw [List.length_append] at h3
  have htext : (makeDropMessage amount).text = dropPrefix ++ toChars amount ++ dropSuffix ++
      ((Message.initial.text.drop dropPrefix.length).drop (toChars amount).length).drop
        dropSuffix.length := by
    simp only [makeDropMessage, hfits, if_true, h1, h2, h3]
  have hsize : (makeDropMessage amount).size =
      (dropPrefix ++ toChars amount ++ dropSuffix).length := by
    simp only [makeDropMessage, hfits, if_true, List.length_append]
  rw [Message.chunk, htext, hsize, List.take_left]
  rfl

/-- The amount can be read off the notice. -/
theorem ofDigitChars_toChars (amount : Nat) :
    Nat.ofDigitChars 10 ((toChars amount).map fun b => Char.ofNat b.toNat) 0 = amount := by
  have hread : (toChars amount).map (fun b => Char.ofNat b.toNat) = Nat.toDigits 10 amount := by
    rw [toChars, List.map_map]
    refine (List.map_congr_left fun c hc => ?_).trans (List.map_id _)
    have hdigit : c.isDigit = true :=
      Nat.isDigit_of_mem_toDigits (by decide) (by decide) hc
    have hlt : c.toNat < 256 := by
      exact Nat.lt_of_le_of_lt (Char.isDigit_iff_toNat.mp hdigit).2 (by decide)
    simp only [Function.comp_apply, UInt8.toNat_ofNat', id]
    rw [Nat.mod_eq_of_lt hlt, Char.ofNat_toNat]
  rw [hread, Nat.ofDigitChars_ten_toDigits]

/-- The chunks of a text are the text, cut into payloads; only the last one
    ends the record. -/
theorem split_spec (channel : Channel) (text : List UInt8) :
    ((split channel text).map Chunk.text).flatten = text ∧
      (∀ c ∈ split channel text, c.channel = channel ∧ c.text.length ≤ messagePayloadSize) ∧
      ∃ first last, split channel text = first ++ [last] ∧ last.endOfRecord = true ∧
        ∀ c ∈ first, c.endOfRecord = false := by
  induction hn : text.length using Nat.strong_induction_on generalizing text with
  | _ n ih =>
  by_cases hlong : messagePayloadSize < text.length
  · have hshort : (text.drop messagePayloadSize).length < n := by
      simp only [List.length_drop, ← hn]
      have : 0 < messagePayloadSize := by decide
      omega
    obtain ⟨htext, hsize, first, last, heq, hlast, hfirst⟩ := ih _ hshort _ rfl
    rw [split_of_gt hlong]
    refine ⟨?_, ?_, ⟨channel, text.take messagePayloadSize, false⟩ :: first, last, ?_, hlast, ?_⟩
    · rw [List.map_cons, List.flatten_cons, htext, List.take_append_drop]
    · intro c hc
      rcases List.mem_cons.mp hc with rfl | hc
      · exact ⟨rfl, List.length_take_le _ _⟩
      · exact hsize c hc
    · rw [heq, List.cons_append]
    · intro c hc
      rcases List.mem_cons.mp hc with rfl | hc
      · rfl
      · exact hfirst c hc
  · rw [split_of_le (by omega)]
    refine ⟨by simp, ?_, [], ⟨channel, text, true⟩, rfl, rfl, ?_⟩
    · intro c hc
      rcases List.mem_singleton.mp hc with rfl
      exact ⟨rfl, Nat.le_of_not_lt hlong⟩
    · intro c hc
      cases hc

/-- Appending chunks queues exactly them, in order. -/
theorem enqueuedChunks_pushAll (cs : List Chunk) (a : Spec) :
    enqueuedChunks (a.pushAll cs).2 = cs := by
  have hpush : ∀ (c : Chunk) (a : Spec), enqueuedChunks (a.push c).2 = [c] := by
    intro c a
    unfold Spec.push
    split
    · split
      · rfl
      · rfl
    · rfl
  induction cs generalizing a with
  | nil => rfl
  | cons c cs ih =>
      simp only [Spec.pushAll, enqueuedChunks_append, hpush, ih]
      rfl

/-! ## Runs -/

/-- The counter is a `std::size_t`, and a plain console queues nothing. -/
structure Spec.Ok (a : Spec) : Prop where
  pending : a.pending < sizeValues
  plain : a.mode = .plain → a.queued = [] ∧ a.pending = 0

theorem Spec.Ok.push {a : Spec} (ok : a.Ok) (hm : a.mode ≠ .plain) (c : Chunk) :
    (a.push c).1.Ok ∧ (a.push c).1.mode = a.mode := by
  unfold Spec.push
  split
  · split
    · exact ⟨⟨Nat.mod_lt _ (by decide), fun h => absurd h hm⟩, rfl⟩
    · exact ⟨⟨ok.pending, fun h => absurd h hm⟩, rfl⟩
  · exact ⟨⟨ok.pending, fun h => absurd h hm⟩, rfl⟩

theorem Spec.Ok.pushAll {a : Spec} (ok : a.Ok) (hm : a.mode ≠ .plain) (cs : List Chunk) :
    (a.pushAll cs).1.Ok := by
  induction cs generalizing a with
  | nil => exact ok
  | cons c cs ih =>
      obtain ⟨hok, hmode⟩ := ok.push hm c
      have hm' : (a.push c).1.mode ≠ .plain := by rwa [hmode]
      exact ih hok hm'

theorem Spec.Ok.notice {a : Spec} (h : a.pending < sizeValues) (sink : Sink) :
    (a.notice sink).1.pending = 0 ∧ (a.notice sink).1.queued = a.queued ∧
      (a.notice sink).1.mode = a.mode ∧
      ∀ s n, .notice s n ∈ (a.notice sink).2 → n < sizeValues := by
  unfold Spec.notice
  split
  · refine ⟨rfl, rfl, rfl, fun s n hn => ?_⟩
    rcases List.mem_singleton.mp hn with ⟨⟩
    exact h
  · rename_i h0
    exact ⟨by simpa using h0, rfl, rfl, fun s n hn => nomatch hn⟩

theorem Spec.Ok.exec {a : Spec} (ok : a.Ok) (call : Call) : (a.exec call).1.Ok := by
  cases call with
  | beginBuffering =>
      simp only [Spec.exec]
      split
      · exact ⟨ok.pending, fun h => nomatch h⟩
      · exact ok
  | activateInteractive =>
      simp only [Spec.exec]
      split
      · exact ⟨ok.pending, fun h => nomatch h⟩
      · exact ok
  | activatePlain =>
      obtain ⟨h1, -, -, -⟩ := Spec.Ok.notice (a := { a with mode := .plain }) ok.pending .stderr
      simp only [Spec.exec, Spec.take, List.drop_length]
      refine ⟨?_, fun _ => ⟨rfl, h1⟩⟩
      rw [h1]
      decide
  | publish channel text =>
      simp only [Spec.exec]
      split
      · exact ok
      · exact ok
      · rename_i h2
        exact ok.pushAll h2 _
  | drain capacity =>
      simp only [Spec.exec]
      split
      · exact ok
      · rename_i hc
        obtain ⟨h1, -, h3, -⟩ := Spec.Ok.notice ok.pending .frontend
        refine ⟨?_, fun hp => ?_⟩
        · simp only [Spec.take, h1]
          decide
        · simp only [Spec.take, h3] at hp
          simp [hp] at hc

/-- The amounts noticed are values of the counter. -/
theorem Spec.Ok.exec_notices {a : Spec} (ok : a.Ok) (call : Call) {sink : Sink} {n : Nat}
    (hn : .notice sink n ∈ (a.exec call).2) : n < sizeValues := by
  have hpushAll : ∀ (cs : List Chunk) (b : Spec), .notice sink n ∉ (b.pushAll cs).2 := by
    intro cs
    induction cs with
    | nil => exact fun b hn => nomatch hn
    | cons c cs ih =>
        intro b hn
        have hn : .notice sink n ∈ (b.push c).2 ++ ((b.push c).1.pushAll cs).2 := hn
        rcases List.mem_append.mp hn with hn | hn
        · unfold Spec.push at hn
          split at hn
          · split at hn
            · simp at hn
            · simp at hn
          · simp at hn
        · exact ih _ hn
  have htake : ∀ (s : Sink) (room : Nat) (b : Spec), .notice sink n ∉ (b.take s room).2 := by
    intro s room b hn
    obtain ⟨c, -, hc⟩ := List.mem_map.mp hn
    cases hc
  cases call with
  | beginBuffering =>
      simp only [Spec.exec] at hn
      split at hn
      · cases hn
      · cases hn
  | activateInteractive =>
      simp only [Spec.exec] at hn
      split at hn
      · cases hn
      · cases hn
  | activatePlain =>
      obtain ⟨-, -, -, h4⟩ := Spec.Ok.notice (a := { a with mode := .plain }) ok.pending .stderr
      simp only [Spec.exec] at hn
      rcases List.mem_append.mp hn with hn | hn
      · exact h4 _ _ hn
      · exact absurd hn (htake _ _ _)
  | publish channel text =>
      simp only [Spec.exec] at hn
      split at hn
      · simp at hn
      · simp at hn
      · exact absurd hn (hpushAll _ _)
  | drain capacity =>
      simp only [Spec.exec] at hn
      split at hn
      · cases hn
      · obtain ⟨-, -, -, h4⟩ := Spec.Ok.notice ok.pending .frontend
        rcases List.mem_append.mp hn with hn | hn
        · exact h4 _ _ hn
        · exact absurd hn (htake _ _ _)

/-- What holds at every point of every sequence of calls. -/
structure Inv (c : Console) : Prop where
  ring : RingOk c.state
  spec : c.state.spec.Ok
  balanced : Balanced Console.initial.state.spec c.state.spec (c.log.map Entry.view)
  notices : ∀ sink n, .notice sink n ∈ c.log.map Entry.view → n < sizeValues

theorem Inv.initial : Inv Console.initial where
  ring := ⟨by decide, by decide⟩
  spec := ⟨by decide, fun h => nomatch h⟩
  balanced := .refl _
  notices := fun _ _ h => nomatch h

theorem Inv.preserve {c c' : Console} {e : Event} (inv : Inv c) (hs : step c e = some c') :
    Inv c' := by
  cases hs
  obtain ⟨call, locked⟩ := e
  cases locked with
  | false =>
      have hlog : c.log ++ (Event.exec ⟨call, false⟩ c.state).2 = c.log := List.append_nil _
      rw [hlog]
      exact inv
  | true =>
      obtain ⟨hring, hspec, hes⟩ := exec_spec inv.ring call
      have hbal := exec_balanced c.state.spec call
      rw [← hspec, ← hes] at hbal
      have hspecOk := inv.spec.exec call
      rw [← hspec] at hspecOk
      refine ⟨hring, hspecOk, ?_, ?_⟩
      · rw [List.map_append]
        exact inv.balanced.trans hbal
      · intro sink n hn
        rw [List.map_append] at hn
        rcases List.mem_append.mp hn with hn | hn
        · exact inv.notices sink n hn
        · have hn' : .notice sink n ∈ (exec c.state call).2.map Entry.view := hn
          rw [hes] at hn'
          exact inv.spec.exec_notices call hn'

theorem inv_of_run {h : List Event} {c : Console} (hrun : Run step anyStep init h c) : Inv c :=
  Run.invariant (I := Inv) (fun _ h0 => by rw [h0]; exact .initial)
    (fun _ _ _ inv hs => inv.preserve hs) hrun

/-! ## What the console guarantees -/

/-- The record of what all calls did to the chunks. -/
def Console.record (c : Console) : List (Entry Chunk) := c.log.map Entry.view

/-- The guarantees of the console at every point of a sequence of calls. -/
structure Guarantee (c : Console) : Prop where
  /-- Every call does to the ring what the bounded queue does to its list. -/
  refines : ∀ call, (exec c.state call).1.spec = (c.state.spec.exec call).1 ∧
    (exec c.state call).2.map Entry.view = (c.state.spec.exec call).2
  bounded : c.state.queued.length ≤ queueCapacity
  /-- The chunks queued so far are those that left, in order, and those still queued. -/
  ledger : enqueuedChunks c.record = leftChunks c.record ++ c.state.queued
  /-- The drop notices and the pending count add up to the drops, as a
      `std::size_t`; exactly so while it cannot have wrapped. -/
  drops : ∃ wraps, droppedCount c.record =
    noticeSum c.record + c.state.dropped + wraps * sizeValues
  drops_exact : droppedCount c.record < sizeValues →
    droppedCount c.record = noticeSum c.record + c.state.dropped
  /-- Every notice emitted says its amount. -/
  notice_text : ∀ sink amount, .notice sink amount ∈ c.record →
    (makeDropMessage amount).chunk = ⟨.system, dropPrefix ++ toChars amount ++ dropSuffix, true⟩
  /-- A text published while text is queued becomes chunks that concatenate to
      it, none longer than a payload, the last one alone ending the record. -/
  published : ∀ channel text, c.state.mode ≠ .passThrough → c.state.mode ≠ .plain →
    ∃ first last,
      enqueuedChunks ((exec c.state (.publish channel text)).2.map Entry.view) =
        first ++ [last] ∧
      ((first ++ [last]).map Chunk.text).flatten = text ∧
      (∀ d ∈ first ++ [last], d.channel = channel ∧ d.text.length ≤ messagePayloadSize) ∧
      last.endOfRecord = true ∧ ∀ d ∈ first, d.endOfRecord = false
  /-- `activate_plain` writes the pending notice and then every queued chunk. -/
  flushes : (exec c.state .activatePlain).2.map Entry.view =
    (if c.state.dropped ≠ 0 then [.notice .stderr c.state.dropped] else []) ++
      c.state.queued.map (.delivered .stderr)
  flushed : (exec c.state .activatePlain).1.mode = .plain
  /-- From then on nothing is queued and text is only passed on. -/
  plain : c.state.mode = .plain → c.state.queued = [] ∧ c.state.dropped = 0 ∧
    ∀ call, (exec c.state call).1.mode = .plain ∧
      ∀ entry ∈ (exec c.state call).2, ∃ text, entry = .passed .stderr text

theorem exec_publish_split {s : State} (ok : RingOk s) {channel : Channel} {text : List UInt8}
    (h1 : s.mode ≠ .passThrough) (h2 : s.mode ≠ .plain) :
    enqueuedChunks ((exec s (.publish channel text)).2.map Entry.view) = split channel text := by
  have hspec : s.spec.exec (.publish channel text) = s.spec.pushAll (split channel text) := by
    simp only [Spec.exec, State.spec]
  rw [(exec_spec ok _).2.2, hspec, enqueuedChunks_pushAll]

/-- A plain console with an empty queue stays so and only passes text on. -/
theorem exec_plain {s : State} (hm : s.mode = .plain) (hq : s.count = 0) (hd : s.dropped = 0)
    (call : Call) : (exec s call).1.mode = .plain ∧
      ∀ entry ∈ (exec s call).2, ∃ text, entry = .passed .stderr text := by
  cases call with
  | beginBuffering => simp [exec, beginBuffering, hm]
  | activateInteractive => simp [exec, activateInteractive, hm]
  | activatePlain => simp [exec, activatePlain, flushQueue, takeNotice, hd, hq, takeMessages]
  | publish channel text => simp [exec, publish, hm]
  | drain capacity => simp [exec, drain, hm]

theorem console_guarantee {h : List Event} {c : Console} (hrun : Run step anyStep init h c) :
    Guarantee c := by
  have inv := inv_of_run hrun
  have hlen := length_queued c.state
  have hchunks : enqueuedChunks c.record = leftChunks c.record ++ c.state.queued := by
    have hnil : Console.initial.state.spec.queued = [] := rfl
    have hb := inv.balanced.chunks
    rw [hnil, List.nil_append] at hb
    exact hb
  have hdrops : ∃ wraps, droppedCount c.record =
      noticeSum c.record + c.state.dropped + wraps * sizeValues := by
    obtain ⟨wraps, hw⟩ := inv.balanced.drops
    refine ⟨wraps, ?_⟩
    have hzero : Console.initial.state.spec.pending = 0 := rfl
    rw [hzero, Nat.zero_add] at hw
    exact hw
  refine ⟨fun call => (exec_spec inv.ring call).2, ?_, hchunks, hdrops, fun hlt => ?_,
    fun sink amount hn => makeDropMessage_chunk (inv.notices sink amount hn),
    fun channel text h1 h2 => ?_, ?_, ?_, fun hp => ?_⟩
  · rw [hlen]
    exact inv.ring.count
  · obtain ⟨wraps, hw⟩ := hdrops
    have hzero : wraps = 0 := by
      by_contra hne
      have hle : sizeValues ≤ wraps * sizeValues :=
        Nat.le_mul_of_pos_left _ (Nat.pos_of_ne_zero hne)
      omega
    simpa [hzero] using hw
  · obtain ⟨htext, hsize, first, last, heq, hlast, hfirst⟩ := split_spec channel text
    refine ⟨first, last, ?_, ?_, ?_, hlast, hfirst⟩
    · rw [exec_publish_split inv.ring h1 h2, heq]
    · rw [← heq, htext]
    · rw [← heq]
      exact hsize
  · rw [(exec_spec inv.ring .activatePlain).2.2]
    by_cases hd : c.state.dropped = 0
    · simp [Spec.exec, Spec.notice, State.spec, Spec.take, hd]
    · simp [Spec.exec, Spec.notice, State.spec, Spec.take, hd]
  · have hmode := congrArg Spec.mode (exec_spec inv.ring .activatePlain).2.1
    have hnotice := (Spec.Ok.notice (a := { c.state.spec with mode := .plain })
      inv.spec.pending .stderr).2.2.1
    simp only [Spec.exec, Spec.take] at hmode
    exact hmode.trans hnotice
  · obtain ⟨hq, hd⟩ := inv.spec.plain hp
    have hcount : c.state.count = 0 := by
      rw [← hlen]
      exact List.length_eq_zero_iff.mpr hq
    exact ⟨hq, hd, exec_plain hp hcount hd⟩

/-- Buffering, a record, plain output: the chunk is queued and then flushed. -/
def flushRun : List Event :=
  [⟨.beginBuffering, true⟩, ⟨.publish .hal [], true⟩, ⟨.activatePlain, true⟩,
   ⟨.publish .log [65], true⟩]

theorem console_guarantee_flushRun :
    ∃ hrun : (replay step Console.initial flushRun).isSome = true,
      ((replay step Console.initial flushRun).get hrun).record =
        [.enqueued ⟨.hal, [], true⟩, .delivered .stderr ⟨.hal, [], true⟩, .passed .stderr [65]] ∧
      Guarantee ((replay step Console.initial flushRun).get hrun) :=
  ⟨rfl, rfl, console_guarantee (Run.of_replay_isSome (show init Console.initial from rfl) rfl)⟩

/-! ## Where the counter wraps -/

/-- An append to the bounded queue: full, it drops one chunk. -/
theorem push_flood (a : Spec) (c : Chunk) :
    (a.push c).1.mode = a.mode ∧ noticeSum (a.push c).2 = 0 ∧
      (a.queued.length = queueCapacity →
        (a.push c).1.queued.length = queueCapacity ∧ droppedCount (a.push c).2 = 1) ∧
      (a.queued.length ≠ queueCapacity →
        (a.push c).1.queued.length = a.queued.length + 1 ∧ droppedCount (a.push c).2 = 0) := by
  unfold Spec.push
  split
  · rename_i oldest rest hq
    split
    · rename_i hfull
      refine ⟨rfl, rfl, fun _ => ⟨?_, rfl⟩, fun hne => absurd hfull hne⟩
      rw [hq, List.length_cons] at hfull
      simp [hfull]
    · rename_i hfree
      exact ⟨rfl, rfl, fun hf => absurd hf hfree, fun _ => ⟨by simp, rfl⟩⟩
  · rename_i hq
    refine ⟨rfl, rfl, fun hf => ?_, fun _ => ⟨by simp [hq], rfl⟩⟩
    rw [hq] at hf
    cases hf

/-- An empty record published by the HAL. -/
def emptyRecord : Event := ⟨.publish .hal [], true⟩

/-- Buffering, and then `k` empty records that nobody drains. -/
theorem flood (k : Nat) :
    ∃ c, Run step anyStep init (List.replicate k emptyRecord ++ [⟨.beginBuffering, true⟩]) c ∧
      c.state.mode = .buffering ∧ c.state.queued.length = min k queueCapacity ∧
      droppedCount c.record = k - queueCapacity ∧ noticeSum c.record = 0 := by
  induction k with
  | zero =>
      exact ⟨_, (Run.start (show init Console.initial from rfl)).step trivial rfl, rfl, rfl, rfl,
        rfl⟩
  | succ k ih =>
      obtain ⟨c, hrun, hmode, hlen, hdrop, hsum⟩ := ih
      have inv := inv_of_run hrun
      obtain ⟨-, hspec, hes⟩ := exec_spec inv.ring (.publish .hal [])
      have hpush : c.state.spec.exec (.publish .hal []) =
          c.state.spec.pushAll [⟨.hal, [], true⟩] := by
        have hm : c.state.spec.mode = .buffering := hmode
        simp only [Spec.exec, hm]
        rw [split_of_le (Nat.zero_le _)]
      rw [hpush] at hspec hes
      simp only [Spec.pushAll, List.append_nil] at hspec hes
      obtain ⟨hm, hn, hfull, hfree⟩ := push_flood c.state.spec ⟨.hal, [], true⟩
      refine ⟨⟨(exec c.state (.publish .hal [])).1, c.log ++ (exec c.state (.publish .hal [])).2⟩,
        hrun.step trivial rfl, ?_, ?_, ?_, ?_⟩
      · exact (congrArg Spec.mode hspec).trans (hm.trans hmode)
      · have hq : (exec c.state (.publish .hal [])).1.queued = _ := congrArg Spec.queued hspec
        rw [hq]
        by_cases hk : c.state.queued.length = queueCapacity
        · rw [(hfull hk).1]
          omega
        · rw [(hfree hk).1]
          have hle : c.state.spec.queued.length = min k queueCapacity := hlen
          omega
      · rw [Console.record, List.map_append, droppedCount_append, hes]
        have hold : droppedCount (c.log.map Entry.view) = k - queueCapacity := hdrop
        by_cases hk : c.state.queued.length = queueCapacity
        · rw [hold, (hfull hk).2]
          omega
        · rw [hold, (hfree hk).2]
          omega
      · rw [Console.record, List.map_append, noticeSum_append, hes, hn]
        exact hsum

/-- After 2^64 drops the counter reads 0: no notice will report them. -/
theorem drops_unreported :
    ∃ c, Run step anyStep init
        (List.replicate (sizeValues + queueCapacity) emptyRecord ++ [⟨.beginBuffering, true⟩]) c ∧
      droppedCount c.record = sizeValues ∧ noticeSum c.record + c.state.dropped = 0 := by
  obtain ⟨c, hrun, -, -, hdrop, hsum⟩ := flood (sizeValues + queueCapacity)
  have inv := inv_of_run hrun
  have hd : droppedCount c.record = sizeValues := by
    rw [hdrop]
    omega
  obtain ⟨wraps, hw⟩ := inv.balanced.drops
  have hpending : c.state.dropped < sizeValues := inv.spec.pending
  refine ⟨c, hrun, hd, ?_⟩
  have hw' : 0 + droppedCount c.record =
      noticeSum c.record + c.state.dropped + wraps * sizeValues := hw
  rw [hd, hsum] at hw'
  have hsize : 0 < sizeValues := by decide
  rcases wraps with - | - | wraps
  · omega
  · omega
  · have : (wraps + 1 + 1) * sizeValues = wraps * sizeValues + sizeValues + sizeValues := by
      rw [Nat.add_mul, Nat.add_mul, Nat.one_mul]
    omega

end LinuxConsole
end Hal
end NucleoBase
