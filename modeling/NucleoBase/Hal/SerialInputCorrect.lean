/-
  NucleoBase.Hal.SerialInputCorrect

  What serial input guarantees over every interleaving of the interrupt handler
  with the reader: nothing accepted is lost or reordered, a byte is dropped
  only over 255 unread ones, the reader is never left asleep over unread bytes,
  and what it returns is the input with its line endings normalized.
-/

import NucleoBase.Hal.SerialInput

namespace NucleoBase
namespace Hal
namespace SerialInput

open Lib

/-! ## Line endings -/

/-- Every CR, and every CR LF pair, is one newline; all else is unchanged. -/
def normalize : List UInt8 → List UInt8
  | [] => []
  | c :: cs =>
      if c = carriageReturn then
        match cs with
        | [] => [lineFeed]
        | d :: ds =>
            if d = lineFeed then lineFeed :: normalize ds
            else lineFeed :: normalize (d :: ds)
      else c :: normalize cs

theorem normalize_cons_of_ne {c : UInt8} {cs : List UInt8} (h : c ≠ carriageReturn) :
    normalize (c :: cs) = c :: normalize cs := by
  rw [normalize.eq_def]
  simp only [if_neg h]

theorem normalize_pair (cs : List UInt8) :
    normalize (carriageReturn :: lineFeed :: cs) = lineFeed :: normalize cs := by
  rw [normalize.eq_def]
  simp

theorem normalize_single {d : UInt8} {cs : List UInt8} (h : d ≠ lineFeed) :
    normalize (carriageReturn :: d :: cs) = lineFeed :: normalize (d :: cs) := by
  rw [normalize.eq_def]
  simp [h]

/-- One more byte: a line feed right after a carriage return adds nothing. -/
theorem normalize_append (cs : List UInt8) (c : UInt8) :
    normalize (cs ++ [c]) =
      if cs.getLast? = some carriageReturn ∧ c = lineFeed then normalize cs
      else normalize cs ++ [if c = carriageReturn then lineFeed else c] := by
  have hlf : lineFeed ≠ carriageReturn := by decide
  induction cs using normalize.induct with
  | case1 =>
      simp only [List.nil_append, List.getLast?_nil, reduceCtorEq, false_and, if_false]
      by_cases hc : c = carriageReturn
      · simp [normalize, hc]
      · simp [normalize, hc]
  | case2 =>
      by_cases hl : c = lineFeed
      · subst hl
        simp [normalize]
      · rw [List.singleton_append, normalize_single hl]
        by_cases hc : c = carriageReturn
        · simp [normalize, hc, hlf.symm]
        · simp [normalize, hc, hl]
  | case3 ds ih =>
      have hlast : (carriageReturn :: lineFeed :: ds).getLast? = some carriageReturn ↔
          ds.getLast? = some carriageReturn := by
        cases ds with
        | nil => simp [hlf]
        | cons e es => simp
      rw [List.cons_append, List.cons_append, normalize_pair, normalize_pair, ih]
      simp only [hlast]
      split
      · rfl
      · rfl
  | case4 d ds hd ih =>
      have hlast : (carriageReturn :: d :: ds).getLast? = (d :: ds).getLast? := by simp
      rw [List.cons_append, List.cons_append, normalize_single hd, normalize_single hd, hlast,
        ← List.cons_append, ih]
      split
      · rfl
      · rfl
  | case5 c' cs hc' ih =>
      rw [List.cons_append, normalize_cons_of_ne hc', normalize_cons_of_ne hc', ih]
      have hlast : (c' :: cs).getLast? = some carriageReturn ↔
          cs.getLast? = some carriageReturn := by
        cases cs with
        | nil => simp [hc']
        | cons e es => simp
      simp only [hlast]
      split
      · rfl
      · rfl

/-! ## The invariant -/

theorem next_eq (i : Nat) : next i = (i + 1) % consoleInputBufferSize :=
  Nat.and_two_pow_sub_one_eq_mod (i + 1) 8

theorem next_lt (i : Nat) : next i < consoleInputBufferSize := by
  rw [next_eq]
  exact Nat.mod_lt _ (by decide)

/-- How many bytes are in the ring. -/
def State.unreadCount (s : State) : Nat :=
  Ring.distance consoleInputBufferSize s.consoleInputRead s.consoleInputWrite

/-- The bytes in the ring, oldest first. -/
def State.unread (s : State) : List UInt8 :=
  Ring.window consoleInputBufferSize s.consoleInputBuffer s.consoleInputRead s.unreadCount

@[simp] theorem length_unread (s : State) : s.unread.length = s.unreadCount :=
  Ring.length_window

/-- The byte the handler has read and not yet accepted or dropped. -/
def Handler.inHand : Handler → List UInt8
  | .check c _ | .storeByte c _ | .storeWrite c _ => [c]
  | _ => []

/-- `notify_reader`. -/
def Handler.notify : Handler → Bool
  | .off => false
  | .loop n | .check _ n | .storeByte _ n | .storeWrite _ n | .idle n | .leave n => n

/-- The byte the reader has popped and not yet looked at. -/
def Reader.inHand : Reader → List UInt8
  | .got c => [c]
  | _ => []

structure Inv (s : State) : Prop where
  read : s.consoleInputRead < consoleInputBufferSize
  write : s.consoleInputWrite < consoleInputBufferSize
  /-- Accepted bytes have been popped or are unread, in order. -/
  fifo : s.trace.accepted = s.trace.popped ++ s.unread
  /-- Received bytes have met their fate, in order, or are in the handler's hand. -/
  received : s.trace.received = s.trace.fates.map Prod.fst ++ s.handler.inHand
  storing : ∀ c n, s.handler = .storeByte c n ∨ s.handler = .storeWrite c n →
    s.unreadCount + 1 < consoleInputBufferSize
  stored : ∀ c n, s.handler = .storeWrite c n → s.consoleInputBuffer s.consoleInputWrite = c
  fetching : s.reader = .fetch → s.consoleInputRead ≠ s.consoleInputWrite
  fetched : ∀ c, s.reader = .advance c → s.consoleInputRead ≠ s.consoleInputWrite ∧
    s.consoleInputBuffer s.consoleInputRead = c
  suspended : s.reader = .suspended → s.consoleInputAvailable = 0
  /-- A reader about to wait over unread bytes finds a count, or a handler that
      has yet to notify it. -/
  wake : s.reader = .get ∨ s.reader = .suspended → s.consoleInputRead ≠ s.consoleInputWrite →
    0 < s.consoleInputAvailable ∨ s.handler.notify = true
  popped : s.trace.popped = s.trace.processed ++ s.reader.inHand
  returned : s.trace.returned = normalize s.trace.processed
  discard : s.discardLineFeed = true ↔ s.trace.processed.getLast? = some carriageReturn

variable {s s' : State} {e : Event}

theorem Inv.initial (h0 : init s) : Inv s := by
  obtain ⟨hr, hw, ha, hd, hh, hrd, ht⟩ := h0
  refine ⟨by rw [hr]; decide, by rw [hw]; decide, ?_, ?_, ?_, ?_, ?_, ?_, ?_, ?_, ?_, ?_, ?_⟩
  · simp [State.unread, State.unreadCount, hr, hw, ht, Trace.accepted, Ring.distance,
      consoleInputBufferSize, Ring.window]
  · simp [ht, hh, Handler.inHand]
  · simp [hh]
  · simp [hh]
  · simp [hrd]
  · simp [hrd]
  · simp [hrd]
  · simp [hrd]
  · simp [ht, hrd, Reader.inHand]
  · simp [ht, normalize]
  · simp [ht, hd]

theorem accepted_append (t : Trace) (c : UInt8) (b : Bool) :
    { t with fates := t.fates ++ [(c, b)] }.accepted =
      t.accepted ++ (if b then [c] else []) := by
  cases b <;> simp [Trace.accepted]

/-- The slot the handler fills is outside the unread bytes. -/
theorem Inv.unread_storeByte (inv : Inv s) (c : UInt8)
    (hc : s.unreadCount + 1 < consoleInputBufferSize) :
    { s with consoleInputBuffer :=
        Function.update s.consoleInputBuffer s.consoleInputWrite c }.unread = s.unread := by
  have hidx := Ring.index_distance inv.read inv.write
  have hkeep : Ring.window consoleInputBufferSize (Function.update s.consoleInputBuffer
        ((s.consoleInputRead + s.unreadCount) % consoleInputBufferSize) c)
      s.consoleInputRead s.unreadCount = s.unread := Ring.window_update (by omega)
  rw [State.unreadCount, hidx] at hkeep
  exact hkeep

/-- Publishing the stored byte appends it to the unread ones. -/
theorem Inv.unread_storeWrite (inv : Inv s) {c : UInt8}
    (hc : s.unreadCount + 1 < consoleInputBufferSize)
    (hstored : s.consoleInputBuffer s.consoleInputWrite = c) :
    { s with consoleInputWrite := next s.consoleInputWrite }.unread = s.unread ++ [c] := by
  have hne : (s.consoleInputWrite + 1) % consoleInputBufferSize ≠ s.consoleInputRead := by
    intro h
    have := Ring.distance_full inv.read inv.write h
    rw [State.unreadCount] at hc
    omega
  have hcount := Ring.distance_produce inv.read inv.write hne
  have hidx := Ring.index_distance inv.read inv.write
  simp only [State.unread, State.unreadCount, next_eq, hcount, Ring.window, hidx, hstored]

/-- The oldest unread byte is the one the reader fetches. -/
theorem Inv.unread_advance (inv : Inv s) (hne : s.consoleInputRead ≠ s.consoleInputWrite) :
    s.unread = s.consoleInputBuffer s.consoleInputRead ::
      { s with consoleInputRead := next s.consoleInputRead }.unread := by
  have hcount := Ring.distance_consume inv.read inv.write hne
  simp only [State.unread, State.unreadCount, next_eq, hcount]
  rw [Ring.window_pop, Nat.mod_eq_of_lt inv.read]

/-- Changing where the handler is, short of a store. -/
theorem Inv.handlerMoves (inv : Inv s) {h : Handler} {t : Trace}
    (ht : t.accepted = s.trace.accepted ∧ t.popped = s.trace.popped ∧
      t.processed = s.trace.processed ∧ t.returned = s.trace.returned)
    (hreceived : t.received = t.fates.map Prod.fst ++ h.inHand)
    (hstoring : ∀ c n, h = .storeByte c n ∨ h = .storeWrite c n →
      s.unreadCount + 1 < consoleInputBufferSize)
    (hstored : ∀ c n, h = .storeWrite c n → s.consoleInputBuffer s.consoleInputWrite = c)
    (hnotify : s.handler.notify = true → h.notify = true) :
    Inv { s with handler := h, trace := t } where
  read := inv.read
  write := inv.write
  fifo := by
    rw [ht.1, ht.2.1]
    exact inv.fifo
  received := hreceived
  storing := hstoring
  stored := hstored
  fetching := inv.fetching
  fetched := inv.fetched
  suspended := inv.suspended
  wake := fun hr hne => (inv.wake hr hne).imp_right hnotify
  popped := by
    rw [ht.2.1, ht.2.2.1]
    exact inv.popped
  returned := by
    rw [ht.2.2.2, ht.2.2.1]
    exact inv.returned
  discard := by
    rw [ht.2.2.1]
    exact inv.discard

/-- The end of the handler: a reader at or in `tx_semaphore_get` finds a count
    or is resumed. -/
theorem Inv.leave (inv : Inv s) {notify : Bool} (hh : s.handler = .leave notify) :
    Inv { (if notify then ceilingPut s else s) with handler := .off } := by
  have hreceived : s.trace.received = s.trace.fates.map Prod.fst ++ Handler.off.inHand := by
    have hr := inv.received
    rwa [hh] at hr
  have hno : ∀ c n, (Handler.off = .storeByte c n ∨ Handler.off = .storeWrite c n) →
      s.unreadCount + 1 < consoleInputBufferSize := by
    rintro c n (h | h) <;> cases h
  have hno' : ∀ c n, Handler.off = .storeWrite c n →
      s.consoleInputBuffer s.consoleInputWrite = c := fun c n h => nomatch h
  cases notify with
  | false =>
      refine inv.handlerMoves ⟨rfl, rfl, rfl, rfl⟩ hreceived hno hno' ?_
      rw [hh]
      exact fun h => nomatch h
  | true =>
      simp only [if_true, ceilingPut]
      split
      · rename_i hpos
        exact ⟨inv.read, inv.write, inv.fifo, hreceived, hno, hno', inv.fetching, inv.fetched,
          inv.suspended, fun _ _ => .inl hpos, inv.popped, inv.returned, inv.discard⟩
      · split
        · rename_i hsusp
          have hpopped : s.trace.popped = s.trace.processed ++ Reader.compare.inHand := by
            have hp := inv.popped
            rwa [hsusp] at hp
          refine ⟨inv.read, inv.write, inv.fifo, hreceived, hno, hno', (fun h => nomatch h),
            (fun _ h => nomatch h), (fun h => nomatch h), ?_, hpopped, inv.returned, inv.discard⟩
          rintro (h | h) <;> cases h
        · rename_i hsusp
          refine ⟨inv.read, inv.write, inv.fifo, hreceived, hno, hno', inv.fetching, inv.fetched,
            fun h => absurd h hsusp, fun _ _ => .inl ?_, inv.popped, inv.returned, inv.discard⟩
          exact Nat.succ_pos _

theorem Inv.preserve_handler (inv : Inv s) (hs : handlerStep s s.handler e = some s') :
    Inv s' := by
  have hreceived := inv.received
  unfold handlerStep at hs
  split at hs
  case h_1 hh =>
    cases hs
    rw [hh] at hreceived
    refine inv.handlerMoves ⟨rfl, rfl, rfl, rfl⟩ hreceived ?_ (fun _ _ h => nomatch h) ?_
    · rintro c n (h | h) <;> cases h
    · rw [hh]
      exact fun h => nomatch h
  case h_2 notify character hh =>
    cases hs
    rw [hh] at hreceived
    refine inv.handlerMoves ⟨rfl, rfl, rfl, rfl⟩ ?_ ?_ (fun _ _ h => nomatch h) ?_
    · simp only [hreceived, Handler.inHand, List.append_nil]
    · rintro c n (h | h) <;> cases h
    · rw [hh]
      exact fun h => h
  case h_3 notify hh =>
    cases hs
    rw [hh] at hreceived
    refine inv.handlerMoves ⟨rfl, rfl, rfl, rfl⟩ hreceived ?_ (fun _ _ h => nomatch h) ?_
    · rintro c n (h | h) <;> cases h
    · rw [hh]
      exact fun h => h
  case h_4 character notify hh =>
    rw [hh] at hreceived
    split at hs
    · rename_i hne
      cases hs
      refine inv.handlerMoves ⟨rfl, rfl, rfl, rfl⟩ hreceived ?_ (fun _ _ h => nomatch h) ?_
      · intro c n _
        rw [next_eq] at hne
        have hcount := Ring.distance_produce inv.read inv.write hne
        have hlt : Ring.distance consoleInputBufferSize s.consoleInputRead
            ((s.consoleInputWrite + 1) % consoleInputBufferSize) < consoleInputBufferSize :=
          Ring.distance_lt (by decide)
        rw [hcount] at hlt
        exact hlt
      · rw [hh]
        exact fun h => h
    · cases hs
      refine inv.handlerMoves ⟨?_, rfl, rfl, rfl⟩ ?_ ?_ (fun _ _ h => nomatch h) (fun _ => rfl)
      · rw [accepted_append]
        simp
      · simp [hreceived, Handler.inHand]
      · rintro c n (h | h) <;> cases h
  case h_5 character notify hh =>
    cases hs
    rw [hh] at hreceived
    have hc := inv.storing character notify (.inl hh)
    have hunread := inv.unread_storeByte character hc
    refine ⟨inv.read, inv.write, ?_, hreceived, fun _ _ _ => hc, ?_, inv.fetching, ?_,
      inv.suspended, ?_, inv.popped, inv.returned, inv.discard⟩
    · rw [inv.fifo]
      exact congrArg _ hunread.symm
    · rintro c n ⟨⟩
      exact Function.update_self _ _ _
    · intro c hr
      obtain ⟨hne, hbyte⟩ := inv.fetched c hr
      exact ⟨hne, (Function.update_of_ne hne _ _).trans hbyte⟩
    · intro hr hne
      have hw := inv.wake hr hne
      rwa [hh] at hw
  case h_6 character notify hh =>
    cases hs
    rw [hh] at hreceived
    have hc := inv.storing character notify (.inr hh)
    have hunread := inv.unread_storeWrite hc (inv.stored character notify hh)
    have hne : next s.consoleInputWrite ≠ s.consoleInputRead := by
      intro h
      rw [next_eq] at h
      have hfull := Ring.distance_full inv.read inv.write h
      rw [State.unreadCount] at hc
      omega
    refine ⟨inv.read, next_lt _, ?_, ?_, ?_, (fun _ _ h => nomatch h), fun _ => hne.symm, ?_,
      inv.suspended, fun _ _ => .inr rfl, inv.popped, inv.returned, inv.discard⟩
    · rw [accepted_append, if_pos rfl, inv.fifo, List.append_assoc]
      exact congrArg _ hunread.symm
    · simp [hreceived, Handler.inHand]
    · rintro c n (h | h) <;> cases h
    · intro c hr
      exact ⟨hne.symm, (inv.fetched c hr).2⟩
  case h_7 notify set hh =>
    cases hs
    rw [hh] at hreceived
    refine inv.handlerMoves ⟨rfl, rfl, rfl, rfl⟩ hreceived ?_ (fun _ _ h => nomatch h) ?_
    · rintro c n (h | h) <;> cases h
    · rw [hh]
      intro hn
      have hn : notify = true := hn
      simp [Handler.notify, hn]
  case h_8 notify hh =>
    cases hs
    exact inv.leave hh
  case h_9 => cases hs

/-- Changing where the reader is, short of a pop. -/
theorem Inv.readerMoves (inv : Inv s) {r : Reader} {n : Nat} (hr : r.inHand = s.reader.inHand)
    (hfetch : r = .fetch → s.consoleInputRead ≠ s.consoleInputWrite)
    (hfetched : ∀ c, r = .advance c → s.consoleInputRead ≠ s.consoleInputWrite ∧
      s.consoleInputBuffer s.consoleInputRead = c)
    (hsusp : r = .suspended → n = 0)
    (hwake : r = .get ∨ r = .suspended → s.consoleInputRead ≠ s.consoleInputWrite →
      0 < n ∨ s.handler.notify = true) :
    Inv { s with reader := r, consoleInputAvailable := n } where
  read := inv.read
  write := inv.write
  fifo := inv.fifo
  received := inv.received
  storing := inv.storing
  stored := inv.stored
  fetching := hfetch
  fetched := hfetched
  suspended := hsusp
  wake := hwake
  popped := by
    rw [hr]
    exact inv.popped
  returned := inv.returned
  discard := inv.discard

/-- The line endings: the byte joins those processed, and the characters
    returned stay the normalized ones. -/
theorem Inv.finish (inv : Inv s) {c : UInt8} (hr : s.reader = .got c) : Inv (finish s c) := by
  have hpopped : s.trace.popped = s.trace.processed ++ [c] := by
    have hp := inv.popped
    rwa [hr] at hp
  have hlf : lineFeed ≠ carriageReturn := by decide
  have hnorm := normalize_append s.trace.processed c
  unfold SerialInput.finish
  split
  · rename_i hdiscard
    obtain ⟨hd, rfl⟩ := hdiscard
    rw [if_pos ⟨inv.discard.mp hd, rfl⟩] at hnorm
    refine ⟨inv.read, inv.write, inv.fifo, inv.received, inv.storing, inv.stored,
      (fun h => nomatch h), (fun _ h => nomatch h), (fun h => nomatch h), ?_, ?_, ?_, ?_⟩
    · rintro (h | h) <;> cases h
    · simpa [Reader.inHand] using hpopped
    · exact inv.returned.trans hnorm.symm
    · simp [hlf]
  · rename_i hkeep
    have hnorm : normalize (s.trace.processed ++ [c]) =
        normalize s.trace.processed ++ [if c = carriageReturn then lineFeed else c] := by
      rw [hnorm, if_neg]
      rintro ⟨hlast, hc⟩
      exact hkeep ⟨inv.discard.mpr hlast, hc⟩
    split
    · rename_i hcr
      subst hcr
      refine ⟨inv.read, inv.write, inv.fifo, inv.received, inv.storing, inv.stored,
        (fun h => nomatch h), (fun _ h => nomatch h), (fun h => nomatch h), ?_, ?_, ?_, ?_⟩
      · rintro (h | h) <;> cases h
      · simpa [Reader.inHand] using hpopped
      · simpa [hnorm] using inv.returned
      · simp
    · rename_i hcr
      refine ⟨inv.read, inv.write, inv.fifo, inv.received, inv.storing, inv.stored,
        (fun h => nomatch h), (fun _ h => nomatch h), (fun h => nomatch h), ?_, ?_, ?_, ?_⟩
      · rintro (h | h) <;> cases h
      · simpa [Reader.inHand] using hpopped
      · simpa [hnorm, hcr] using inv.returned
      · simp [hcr]

theorem Inv.preserve_reader (inv : Inv s) (hs : readerStep s s.reader e = some s') : Inv s' := by
  have hwait : ∀ r : Reader, (r ≠ .get ∧ r ≠ .suspended) → r = .get ∨ r = .suspended →
      s.consoleInputRead ≠ s.consoleInputWrite →
      0 < s.consoleInputAvailable ∨ s.handler.notify = true := by
    intro r hr h
    rcases h with h | h
    · exact absurd h hr.1
    · exact absurd h hr.2
  unfold readerStep at hs
  split at hs
  case h_1 hr =>
    cases hs
    exact inv.readerMoves (by rw [hr]; rfl) (fun h => nomatch h) (fun _ h => nomatch h)
      (fun h => nomatch h) (hwait _ ⟨nofun, nofun⟩)
  case h_2 hr =>
    split at hs
    · rename_i heq
      cases hs
      exact inv.readerMoves (by rw [hr]; rfl) (fun h => nomatch h) (fun _ h => nomatch h)
        (fun h => nomatch h) (fun _ hne => absurd heq hne)
    · rename_i hne
      cases hs
      exact inv.readerMoves (by rw [hr]; rfl) (fun _ => hne) (fun _ h => nomatch h)
        (fun h => nomatch h) (hwait _ ⟨nofun, nofun⟩)
  case h_3 hr =>
    cases hs
    refine inv.readerMoves (by rw [hr]; rfl) (fun h => nomatch h) ?_ (fun h => nomatch h)
      (hwait _ ⟨nofun, nofun⟩)
    rintro c ⟨⟩
    exact ⟨inv.fetching hr, rfl⟩
  case h_4 character hr =>
    cases hs
    obtain ⟨hne, hbyte⟩ := inv.fetched character hr
    have hunread := inv.unread_advance hne
    rw [hbyte] at hunread
    have hpopped : s.trace.popped = s.trace.processed := by
      have hp := inv.popped
      rw [hr] at hp
      simpa [Reader.inHand] using hp
    refine ⟨next_lt _, inv.write, ?_, inv.received, ?_, inv.stored, (fun h => nomatch h),
      (fun _ h => nomatch h), (fun h => nomatch h), ?_, ?_, inv.returned, inv.discard⟩
    · rw [List.append_assoc]
      exact inv.fifo.trans (congrArg _ hunread)
    · intro c n hh
      have hold := inv.storing c n hh
      have hcount := congrArg List.length hunread
      simp only [length_unread, List.length_cons] at hcount
      refine Nat.lt_of_le_of_lt ?_ hold
      exact Nat.succ_le_succ (by rw [hcount]; exact Nat.le_succ _)
    · rintro (h | h) <;> cases h
    · simp [hpopped, Reader.inHand]
  case h_5 hr =>
    split at hs
    · cases hs
      exact inv.readerMoves (by rw [hr]; rfl) (fun h => nomatch h) (fun _ h => nomatch h)
        (fun h => nomatch h) (by rintro (h | h) <;> cases h)
    · rename_i hzero
      cases hs
      have hzero : s.consoleInputAvailable = 0 := by omega
      exact inv.readerMoves (by rw [hr]; rfl) (fun h => nomatch h) (fun _ h => nomatch h)
        (fun _ => hzero) (fun _ hne => inv.wake (.inl hr) hne)
  case h_6 hr =>
    cases hs
    exact inv.readerMoves (by rw [hr]; rfl) (fun h => nomatch h) (fun _ h => nomatch h)
      (fun h => nomatch h) (hwait _ ⟨nofun, nofun⟩)
  case h_7 hr =>
    cases hs
    exact inv.readerMoves (by rw [hr]; rfl) (fun h => nomatch h) (fun _ h => nomatch h)
      (fun h => nomatch h) (hwait _ ⟨nofun, nofun⟩)
  case h_8 character hr =>
    cases hs
    exact inv.finish hr
  all_goals cases hs

theorem Inv.preserve (inv : Inv s) (hs : step s e = some s') : Inv s' := by
  unfold step at hs
  split at hs
  · exact inv.preserve_handler hs
  · exact inv.preserve_reader hs

/-! ## What serial input guarantees -/

/-- The guarantees of serial standard input at every moment. -/
structure Guarantee (s : State) : Prop where
  /-- Every byte read from the data register is accepted or dropped, in order;
      at most one is in the handler's hand. -/
  received : ∃ inHand, s.trace.received = s.trace.fates.map Prod.fst ++ inHand ∧
    inHand.length ≤ 1
  /-- The bytes popped are the accepted ones in arrival order. -/
  fifo : s.trace.accepted = s.trace.popped ++ s.unread
  /-- A byte is dropped only over 255 unread ones. -/
  drops : ∀ e s' c, step s e = some s' → s'.trace.fates = s.trace.fates ++ [(c, false)] →
    s.unread.length = 255
  /-- Outside the handler no reader waits, or is about to, over unread bytes. -/
  awake : s.handler = .off → s.unread ≠ [] →
    s.reader ≠ .suspended ∧ ¬ (s.reader = .get ∧ s.consoleInputAvailable = 0)
  /-- The characters returned are the popped bytes with their line endings
      normalized, but for one byte that may still be in the reader's hand. -/
  returned : ∃ inHand, s.trace.popped = s.trace.processed ++ inHand ∧ inHand.length ≤ 1 ∧
    s.trace.returned = normalize s.trace.processed
  /-- Between calls, and while the reader waits, there is none in its hand. -/
  settled : s.reader = .out ∨ s.reader = .get ∨ s.reader = .suspended → s.unread = [] →
    s.trace.returned = normalize s.trace.accepted

/-- A step that drops a byte has found the ring full. -/
theorem Inv.full_of_drop (inv : Inv s) {c : UInt8} (hs : step s e = some s')
    (hd : s'.trace.fates = s.trace.fates ++ [(c, false)]) : s.unreadCount = 255 := by
  have hsame : s'.trace.fates ≠ s.trace.fates := by
    rw [hd]
    simp
  unfold step at hs
  split at hs
  · unfold handlerStep at hs
    split at hs
    case h_4 character notify hh he =>
      split at hs
      · cases hs
        exact absurd rfl hsame
      · rename_i heq
        rw [not_not, next_eq] at heq
        exact Ring.distance_full inv.read inv.write heq
    case h_6 character notify hh he =>
      cases hs
      simp at hd
    case h_8 notify hh he =>
      cases hs
      refine absurd ?_ hsame
      cases notify
      · rfl
      · simp only [if_true, ceilingPut]
        split
        · rfl
        · split <;> rfl
    case h_9 => cases hs
    all_goals
      cases hs
      exact absurd rfl hsame
  · unfold readerStep at hs
    split at hs
    case h_2 => split at hs <;> cases hs <;> exact absurd rfl hsame
    case h_5 => split at hs <;> cases hs <;> exact absurd rfl hsame
    case h_8 character hr he =>
      cases hs
      refine absurd ?_ hsame
      unfold SerialInput.finish
      split
      · rfl
      · split <;> rfl
    all_goals
      first
        | cases hs; exact absurd rfl hsame
        | cases hs

theorem input_guarantee {h : List Event} (hrun : Run step anyStep init h s) : Guarantee s := by
  have inv : Inv s := Run.invariant (fun _ h0 => Inv.initial h0)
    (fun _ _ _ inv hs => inv.preserve hs) hrun
  have hempty : s.unread = [] ↔ s.consoleInputRead = s.consoleInputWrite := by
    rw [← List.length_eq_zero_iff, length_unread]
    exact Ring.distance_eq_zero inv.read inv.write
  refine ⟨⟨s.handler.inHand, inv.received, ?_⟩, inv.fifo, fun e s' c hs hd => ?_,
    fun hoff hne => ⟨fun hr => ?_, ?_⟩, ⟨s.reader.inHand, inv.popped, ?_, inv.returned⟩,
    fun hr hnil => ?_⟩
  · cases s.handler <;> simp [Handler.inHand]
  · rw [length_unread]
    exact inv.full_of_drop hs hd
  · rw [Ne, hempty] at hne
    rcases inv.wake (.inr hr) hne with ha | hn
    · rw [inv.suspended hr] at ha
      exact absurd ha (Nat.lt_irrefl 0)
    · rw [hoff] at hn
      cases hn
  · rintro ⟨hr, ha⟩
    rw [Ne, hempty] at hne
    rcases inv.wake (.inl hr) hne with hpos | hn
    · rw [ha] at hpos
      exact absurd hpos (Nat.lt_irrefl 0)
    · rw [hoff] at hn
      cases hn
  · cases s.reader <;> simp [Reader.inHand]
  · have hhand : s.reader.inHand = [] := by
      rcases hr with hr | hr | hr <;> rw [hr] <;> rfl
    have hfifo := inv.fifo
    have hpopped := inv.popped
    rw [hnil, List.append_nil] at hfifo
    rw [hhand, List.append_nil] at hpopped
    rw [hfifo, hpopped, inv.returned]

/-- `A` and CR arrive while the reader is about to wait, the LF in a second
    interrupt: the reader returns `A` and one newline and waits again. -/
def splitRun : List Event :=
  [.call, .compare, .interrupt, .byte 65, .check, .storeByte, .storeWrite, .byte 13, .check,
   .storeByte, .storeWrite, .noByte, .idle true, .leave,
   .get, .compare, .fetch, .advance, .finish, .call, .compare, .fetch, .advance, .finish,
   .interrupt, .byte 10, .check, .storeByte, .storeWrite, .noByte, .idle false, .leave,
   .call, .compare, .fetch, .advance, .finish, .compare, .get]

/-- `initialize_console` has just run. -/
def ready : State :=
  ⟨fun _ => 0, 0, 0, 0, false, .off, .out, ⟨[], [], [], [], []⟩⟩

theorem input_guarantee_splitRun :
    ∃ hrun : (replay step ready splitRun).isSome = true,
      ((replay step ready splitRun).get hrun).trace.returned = [65, 10] ∧
      Guarantee ((replay step ready splitRun).get hrun) :=
  ⟨rfl, rfl, input_guarantee (Run.of_replay_isSome
    (show init ready from ⟨rfl, rfl, rfl, rfl, rfl, rfl, rfl⟩) rfl)⟩

end SerialInput
end Hal
end NucleoBase
