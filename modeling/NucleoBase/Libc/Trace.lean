/-
  NucleoBase.Libc.Trace

  A FileX that keeps the log of its calls and of the changes made to the blocks
  beside it, newest first, each with its status.  What a claim says about the
  calls of a run (which failed, which came before which) is said of the log.
-/

import NucleoBase.Libc.Serve

namespace NucleoBase
namespace Libc

open Lib Lib.Program

/-- One call of FileX, or one of the changes the adapter makes to its blocks. -/
inductive FxCall
  | fileOpen (v : Volume) (b : Block) (mode : OpenMode) (status : Status)
  | fileClose (b : Block) (status : Status)
  | fileRead (b : Block) (status : Status)
  | fileWrite (b : Block) (status : Status)
  | seek (b : Block) (status : Status)
  | truncate (b : Block) (status : Status)
  /-- A call that changes the directories of a volume. -/
  | entry (v : Volume) (status : Status)
  | lookup (v : Volume) (status : Status)
  | mediaFlush (v : Volume) (status : Status)
  | clear (b : Block)
  | setEntryDateTime (b : Block)
  deriving DecidableEq, Repr

abbrev Log : Type := List FxCall

variable {σ : Type}

/-- A call that is logged with its status. -/
def logged (f : σ → Status × σ) (e : Status → FxCall) (s : σ × Log) : Status × σ × Log :=
  ((f s.1).1, (f s.1).2, e (f s.1).1 :: s.2)

/-- A call that returns something beside its status. -/
def loggedWith {α : Type} (f : σ → (Status × α) × σ) (e : Status → FxCall) (s : σ × Log) :
    (Status × α) × σ × Log :=
  ((f s.1).1, (f s.1).2, e (f s.1).1.1 :: s.2)

/-- The same FileX with the log. -/
def FileX.traced (X : FileX σ) : FileX (σ × Log) where
  fileOpen v b p mode := logged (X.fileOpen v b p mode) (.fileOpen v b mode)
  fileClose b := logged (X.fileClose b) (.fileClose b)
  fileRead b n := loggedWith (X.fileRead b n) (.fileRead b)
  fileWrite b bytes := logged (X.fileWrite b bytes) (.fileWrite b)
  fileExtendedSeek b n := logged (X.fileExtendedSeek b n) (.seek b)
  fileExtendedTruncateRelease b n := logged (X.fileExtendedTruncateRelease b n) (.truncate b)
  fileCreate v p := logged (X.fileCreate v p) (.entry v)
  fileDelete v p := logged (X.fileDelete v p) (.entry v)
  fileRename v p q := logged (X.fileRename v p q) (.entry v)
  fileDateTimeSet v p stamp := logged (X.fileDateTimeSet v p stamp) (.entry v)
  directoryCreate v p := logged (X.directoryCreate v p) (.entry v)
  directoryDelete v p := logged (X.directoryDelete v p) (.entry v)
  directoryRename v p q := logged (X.directoryRename v p q) (.entry v)
  directoryInformationGet v p := loggedWith (X.directoryInformationGet v p) (.lookup v)
  directoryDefaultSet v p := logged (X.directoryDefaultSet v p) (.lookup v)
  directoryFirstFullEntryFind v := loggedWith (X.directoryFirstFullEntryFind v) (.lookup v)
  directoryNextFullEntryFind v := loggedWith (X.directoryNextFullEntryFind v) (.lookup v)
  mediaFlush v := logged (X.mediaFlush v) (.mediaFlush v)
  currentFileSize s := X.currentFileSize s.1
  currentFileOffset s := X.currentFileOffset s.1
  clear b s := (X.clear b s.1, .clear b :: s.2)
  setEntryDateTime b date time s := (X.setEntryDateTime b date time s.1, .setEntryDateTime b :: s.2)

variable {X : FileX σ}

theorem FileX.Documented.traced (hX : X.Documented) : X.traced.Documented where
  fileOpen v b p mode fx := hX.fileOpen v b p mode fx.1
  fileClose b fx := hX.fileClose b fx.1
  fileWrite b bytes fx := hX.fileWrite b bytes fx.1
  fileExtendedSeek b n fx := hX.fileExtendedSeek b n fx.1
  fileExtendedTruncateRelease b n fx := hX.fileExtendedTruncateRelease b n fx.1
  fileCreate v p fx := hX.fileCreate v p fx.1
  fileDelete v p fx := hX.fileDelete v p fx.1
  fileRename v p q fx := hX.fileRename v p q fx.1
  fileDateTimeSet v p stamp fx := hX.fileDateTimeSet v p stamp fx.1
  directoryCreate v p fx := hX.directoryCreate v p fx.1
  directoryDelete v p fx := hX.directoryDelete v p fx.1
  directoryRename v p q fx := hX.directoryRename v p q fx.1
  directoryInformationGet v p fx := hX.directoryInformationGet v p fx.1
  directoryDefaultSet v p fx := hX.directoryDefaultSet v p fx.1
  mediaFlush v fx := hX.mediaFlush v fx.1

end Libc
end NucleoBase
