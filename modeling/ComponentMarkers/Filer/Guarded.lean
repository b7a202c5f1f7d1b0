import ComponentMarkers.Filer

/-!
# Filers that fail on some names

A guard stands before a filer and lets creation, writing or finishing of the resources with certain
relative names fail, with errors of its own.  The filer behind it never hears of these resources.
-/

namespace ComponentMarkers

/-- The relative names on which a filer fails, and with which error at which step. -/
structure FilerGuard where
  refused : List String
  failingWrites : List String
  failingFlushes : List String
  /-- Why a refused resource is not created. -/
  refusal : IoError
  writeFailure : IoError
  flushFailure : IoError
  deriving DecidableEq, Repr

/-- A writer of the filer behind the guard, or one that takes nothing: it is never finished, and
it may already fail when it is written to. -/
inductive GuardedWriter (ω : Type) where
  | passed (writer : ω)
  | faulty (failsOnWrite : Bool)
  deriving DecidableEq, Repr

/-- The filer behind a guard. -/
def guardedFiler (guard : FilerGuard) (filer : Filer σ ω) : Filer σ (GuardedWriter ω) where
  create resource origin state :=
    if guard.refused.contains resource.name then
      (.error guard.refusal, state)
    else if guard.failingWrites.contains resource.name then
      (.ok (.faulty true), state)
    else if guard.failingFlushes.contains resource.name then
      (.ok (.faulty false), state)
    else
      match filer.create resource origin state with
      | (.error e, state) => (.error e, state)
      | (.ok writer, state) => (.ok (.passed writer), state)
  write writer bytes state :=
    match writer with
    | .passed inner =>
      let ((result, inner), state) := filer.write inner bytes state
      ((result, .passed inner), state)
    | .faulty true => ((.error guard.writeFailure, .faulty true), state)
    | .faulty false => ((.ok (), .faulty false), state)
  flush writer state :=
    match writer with
    | .passed inner =>
      let ((result, inner), state) := filer.flush inner state
      ((result, .passed inner), state)
    | .faulty failsOnWrite => ((.error guard.flushFailure, .faulty failsOnWrite), state)
  close writer state :=
    match writer with
    | .passed inner => filer.close inner state
    | .faulty _ => state

end ComponentMarkers
