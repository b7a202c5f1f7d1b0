import ComponentMarkers.Filer

/-!
# Filers that record what is finished

The record lists the path of every resource whose content was flushed, each when it is flushed for the
first time.
-/

namespace ComponentMarkers

/-- The state of a filer and the paths of the resources that were finished. -/
structure Recorded (σ : Type) where
  state : σ
  written : List Path
  deriving DecidableEq, Repr

/-- A writer, and the path to be recorded when it is flushed. -/
structure RecordedWriter (ω : Type) where
  writer : ω
  path : Option Path
  deriving DecidableEq, Repr

/-- The filer with a record. -/
def recordingFiler (filer : Filer σ ω) : Filer (Recorded σ) (RecordedWriter ω) where
  create resource origin recorded :=
    match filer.create resource origin recorded.state with
    | (.error e, state) => (.error e, { recorded with state := state })
    | (.ok writer, state) => (.ok ⟨writer, some resource.path⟩, { recorded with state := state })
  write writer bytes recorded :=
    let ((result, inner), state) := filer.write writer.writer bytes recorded.state
    ((result, { writer with writer := inner }), { recorded with state := state })
  flush writer recorded :=
    match filer.flush writer.writer recorded.state with
    | ((.error e, inner), state) =>
      ((.error e, { writer with writer := inner }), { recorded with state := state })
    | ((.ok (), inner), state) =>
      ((.ok (), ⟨inner, none⟩), ⟨state, recorded.written ++ writer.path.toList⟩)
  close writer recorded := { recorded with state := filer.close writer.writer recorded.state }

end ComponentMarkers
