import ComponentMarkers.Filer.Guarded
import ComponentMarkers.Filer.Memory
import ComponentMarkers.Filer.Recording

/-!
# How the writing of a resource ends

`Filer.writeResource` runs through three steps and stops at the first that fails.  The fate of a
resource says which step that is.  A filer is decided by names when the fate of a resource depends on
what it is called alone, neither on the filer's state nor on what is written.

A recording filer meets the same fates as the filer behind it, and its record grows by exactly the
resources that are finished.
-/

namespace ComponentMarkers

/-- The step at which the writing of a resource ends. -/
inductive ResourceFate where
  | refused (error : IoError)
  | failsOnWrite (error : IoError)
  | failsOnFlush (error : IoError)
  | finished
  deriving DecidableEq, Repr

namespace ResourceFate

/-- What the writer of a resource is told. -/
def result : ResourceFate → Except IoError Unit
  | refused error => .error error
  | failsOnWrite error => .error error
  | failsOnFlush error => .error error
  | finished => .ok ()

theorem result_eq_ok_iff (fate : ResourceFate) : fate.result = .ok () ↔ fate = .finished := by
  cases fate <;> simp [result]

end ResourceFate

namespace Filer

variable {σ ω : Type}

/-- The fate that a resource meets when it is written in a given state of the filer. -/
def fate (filer : Filer σ ω) (resource : ResourceName) (origin : Option ElementId)
    (content : List UInt8) (state : σ) : ResourceFate :=
  match filer.create resource origin state with
  | (.error e, _) => .refused e
  | (.ok writer, state) =>
    match filer.write writer content state with
    | ((.error e, _), _) => .failsOnWrite e
    | ((.ok (), writer), state) =>
      match filer.flush writer state with
      | ((.error e, _), _) => .failsOnFlush e
      | ((.ok (), _), _) => .finished

/-- The fate of a resource depends on its name alone. -/
def DecidedBy (filer : Filer σ ω) (fates : ResourceName → ResourceFate) : Prop :=
  ∀ resource origin content state, filer.fate resource origin content state = fates resource

section Steps

variable {filer : Filer σ ω} {resource : ResourceName} {origin : Option ElementId}
  {content : List UInt8} {state created written : σ} {opened writer : ω} {e : IoError}

theorem writeResource_of_create_error
    (content : List UInt8)
    (hcreate : filer.create resource origin state = (.error e, created)) :
    filer.writeResource resource origin content state = (.error e, created) ∧
      filer.fate resource origin content state = .refused e := by
  simp only [writeResource, fate, hcreate, and_self]

theorem writeResource_of_write_error
    (hcreate : filer.create resource origin state = (.ok opened, created))
    (hwrite : filer.write opened content created = ((.error e, writer), written)) :
    filer.writeResource resource origin content state = (.error e, filer.close writer written) ∧
      filer.fate resource origin content state = .failsOnWrite e := by
  simp only [writeResource, fate, hcreate, hwrite, and_self]

theorem writeResource_of_flush_error
    (hcreate : filer.create resource origin state = (.ok opened, created))
    (hwrite : filer.write opened content created = ((.ok (), writer), written))
    {flushed : ω} {last : σ}
    (hflush : filer.flush writer written = ((.error e, flushed), last)) :
    filer.writeResource resource origin content state = (.error e, filer.close flushed last) ∧
      filer.fate resource origin content state = .failsOnFlush e := by
  simp only [writeResource, fate, hcreate, hwrite, hflush, and_self]

theorem writeResource_of_flush_ok
    (hcreate : filer.create resource origin state = (.ok opened, created))
    (hwrite : filer.write opened content created = ((.ok (), writer), written))
    {flushed : ω} {last : σ}
    (hflush : filer.flush writer written = ((.ok (), flushed), last)) :
    filer.writeResource resource origin content state = (.ok (), filer.close flushed last) ∧
      filer.fate resource origin content state = .finished := by
  simp only [writeResource, fate, hcreate, hwrite, hflush, and_self]

end Steps

theorem writeResource_fst
    (filer : Filer σ ω) (resource : ResourceName) (origin : Option ElementId)
    (content : List UInt8) (state : σ) :
    (filer.writeResource resource origin content state).1 =
      (filer.fate resource origin content state).result := by
  rcases hcreate : filer.create resource origin state with ⟨e | opened, created⟩
  · obtain ⟨hwhole, hfate⟩ := writeResource_of_create_error content hcreate
    rw [hwhole, hfate]
    rfl
  · rcases hwrite : filer.write opened content created with ⟨⟨e | _, writer⟩, written⟩
    · obtain ⟨hwhole, hfate⟩ := writeResource_of_write_error hcreate hwrite
      rw [hwhole, hfate]
      rfl
    · rcases hflush : filer.flush writer written with ⟨⟨e | _, flushed⟩, last⟩
      · obtain ⟨hwhole, hfate⟩ := writeResource_of_flush_error hcreate hwrite hflush
        rw [hwhole, hfate]
        rfl
      · obtain ⟨hwhole, hfate⟩ := writeResource_of_flush_ok hcreate hwrite hflush
        rw [hwhole, hfate]
        rfl

theorem DecidedBy.writeResource_fst
    {filer : Filer σ ω} {fates : ResourceName → ResourceFate} (h : filer.DecidedBy fates)
    (resource : ResourceName) (origin : Option ElementId) (content : List UInt8) (state : σ) :
    (filer.writeResource resource origin content state).1 = (fates resource).result := by
  rw [Filer.writeResource_fst, h]

/-- A resource is finished exactly when nothing fails. -/
theorem fate_eq_finished_iff
    {filer : Filer σ ω} {resource : ResourceName} {origin : Option ElementId} {content : List UInt8}
    {state last : σ} {result : Except IoError Unit}
    (hwrite : filer.writeResource resource origin content state = (result, last)) :
    filer.fate resource origin content state = .finished ↔ result = .ok () := by
  rw [← ResourceFate.result_eq_ok_iff, ← writeResource_fst, hwrite]

theorem DecidedBy.eq_finished_iff
    {filer : Filer σ ω} {fates : ResourceName → ResourceFate} (h : filer.DecidedBy fates)
    {resource : ResourceName} {origin : Option ElementId} {content : List UInt8} {state last : σ}
    {result : Except IoError Unit}
    (hwrite : filer.writeResource resource origin content state = (result, last)) :
    fates resource = .finished ↔ result = .ok () := by
  rw [← h resource origin content state]
  exact fate_eq_finished_iff hwrite

/-- A record hides nothing from the filer and adds the path of a resource when it is finished. -/
theorem writeResource_recordingFiler
    (filer : Filer σ ω) (resource : ResourceName) (origin : Option ElementId)
    (content : List UInt8) (recorded : Recorded σ) :
    (recordingFiler filer).writeResource resource origin content recorded =
      ((filer.writeResource resource origin content recorded.state).1,
        ⟨(filer.writeResource resource origin content recorded.state).2,
          recorded.written ++
            if filer.fate resource origin content recorded.state = .finished then [resource.path]
            else []⟩) := by
  rcases hcreate : filer.create resource origin recorded.state with ⟨e | opened, created⟩
  · obtain ⟨-, hfate⟩ := writeResource_of_create_error content hcreate
    simp [hfate, writeResource, recordingFiler, hcreate]
  · rcases hwrite : filer.write opened content created with ⟨⟨e | _, writer⟩, written⟩
    · obtain ⟨-, hfate⟩ := writeResource_of_write_error hcreate hwrite
      simp [hfate, writeResource, recordingFiler, hcreate, hwrite]
    · rcases hflush : filer.flush writer written with ⟨⟨e | _, flushed⟩, last⟩
      · obtain ⟨-, hfate⟩ := writeResource_of_flush_error hcreate hwrite hflush
        simp [hfate, writeResource, recordingFiler, hcreate, hwrite, hflush]
      · obtain ⟨-, hfate⟩ := writeResource_of_flush_ok hcreate hwrite hflush
        simp [hfate, writeResource, recordingFiler, hcreate, hwrite, hflush]

/-- Everything that leads to a plain name is finished in memory. -/
def memoryFates (resource : ResourceName) : ResourceFate :=
  if isPlainName resource.name then .finished else .refused (.invalidName resource.name)

theorem memoryFiler_decidedBy : memoryFiler.DecidedBy memoryFates := by
  intro resource origin content state
  by_cases hname : isPlainName resource.name
  · simp [fate, memoryFates, memoryFiler, hname]
  · simp [fate, memoryFates, memoryFiler, hname]

/-- The fates behind a guard: the guard's own lists are looked at first. -/
def guardedFates (guard : FilerGuard) (fates : ResourceName → ResourceFate)
    (resource : ResourceName) : ResourceFate :=
  if guard.refused.contains resource.name then .refused guard.refusal
  else if guard.failingWrites.contains resource.name then .failsOnWrite guard.writeFailure
  else if guard.failingFlushes.contains resource.name then .failsOnFlush guard.flushFailure
  else fates resource

theorem DecidedBy.guardedFiler
    {filer : Filer σ ω} {fates : ResourceName → ResourceFate} (h : filer.DecidedBy fates)
    (guard : FilerGuard) : (guardedFiler guard filer).DecidedBy (guardedFates guard fates) := by
  intro resource origin content state
  rw [guardedFates]
  by_cases hrefused : guard.refused.contains resource.name
  · rw [if_pos hrefused]
    simp only [fate, ComponentMarkers.guardedFiler, hrefused, if_true]
  rw [if_neg hrefused]
  by_cases hwrites : guard.failingWrites.contains resource.name
  · rw [if_pos hwrites]
    simp only [fate, ComponentMarkers.guardedFiler, hrefused, hwrites, if_true, if_false,
      Bool.false_eq_true]
  rw [if_neg hwrites]
  by_cases hflushes : guard.failingFlushes.contains resource.name
  · rw [if_pos hflushes]
    simp only [fate, ComponentMarkers.guardedFiler, hrefused, hwrites, hflushes, if_true, if_false,
      Bool.false_eq_true]
  rw [if_neg hflushes, ← h resource origin content state]
  rcases hcreate : filer.create resource origin state with ⟨e | opened, created⟩
  · simp only [fate, ComponentMarkers.guardedFiler, hrefused, hwrites, hflushes, if_false,
      Bool.false_eq_true, hcreate]
  · rcases hwrite : filer.write opened content created with ⟨⟨e | _, writer⟩, written⟩
    · simp only [fate, ComponentMarkers.guardedFiler, hrefused, hwrites, hflushes, if_false,
        Bool.false_eq_true, hcreate, hwrite]
    · rcases hflush : filer.flush writer written with ⟨⟨e | _, flushed⟩, last⟩
      · simp only [fate, ComponentMarkers.guardedFiler, hrefused, hwrites, hflushes, if_false,
          Bool.false_eq_true, hcreate, hwrite, hflush]
      · simp only [fate, ComponentMarkers.guardedFiler, hrefused, hwrites, hflushes, if_false,
          Bool.false_eq_true, hcreate, hwrite, hflush]

/-- A guard answers for the resources on its lists and leaves all others to the filer behind it. -/
theorem writeResource_guardedFiler
    (guard : FilerGuard) (filer : Filer σ ω) (resource : ResourceName) (origin : Option ElementId)
    (content : List UInt8) (state : σ) :
    (guardedFiler guard filer).writeResource resource origin content state =
      if guard.refused.contains resource.name then (.error guard.refusal, state)
      else if guard.failingWrites.contains resource.name then (.error guard.writeFailure, state)
      else if guard.failingFlushes.contains resource.name then (.error guard.flushFailure, state)
      else filer.writeResource resource origin content state := by
  by_cases hrefused : guard.refused.contains resource.name
  · simp only [writeResource, guardedFiler, hrefused, if_true]
  rw [if_neg hrefused]
  by_cases hwrites : guard.failingWrites.contains resource.name
  · simp only [writeResource, guardedFiler, hrefused, hwrites, if_true, if_false,
      Bool.false_eq_true]
  rw [if_neg hwrites]
  by_cases hflushes : guard.failingFlushes.contains resource.name
  · simp only [writeResource, guardedFiler, hrefused, hwrites, hflushes, if_true, if_false,
      Bool.false_eq_true]
  rw [if_neg hflushes]
  rcases hcreate : filer.create resource origin state with ⟨e | opened, created⟩
  · simp only [writeResource, guardedFiler, hrefused, hwrites, hflushes, if_false,
      Bool.false_eq_true, hcreate]
  · rcases hwrite : filer.write opened content created with ⟨⟨e | _, writer⟩, written⟩
    · simp only [writeResource, guardedFiler, hrefused, hwrites, hflushes, if_false,
        Bool.false_eq_true, hcreate, hwrite]
    · simp only [writeResource, guardedFiler, hrefused, hwrites, hflushes, if_false,
        Bool.false_eq_true, hcreate, hwrite]

end Filer

end ComponentMarkers
