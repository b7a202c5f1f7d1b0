import ComponentMarkers.Proofs.Filer.Runs
import ComponentMarkers.Proofs.Filer.Store

/-!
# What replaces what in memory

Every flush and every drop makes all that its writer was given the content of the resource.  So what is
read is what was committed last, be it by the writer that was created last or by an older one that is
given up after it.  A newer writer replaces a resource for good only if no older one is still open when
it commits.
-/

namespace ComponentMarkers

/-- The resource is the one at a location under a path, however the path is spelled. -/
def ResourceName.IsAt (resource : ResourceName) (location : Location) (path : Path) : Prop :=
  resource.location = location ∧ resource.path.same path

instance (resource : ResourceName) (location : Location) (path : Path) :
    Decidable (resource.IsAt location path) :=
  inferInstanceAs (Decidable (_ ∧ _))

/-- After some operations the next one flushes or drops a writer of the resource at a place. -/
def CommitsAt (location : Location) (path : Path) (before : List FilerStep) (n : Nat)
    (step : FilerStep) : Prop :=
  step.committed? = some n ∧ ∃ resource ∈ (creations before)[n]?, resource.IsAt location path

instance (location : Location) (path : Path) (before : List FilerStep) (n : Nat)
    (step : FilerStep) : Decidable (CommitsAt location path before n step) :=
  inferInstanceAs (Decidable (_ ∧ _))

section History

variable {location : Location} {path : Path} {steps : List FilerStep} {step : FilerStep} {n : Nat}

theorem CommitsAt.unique {m : Nat} (h : CommitsAt location path steps n step)
    (hother : CommitsAt location path steps m step) : n = m :=
  Option.some.inj (h.1.symm.trans hother.1)

theorem not_commitsAt_of_committed? (h : step.committed? = none) (m : Nat) :
    ¬ CommitsAt location path steps m step := by
  rintro ⟨hstep, -⟩
  rw [h] at hstep
  cases hstep

theorem FilerStep.used?_of_committed? (h : step.committed? = some n) : step.used? = some n := by
  cases step with
  | create => cases h
  | write => cases h
  | flush => exact h
  | drop => exact h

/-- From a commit on, the last commit at its place is one of a writer that was created later or was open
then for the place. -/
theorem exists_lastActs_append
    {more : List FilerStep} (hcommits : CommitsAt location path steps n step)
    (hmore : KeepsRule OnOpenWriter (steps ++ [step] ++ more)) (hopen : IsOpen steps n) :
    ∃ m text, LastActs (CommitsAt location path) m text (steps ++ [step] ++ more) ∧
      ((creations steps).length ≤ m ∨
        ∃ resource, IsOpenFor steps m resource ∧ resource.IsAt location path) := by
  induction more using List.reverseRecOn with
  | nil =>
      rw [List.append_nil]
      obtain ⟨resource, hresource⟩ := hopen
      obtain ⟨found, hfound, hplace⟩ := hcommits.2
      obtain rfl := Option.some.inj (hresource.created.symm.trans hfound)
      exact ⟨n, _, .last hcommits rfl, Or.inr ⟨resource, hresource, hplace⟩⟩
  | append_singleton more last ih =>
      rw [← List.append_assoc] at hmore ⊢
      rw [keepsRule_concat_iff] at hmore
      obtain ⟨m, text, hlast, hm⟩ := ih hmore.1
      by_cases hcommit : ∃ k, CommitsAt location path (steps ++ [step] ++ more) k last
      · obtain ⟨k, hk⟩ := hcommit
        refine ⟨k, _, .last hk rfl, ?_⟩
        obtain ⟨found, hfound, hplace⟩ := hk.2
        obtain ⟨resource, hresource⟩ := hmore.2 k (FilerStep.used?_of_committed? hk.1)
        obtain rfl := Option.some.inj (hresource.created.symm.trans hfound)
        rcases Nat.lt_or_ge k (creations steps).length with hlt | hge
        · rw [List.append_assoc] at hresource
          exact Or.inr ⟨resource, hresource.of_append hlt, hplace⟩
        · exact Or.inl hge
      · exact ⟨m, text, .keeps hlast (not_exists.1 hcommit), hm⟩

end History

namespace MemoryStore

theorem compareTo_eq_iff (resource : StoredResource) (location : Location) (path : Path) :
    resource.compareTo location path = .eq ↔
      resource.location = location ∧ resource.path.same path := by
  rw [StoredResource.compareTo, Ordering.then_eq_eq, Location.compare_eq_iff, Path.compare_eq_iff]

/-- What was put at a place is found there, and elsewhere what was there before. -/
theorem get?_put
    (store : MemoryStore) (location other : Location) (path otherPath : Path)
    (content : List UInt8) :
    (store.put location path content).get? other otherPath =
      if location = other ∧ path.same otherPath then some content
      else store.get? other otherPath := by
  rw [get?, get?, put]
  dsimp only
  have hnew : (⟨location, path, content⟩ : StoredResource).compareTo other otherPath = .eq ↔
      location = other ∧ path.same otherPath := compareTo_eq_iff _ _ _
  induction store.resources with
  | nil =>
      rw [storeAmong, List.find?_singleton]
      simp only [hnew, decide_eq_true_eq]
      split <;> rfl
  | cons resource rest ih =>
      rw [storeAmong]
      cases horder : resource.compareTo location path with
      | lt =>
          rw [List.find?_cons, List.find?_cons]
          by_cases hresource : resource.compareTo other otherPath = .eq
          · -- The place is that of another resource, so it is not the new one.
            have hne : ¬ (location = other ∧ path.same otherPath) := by
              rintro ⟨rfl, hsame⟩
              have hplace := (compareTo_eq_iff _ _ _).1 hresource
              rw [(compareTo_eq_iff resource location path).2 ⟨hplace.1, ?_⟩] at horder
              · cases horder
              · rw [Path.same_iff] at hsame ⊢
                rw [hsame, ← Path.same_iff]
                exact hplace.2
            simp only [hresource, decide_true, if_neg hne]
          · simp only [hresource, decide_false]
            exact ih
      | eq =>
          have hplace := (compareTo_eq_iff _ _ _).1 horder
          have hsame : resource.compareTo other otherPath = .eq ↔
              location = other ∧ path.same otherPath := by
            rw [compareTo_eq_iff, hplace.1, Path.same_iff, Path.same_iff, Path.same_iff.1 hplace.2]
          rw [List.find?_cons, List.find?_cons]
          by_cases hother : location = other ∧ path.same otherPath
          · have hstored : ({ resource with content := content } : StoredResource).compareTo other
                otherPath = .eq := hsame.2 hother
            simp only [hstored, decide_true, if_pos hother, Option.map_some]
          · have hstored : ¬ ({ resource with content := content } : StoredResource).compareTo other
                otherPath = .eq := mt hsame.1 hother
            simp only [hstored, mt hsame.1 hother, decide_false, if_neg hother]
      | gt =>
          rw [List.find?_cons]
          by_cases hother : location = other ∧ path.same otherPath
          · simp only [hnew.2 hother, decide_true, if_pos hother, Option.map_some]
          · simp only [mt hnew.1 hother, decide_false, if_neg hother]

end MemoryStore

section Memory

variable {steps : List FilerStep} (store : MemoryStore)

theorem memoryFiler_create (resource : ResourceName) (origin : Option ElementId) :
    memoryFiler.create resource origin store =
      (if isPlainName resource.name then .ok ⟨resource.location, resource.path, []⟩
        else .error (.invalidName resource.name), store) := by
  rw [memoryFiler]
  dsimp only
  split <;> rfl

/-- In a run in memory each open writer has all that it was given. -/
structure HoldsWritten (steps : List FilerStep) (run : FilerRun MemoryStore MemoryWriter) : Prop
    extends run.Follows steps where
  writer_eq : ∀ n writer resource, run.writer? n = some writer → IsOpenFor steps n resource →
    writer = ⟨resource.location, resource.path, written steps n⟩

theorem HoldsWritten.writer?_eq
    {run : FilerRun MemoryStore MemoryWriter} (h : HoldsWritten steps run) {n : Nat}
    {resource : ResourceName} (hopen : IsOpenFor steps n resource) :
    run.writer? n = some ⟨resource.location, resource.path, written steps n⟩ := by
  obtain ⟨writer, hwriter⟩ := Option.isSome_iff_exists.1 ((h.isSome_iff n).2 ⟨resource, hopen⟩)
  rw [hwriter, h.writer_eq n writer resource hwriter hopen]

theorem HoldsWritten.used
    {run : FilerRun MemoryStore MemoryWriter} (h : HoldsWritten steps run) (step : FilerStep)
    {n : Nat} (hstep : step.used? = some n) (hopen : IsOpen steps n)
    {use : MemoryWriter → (Except IoError Unit × Option MemoryWriter) × MemoryStore}
    (hanswer : ∀ writer, (use writer).1.1 = .ok ())
    (huse : ∀ writer, (use writer).1.2 = if step = .drop n then none
      else some { writer with content := writer.content ++ step.givenTo n }) :
    HoldsWritten (steps ++ [step]) (run.used n use) := by
  have hfollows := h.toFollows.used hstep hopen hanswer fun writer => by
    rw [huse]
    split_ifs with hdrop <;> simp [hdrop]
  obtain ⟨resource, hresource⟩ := hopen
  refine ⟨hfollows, fun m writer other hwriter hother => ?_⟩
  obtain ⟨hother, hdrop⟩ := (isOpenFor_concat_iff_of_used? hstep).1 hother
  rw [FilerRun.writer?_used (h.writer?_eq hresource)] at hwriter
  rw [written_concat]
  split_ifs at hwriter with hm
  · subst hm
    rw [huse, if_neg hdrop] at hwriter
    rw [← Option.some.inj hwriter, hother.unique hresource]
  · rw [FilerStep.givenTo_of_used? hstep hm, List.append_nil]
    exact h.writer_eq m writer other hwriter hother

theorem HoldsWritten.step
    {run : FilerRun MemoryStore MemoryWriter} (h : HoldsWritten steps run)
    (hsteps : KeepsRule OnOpenWriter steps) {step : FilerStep} (hstep : OnOpenWriter steps step) :
    HoldsWritten (steps ++ [step]) (run.step memoryFiler step) := by
  cases step with
  | create resource origin =>
      rw [FilerRun.step, memoryFiler_create]
      refine ⟨h.created hsteps origin ?_, fun n writer other hwriter hother => ?_⟩
      · rw [FilerStep.answer]
        split <;> rfl
      · rw [FilerRun.writer?_created, h.length_eq] at hwriter
        rw [isOpenFor_create_iff hsteps] at hother
        rw [written_concat]
        rcases hother with ⟨rfl, rfl, hplain⟩ | hother
        · rw [if_pos rfl, if_pos hplain] at hwriter
          rw [hsteps.written_length_eq_nil, ← Option.some.inj hwriter]
          rfl
        · rw [if_neg (Nat.ne_of_lt hother.lt_length)] at hwriter
          rw [h.writer_eq n writer other hwriter hother]
          exact congrArg _ (List.append_nil _).symm
  | write n bytes =>
      rw [FilerRun.step]
      refine h.used (.write n bytes) rfl (hstep n rfl) ?_ fun writer => ?_
      · exact fun _ => rfl
      · simp [memoryFiler, FilerStep.givenTo]
  | flush n =>
      rw [FilerRun.step]
      refine h.used (.flush n) rfl (hstep n rfl) ?_ fun writer => ?_
      · exact fun _ => rfl
      · simp [memoryFiler, FilerStep.givenTo]
  | drop n =>
      rw [FilerRun.step]
      refine h.used (.drop n) rfl (hstep n rfl) ?_ fun writer => ?_
      · exact fun _ => rfl
      · simp

theorem holdsWritten_run (h : KeepsRule OnOpenWriter steps) :
    HoldsWritten steps (memoryFiler.run steps store) := by
  induction steps using List.reverseRecOn with
  | nil =>
      refine ⟨.start store, fun n writer resource hwriter => ?_⟩
      cases hwriter
  | append_singleton steps step ih =>
      obtain ⟨hsteps, hstep⟩ := keepsRule_concat_iff.1 h
      rw [Filer.run_concat]
      exact (ih hsteps).step hsteps hstep

/-- A flush or drop puts what its writer was given at the place of its resource, and no other operation
changes the store. -/
theorem state_step
    {run : FilerRun MemoryStore MemoryWriter} (h : HoldsWritten steps run) {step : FilerStep}
    (hstep : OnOpenWriter steps step) :
    (step.committed? = none ∧ (run.step memoryFiler step).state = run.state) ∨
      ∃ n resource, step.committed? = some n ∧ IsOpenFor steps n resource ∧
        (run.step memoryFiler step).state =
          run.state.put resource.location resource.path (written steps n) := by
  cases step with
  | create resource origin =>
      refine Or.inl ⟨rfl, ?_⟩
      rw [FilerRun.step, FilerRun.state_created, memoryFiler_create]
  | write n bytes =>
      obtain ⟨resource, hopen⟩ := hstep n rfl
      refine Or.inl ⟨rfl, ?_⟩
      rw [FilerRun.step, FilerRun.used_eq (h.writer?_eq hopen)]
      rfl
  | flush n =>
      obtain ⟨resource, hopen⟩ := hstep n rfl
      refine Or.inr ⟨n, resource, rfl, hopen, ?_⟩
      rw [FilerRun.step, FilerRun.used_eq (h.writer?_eq hopen)]
      rfl
  | drop n =>
      obtain ⟨resource, hopen⟩ := hstep n rfl
      refine Or.inr ⟨n, resource, rfl, hopen, ?_⟩
      rw [FilerRun.step, FilerRun.used_eq (h.writer?_eq hopen)]
      rfl

/-- After one more operation a place has what this committed there, or else what it had. -/
theorem get?_run_concat
    (h : KeepsRule OnOpenWriter (steps ++ [step])) (location : Location) (path : Path) :
    (∃ n, CommitsAt location path steps n step ∧
        (memoryFiler.run (steps ++ [step]) store).state.get? location path =
          some (written steps n)) ∨
      (∀ n, ¬ CommitsAt location path steps n step) ∧
        (memoryFiler.run (steps ++ [step]) store).state.get? location path =
          (memoryFiler.run steps store).state.get? location path := by
  obtain ⟨hsteps, hstep⟩ := keepsRule_concat_iff.1 h
  rw [Filer.run_concat]
  rcases state_step (holdsWritten_run store hsteps) hstep with
    ⟨hnone, hstate⟩ | ⟨n, resource, hcommitted, hopen, hstate⟩
  · rw [hstate]
    exact Or.inr ⟨not_commitsAt_of_committed? hnone, rfl⟩
  · rw [hstate, MemoryStore.get?_put]
    by_cases hplace : resource.location = location ∧ resource.path.same path
    · rw [if_pos hplace]
      exact Or.inl ⟨n, ⟨hcommitted, resource, hopen.created, hplace⟩, rfl⟩
    · rw [if_neg hplace]
      refine Or.inr ⟨?_, rfl⟩
      rintro m ⟨hm, other, hother, hotherPlace⟩
      obtain rfl := Option.some.inj (hcommitted.symm.trans hm)
      obtain rfl := Option.some.inj (hopen.created.symm.trans hother)
      exact hplace hotherPlace

/-- What a run in memory leaves at a place is what was committed there last. -/
theorem get?_run_iff
    (h : KeepsRule OnOpenWriter steps) (location : Location) (path : Path) (content : List UInt8) :
    (memoryFiler.run steps .empty).state.get? location path = some content ↔
      ∃ n, LastActs (CommitsAt location path) n content steps := by
  induction steps using List.reverseRecOn with
  | nil =>
      refine iff_of_false (fun hget => ?_) (fun ⟨n, hlast⟩ => not_lastActs_nil hlast)
      cases hget
  | append_singleton steps step ih =>
      simp only [lastActs_concat_iff]
      rcases get?_run_concat .empty h location path with ⟨n, hcommits, hget⟩ | ⟨hnone, hget⟩
      · rw [hget, Option.some_inj]
        constructor
        · exact fun hcontent => ⟨n, Or.inl ⟨hcommits, hcontent⟩⟩
        · rintro ⟨m, ⟨hm, hcontent⟩ | ⟨-, hother⟩⟩
          · rw [hcommits.unique hm]
            exact hcontent
          · exact absurd hcommits (hother n)
      · rw [hget, ih (keepsRule_concat_iff.1 h).1]
        constructor
        · exact fun ⟨n, hlast⟩ => ⟨n, Or.inr ⟨hlast, hnone⟩⟩
        · rintro ⟨n, ⟨hn, -⟩ | ⟨hlast, -⟩⟩
          · exact absurd hn (hnone n)
          · exact ⟨n, hlast⟩

end Memory

/-- What is read from memory after a run is what was committed last.  So a flush or drop of a writer,
however old it is and whatever newer writers have committed, changes what is read of its resource unless
its own text is what is read already.  A newer writer that commits when no older one of its resource is
open replaces the resource for good: from then on what is read was committed by it or by a writer that
is newer still. -/
theorem memoryFiler_reads_last_commit
    {steps : List FilerStep} (h : KeepsRule OnOpenWriter steps) (location : Location) (path : Path) :
    let read := fun steps => (memoryFiler.run steps .empty).state.read? location path
    (∀ text, read steps = some text ↔
        ∃ n content, LastActs (CommitsAt location path) n content steps ∧
          text = Text.decodeLenient content) ∧
      (∀ older step, IsOpen steps older → CommitsAt location path steps older step →
        (read (steps ++ [step]) = read steps ↔
          read steps = some (Text.decodeLenient (written steps older)))) ∧
      ∀ newer step, IsOpen steps newer → CommitsAt location path steps newer step →
        (∀ older resource, older < newer → IsOpenFor steps older resource →
          ¬ resource.IsAt location path) →
        ∀ more, KeepsRule OnOpenWriter (steps ++ [step] ++ more) →
          ∃ n content, newer ≤ n ∧ LastActs (CommitsAt location path) n content (steps ++ [step] ++ more) ∧
            read (steps ++ [step] ++ more) = some (Text.decodeLenient content) := by
  intro read
  have hread : ∀ {steps}, KeepsRule OnOpenWriter steps → ∀ {n content},
      LastActs (CommitsAt location path) n content steps →
        read steps = some (Text.decodeLenient content) := by
    intro steps hsteps n content hlast
    dsimp only [read]
    rw [MemoryStore.read?, (get?_run_iff hsteps location path content).2 ⟨n, hlast⟩,
      Option.map_some]
  have hconcat : ∀ {n step}, IsOpen steps n → CommitsAt location path steps n step →
      KeepsRule OnOpenWriter (steps ++ [step]) := by
    intro n step hopen hcommits
    refine keepsRule_concat_iff.2 ⟨h, fun m hm => ?_⟩
    rw [FilerStep.used?_of_committed? hcommits.1] at hm
    rwa [← Option.some.inj hm]
  refine ⟨fun text => ⟨fun htext => ?_, ?_⟩, ?_, ?_⟩
  · obtain ⟨content, hget, hdecode⟩ := Option.map_eq_some_iff.1 htext
    obtain ⟨n, hlast⟩ := (get?_run_iff h location path content).1 hget
    exact ⟨n, content, hlast, hdecode.symm⟩
  · rintro ⟨n, content, hlast, rfl⟩
    exact hread h hlast
  · intro older step hopen hcommits
    rw [hread (hconcat hopen hcommits) (.last hcommits rfl)]
    exact eq_comm
  · intro newer step hopen hcommits hnone more hmore
    obtain ⟨n, content, hlast, hn⟩ := exists_lastActs_append hcommits hmore hopen
    refine ⟨n, content, ?_, hlast, hread hmore hlast⟩
    rcases hn with hn | ⟨resource, hresource, hplace⟩
    · obtain ⟨resource, hresource⟩ := hopen
      exact Nat.le_of_lt (Nat.lt_of_lt_of_le hresource.lt_length hn)
    · exact Nat.not_lt.1 fun hlt => hnone n resource hlt hresource hplace

/-- The marker of `A` is created twice; the second writer has flushed, and the first is still open. -/
def overtakenSteps : List FilerStep :=
  [.create ⟨.classOutput, "p", "A.component"⟩ none, .write 0 (Text.encode "old"),
    .create ⟨.classOutput, "p", "A.component"⟩ none, .write 1 (Text.encode "new"), .flush 1]

/-- In this run the drop of the first writer changes what is read; once it is dropped, the next flush of
the second writer replaces the marker for good. -/
theorem memoryFiler_reads_last_commit_overtakenSteps :
    let read := fun steps => (memoryFiler.run steps .empty).state.read? .classOutput ⟨"p/A.component"⟩
    KeepsRule OnOpenWriter overtakenSteps ∧
      read overtakenSteps = some "new" ∧
      read (overtakenSteps ++ [.drop 0]) ≠ read overtakenSteps ∧
      ∀ more, KeepsRule OnOpenWriter (overtakenSteps ++ [.drop 0] ++ [.flush 1] ++ more) →
        ∃ n content, 1 ≤ n ∧
          LastActs (CommitsAt .classOutput ⟨"p/A.component"⟩) n content
            (overtakenSteps ++ [.drop 0] ++ [.flush 1] ++ more) ∧
          read (overtakenSteps ++ [.drop 0] ++ [.flush 1] ++ more) =
            some (Text.decodeLenient content) := by
  intro read
  have hsteps : KeepsRule OnOpenWriter overtakenSteps := by decide +kernel
  have hdropped : KeepsRule OnOpenWriter (overtakenSteps ++ [.drop 0]) := by decide +kernel
  obtain ⟨-, hchanges, -⟩ :=
    memoryFiler_reads_last_commit hsteps .classOutput ⟨"p/A.component"⟩
  obtain ⟨-, -, hreplaces⟩ :=
    memoryFiler_reads_last_commit hdropped .classOutput ⟨"p/A.component"⟩
  refine ⟨hsteps, by decide +kernel, ?_, ?_⟩
  · refine mt (hchanges 0 (.drop 0) (by decide +kernel) (by decide +kernel)).1 ?_
    decide +kernel
  · refine hreplaces 1 (.flush 1) (by decide +kernel) (by decide +kernel) ?_
    intro older resource hlt hopen
    obtain rfl : older = 0 := by omega
    exact absurd ⟨resource, hopen⟩ (by decide +kernel : ¬ IsOpen (overtakenSteps ++ [.drop 0]) 0)

/-- It is not so that nothing an older writer does changes what is read once a newer writer of the
resource has committed. -/
theorem not_replaced_by_newer_commit :
    ¬ ∀ (steps before after : List FilerStep) (commit step : FilerStep) (older newer : Nat)
      (location : Location) (path : Path),
      KeepsRule OnOpenWriter (steps ++ [step]) → steps = before ++ commit :: after →
        older < newer → CommitsAt location path before newer commit →
        CommitsAt location path steps older step →
        (memoryFiler.run (steps ++ [step]) .empty).state.read? location path =
          (memoryFiler.run steps .empty).state.read? location path := by
  intro h
  have hsame := h overtakenSteps overtakenSteps.dropLast [] (.flush 1) (.drop 0) 0 1 .classOutput
    ⟨"p/A.component"⟩ (by decide +kernel) rfl (by decide) (by decide +kernel) (by decide +kernel)
  exact absurd hsame (by decide +kernel)

end ComponentMarkers
