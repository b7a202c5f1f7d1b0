import ComponentMarkers.Filer
import ComponentMarkers.Proofs.Lists
import Mathlib.Data.List.Induction
import Mathlib.Tactic.SplitIfs

/-!
# Runs of a filer

In a run resources are created, written, flushed and dropped in any order, with any number of writers
open at a time.  Writers go by the number of their creation, a refused creation having a number as well.
What a run has done to a writer is told by the operations alone: which resource it is for, what it was
given, and whether it is still open.
-/

namespace ComponentMarkers

/-- An operation on a filer. -/
inductive FilerStep where
  | create (resource : ResourceName) (origin : Option ElementId)
  | write (writer : Nat) (bytes : List UInt8)
  | flush (writer : Nat)
  | drop (writer : Nat)
  deriving DecidableEq, Repr

/-- Where a run has come to: the state of the filer, the writers by number, those that are open, and the
answers to the operations. -/
structure FilerRun (σ ω : Type) where
  state : σ
  writers : List (Option ω)
  answers : List (Except IoError Unit)

namespace FilerRun

variable {σ ω : Type}

/-- The run before its first operation. -/
def start (state : σ) : FilerRun σ ω :=
  ⟨state, [], []⟩

/-- The open writer of a number. -/
def writer? (run : FilerRun σ ω) (n : Nat) : Option ω :=
  run.writers[n]?.join

/-- Takes the outcome of a creation in. -/
def created (run : FilerRun σ ω) (outcome : Except IoError ω × σ) : FilerRun σ ω :=
  match outcome with
  | (.ok writer, state) => ⟨state, run.writers ++ [some writer], run.answers ++ [.ok ()]⟩
  | (.error fault, state) => ⟨state, run.writers ++ [none], run.answers ++ [.error fault]⟩

/-- Does something with an open writer; nothing happens to one that is not open. -/
def used (run : FilerRun σ ω) (n : Nat) (use : ω → (Except IoError Unit × Option ω) × σ) :
    FilerRun σ ω :=
  match run.writer? n with
  | none => run
  | some writer =>
    let ((answer, writer), state) := use writer
    ⟨state, run.writers.set n writer, run.answers ++ [answer]⟩

/-- Goes on by one operation. -/
def step (filer : Filer σ ω) (run : FilerRun σ ω) : FilerStep → FilerRun σ ω
  | .create resource origin => run.created (filer.create resource origin run.state)
  | .write n bytes => run.used n fun writer =>
    let ((answer, writer), state) := filer.write writer bytes run.state
    ((answer, some writer), state)
  | .flush n => run.used n fun writer =>
    let ((answer, writer), state) := filer.flush writer run.state
    ((answer, some writer), state)
  | .drop n => run.used n fun writer => ((.ok (), none), filer.close writer run.state)

end FilerRun

/-- Where a filer comes to when some operations are done one after the other. -/
def Filer.run {σ ω : Type} (filer : Filer σ ω) (steps : List FilerStep) (state : σ) :
    FilerRun σ ω :=
  steps.foldl (FilerRun.step filer) (.start state)

theorem Filer.run_concat
    {σ ω : Type} (filer : Filer σ ω) (steps : List FilerStep) (step : FilerStep) (state : σ) :
    filer.run (steps ++ [step]) state = (filer.run steps state).step filer step := by
  rw [Filer.run, Filer.run, List.foldl_append]
  rfl

namespace FilerRun

section Writers

variable {σ ω : Type} {run : FilerRun σ ω}

theorem length_created (outcome : Except IoError ω × σ) :
    (run.created outcome).writers.length = run.writers.length + 1 := by
  obtain ⟨fault | writer, state⟩ := outcome <;> simp [created]

theorem state_created (outcome : Except IoError ω × σ) :
    (run.created outcome).state = outcome.2 := by
  obtain ⟨fault | writer, state⟩ := outcome <;> rfl

theorem answers_created (outcome : Except IoError ω × σ) :
    (run.created outcome).answers = run.answers ++ [outcome.1.map fun _ => ()] := by
  obtain ⟨fault | writer, state⟩ := outcome <;> rfl

/-- The next number is that of the writer that was created. -/
theorem writer?_created (outcome : Except IoError ω × σ) (n : Nat) :
    (run.created outcome).writer? n =
      if n = run.writers.length then outcome.1.toOption else run.writer? n := by
  have hwriters : (run.created outcome).writers = run.writers ++ [outcome.1.toOption] := by
    obtain ⟨fault | writer, state⟩ := outcome <;> rfl
  rw [writer?, hwriters, List.getElem?_append, writer?]
  split_ifs with hlt heq heq
  · omega
  · rfl
  · rw [heq, Nat.sub_self]
    rfl
  · rw [List.getElem?_eq_none (by simp; omega), List.getElem?_eq_none (by omega)]

theorem lt_length_of_writer? {n : Nat} {writer : ω} (h : run.writer? n = some writer) :
    n < run.writers.length := by
  by_contra hlt
  rw [writer?, List.getElem?_eq_none (Nat.not_lt.1 hlt)] at h
  cases h

variable {n : Nat} {writer : ω} (h : run.writer? n = some writer)
  (use : ω → (Except IoError Unit × Option ω) × σ)

include h

theorem used_eq :
    run.used n use = ⟨(use writer).2, run.writers.set n (use writer).1.2,
      run.answers ++ [(use writer).1.1]⟩ := by
  rw [used, h]

theorem writer?_used (m : Nat) :
    (run.used n use).writer? m = if m = n then (use writer).1.2 else run.writer? m := by
  rw [used_eq h, writer?, List.getElem?_set]
  by_cases hm : m = n
  · rw [if_pos hm, if_pos hm.symm, if_pos (lt_length_of_writer? h)]
    rfl
  · rw [if_neg hm, if_neg (Ne.symm hm), writer?]

end Writers

end FilerRun

namespace FilerStep

/-- The resource that an operation creates. -/
def created? : FilerStep → Option ResourceName
  | create resource _ => some resource
  | _ => none

/-- The writer that an operation is on. -/
def used? : FilerStep → Option Nat
  | create _ _ => none
  | write n _ => some n
  | flush n => some n
  | drop n => some n

/-- The writer whose content an operation is to bring to its resource. -/
def committed? : FilerStep → Option Nat
  | flush n => some n
  | drop n => some n
  | _ => none

/-- What an operation gives to a writer. -/
def givenTo (n : Nat) : FilerStep → List UInt8
  | write m bytes => if m = n then bytes else []
  | _ => []

/-- The answer when nothing fails but the creation of a resource whose name is not plain. -/
def answer : FilerStep → Except IoError Unit
  | create resource _ =>
    if isPlainName resource.name then .ok () else .error (.invalidName resource.name)
  | _ => .ok ()

theorem givenTo_of_used? {step : FilerStep} {n m : Nat} (h : step.used? = some n) (hne : m ≠ n) :
    step.givenTo m = [] := by
  cases step with
  | write k bytes =>
      obtain rfl := Option.some.inj h
      exact if_neg (Ne.symm hne)
  | create => rfl
  | flush => rfl
  | drop => rfl

theorem created?_of_used? {step : FilerStep} {n : Nat} (h : step.used? = some n) :
    step.created? = none := by
  cases step with
  | create => cases h
  | write => rfl
  | flush => rfl
  | drop => rfl

theorem answer_of_used? {step : FilerStep} {n : Nat} (h : step.used? = some n) :
    step.answer = .ok () := by
  cases step with
  | create => cases h
  | write => rfl
  | flush => rfl
  | drop => rfl

end FilerStep

/-- The resources that a run creates, by number. -/
def creations (steps : List FilerStep) : List ResourceName :=
  steps.filterMap FilerStep.created?

/-- What a run gives to a writer altogether. -/
def written (steps : List FilerStep) (n : Nat) : List UInt8 :=
  steps.flatMap (FilerStep.givenTo n)

/-- A writer was created for the resource, its name being plain, and was not dropped. -/
structure IsOpenFor (steps : List FilerStep) (n : Nat) (resource : ResourceName) : Prop where
  created : (creations steps)[n]? = some resource
  plain : isPlainName resource.name
  not_dropped : .drop n ∉ steps

/-- The writer of a number is open. -/
def IsOpen (steps : List FilerStep) (n : Nat) : Prop :=
  ∃ resource, IsOpenFor steps n resource

/-- Each operation keeps a rule, which may depend on the operations before it. -/
def KeepsRule (rule : List FilerStep → FilerStep → Prop) (steps : List FilerStep) : Prop :=
  ∀ i, (h : i < steps.length) → rule (steps.take i) steps[i]

/-- An operation that is on a writer is on an open one. -/
def OnOpenWriter (before : List FilerStep) (step : FilerStep) : Prop :=
  ∀ n ∈ step.used?, IsOpen before n

instance (steps : List FilerStep) (n : Nat) (resource : ResourceName) :
    Decidable (IsOpenFor steps n resource) :=
  decidable_of_iff
    ((creations steps)[n]? = some resource ∧ isPlainName resource.name ∧ .drop n ∉ steps)
    ⟨fun h => ⟨h.1, h.2.1, h.2.2⟩, fun h => ⟨h.created, h.plain, h.not_dropped⟩⟩

instance (steps : List FilerStep) (n : Nat) : Decidable (IsOpen steps n) :=
  decidable_of_iff (∃ resource ∈ (creations steps)[n]?, IsOpenFor steps n resource)
    ⟨fun ⟨resource, _, h⟩ => ⟨resource, h⟩, fun ⟨resource, h⟩ => ⟨resource, h.created, h⟩⟩

instance (before : List FilerStep) (step : FilerStep) : Decidable (OnOpenWriter before step) :=
  inferInstanceAs (Decidable (∀ n ∈ step.used?, IsOpen before n))

instance (rule : List FilerStep → FilerStep → Prop) [∀ before step, Decidable (rule before step)]
    (steps : List FilerStep) : Decidable (KeepsRule rule steps) :=
  inferInstanceAs (Decidable (∀ i, (h : i < steps.length) → rule (steps.take i) steps[i]))

section History

variable {rule : List FilerStep → FilerStep → Prop} {steps : List FilerStep} {step : FilerStep}

theorem keepsRule_concat_iff :
    KeepsRule rule (steps ++ [step]) ↔ KeepsRule rule steps ∧ rule steps step := by
  constructor
  · intro h
    refine ⟨fun i hi => ?_, ?_⟩
    · have hrule := h i (by simp; omega)
      rwa [List.getElem_append_left hi, List.take_append_of_le_length (Nat.le_of_lt hi)] at hrule
    · have hrule := h steps.length (by simp)
      rwa [List.getElem_concat_length rfl, List.take_left' rfl] at hrule
  · rintro ⟨h, hlast⟩ i hi
    rw [List.length_append, List.length_singleton, Nat.lt_succ_iff_lt_or_eq] at hi
    rcases hi with hi | rfl
    · rw [List.getElem_append_left hi, List.take_append_of_le_length (Nat.le_of_lt hi)]
      exact h i hi
    · rwa [List.getElem_concat_length rfl, List.take_left' rfl]

theorem KeepsRule.of_append {more : List FilerStep} (h : KeepsRule rule (steps ++ more)) :
    KeepsRule rule steps := by
  induction more using List.reverseRecOn with
  | nil => rwa [List.append_nil] at h
  | append_singleton more step ih =>
      rw [← List.append_assoc, keepsRule_concat_iff] at h
      exact ih h.1

theorem KeepsRule.imp
    {other : List FilerStep → FilerStep → Prop} (h : KeepsRule rule steps)
    (hrule : ∀ before step, rule before step → other before step) : KeepsRule other steps :=
  fun i hi => hrule _ _ (h i hi)

theorem creations_concat (steps : List FilerStep) (step : FilerStep) :
    creations (steps ++ [step]) = creations steps ++ step.created?.toList := by
  rw [creations, creations, List.filterMap_append, List.filterMap_cons]
  cases step.created? <;> rfl

/-- Creations keep their numbers. -/
theorem creations_prefix_append (steps more : List FilerStep) :
    creations steps <+: creations (steps ++ more) := by
  rw [creations, creations, List.filterMap_append]
  exact List.prefix_append _ _

theorem creations_getElem?_of_append
    {n : Nat} {more : List FilerStep} {resource : ResourceName}
    (h : (creations steps)[n]? = some resource) :
    (creations (steps ++ more))[n]? = some resource := by
  obtain ⟨rest, hrest⟩ := creations_prefix_append steps more
  rw [← hrest, List.getElem?_append_left (List.getElem?_eq_some_iff.1 h).1, h]

theorem written_concat (steps : List FilerStep) (step : FilerStep) (n : Nat) :
    written (steps ++ [step]) n = written steps n ++ step.givenTo n := by
  rw [written, written, List.flatMap_append, List.flatMap_singleton]

theorem IsOpenFor.lt_length {n : Nat} {resource : ResourceName} (h : IsOpenFor steps n resource) :
    n < (creations steps).length :=
  (List.getElem?_eq_some_iff.1 h.created).1

theorem IsOpenFor.unique
    {n : Nat} {resource other : ResourceName} (h : IsOpenFor steps n resource)
    (hother : IsOpenFor steps n other) : resource = other :=
  Option.some.inj (h.created.symm.trans hother.created)

/-- Only writers that were created are used. -/
theorem KeepsRule.lt_length_of_used?
    (h : KeepsRule OnOpenWriter steps) {used : FilerStep} (hused : used ∈ steps) {n : Nat}
    (hn : used.used? = some n) : n < (creations steps).length := by
  induction steps using List.reverseRecOn with
  | nil => cases hused
  | append_singleton steps last ih =>
      rw [keepsRule_concat_iff] at h
      refine Nat.lt_of_lt_of_le ?_ (creations_prefix_append steps [last]).length_le
      rcases List.mem_append.1 hused with hused | hused
      · exact ih h.1 hused
      · obtain rfl := List.mem_singleton.1 hused
        obtain ⟨resource, hopen⟩ := h.2 n hn
        exact hopen.lt_length

/-- The writer that is created next was given nothing. -/
theorem KeepsRule.written_length_eq_nil (h : KeepsRule OnOpenWriter steps) :
    written steps (creations steps).length = [] := by
  rw [written, List.flatMap_eq_nil_iff]
  intro step hstep
  cases step with
  | write n bytes =>
      have hlt := h.lt_length_of_used? hstep (n := n) rfl
      rw [FilerStep.givenTo, if_neg (Nat.ne_of_lt hlt)]
  | create => rfl
  | flush => rfl
  | drop => rfl

end History

/-- Of the operations that act in some way the last one was on this writer, which had been given this
content by then. -/
inductive LastActs (acts : List FilerStep → Nat → FilerStep → Prop) (n : Nat)
    (content : List UInt8) : List FilerStep → Prop where
  | last {before : List FilerStep} {step : FilerStep} (hstep : acts before n step)
      (hcontent : written before n = content) : LastActs acts n content (before ++ [step])
  | keeps {before : List FilerStep} {step : FilerStep} (h : LastActs acts n content before)
      (hstep : ∀ m, ¬ acts before m step) : LastActs acts n content (before ++ [step])

section Last

variable {acts : List FilerStep → Nat → FilerStep → Prop} {steps : List FilerStep}
  {step : FilerStep} {n : Nat} {content : List UInt8}

theorem not_lastActs_nil : ¬ LastActs acts n content [] := by
  intro h
  generalize hsteps : [] = steps at h
  cases h with
  | last => simp at hsteps
  | keeps => simp at hsteps

theorem lastActs_concat_iff :
    LastActs acts n content (steps ++ [step]) ↔
      (acts steps n step ∧ written steps n = content) ∨
        (LastActs acts n content steps ∧ ∀ m, ¬ acts steps m step) := by
  constructor
  · intro h
    generalize hsteps : steps ++ [step] = all at h
    cases h with
    | last hstep hcontent =>
        obtain ⟨rfl, hlast⟩ := List.append_inj' hsteps rfl
        obtain rfl := List.singleton_inj.1 hlast
        exact Or.inl ⟨hstep, hcontent⟩
    | keeps h hstep =>
        obtain ⟨rfl, hlast⟩ := List.append_inj' hsteps rfl
        obtain rfl := List.singleton_inj.1 hlast
        exact Or.inr ⟨h, hstep⟩
  · rintro (⟨hstep, hcontent⟩ | ⟨h, hstep⟩)
    · exact .last hstep hcontent
    · exact .keeps h hstep

end Last

section Opening

variable {steps : List FilerStep} {n : Nat} {resource : ResourceName}

/-- An open writer is so until it is dropped. -/
theorem IsOpenFor.concat
    (h : IsOpenFor steps n resource) {step : FilerStep} (hstep : step ≠ .drop n) :
    IsOpenFor (steps ++ [step]) n resource := by
  refine ⟨creations_getElem?_of_append h.created, h.plain, fun hmem => ?_⟩
  rcases List.mem_append.1 hmem with hmem | hmem
  · exact h.not_dropped hmem
  · exact hstep (List.mem_singleton.1 hmem).symm

theorem isOpenFor_create_iff
    (h : KeepsRule OnOpenWriter steps) (created : ResourceName) (origin : Option ElementId) :
    IsOpenFor (steps ++ [.create created origin]) n resource ↔
      (n = (creations steps).length ∧ resource = created ∧ isPlainName created.name) ∨
        IsOpenFor steps n resource := by
  have hcreations : creations (steps ++ [.create created origin]) = creations steps ++ [created] :=
    creations_concat _ _
  constructor
  · rintro ⟨hcreated, hplain, hdrop⟩
    rw [hcreations, getElem?_concat_eq_some_iff] at hcreated
    rcases hcreated with hcreated | ⟨rfl, rfl⟩
    · exact Or.inr ⟨hcreated, hplain, fun hmem => hdrop (List.mem_append_left _ hmem)⟩
    · exact Or.inl ⟨rfl, rfl, hplain⟩
  · rintro (⟨rfl, rfl, hplain⟩ | hopen)
    · refine ⟨by rw [hcreations, List.getElem?_concat_length], hplain, fun hmem => ?_⟩
      rcases List.mem_append.1 hmem with hmem | hmem
      · exact absurd (h.lt_length_of_used? hmem rfl) (Nat.lt_irrefl _)
      · cases List.mem_singleton.1 hmem
    · exact hopen.concat (by simp)

/-- An operation on a writer opens none and closes it if it drops it. -/
theorem isOpenFor_concat_iff_of_used?
    {step : FilerStep} {m : Nat} (hstep : step.used? = some m) :
    IsOpenFor (steps ++ [step]) n resource ↔
      IsOpenFor steps n resource ∧ step ≠ .drop n := by
  have hcreations : creations (steps ++ [step]) = creations steps := by
    rw [creations_concat, FilerStep.created?_of_used? hstep, Option.toList_none, List.append_nil]
  constructor
  · rintro ⟨hcreated, hplain, hdrop⟩
    rw [hcreations] at hcreated
    exact ⟨⟨hcreated, hplain, fun hmem => hdrop (List.mem_append_left _ hmem)⟩,
      fun heq => hdrop (List.mem_append_right _ (List.mem_singleton.2 heq.symm))⟩
  · exact fun ⟨hopen, hne⟩ => hopen.concat hne

/-- A writer that is open after more operations and was created before them was open before. -/
theorem IsOpenFor.of_append
    {more : List FilerStep} (h : IsOpenFor (steps ++ more) n resource)
    (hn : n < (creations steps).length) : IsOpenFor steps n resource := by
  refine ⟨?_, h.plain, fun hmem => h.not_dropped (List.mem_append_left _ hmem)⟩
  obtain ⟨rest, hrest⟩ := creations_prefix_append steps more
  rw [← h.created, ← hrest, List.getElem?_append_left hn]

end Opening

/-- A run has a writer for each number that is open, and nothing has failed in it but the creation of
resources whose names are not plain. -/
structure FilerRun.Follows {σ ω : Type} (run : FilerRun σ ω) (steps : List FilerStep) : Prop where
  length_eq : run.writers.length = (creations steps).length
  isSome_iff : ∀ n, (run.writer? n).isSome ↔ IsOpen steps n
  answers_eq : run.answers = steps.map FilerStep.answer

namespace FilerRun.Follows

variable {σ ω : Type} {run : FilerRun σ ω} {steps : List FilerStep}

theorem start (state : σ) : (FilerRun.start state : FilerRun σ ω).Follows [] := by
  refine ⟨rfl, fun n => ⟨fun hsome => ?_, ?_⟩, rfl⟩
  · cases hsome
  · rintro ⟨resource, hopen⟩
    cases hopen.created

theorem created
    (h : run.Follows steps) (hsteps : KeepsRule OnOpenWriter steps) {resource : ResourceName}
    (origin : Option ElementId) {outcome : Except IoError ω × σ}
    (houtcome : (outcome.1.map fun _ => ()) = FilerStep.answer (.create resource origin)) :
    (run.created outcome).Follows (steps ++ [.create resource origin]) := by
  refine ⟨?_, fun n => ?_, ?_⟩
  · rw [length_created, h.length_eq, creations_concat, List.length_append]
    rfl
  · have hopened : outcome.1.toOption.isSome ↔ isPlainName resource.name := by
      rw [FilerStep.answer] at houtcome
      obtain ⟨fault | writer, state⟩ := outcome
      · split_ifs at houtcome with hplain
        · cases houtcome
        · simp [Except.toOption, hplain]
      · split_ifs at houtcome with hplain
        · simp [Except.toOption, hplain]
        · cases houtcome
    rw [writer?_created, h.length_eq]
    simp only [IsOpen, isOpenFor_create_iff hsteps, exists_or]
    split_ifs with hn
    · rw [hopened]
      constructor
      · exact fun hplain => Or.inl ⟨resource, hn, rfl, hplain⟩
      · rintro (⟨found, -, -, hplain⟩ | ⟨found, hopen⟩)
        · exact hplain
        · exact absurd hopen.lt_length (by omega)
    · rw [h.isSome_iff]
      constructor
      · exact Or.inr
      · rintro (⟨found, hlast, -⟩ | hopen)
        · exact absurd hlast hn
        · exact hopen
  · rw [answers_created, h.answers_eq, List.map_append, houtcome]
    rfl

theorem used
    (h : run.Follows steps) {step : FilerStep} {n : Nat} (hstep : step.used? = some n)
    (hopen : IsOpen steps n) {use : ω → (Except IoError Unit × Option ω) × σ}
    (hanswer : ∀ writer, (use writer).1.1 = .ok ())
    (hwriter : ∀ writer, (use writer).1.2.isSome ↔ step ≠ .drop n) :
    (run.used n use).Follows (steps ++ [step]) := by
  obtain ⟨writer, hn⟩ := Option.isSome_iff_exists.1 ((h.isSome_iff n).2 hopen)
  refine ⟨?_, fun m => ?_, ?_⟩
  · rw [used_eq hn, List.length_set, h.length_eq, creations_concat,
      FilerStep.created?_of_used? hstep, Option.toList_none, List.append_nil]
  · rw [writer?_used hn]
    simp only [IsOpen, isOpenFor_concat_iff_of_used? hstep, exists_and_right]
    split_ifs with hm
    · rw [hwriter, hm]
      exact (and_iff_right hopen).symm
    · have hdrop : step ≠ .drop m := by
        rintro rfl
        exact hm (Option.some.inj hstep)
      rw [h.isSome_iff, and_iff_left hdrop]
      rfl
  · rw [used_eq hn, h.answers_eq, List.map_append, List.map_singleton, hanswer,
      FilerStep.answer_of_used? hstep]

end FilerRun.Follows

end ComponentMarkers
