import ComponentMarkers.Proofs.Filer.Fates
import ComponentMarkers.Proofs.Path.Order
import Mathlib.Tactic.SplitIfs

/-!
# What is in a store

Resources in memory are found by location and by the components of their path.  Putting a resource
into a store adds this one place to those that have a resource, and writing does no more than that.

A filer that stores by fates is the store with something before it that lets resources fail: what is
finished is written as the store writes it, and what fails never reaches the store.
-/

namespace ComponentMarkers

theorem Location.compare_eq_iff (a b : Location) : a.compare b = .eq ↔ a = b := by
  cases a <;> cases b <;> decide

namespace MemoryStore

/-- There is a resource at a place. -/
def Has (store : MemoryStore) (location : Location) (path : Path) : Prop :=
  ∃ stored ∈ store.paths location, stored.same path

theorem has_iff (store : MemoryStore) (location : Location) (path : Path) :
    store.Has location path ↔
      ∃ resource ∈ store.resources, resource.location = location ∧ resource.path.same path := by
  simp only [Has, paths, resourcesAt, List.mem_map, List.mem_filter, decide_eq_true_eq]
  constructor
  · rintro ⟨stored, ⟨resource, ⟨hmem, hlocation⟩, rfl⟩, hsame⟩
    exact ⟨resource, hmem, hlocation, hsame⟩
  · rintro ⟨resource, hmem, hlocation, hsame⟩
    exact ⟨resource.path, ⟨resource, ⟨hmem, hlocation⟩, rfl⟩, hsame⟩

theorem not_has_empty (location : Location) (path : Path) : ¬ empty.Has location path := by
  rintro ⟨stored, hstored, -⟩
  cases hstored

/-- Putting a resource makes its place one that has a resource, and no other. -/
theorem has_put
    (store : MemoryStore) (location other : Location) (path otherPath : Path)
    (content : List UInt8) :
    (store.put location path content).Has other otherPath ↔
      (location = other ∧ path.same otherPath) ∨ store.Has other otherPath := by
  rw [has_iff, has_iff, put]
  dsimp only
  induction store.resources with
  | nil => simp [storeAmong]
  | cons resource rest ih =>
      rw [storeAmong]
      cases horder : resource.compareTo location path with
      | lt =>
          simp only [List.mem_cons, or_and_right, exists_or, exists_eq_left, ih]
          exact or_left_comm
      | eq =>
          -- The spelling that is kept is one of the same path.
          rw [StoredResource.compareTo, Ordering.then_eq_eq, Location.compare_eq_iff,
            Path.compare_eq_iff] at horder
          obtain ⟨hlocation, hpath⟩ := horder
          have hsame : resource.path.same otherPath ↔ path.same otherPath := by
            simp only [Path.same, decide_eq_true_eq] at hpath ⊢
            rw [hpath]
          simp only [List.mem_cons, or_and_right, exists_or, exists_eq_left, hlocation, hsame,
            or_self_left]
      | gt =>
          simp only [List.mem_cons, or_and_right, exists_or, exists_eq_left]

/-- A resource with a plain name is put when it is flushed and once more when it is closed. -/
theorem writeResource_snd
    {resource : ResourceName} (hname : isPlainName resource.name) (origin : Option ElementId)
    (content : List UInt8) (store : MemoryStore) :
    (memoryFiler.writeResource resource origin content store).2 =
      (store.put resource.location resource.path content).put resource.location resource.path
        content := by
  simp [Filer.writeResource, memoryFiler, hname, MemoryWriter.commit]

/-- Writing a resource with a plain name puts it at its place. -/
theorem has_writeResource
    {resource : ResourceName} (hname : isPlainName resource.name) (origin : Option ElementId)
    (content : List UInt8) (store : MemoryStore) (location : Location) (path : Path) :
    ((memoryFiler.writeResource resource origin content store).2).Has location path ↔
      (resource.location = location ∧ resource.path.same path) ∨ store.Has location path := by
  rw [writeResource_snd hname, has_put, has_put, or_self_left]

/-- What a store holds after a resource was put into it has the content it had or the new one. -/
theorem mem_resources_put
    {store : MemoryStore} {location : Location} {path : Path} {content : List UInt8}
    {stored : StoredResource} (h : stored ∈ (store.put location path content).resources) :
    stored.content = content ∨ stored ∈ store.resources := by
  rw [put] at h
  dsimp only at h
  generalize store.resources = resources at h ⊢
  induction resources with
  | nil =>
      obtain rfl := List.mem_singleton.1 h
      exact Or.inl rfl
  | cons resource rest ih =>
      rw [storeAmong] at h
      cases horder : resource.compareTo location path with
      | lt =>
          rw [horder] at h
          rcases List.mem_cons.1 h with rfl | h
          · exact Or.inr List.mem_cons_self
          · exact (ih h).imp_right (List.mem_cons_of_mem _)
      | eq =>
          rw [horder] at h
          rcases List.mem_cons.1 h with rfl | h
          · exact Or.inl rfl
          · exact Or.inr (List.mem_cons_of_mem _ h)
      | gt =>
          rw [horder] at h
          rcases List.mem_cons.1 h with rfl | h
          · exact Or.inl rfl
          · exact Or.inr h

theorem mem_resources_writeResource
    {resource : ResourceName} (hname : isPlainName resource.name) {origin : Option ElementId}
    {content : List UInt8} {store : MemoryStore} {stored : StoredResource}
    (h : stored ∈ (memoryFiler.writeResource resource origin content store).2.resources) :
    stored.content = content ∨ stored ∈ store.resources := by
  rw [writeResource_snd hname] at h
  rcases mem_resources_put h with hcontent | h
  · exact Or.inl hcontent
  · exact mem_resources_put h

end MemoryStore

namespace Filer

variable {ω : Type}

/-- What its fates let finish is written as the store writes it; else the store is left alone. -/
structure StoresBy (filer : Filer MemoryStore ω) (fates : ResourceName → ResourceFate) : Prop where
  decidedBy : filer.DecidedBy fates
  plain_of_finished : ∀ resource, fates resource = .finished → isPlainName resource.name
  writeResource_of_finished : ∀ resource origin content store, fates resource = .finished →
    (filer.writeResource resource origin content store).2 =
      (memoryFiler.writeResource resource origin content store).2
  writeResource_of_failed : ∀ resource origin content store, fates resource ≠ .finished →
    (filer.writeResource resource origin content store).2 = store

theorem memoryFiler_storesBy : memoryFiler.StoresBy memoryFates := by
  have hplain : ∀ resource, memoryFates resource = .finished ↔ isPlainName resource.name := by
    intro resource
    rw [memoryFates]
    split <;> simp_all
  refine ⟨memoryFiler_decidedBy, fun resource => (hplain resource).1, fun _ _ _ _ _ => rfl, ?_⟩
  intro resource origin content store hfailed
  have hcreate : memoryFiler.create resource origin store =
      (.error (.invalidName resource.name), store) :=
    if_neg (mt (hplain resource).2 hfailed)
  rw [(writeResource_of_create_error content hcreate).1]

/-- Behind a guard with arbitrary lists of names a store is written to in the same way. -/
theorem StoresBy.guardedFiler
    {filer : Filer MemoryStore ω} {fates : ResourceName → ResourceFate} (h : filer.StoresBy fates)
    (guard : FilerGuard) : (guardedFiler guard filer).StoresBy (guardedFates guard fates) := by
  refine ⟨h.decidedBy.guardedFiler guard, ?_, ?_, ?_⟩
  · intro resource hfinished
    rw [guardedFates] at hfinished
    split_ifs at hfinished
    exact h.plain_of_finished resource hfinished
  · intro resource origin content store hfinished
    rw [guardedFates] at hfinished
    rw [writeResource_guardedFiler]
    split_ifs at hfinished ⊢
    exact h.writeResource_of_finished resource origin content store hfinished
  · intro resource origin content store hfailed
    rw [guardedFates] at hfailed
    rw [writeResource_guardedFiler]
    split_ifs at hfailed ⊢
    · rfl
    · rfl
    · rfl
    · exact h.writeResource_of_failed resource origin content store hfailed

section Stored

variable {filer : Filer MemoryStore ω} {fates : ResourceName → ResourceFate}

/-- A place is taken after the writing of a resource when it was before, or when it is that of the
resource and the resource is finished. -/
theorem StoresBy.has_writeResource
    (h : filer.StoresBy fates) (resource : ResourceName) (origin : Option ElementId)
    (content : List UInt8) (store : MemoryStore) (location : Location) (path : Path) :
    ((filer.writeResource resource origin content store).2).Has location path ↔
      (fates resource = .finished ∧ resource.location = location ∧ resource.path.same path) ∨
        store.Has location path := by
  by_cases hfate : fates resource = .finished
  · rw [h.writeResource_of_finished resource origin content store hfate,
      MemoryStore.has_writeResource (h.plain_of_finished resource hfate)]
    simp only [hfate, true_and]
  · rw [h.writeResource_of_failed resource origin content store hfate]
    simp only [hfate, false_and, false_or]

theorem StoresBy.mem_resources_writeResource
    (h : filer.StoresBy fates) {resource : ResourceName} {origin : Option ElementId}
    {content : List UInt8} {store : MemoryStore} {stored : StoredResource}
    (hstored : stored ∈ (filer.writeResource resource origin content store).2.resources) :
    stored.content = content ∨ stored ∈ store.resources := by
  by_cases hfate : fates resource = .finished
  · rw [h.writeResource_of_finished resource origin content store hfate] at hstored
    exact MemoryStore.mem_resources_writeResource (h.plain_of_finished resource hfate) hstored
  · rw [h.writeResource_of_failed resource origin content store hfate] at hstored
    exact Or.inr hstored

end Stored

end Filer

end ComponentMarkers
