import ComponentMarkers.Messager

/-!
# What messagers leave in the records

A record is read by its number.  Entering a diagnostic in one record leaves the others alone, and a
messager that hands everything to two records adds the same diagnostics to both.
-/

namespace ComponentMarkers

namespace Records

/-- There is a record with the number. -/
def Has (records : Records) (number : Nat) : Prop :=
  number < records.entries.size

section Operations

variable (records : Records) (number : Nat) (diagnostic : Diagnostic) (other : Nat)

theorem has_add : (records.add number diagnostic).Has other ↔ records.Has other := by
  simp only [Has, add, Array.size_modify]

theorem has_clear : (records.clear number).Has other ↔ records.Has other := by
  simp only [Has, clear, Array.size_modify]

theorem diagnostics_add_self (h : records.Has number) :
    (records.add number diagnostic).diagnostics number =
      records.diagnostics number ++ [diagnostic] := by
  rw [Has] at h
  simp only [diagnostics, add, Array.getElem?_modify, if_true, Array.getElem?_eq_getElem h,
    Option.map_some, Option.getD_some]

theorem diagnostics_add_of_ne (h : number ≠ other) :
    (records.add number diagnostic).diagnostics other = records.diagnostics other := by
  simp only [diagnostics, add, Array.getElem?_modify, if_neg h]

theorem diagnostics_clear_self : (records.clear number).diagnostics number = [] := by
  simp only [diagnostics, clear, Array.getElem?_modify, if_true]
  cases records.entries[number]? <;> rfl

theorem diagnostics_clear_of_ne (h : number ≠ other) :
    (records.clear number).diagnostics other = records.diagnostics other := by
  simp only [diagnostics, clear, Array.getElem?_modify, if_neg h]

/-- Opening a record changes nothing that can be read, since the new record is empty. -/
theorem diagnostics_openNew : records.openNew.1.diagnostics other = records.diagnostics other := by
  rw [diagnostics, diagnostics, openNew]
  by_cases h : other = records.entries.size
  · subst h
    simp
  · rw [Array.getElem?_push, if_neg h]

end Operations

end Records

namespace Messager

/-- Printing neither opens nor closes records. -/
theorem has_print
    (messager : Messager) (diagnostic : Diagnostic) (state : Records × List LogEvent) (number : Nat) :
    (messager.print diagnostic state).1.Has number ↔ state.1.Has number := by
  induction messager generalizing state with
  | record other => exact Records.has_add _ _ _ _
  | log => exact Iff.rfl
  | tee first second ihFirst ihSecond => exact (ihSecond _).trans (ihFirst _)

/-- Two records behind one messager gain the same diagnostics, and nothing else changes. -/
theorem printAll_tee_record
    {first second : Nat} (hne : first ≠ second) (diagnostics : List Diagnostic)
    {records : Records} (hfirst : records.Has first) (hsecond : records.Has second)
    (log : List LogEvent) :
    ∃ after, (tee (record first) (record second)).printAll diagnostics (records, log) =
        (after, log) ∧
      (∀ number, after.Has number ↔ records.Has number) ∧
      after.diagnostics first = records.diagnostics first ++ diagnostics ∧
      after.diagnostics second = records.diagnostics second ++ diagnostics ∧
      ∀ number, number ≠ first → number ≠ second →
        after.diagnostics number = records.diagnostics number := by
  induction diagnostics generalizing records with
  | nil =>
      refine ⟨records, rfl, fun _ => Iff.rfl, ?_, ?_, fun _ _ _ => rfl⟩
      · rw [List.append_nil]
      · rw [List.append_nil]
  | cons diagnostic rest ih =>
      have hsame : ∀ number,
          ((records.add first diagnostic).add second diagnostic).Has number ↔
            records.Has number := by
        intro number
        rw [Records.has_add, Records.has_add]
      obtain ⟨after, hprint, hhas, hafterFirst, hafterSecond, hafter⟩ :=
        ih ((hsame first).2 hfirst) ((hsame second).2 hsecond)
      refine ⟨after, hprint, fun number => (hhas number).trans (hsame number), ?_, ?_, ?_⟩
      · rw [hafterFirst, Records.diagnostics_add_of_ne _ _ _ _ hne.symm,
          Records.diagnostics_add_self _ _ _ hfirst, List.append_assoc, List.singleton_append]
      · rw [hafterSecond,
          Records.diagnostics_add_self _ _ _ ((Records.has_add _ _ _ _).2 hsecond),
          Records.diagnostics_add_of_ne _ _ _ _ hne, List.append_assoc, List.singleton_append]
      · intro number hnumberFirst hnumberSecond
        rw [hafter number hnumberFirst hnumberSecond,
          Records.diagnostics_add_of_ne _ _ _ _ hnumberSecond.symm,
          Records.diagnostics_add_of_ne _ _ _ _ hnumberFirst.symm]

/-- The messager enters nothing in the record with the number. -/
def Spares (number : Nat) : Messager → Prop
  | record other => other ≠ number
  | log => True
  | tee first second => first.Spares number ∧ second.Spares number

theorem Spares.print
    {messager : Messager} {number : Nat} (h : messager.Spares number) (diagnostic : Diagnostic)
    (state : Records × List LogEvent) :
    (messager.print diagnostic state).1.diagnostics number = state.1.diagnostics number := by
  induction messager generalizing state with
  | record other => exact Records.diagnostics_add_of_ne _ _ _ _ h
  | log => rfl
  | tee first second ihFirst ihSecond => exact (ihSecond h.2 _).trans (ihFirst h.1 _)

/-- A record behind a messager that enters nothing in it gains all diagnostics once. -/
theorem Spares.printAll_tee
    {messager : Messager} {number : Nat} (h : messager.Spares number)
    (diagnostics : List Diagnostic) {records : Records} (hnumber : records.Has number)
    (events : List LogEvent) :
    ((tee messager (record number)).printAll diagnostics (records, events)).1.diagnostics number =
      records.diagnostics number ++ diagnostics := by
  induction diagnostics generalizing records events with
  | nil => exact (List.append_nil _).symm
  | cons diagnostic rest ih =>
      have hhas := (messager.has_print diagnostic (records, events) number).2 hnumber
      rw [printAll, List.foldl_cons]
      refine (ih ((Records.has_add _ _ _ _).2 hhas) _).trans ?_
      rw [Records.diagnostics_add_self _ _ _ hhas, h.print, List.append_assoc,
        List.singleton_append]

end Messager

end ComponentMarkers
