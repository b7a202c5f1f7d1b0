import ComponentMarkers.Proofs.Session.Records
import Mathlib.Data.List.Induction
import Mathlib.Data.List.Nodup
import Mathlib.Tactic.SplitIfs

/-!
# Networks of messagers

Messagers that keep records or forward to the log are made, cloned and joined by tees in any order, and
meanwhile diagnostics are printed on any of them and taken out of any record.  A messager enters a
diagnostic in a record once for every way that leads from it to the record through tees.  Nothing that is
entered gets lost: it is still in the record or somebody took it out, and in the order in which it was
printed.
-/

namespace ComponentMarkers

/-! ## Ways through tees -/

/-- A side of a tee. -/
inductive Side where
  | first
  | second
  deriving DecidableEq, Repr

namespace Messager

/-- The way by these sides of tees leads from a messager to the record with a number. -/
inductive LeadsTo (number : Nat) : Messager → List Side → Prop where
  | record : LeadsTo number (record number) []
  | first {first second : Messager} {way : List Side} (h : LeadsTo number first way) :
      LeadsTo number (tee first second) (.first :: way)
  | second {first second : Messager} {way : List Side} (h : LeadsTo number second way) :
      LeadsTo number (tee first second) (.second :: way)

/-- All ways from a messager to the record with a number. -/
def waysTo (number : Nat) : Messager → List (List Side)
  | record other => if other = number then [[]] else []
  | log => []
  | tee first second =>
    (first.waysTo number).map (.first :: ·) ++ (second.waysTo number).map (.second :: ·)

theorem mem_waysTo_iff (number : Nat) (messager : Messager) (way : List Side) :
    way ∈ messager.waysTo number ↔ messager.LeadsTo number way := by
  induction messager generalizing way with
  | record other =>
      constructor
      · intro h
        rw [waysTo] at h
        split_ifs at h with hnumber
        · rw [List.mem_singleton.1 h, hnumber]
          exact .record
        · exact absurd h List.not_mem_nil
      · rintro ⟨⟩
        simp [waysTo]
  | log =>
      refine ⟨fun h => absurd h List.not_mem_nil, ?_⟩
      rintro ⟨⟩
  | tee first second ihFirst ihSecond =>
      rw [waysTo, List.mem_append, List.mem_map, List.mem_map]
      constructor
      · rintro (⟨rest, hrest, rfl⟩ | ⟨rest, hrest, rfl⟩)
        · exact .first ((ihFirst rest).1 hrest)
        · exact .second ((ihSecond rest).1 hrest)
      · rintro (_ | h | h)
        · exact Or.inl ⟨_, (ihFirst _).2 h, rfl⟩
        · exact Or.inr ⟨_, (ihSecond _).2 h, rfl⟩

/-- No way is listed twice. -/
theorem nodup_waysTo (number : Nat) (messager : Messager) : (messager.waysTo number).Nodup := by
  induction messager with
  | record other =>
      rw [waysTo]
      split_ifs
      · simp
      · simp
  | log => exact List.nodup_nil
  | tee first second ihFirst ihSecond =>
      rw [waysTo, List.nodup_append]
      refine ⟨List.Nodup.map List.cons_injective ihFirst, List.Nodup.map List.cons_injective ihSecond, ?_⟩
      intro way hfirst other hsecond hsame
      obtain ⟨rest, -, rfl⟩ := List.mem_map.1 hfirst
      obtain ⟨more, -, rfl⟩ := List.mem_map.1 hsecond
      exact absurd (List.cons.inj hsame).1 (by decide)

/-- All records that the messager enters anything in exist. -/
def IsWithin (records : Records) : Messager → Prop
  | record number => records.Has number
  | log => True
  | tee first second => first.IsWithin records ∧ second.IsWithin records

theorem IsWithin.of_has_imp
    {messager : Messager} {records later : Records}
    (hlater : ∀ number, records.Has number → later.Has number) (h : messager.IsWithin records) :
    messager.IsWithin later := by
  induction messager with
  | record number => exact hlater number h
  | log => trivial
  | tee first second ihFirst ihSecond => exact ⟨ihFirst h.1, ihSecond h.2⟩

/-- A messager enters a diagnostic in a record once for every way to the record. -/
theorem IsWithin.diagnostics_print
    {messager : Messager} (state : Records × List LogEvent) (h : messager.IsWithin state.1)
    (diagnostic : Diagnostic) (number : Nat) :
    (messager.print diagnostic state).1.diagnostics number =
      state.1.diagnostics number ++ List.replicate (messager.waysTo number).length diagnostic := by
  induction messager generalizing state with
  | record other =>
      rw [print, waysTo]
      split_ifs with hnumber
      · rw [← hnumber, Records.diagnostics_add_self _ _ _ h, List.length_singleton,
          List.replicate_one]
      · rw [Records.diagnostics_add_of_ne _ _ _ _ hnumber, List.length_nil, List.replicate_zero,
          List.append_nil]
  | log => simp [print, waysTo]
  | tee first second ihFirst ihSecond =>
      obtain ⟨hfirst, hsecond⟩ := h
      have hmore : second.IsWithin (first.print diagnostic state).1 :=
        hsecond.of_has_imp fun number => (first.has_print diagnostic state number).2
      rw [print, ihSecond _ hmore, ihFirst _ hfirst, waysTo, List.length_append, List.length_map,
        List.length_map, List.append_assoc, List.replicate_append_replicate]

end Messager

/-! ## Networks -/

/-- An operation on a network of messagers.  Members go by the number of their creation. -/
inductive NetworkStep where
  /-- Makes a messager with a record of its own. -/
  | collect
  /-- Makes a messager that forwards to the log. -/
  | trace
  /-- Makes a messager with the record of another. -/
  | clone (member : Nat)
  /-- Joins two messagers. -/
  | tee (first second : Nat)
  | print (member : Nat) (kind : DiagnosticKind) (message : String)
  | report (member : Nat) (diagnostic : Diagnostic)
  /-- Empties the record of a messager. -/
  | take (member : Nat)
  deriving DecidableEq, Repr

/-- A network of messagers, what was printed on them and what was taken out of their records. -/
structure MessagerNetwork where
  members : List Messager
  records : Records
  log : List LogEvent
  /-- The diagnostics in the order of printing, each with the messager it was printed on. -/
  printed : List (Messager × Diagnostic)
  /-- The answers to the takings, each with the number of the record. -/
  taken : List (Nat × List Diagnostic)
  deriving DecidableEq, Repr

namespace MessagerNetwork

/-- The network without members. -/
def empty : MessagerNetwork :=
  ⟨[], .empty, [], [], []⟩

/-- Adds a messager. -/
def join (network : MessagerNetwork) (messager : Messager) : MessagerNetwork :=
  { network with members := network.members ++ [messager] }

/-- Prints a diagnostic on a messager. -/
def printOn (network : MessagerNetwork) (messager : Messager) (diagnostic : Diagnostic) :
    MessagerNetwork :=
  let (records, log) := messager.print diagnostic (network.records, network.log)
  { network with records, log, printed := network.printed ++ [(messager, diagnostic)] }

/-- Prints a diagnostic on a member, if it is there. -/
def printAt (network : MessagerNetwork) (member : Nat) (diagnostic : Diagnostic) :
    MessagerNetwork :=
  match network.members[member]? with
  | some messager => network.printOn messager diagnostic
  | none => network

/-- Takes the diagnostics out of a record. -/
def takeFrom (network : MessagerNetwork) (number : Nat) : MessagerNetwork :=
  let (diagnostics, records) := network.records.take number
  { network with records, taken := network.taken ++ [(number, diagnostics)] }

/-- The record of a member, if it has one. -/
def recordOf? (network : MessagerNetwork) (member : Nat) : Option Nat :=
  network.members[member]?.bind Messager.record?

/-- What a member has in its record. -/
def diagnostics? (network : MessagerNetwork) (member : Nat) : Option (List Diagnostic) :=
  (network.recordOf? member).map network.records.diagnostics

/-- How many errors a member has in its record. -/
def errorCount? (network : MessagerNetwork) (member : Nat) : Option Nat :=
  (network.diagnostics? member).map Diagnostic.errorCount

/-- Goes on by one operation.  Nothing happens if a member is not there or has no record. -/
def step (network : MessagerNetwork) : NetworkStep → MessagerNetwork
  | .collect =>
    let (records, number) := network.records.openNew
    { network with records }.join (.record number)
  | .trace => network.join .log
  | .clone member =>
    match network.recordOf? member with
    | some number => network.join (.record number)
    | none => network
  | .tee first second =>
    match network.members[first]?, network.members[second]? with
    | some first, some second => network.join (.tee first second)
    | _, _ => network
  | .print member kind message => network.printAt member ⟨kind, message⟩
  | .report member diagnostic => network.printAt member diagnostic
  | .take member =>
    match network.recordOf? member with
    | some number => network.takeFrom number
    | none => network

/-- The network after some operations. -/
def run (steps : List NetworkStep) : MessagerNetwork :=
  steps.foldl step empty

theorem run_concat (steps : List NetworkStep) (last : NetworkStep) :
    run (steps ++ [last]) = (run steps).step last :=
  List.foldl_concat ..

/-- All diagnostics that were taken out of a record, in the order of the takings. -/
def takenFrom (network : MessagerNetwork) (number : Nat) : List Diagnostic :=
  (network.taken.filter fun taking => taking.1 = number).flatMap Prod.snd

/-- All diagnostics that were printed, in the order of printing, each as often as there are ways to a
record from the messager it was printed on. -/
def printedTo (network : MessagerNetwork) (number : Nat) : List Diagnostic :=
  network.printed.flatMap fun printing =>
    List.replicate (printing.1.waysTo number).length printing.2

/-- The members' records exist, and whatever was printed towards a record was taken out of it or is
still there. -/
structure IsConserving (network : MessagerNetwork) : Prop where
  isWithin : ∀ messager ∈ network.members, messager.IsWithin network.records
  conserved : ∀ number, network.takenFrom number ++ network.records.diagnostics number =
    network.printedTo number

section Steps

variable {network : MessagerNetwork}

theorem mem_of_recordOf? {member number : Nat} (h : network.recordOf? member = some number) :
    .record number ∈ network.members := by
  obtain ⟨messager, hmember, hrecord⟩ := Option.bind_eq_some_iff.1 h
  have hmem := List.mem_of_getElem? hmember
  cases messager with
  | record other => rwa [Option.some.inj hrecord] at hmem
  | _ => simp [Messager.record?] at hrecord

theorem IsConserving.join
    (h : network.IsConserving) {messager : Messager} (hmessager : messager.IsWithin network.records) :
    (network.join messager).IsConserving := by
  refine ⟨fun other hother => ?_, h.conserved⟩
  rcases List.mem_append.1 hother with hmem | hmem
  · exact h.isWithin other hmem
  · rwa [List.mem_singleton.1 hmem]

theorem IsConserving.openNew (h : network.IsConserving) :
    { network with records := network.records.openNew.1 }.IsConserving := by
  refine ⟨fun messager hmem => (h.isWithin messager hmem).of_has_imp fun number hnumber => ?_,
    fun number => ?_⟩
  · exact Nat.lt_of_lt_of_le hnumber (by simp [Records.openNew])
  · dsimp only
    rw [Records.diagnostics_openNew]
    exact h.conserved number

theorem IsConserving.printOn
    (h : network.IsConserving) {messager : Messager} (hmem : messager ∈ network.members)
    (diagnostic : Diagnostic) : (network.printOn messager diagnostic).IsConserving := by
  have hhas := messager.has_print diagnostic (network.records, network.log)
  refine ⟨fun other hother => (h.isWithin other hother).of_has_imp fun number => (hhas number).2,
    fun number => ?_⟩
  have hprint := Messager.IsWithin.diagnostics_print (network.records, network.log)
    (h.isWithin messager hmem) diagnostic number
  calc
    network.takenFrom number ++
          (messager.print diagnostic (network.records, network.log)).1.diagnostics number =
        network.printedTo number ++ List.replicate (messager.waysTo number).length diagnostic := by
      rw [hprint, ← List.append_assoc, h.conserved number]
    _ = (network.printOn messager diagnostic).printedTo number := by
      simp [printedTo, MessagerNetwork.printOn]

theorem IsConserving.printAt
    (h : network.IsConserving) (member : Nat) (diagnostic : Diagnostic) :
    (network.printAt member diagnostic).IsConserving := by
  rw [MessagerNetwork.printAt]
  cases hmember : network.members[member]? with
  | none => exact h
  | some messager => exact h.printOn (List.mem_of_getElem? hmember) diagnostic

theorem IsConserving.takeFrom (h : network.IsConserving) (taken : Nat) :
    (network.takeFrom taken).IsConserving := by
  refine ⟨fun messager hmem => (h.isWithin messager hmem).of_has_imp fun number =>
    (Records.has_clear _ _ _).2, fun number => ?_⟩
  have hrecords : (network.takeFrom taken).records = network.records.clear taken := rfl
  have htaken : (network.takeFrom taken).takenFrom number = network.takenFrom number ++
      if taken = number then network.records.diagnostics number else [] := by
    rw [takenFrom, MessagerNetwork.takeFrom, Records.take, List.filter_append, List.flatMap_append,
      List.filter_singleton]
    split_ifs <;> simp_all [takenFrom]
  have hprinted : (network.takeFrom taken).printedTo number = network.printedTo number := rfl
  rw [hrecords, htaken, hprinted, ← h.conserved number, List.append_assoc]
  split_ifs with hnumber
  · rw [hnumber, Records.diagnostics_clear_self, List.append_nil]
  · rw [Records.diagnostics_clear_of_ne _ _ _ hnumber, List.nil_append]

/-- Every operation leaves what was printed in the records, or with somebody who took it out. -/
theorem IsConserving.step (h : network.IsConserving) (operation : NetworkStep) :
    (network.step operation).IsConserving := by
  cases operation with
  | collect => exact h.openNew.join (by simp [Messager.IsWithin, Records.Has, Records.openNew])
  | trace => exact h.join trivial
  | clone member =>
      rw [MessagerNetwork.step]
      cases hrecord : network.recordOf? member with
      | none => exact h
      | some number => exact h.join (h.isWithin _ (mem_of_recordOf? hrecord))
  | tee first second =>
      rw [MessagerNetwork.step]
      cases hfirst : network.members[first]? with
      | none => exact h
      | some messager =>
          cases hsecond : network.members[second]? with
          | none => exact h
          | some other => exact h.join ⟨h.isWithin _ (List.mem_of_getElem? hfirst),
              h.isWithin _ (List.mem_of_getElem? hsecond)⟩
  | print member kind message => exact h.printAt member _
  | report member diagnostic => exact h.printAt member diagnostic
  | take member =>
      rw [MessagerNetwork.step]
      cases network.recordOf? member with
      | none => exact h
      | some number => exact h.takeFrom number

theorem isConserving_run (steps : List NetworkStep) : (run steps).IsConserving := by
  induction steps using List.reverseRecOn with
  | nil => exact ⟨by simp [run, empty], by simp [run, empty, takenFrom, printedTo, Records.empty,
      Records.diagnostics]⟩
  | append_singleton steps last ih =>
      rw [run_concat]
      exact ih.step last

end Steps

/-- No diagnostic is lost or made up, whatever messagers there are and in whatever order they are used.
What was taken out of a record by any of the messagers that share it, followed by what is in the record,
is what was printed, in the order of printing and once for every way through tees from the messager it was
printed on to the record.  The error count of each of these messagers is the number of errors in the
record. -/
theorem run_conserves_diagnostics
    (steps : List NetworkStep) {member number : Nat} (hmember : (run steps).recordOf? member = some number) :
    ∃ current, (run steps).diagnostics? member = some current ∧
      (run steps).takenFrom number ++ current = (run steps).printedTo number ∧
      (run steps).errorCount? member =
        some (current.filter fun diagnostic => diagnostic.kind = .error).length ∧
      ∀ messager : Messager, (messager.waysTo number).Nodup ∧
        ∀ way, way ∈ messager.waysTo number ↔ messager.LeadsTo number way := by
  have hcurrent : (run steps).diagnostics? member =
      some ((run steps).records.diagnostics number) := by
    rw [diagnostics?, hmember, Option.map_some]
  refine ⟨_, hcurrent, (isConserving_run steps).conserved number, ?_, fun messager =>
    ⟨messager.nodup_waysTo number, messager.mem_waysTo_iff number⟩⟩
  rw [errorCount?, hcurrent, Option.map_some, Diagnostic.errorCount, List.countP_eq_length_filter]
  rfl

/-- A record that is reached by two ways, since its messager and a clone of it are joined. -/
def joinedSteps : List NetworkStep :=
  [.collect, .clone 0, .trace, .tee 0 2, .tee 3 1, .print 4 .error "boom", .take 1,
    .report 3 ⟨.note, "fyi"⟩]

/-- The error arrived twice and was taken out by the clone; the note arrived once and is still there. -/
theorem run_conserves_diagnostics_joinedSteps :
    ∃ current, (run joinedSteps).diagnostics? 0 = some current ∧
      (run joinedSteps).takenFrom 0 ++ current =
        [⟨.error, "boom"⟩, ⟨.error, "boom"⟩, ⟨.note, "fyi"⟩] ∧
      (run joinedSteps).takenFrom 0 = [⟨.error, "boom"⟩, ⟨.error, "boom"⟩] ∧
      (run joinedSteps).errorCount? 0 = some 0 := by
  have hmember : (run joinedSteps).recordOf? 0 = some 0 := by decide +kernel
  have hprinted : (run joinedSteps).printedTo 0 =
      [⟨.error, "boom"⟩, ⟨.error, "boom"⟩, ⟨.note, "fyi"⟩] := by
    decide +kernel
  have htaken : (run joinedSteps).takenFrom 0 = [⟨.error, "boom"⟩, ⟨.error, "boom"⟩] := by
    decide +kernel
  obtain ⟨current, hcurrent, hconserved, herrors, -⟩ := run_conserves_diagnostics joinedSteps hmember
  rw [hprinted] at hconserved
  refine ⟨current, hcurrent, hconserved, htaken, ?_⟩
  rw [htaken] at hconserved
  have hleft : current = [⟨.note, "fyi"⟩] :=
    List.append_cancel_left (hconserved : [_, _] ++ current = [_, _] ++ [_])
  rw [herrors, hleft]
  simp

end MessagerNetwork

end ComponentMarkers
