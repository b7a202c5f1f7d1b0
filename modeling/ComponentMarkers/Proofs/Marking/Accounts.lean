import ComponentMarkers.Marking.Outcome
import ComponentMarkers.Proofs.Filer.Fates
import ComponentMarkers.Proofs.Marking.Collection
import ComponentMarkers.Proofs.Marking.Resolution

/-!
# What a round accounts for

Each class that is discovered gets one entry in the outcome of the round: the identity of its marker,
or a diagnostic.  Which entry it gets depends on its chain and on the fate of its resource and on
nothing else, in particular not on the other classes.

The main statement compares two runs of one round with two filers.  Both outcomes list the discovered
classes in the same order, and they differ only in classes whose resources meet different fates.
-/

namespace ComponentMarkers

variable {σ ω : Type}

/-- The entry that the fates of resources make for a class. -/
inductive EntryOf (fates : ResourceName → ResourceFate) (table : ElementTable) (id : ElementId) :
    ArtifactIdentity ⊕ Diagnostic → Prop where
  | artifact {identity : ArtifactIdentity} (hidentity : resolveIdentity table id = .ok identity)
      (hfate : fates identity.resource = .finished) : EntryOf fates table id (.inl identity)
  | unresolved {error : StructuralError}
      (herror : resolveIdentity table id = .error (.structural error)) :
      EntryOf fates table id
        (.inr ⟨.error, "Could not resolve owning package for: " ++ error.message⟩)
  | unwritten {identity : ArtifactIdentity} {element : Element} {error : IoError}
      (hget : table.get? id = some element) (hidentity : resolveIdentity table id = .ok identity)
      (hfate : (fates identity.resource).result = .error error) :
      EntryOf fates table id
        (.inr ⟨.error,
          "Could not write source for: " ++ element.qualifiedName ++ ": " ++ error.message⟩)

/-- `account` lists the classes with their entries, and the outcome has these entries and no others. -/
structure IsAccount (fates : ResourceName → ResourceFate) (table : ElementTable)
    (classes : List ElementId) (outcome : RoundOutcome)
    (account : List (ElementId × (ArtifactIdentity ⊕ Diagnostic))) : Prop where
  classes_eq : account.map Prod.fst = classes
  entries : ∀ line ∈ account, EntryOf fates table line.1 line.2
  artifacts_eq : outcome.artifacts = account.filterMap fun line => line.2.getLeft?
  diagnostics_eq : outcome.diagnostics = account.filterMap fun line => line.2.getRight?

/-- The state of a filer after a class was dealt with.  Only the resource of a class that is resolved
is ever asked for. -/
def Filer.afterClass (filer : Filer σ ω) (now : Timestamp) (table : ElementTable) (state : σ)
    (id : ElementId) : σ :=
  match resolveIdentity table id with
  | .error _ => state
  | .ok identity =>
    (filer.writeResource identity.resource (some id) (Text.encode (provenance now)) state).2

/-- The resource of a class meets the same fate twice, or the class has none. -/
def agreeOn (fates otherFates : ResourceName → ResourceFate) (table : ElementTable)
    (id : ElementId) : Bool :=
  match resolveIdentity table id with
  | .error _ => true
  | .ok identity => fates identity.resource = otherFates identity.resource

/-- What became of a class as an entry of the outcome. -/
def MarkResult.entry : MarkResult → ArtifactIdentity ⊕ Diagnostic
  | marked identity => .inl identity
  | unresolved _ error => .inr (.error ("Could not resolve owning package for: " ++ error.message))
  | unwritten name error =>
    .inr (.error ("Could not write source for: " ++ name ++ ": " ++ error.message))

theorem MarkResult.artifact?_eq (result : MarkResult) :
    result.artifact? = result.entry.getLeft? := by
  cases result <;> rfl

theorem MarkResult.diagnostic?_eq (result : MarkResult) :
    result.diagnostic? = result.entry.getRight? := by
  cases result <;> rfl

theorem EntryOf.unique
    {fates : ResourceName → ResourceFate} {table : ElementTable} {id : ElementId}
    {entry other : ArtifactIdentity ⊕ Diagnostic} (h : EntryOf fates table id entry)
    (hother : EntryOf fates table id other) : entry = other := by
  cases h with
  | artifact hidentity hfate =>
      cases hother with
      | artifact hsame _ => rw [Except.ok.inj (hidentity.symm.trans hsame)]
      | unresolved hsame => cases hidentity.symm.trans hsame
      | unwritten _ hsame hresult =>
          obtain rfl := Except.ok.inj (hidentity.symm.trans hsame)
          rw [hfate] at hresult
          cases hresult
  | unresolved herror =>
      cases hother with
      | artifact hsame _ => cases herror.symm.trans hsame
      | unresolved hsame =>
          obtain rfl := ResolveError.structural.inj (Except.error.inj (herror.symm.trans hsame))
          rfl
      | unwritten _ hsame _ => cases herror.symm.trans hsame
  | unwritten hget hidentity hfate =>
      cases hother with
      | artifact hsame hfinished =>
          obtain rfl := Except.ok.inj (hidentity.symm.trans hsame)
          rw [hfinished] at hfate
          cases hfate
      | unresolved hsame => cases hidentity.symm.trans hsame
      | unwritten hsameGet hsame hresult =>
          obtain rfl := Option.some.inj (hget.symm.trans hsameGet)
          obtain rfl := Except.ok.inj (hidentity.symm.trans hsame)
          obtain rfl := Except.error.inj (hfate.symm.trans hresult)
          rfl

/-- Where two filers agree, an entry that is right for one of them is right for the other. -/
theorem EntryOf.of_agreeOn
    {fates otherFates : ResourceName → ResourceFate} {table : ElementTable} {id : ElementId}
    {entry : ArtifactIdentity ⊕ Diagnostic} (hagree : agreeOn fates otherFates table id)
    (h : EntryOf fates table id entry) : EntryOf otherFates table id entry := by
  cases h with
  | artifact hidentity hfate =>
      rw [agreeOn, hidentity] at hagree
      exact .artifact hidentity ((of_decide_eq_true hagree).symm.trans hfate)
  | unresolved herror => exact .unresolved herror
  | unwritten hget hidentity hfate =>
      rw [agreeOn, hidentity] at hagree
      exact .unwritten hget hidentity (by rw [← of_decide_eq_true hagree, hfate])

theorem markClass_of_isClosed
    {table : ElementTable} (hclosed : table.IsClosed) {id : ElementId}
    (hid : (table.get? id).isSome) {filer : Filer σ ω} {fates : ResourceName → ResourceFate}
    (hfiler : filer.DecidedBy fates) (now : Timestamp) (state : σ) :
    ∃ result, markClass filer now table id state =
        (.ok result, filer.afterClass now table state id) ∧
      EntryOf fates table id result.entry := by
  obtain ⟨element, hget⟩ := Option.isSome_iff_exists.1 hid
  rw [markClass, Filer.afterClass]
  rcases hidentity : resolveIdentity table id with (unknown | error) | identity
  · exact absurd hidentity
      (resolveIdentity_ne_unknown (ElementTable.knowsChain_of_isClosed hclosed hid) unknown)
  · exact ⟨_, rfl, .unresolved hidentity⟩
  · dsimp only
    have hresult := hfiler.writeResource_fst identity.resource (some id)
      (Text.encode (provenance now)) state
    rcases hwrite : filer.writeResource identity.resource (some id)
      (Text.encode (provenance now)) state with ⟨error | _, last⟩
    · rw [hwrite] at hresult
      refine ⟨_, rfl, ?_⟩
      rw [hget]
      exact .unwritten hget hidentity hresult.symm
    · rw [hwrite] at hresult
      exact ⟨_, rfl, .artifact hidentity ((ResourceFate.result_eq_ok_iff _).1 hresult.symm)⟩

/-- Going through the classes leaves none out, and no failure keeps the later ones from their turn. -/
theorem markAll_of_isClosed
    {table : ElementTable} (hclosed : table.IsClosed) {ids : List ElementId}
    (hids : ∀ id ∈ ids, (table.get? id).isSome) {filer : Filer σ ω}
    {fates : ResourceName → ResourceFate} (hfiler : filer.DecidedBy fates) (now : Timestamp)
    (state : σ) :
    ∃ results, markAll filer now table ids state =
        (.ok results, ids.foldl (filer.afterClass now table) state) ∧
      List.Forall₂ (fun id result => EntryOf fates table id result.entry) ids results := by
  induction ids generalizing state with
  | nil => exact ⟨[], rfl, .nil⟩
  | cons id rest ih =>
      obtain ⟨hid, hrest⟩ := List.forall_mem_cons.1 hids
      obtain ⟨result, hmark, hentry⟩ := markClass_of_isClosed hclosed hid hfiler now state
      obtain ⟨results, hmarks, hentries⟩ := ih hrest (filer.afterClass now table state id)
      refine ⟨result :: results, ?_, .cons hentry hentries⟩
      rw [markAll, hmark]
      dsimp only
      rw [hmarks, List.foldl_cons]

/-- The outcome of results is accounted for by the results' own entries. -/
theorem isAccount_ofResults
    {fates : ResourceName → ResourceFate} {table : ElementTable} {ids : List ElementId}
    {results : List MarkResult}
    (h : List.Forall₂ (fun id result => EntryOf fates table id result.entry) ids results) :
    IsAccount fates table ids (.ofResults results) (ids.zip (results.map MarkResult.entry)) := by
  have hlength : ids.length = (results.map MarkResult.entry).length := by
    rw [List.length_map]
    exact h.length_eq
  have hsecond : (ids.zip (results.map MarkResult.entry)).map Prod.snd =
      results.map MarkResult.entry :=
    List.map_snd_zip (Nat.le_of_eq hlength.symm)
  constructor
  · exact List.map_fst_zip (Nat.le_of_eq hlength)
  · induction h with
    | nil => simp
    | cons hentry hrest ih =>
        intro line hline
        rcases List.mem_cons.1 hline with rfl | hline
        · exact hentry
        · refine ih ?_ ?_ line hline
          · simpa using hlength
          · simpa using hsecond
  · calc
      (RoundOutcome.ofResults results).artifacts
          = (results.map MarkResult.entry).filterMap Sum.getLeft? := by
        rw [RoundOutcome.ofResults, List.filterMap_map]
        exact List.filterMap_congr fun result _ => result.artifact?_eq
      _ = _ := by
        conv_lhs => rw [← hsecond, List.filterMap_map]
        rfl
  · calc
      (RoundOutcome.ofResults results).diagnostics
          = (results.map MarkResult.entry).filterMap Sum.getRight? := by
        rw [RoundOutcome.ofResults, List.filterMap_map]
        exact List.filterMap_congr fun result _ => result.diagnostic?_eq
      _ = _ := by
        conv_lhs => rw [← hsecond, List.filterMap_map]
        rfl

/-- A round on which collecting succeeds has an outcome with a full account. -/
theorem processRound_of_isClosed
    {round : Round} (hround : round.IsClosed) (registry : MarkerRegistry)
    (annotations : List String) {filer : Filer σ ω} {fates : ResourceName → ResourceFate}
    (hfiler : filer.DecidedBy fates) (now : Timestamp) (state : σ)
    {classes : OrderedSet ElementId} {collected : List LogEvent}
    (hdiscover : discover registry annotations round = (.ok classes, collected)) :
    ∃ outcome account events,
      processRound filer now registry annotations round state =
        ((.ok outcome, events), classes.toList.foldl (filer.afterClass now round.table) state) ∧
      IsAccount fates round.table classes.toList outcome account := by
  obtain ⟨same, _, hsame, hmem⟩ := discover_of_isClosed hround registry annotations
  obtain rfl : classes = same := by
    rw [hdiscover] at hsame
    exact Except.ok.inj (congrArg Prod.fst hsame)
  have hids : ∀ id ∈ classes.toList, (round.table.get? id).isSome := by
    intro id hid
    obtain ⟨_, _, _, _, _, _, element, hget, _⟩ := (hmem id).1 hid
    rw [hget]
    rfl
  obtain ⟨results, hmarks, hentries⟩ :=
    markAll_of_isClosed hround.table hids hfiler now state
  refine ⟨_, _, collected ++ results.filterMap MarkResult.event?, ?_,
    isAccount_ofResults hentries⟩
  rw [processRound, hdiscover]
  dsimp only
  rw [hmarks]

theorem IsAccount.filter_agreeOn_eq
    {fates otherFates : ResourceName → ResourceFate} {table : ElementTable}
    {classes : List ElementId} {outcome otherOutcome : RoundOutcome}
    {account otherAccount : List (ElementId × (ArtifactIdentity ⊕ Diagnostic))}
    (h : IsAccount fates table classes outcome account)
    (hother : IsAccount otherFates table classes otherOutcome otherAccount) :
    (account.filter fun line => agreeOn fates otherFates table line.1) =
      otherAccount.filter fun line => agreeOn fates otherFates table line.1 := by
  have hclasses := h.classes_eq.trans hother.classes_eq.symm
  have hentries := h.entries
  have hotherEntries := hother.entries
  clear h hother
  induction account generalizing otherAccount with
  | nil =>
      obtain rfl : otherAccount = [] := List.map_eq_nil_iff.1 hclasses.symm
      rfl
  | cons line rest ih =>
      cases otherAccount with
      | nil => cases hclasses
      | cons otherLine otherRest =>
          obtain ⟨hclass, htail⟩ := List.cons.inj hclasses
          obtain ⟨hline, hrest⟩ := List.forall_mem_cons.1 hentries
          obtain ⟨hotherLine, hotherRest⟩ := List.forall_mem_cons.1 hotherEntries
          have hsame := ih htail hrest hotherRest
          obtain ⟨id, entry⟩ := line
          obtain ⟨otherId, otherEntry⟩ := otherLine
          obtain rfl : id = otherId := hclass
          by_cases hagree : agreeOn fates otherFates table id
          · obtain rfl := (hline.of_agreeOn hagree).unique hotherLine
            simpa [hagree] using hsame
          · simpa [hagree] using hsame

/-- One round run with two filers, each decided by names.  Every discovered class has one entry in each
outcome, in the order of discovery; nothing but the resources of resolved classes is asked for; and the
entries of the classes on whose resources the filers agree are the same. -/
theorem processRound_isolates_failures
    {σ' ω' : Type} {round : Round} (hround : round.IsClosed) (registry : MarkerRegistry)
    (annotations : List String)
    {filer : Filer σ ω} {fates : ResourceName → ResourceFate} (hfiler : filer.DecidedBy fates)
    {other : Filer σ' ω'} {otherFates : ResourceName → ResourceFate}
    (hother : other.DecidedBy otherFates)
    (now otherNow : Timestamp) (state : σ) (otherState : σ') :
    ∃ classes collected, discover registry annotations round = (.ok classes, collected) ∧
      ∃ outcome account events otherOutcome otherAccount otherEvents,
        processRound filer now registry annotations round state =
          ((.ok outcome, events),
            classes.toList.foldl (filer.afterClass now round.table) state) ∧
        IsAccount fates round.table classes.toList outcome account ∧
        processRound other otherNow registry annotations round otherState =
          ((.ok otherOutcome, otherEvents),
            classes.toList.foldl (other.afterClass otherNow round.table) otherState) ∧
        IsAccount otherFates round.table classes.toList otherOutcome otherAccount ∧
        (account.filter fun line => agreeOn fates otherFates round.table line.1) =
          otherAccount.filter fun line => agreeOn fates otherFates round.table line.1 := by
  obtain ⟨classes, collected, hdiscover, -⟩ := discover_of_isClosed hround registry annotations
  obtain ⟨outcome, account, events, hrun, haccount⟩ :=
    processRound_of_isClosed hround registry annotations hfiler now state hdiscover
  obtain ⟨otherOutcome, otherAccount, otherEvents, hotherRun, hotherAccount⟩ :=
    processRound_of_isClosed hround registry annotations hother otherNow otherState hdiscover
  exact ⟨classes, collected, hdiscover, outcome, account, events, otherOutcome, otherAccount,
    otherEvents, hrun, haccount, hotherRun, hotherAccount,
    haccount.filter_agreeOn_eq hotherAccount⟩

/-- A round in which one class has a marker, one is at the end of a broken chain, two are written in
each other, and a method marks the class it belongs to. -/
def brokenRound : Round where
  table := ⟨#[⟨.package, "a", "a", none⟩, ⟨.classType, "A", "a.A", some ⟨0⟩⟩,
    ⟨.classType, "B", "B", none⟩, ⟨.classType, "C", "D.C", some ⟨4⟩⟩,
    ⟨.classType, "D", "C.D", some ⟨3⟩⟩, ⟨.classType, "E", "a.E", some ⟨0⟩⟩,
    ⟨.method, "m", "a.E.m", some ⟨5⟩⟩]⟩
  annotated _ := [⟨1⟩, ⟨2⟩, ⟨3⟩, ⟨6⟩]
  isOver := false

theorem brokenRound_isClosed : brokenRound.IsClosed := by
  constructor
  · apply ElementTable.isClosed_of_forall_mem
    decide
  · intro identifier
    change ∀ id ∈ [⟨1⟩, ⟨2⟩, ⟨3⟩, ⟨6⟩], (brokenRound.table.get? id).isSome
    decide

/-- A guard that refuses the marker of `A`. -/
def refusesA : FilerGuard where
  refused := ["A.component"]
  failingWrites := []
  failingFlushes := []
  refusal := .system (.other 13 "PermissionDenied" "Permission denied")
  writeFailure := .custom "StorageFull" "no space left on device"
  flushFailure := .custom "BrokenPipe" "output stream closed"

/-- With and without the guard the round accounts for the same five classes. -/
theorem processRound_isolates_failures_brokenRound :
    brokenRound.IsClosed ∧
      (guardedFiler refusesA memoryFiler).DecidedBy
        (Filer.guardedFates refusesA Filer.memoryFates) ∧
      memoryFiler.DecidedBy Filer.memoryFates ∧
      ∃ classes collected,
        discover .standard MarkerRegistry.standardIdentifiers brokenRound =
          (.ok classes, collected) ∧
        ∃ outcome account otherOutcome otherAccount,
          IsAccount (Filer.guardedFates refusesA Filer.memoryFates) brokenRound.table
            classes.toList outcome account ∧
          IsAccount Filer.memoryFates brokenRound.table classes.toList otherOutcome
            otherAccount := by
  refine ⟨brokenRound_isClosed, Filer.memoryFiler_decidedBy.guardedFiler refusesA,
    Filer.memoryFiler_decidedBy, ?_⟩
  obtain ⟨classes, collected, hdiscover, outcome, account, -, otherOutcome, otherAccount, -, -,
      haccount, -, hotherAccount, -⟩ :=
    processRound_isolates_failures brokenRound_isClosed .standard
      MarkerRegistry.standardIdentifiers (Filer.memoryFiler_decidedBy.guardedFiler refusesA)
      Filer.memoryFiler_decidedBy ⟨2026, 1, 1, 0, 0, 0, true, 0, 0⟩
      ⟨2026, 1, 1, 0, 0, 0, true, 0, 0⟩ .empty .empty
  exact ⟨classes, collected, hdiscover, outcome, account, otherOutcome, otherAccount, haccount,
    hotherAccount⟩

end ComponentMarkers
