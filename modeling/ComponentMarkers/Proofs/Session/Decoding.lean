import ComponentMarkers.Proofs.Session.Exactness
import ComponentMarkers.Proofs.Session.Runs
import ComponentMarkers.Proofs.Source.Lineage

/-!
# Marker paths tell the classes

A marker path with plain names is read back as the package and the names of the types around the class,
and these make up its qualified name.  So in a round of units whose types have different qualified
names no two classes get markers at one place.
-/

namespace ComponentMarkers

open Source

/-- No two types of the table have one qualified name. -/
def ElementTable.HasDistinctTypes (table : ElementTable) : Prop :=
  table.elements.toList.Pairwise fun element other =>
    element.kind.isType → other.kind.isType → element.qualifiedName ≠ other.qualifiedName

instance (table : ElementTable) : Decidable table.HasDistinctTypes :=
  inferInstanceAs (Decidable (List.Pairwise _ _))

theorem ElementTable.HasDistinctTypes.eq_of_qualifiedName_eq
    {table : ElementTable} (h : table.HasDistinctTypes) {id other : ElementId}
    {element otherElement : Element} (hget : table.get? id = some element)
    (hother : table.get? other = some otherElement) (hkind : element.kind.isType)
    (hotherKind : otherElement.kind.isType)
    (hname : element.qualifiedName = otherElement.qualifiedName) : id = other := by
  obtain ⟨hlt, rfl⟩ := Array.getElem?_eq_some_iff.1 hget
  obtain ⟨hotherLt, rfl⟩ := Array.getElem?_eq_some_iff.1 hother
  have hpairs := List.pairwise_iff_getElem.1 h
  rw [← ElementId.ofIndex_index id, ← ElementId.ofIndex_index other]
  rcases Nat.lt_trichotomy id.index other.index with hless | hsame | hless
  · exact absurd hname (hpairs id.index other.index (by simpa using hlt) (by simpa using hotherLt)
      hless hkind hotherKind)
  · rw [hsame]
  · exact absurd hname.symm (hpairs other.index id.index (by simpa using hotherLt)
      (by simpa using hlt) hless hotherKind hkind)

section Units

variable {units : List CompilationUnit}

/-- Types of some units whose markers lie at one place are one type. -/
theorem eq_of_same_relativePath
    (hproper : ∀ unit ∈ units, ∀ declaration ∈ unit.types,
      declaration.Every Declaration.IsProper)
    (hplain : ∀ unit ∈ units, unit.HasPlainNames)
    (hdistinct : (SourceRound.ofUnits units).toRound.table.HasDistinctTypes)
    {id other : ElementId} {element otherElement : Element}
    (hget : (SourceRound.ofUnits units).toRound.table.get? id = some element)
    (hother : (SourceRound.ofUnits units).toRound.table.get? other = some otherElement)
    (hkind : element.kind.isType) (hotherKind : otherElement.kind.isType)
    {identity otherIdentity : ArtifactIdentity}
    (hidentity : resolveIdentity (SourceRound.ofUnits units).toRound.table id = .ok identity)
    (hotherIdentity : resolveIdentity (SourceRound.ofUnits units).toRound.table other =
      .ok otherIdentity)
    (hsame : identity.relativePath.same otherIdentity.relativePath) : id = other := by
  obtain ⟨names, hleads, -⟩ := exists_leadsToPackage_of_resolveIdentity hget hkind hidentity
  obtain ⟨otherNames, hotherLeads, -⟩ :=
    exists_leadsToPackage_of_resolveIdentity hother hotherKind hotherIdentity
  obtain ⟨hpackage, hnames⟩ :=
    (leadsPlainly_ofUnits hproper hplain hget hkind hleads).eq_of_same
      (leadsPlainly_ofUnits hproper hplain hother hotherKind hotherLeads) hidentity hotherIdentity
      hsame
  have hqualified := SourceRound.isQualified_ofUnits units
  apply hdistinct.eq_of_qualifiedName_eq hget hother hkind hotherKind
  rw [hqualified.qualifiedName_eq hget hleads, hqualified.qualifiedName_eq hother hotherLeads,
    hpackage, hnames]

/-- Whatever the filer does, the artifacts of a round of such units lie at different places. -/
theorem pairwise_not_same_of_processRound
    (hproper : ∀ unit ∈ units, ∀ declaration ∈ unit.types,
      declaration.Every Declaration.IsProper)
    (hplain : ∀ unit ∈ units, unit.HasPlainNames)
    (hdistinct : (SourceRound.ofUnits units).toRound.table.HasDistinctTypes)
    {σ ω : Type} {filer : Filer σ ω} {now : Timestamp} {registry : MarkerRegistry}
    {annotations : List String} {state last : σ} {outcome : RoundOutcome} {events : List LogEvent}
    (hrun : processRound filer now registry annotations (SourceRound.ofUnits units).toRound state =
      ((.ok outcome, events), last)) :
    outcome.paths.Pairwise fun path other => ¬ path.same other := by
  obtain ⟨classes, collected, marked, hdiscover, hsublist, hall⟩ :=
    exists_sublist_of_processRound hrun
  have hclasses : ∀ id ∈ marked, ∃ element,
      (SourceRound.ofUnits units).toRound.table.get? id = some element ∧ element.kind.isType := by
    intro id hid
    obtain ⟨start, -, -, element, hget, hkind⟩ :=
      (mem_of_collectClasses (congrArg Prod.fst hdiscover) id).1 (hsublist.subset hid)
    exact ⟨element, hget, by rw [hkind]; rfl⟩
  have hnodup : marked.Nodup := hsublist.nodup classes.nodup
  rw [RoundOutcome.paths, List.pairwise_map]
  generalize outcome.artifacts = artifacts at hall
  clear hsublist
  induction hall with
  | nil => exact .nil
  | @cons id identity rest identities hidentity hrest ih =>
      obtain ⟨hnot, hnodup⟩ := List.nodup_cons.1 hnodup
      obtain ⟨⟨element, hget, hkind⟩, hothers⟩ := List.forall_mem_cons.1 hclasses
      refine List.pairwise_cons.2 ⟨?_, ih hothers hnodup⟩
      intro otherIdentity hmem hsame
      obtain ⟨other, hother, hotherIdentity⟩ :=
        (mem_of_forall₂_resolveIdentity hrest otherIdentity).1 hmem
      obtain ⟨otherElement, hotherGet, hotherKind⟩ := hothers other hother
      obtain rfl := eq_of_same_relativePath hproper hplain hdistinct hget hotherGet hkind hotherKind
        hidentity hotherIdentity hsame
      exact hnot hother

end Units

/-- A marker path tells which class it belongs to.  For a type that leads to its package through plain
names it is read back as the package and these names, and every resolved type leads to the package of
its identity.  Two such types have one marker path only if their packages and names are the same.  In a
round of units with plain names and with different qualified names of types, a report, which there
always is, lists no path twice, whatever the filer does. -/
theorem marker_path_tells_class :
    (∀ (table : ElementTable) id package names, table.LeadsPlainly id package names →
      ∃ identity, resolveIdentity table id = .ok identity ∧
        decodeMarker identity.relativePath = some (package, names)) ∧
    (∀ (table : ElementTable) id element identity, table.get? id = some element →
      element.kind.isType → resolveIdentity table id = .ok identity →
        ∃ names, table.LeadsToPackage id identity.package names) ∧
    (∀ (table other : ElementTable) id otherId package otherPackage names otherNames,
      table.LeadsPlainly id package names → other.LeadsPlainly otherId otherPackage otherNames →
        ∀ identity otherIdentity, resolveIdentity table id = .ok identity →
          resolveIdentity other otherId = .ok otherIdentity →
            identity.relativePath.same otherIdentity.relativePath →
              package = otherPackage ∧ names = otherNames) ∧
    ∀ units : List CompilationUnit,
      (∀ unit ∈ units, ∀ declaration ∈ unit.types, declaration.Every Declaration.IsProper) →
      (∀ unit ∈ units, unit.HasPlainNames) →
      (SourceRound.ofUnits units).toRound.table.HasDistinctTypes →
        ∀ (σ ω : Type) (filer : Filer σ ω) (session : Session), session.IsIdle →
          ∀ now (host : HostState σ), ∃ report,
            (session.runRound filer now (SourceRound.ofUnits units).toRound host).1 = .ok report ∧
              report.written.Pairwise fun path other => ¬ path.same other := by
  refine ⟨fun table id package names h => h.exists_decodeMarker_eq, ?_, ?_, ?_⟩
  · intro table id element identity hget hkind hidentity
    obtain ⟨names, hleads, -⟩ := exists_leadsToPackage_of_resolveIdentity hget hkind hidentity
    exact ⟨names, hleads⟩
  · intro table other id otherId package otherPackage names otherNames h hother identity
      otherIdentity hidentity hotherIdentity hsame
    exact h.eq_of_same hother hidentity hotherIdentity hsame
  · intro units hproper hplain hdistinct σ ω filer session hidle now host
    obtain ⟨report, hreport⟩ := hidle.exists_report filer now
      (SourceRound.isLoaded_ofUnits units).isClosed host
    refine ⟨report, hreport, ?_⟩
    obtain ⟨hlisted, -⟩ :=
      hidle.runRound_spec filer now (SourceRound.ofUnits units).toRound host
    rw [hreport] at hlisted
    rcases hrun : processRound filer now .standard
        (session.presentAnnotations (SourceRound.ofUnits units).toRound)
        (SourceRound.ofUnits units).toRound host.resources with ⟨⟨unknown | outcome, events⟩, last⟩
    · rw [hrun] at hlisted
      cases hlisted
    · rw [hrun] at hlisted
      rw [Option.some.inj hlisted]
      exact pairwise_not_same_of_processRound hproper hplain hdistinct hrun

theorem cartUnit_hasPlainNames : cartUnit.HasPlainNames := by
  have hitem : ∀ declaration : Declaration, declaration.members = [] →
      IsPlainSimpleName declaration.name →
        declaration.Every fun inner => inner.kind.isType → IsPlainSimpleName inner.name := by
    intro declaration hmembers hname
    refine Declaration.every_iff.2 ⟨fun _ => hname, ?_⟩
    rw [hmembers]
    simp
  refine ⟨by decide, List.forall_mem_cons.2 ⟨?_, List.forall_mem_singleton.2 ?_⟩⟩
  · refine Declaration.every_iff.2 ⟨fun _ => by decide, ?_⟩
    exact List.forall_mem_singleton.2 (hitem _ rfl (by decide))
  · exact hitem _ rfl (by decide)

/-- The names on the way to the inner class of `cartUnit`, and to the class around it. -/
theorem leadsPlainly_cartUnit :
    (SourceRound.ofUnits [cartUnit]).toRound.table.LeadsPlainly ⟨1⟩ "shop" ["Cart"] ∧
      (SourceRound.ofUnits [cartUnit]).toRound.table.LeadsPlainly ⟨2⟩ "shop" ["Cart", "Item"] := by
  have hpackage : (SourceRound.ofUnits [cartUnit]).toRound.table.get? ⟨0⟩ =
      some ⟨.package, "shop", "shop", none⟩ := by
    decide +kernel
  have houter : (SourceRound.ofUnits [cartUnit]).toRound.table.get? ⟨1⟩ =
      some ⟨.classType, "Cart", "shop.Cart", some ⟨0⟩⟩ := by
    decide +kernel
  have hinner : (SourceRound.ofUnits [cartUnit]).toRound.table.get? ⟨2⟩ =
      some ⟨.classType, "Item", "shop.Cart.Item", some ⟨1⟩⟩ := by
    decide +kernel
  have hleads := ElementTable.LeadsToPackage.type houter rfl rfl (.package hpackage rfl)
  constructor
  · exact ⟨hleads, ⟨_, houter, rfl⟩, by decide, by decide⟩
  · exact ⟨.type hinner rfl rfl hleads, ⟨_, hinner, rfl⟩, by decide, by decide⟩

/-- The marker of the inner class is read back, that of the class around it lies elsewhere, and the
report of the unit lists no path twice. -/
theorem marker_path_tells_class_cartUnit :
    (∃ identity,
        resolveIdentity (SourceRound.ofUnits [cartUnit]).toRound.table ⟨2⟩ = .ok identity ∧
        decodeMarker identity.relativePath = some ("shop", ["Cart", "Item"])) ∧
      (∀ outer inner,
        resolveIdentity (SourceRound.ofUnits [cartUnit]).toRound.table ⟨1⟩ = .ok outer →
          resolveIdentity (SourceRound.ofUnits [cartUnit]).toRound.table ⟨2⟩ = .ok inner →
            ¬ outer.relativePath.same inner.relativePath) ∧
      ∃ report, ((Session.start .new .log ⟨MemoryStore.empty, .empty, []⟩).1.runRound memoryFiler
          ⟨2026, 1, 1, 0, 0, 0, true, 0, 0⟩ (SourceRound.ofUnits [cartUnit]).toRound
          (Session.start .new .log ⟨MemoryStore.empty, .empty, []⟩).2).1 = .ok report ∧
        report.written.Pairwise fun path other => ¬ path.same other := by
  obtain ⟨houter, hinner⟩ := leadsPlainly_cartUnit
  obtain ⟨hdecode, -, hshare, hreport⟩ := marker_path_tells_class
  refine ⟨hdecode _ _ _ _ hinner, ?_, ?_⟩
  · intro outer inner houterIdentity hinnerIdentity hsame
    obtain ⟨-, hnames⟩ := hshare _ _ _ _ _ _ _ _ houter hinner outer inner houterIdentity
      hinnerIdentity hsame
    exact absurd hnames (by decide)
  · have hproper : ∀ unit ∈ [cartUnit], ∀ declaration ∈ unit.types,
        declaration.Every Declaration.IsProper := by
      refine List.forall_mem_singleton.2 fun declaration hdeclared => ?_
      exact Declaration.every_imp (fun _ hformed => hformed.toIsProper) declaration
        (cartUnit_isWellFormed declaration hdeclared)
    exact hreport [cartUnit] hproper (List.forall_mem_singleton.2 cartUnit_hasPlainNames)
      (by decide +kernel) _ _ memoryFiler _ (Session.isIdle_start .log _) _ _

end ComponentMarkers
