import ComponentMarkers.Proofs.Filer.Disk
import ComponentMarkers.Proofs.FileSystem.Acceptance
import ComponentMarkers.Proofs.FileSystem.Resolution
import ComponentMarkers.Proofs.Marking.Decoding
import ComponentMarkers.Proofs.Marking.Recorded
import ComponentMarkers.Proofs.Marking.Results

/-!
# Markers on disk

Directories of packages have no dot in their names, and the name of a marker has one.  So no marker
takes the place of a directory that another one needs, and no directory takes the place of a marker:
what obstructs a marker was there before the first marker was written.
-/

namespace ComponentMarkers

open Text ComponentMarkers.Path Component FileTree

/-- An output root lies some names below a directory, and no links are on the way to it or under it. -/
structure FileTree.HostsRoot (tree : FileTree) (root base : Path) (place : Place)
    (names : List String) : Prop where
  leadsTo : tree.LeadsTo base place
  components_eq : root.components = base.components ++ names.map .normal
  noLink : tree.HasNoLinkAt (placesOn place names)
  noLink_below : ∀ more target, tree.node? (place ++ names ++ more) ≠ some (.link target)

theorem FileTree.HostsRoot.of_keepsWays
    {before after : FileTree} (hways : before.KeepsWays after) {root base : Path} {place : Place}
    {names : List String} (h : before.HostsRoot root base place names) :
    after.HostsRoot root base place names :=
  ⟨h.leadsTo.of_keepsWays hways, h.components_eq,
    fun other hother target hlink => h.noLink other hother target ((hways.link_iff _ _).1 hlink),
    fun more target hlink => h.noLink_below more target ((hways.link_iff _ _).1 hlink)⟩

namespace ArtifactIdentity

/-- No slashes are in the identity, and the file system takes the path of its marker. -/
structure IsWritable (identity : ArtifactIdentity) (root : Path) : Prop where
  package : '/' ∉ identity.package.toList
  nestedName : '/' ∉ identity.nestedName.toList
  accepts : Accepts (root.join identity.relativePath)

instance (identity : ArtifactIdentity) (root : Path) : Decidable (identity.IsWritable root) :=
  decidable_of_iff
    ('/' ∉ identity.package.toList ∧ '/' ∉ identity.nestedName.toList ∧
      Accepts (root.join identity.relativePath))
    ⟨fun h => ⟨h.1, h.2.1, h.2.2⟩, fun h => ⟨h.package, h.nestedName, h.accepts⟩⟩

/-- Where the marker is when the output root is at a place. -/
def markerPlace (identity : ArtifactIdentity) (output : Place) : Place :=
  output ++ identity.resource.directories ++ [identity.resource.name]

theorem dot_mem_name (identity : ArtifactIdentity) : '.' ∈ identity.resource.name.toList := by
  change '.' ∈ (identity.nestedName ++ markerSuffix).toList
  rw [String.toList_append]
  exact List.mem_append_right _ (by decide)

theorem IsWritable.isPlain
    {identity : ArtifactIdentity} {root : Path} (h : identity.IsWritable root) :
    identity.resource.IsPlain := by
  obtain ⟨hempty, hdot, hdots⟩ := append_markerSuffix_ne identity.nestedName
  refine ⟨h.package, hempty, hdot, hdots, ?_⟩
  change '/' ∉ (identity.nestedName ++ markerSuffix).toList
  rw [String.toList_append, List.mem_append, not_or]
  exact ⟨h.nestedName, by decide⟩

end ArtifactIdentity

section Roots

variable {tree : FileTree} {root base : Path} {place : Place} {names : List String}

/-- From the output root the way to a resource goes on, if the file system takes its path. -/
theorem FileTree.HostsRoot.admits
    (h : tree.HostsRoot root base place names) {resource : ResourceName}
    {directories : List String} {name : String} (hresource : resource.GoesTo directories name)
    (haccepts : Accepts (root.join resource.path)) :
    tree.Admits base place (names ++ directories ++ [name]) := by
  have hcomponents := hresource.components_join root
  rw [h.components_eq, List.append_assoc, ← List.map_append, ← List.append_assoc] at hcomponents
  have hmem : ∀ step ∈ names ++ directories ++ [name],
      .normal step ∈ (root.join resource.path).components := by
    intro step hstep
    rw [hcomponents]
    exact List.mem_append_right _ (List.mem_map_of_mem hstep)
  refine ⟨h.leadsTo, fun step hstep => isName_of_mem_components (hmem step hstep),
    fun step hstep => haccepts.length_le (.normal step) (hmem step hstep), ?_, ?_⟩
  · intro init hinit hne
    refine pathFault?_ofComponents haccepts.pathFault?_eq ?_ hne
    rw [hcomponents]
    exact List.prefix_append_right_inj _ |>.2 (hinit.map _)
  · rw [List.append_assoc, placesOn_append]
    intro other hother
    rcases List.mem_append.1 hother with hother | hother
    · exact h.noLink other hother
    · obtain ⟨init, -, -, rfl⟩ := (mem_placesOn_iff _ _ _).1 hother
      exact h.noLink_below init

/-- The tree has a file where the marker needs a directory, or a directory where the marker is to be. -/
def FileTree.Blocks (tree : FileTree) (place : Place) (names : List String)
    (identity : ArtifactIdentity) : Prop :=
  tree.IsObstructed place (names ++ identity.resource.directories) identity.resource.name

/-- No marker is where a directory on the way to another marker is. -/
theorem ArtifactIdentity.markerPlace_not_mem_placesOn
    (identity other : ArtifactIdentity) (place : Place) (names : List String) :
    identity.markerPlace (place ++ names) ∉
      placesOn place (names ++ other.resource.directories) := by
  intro hmem
  obtain ⟨init, -, hprefix, hsame⟩ := (mem_placesOn_iff _ _ _).1 hmem
  rw [markerPlace, List.append_assoc, List.append_assoc, List.append_cancel_left_eq] at hsame
  rw [← hsame, List.prefix_append_right_inj] at hprefix
  have hname : identity.resource.name ∈ other.resource.directories :=
    hprefix.subset (List.mem_append_right _ (List.mem_singleton.2 rfl))
  exact dot_not_mem_of_mem_segments (List.mem_filter.1 hname).1 identity.dot_mem_name

/-- Markers of some identities and directories on the way to others block nothing that was not blocked
before. -/
theorem FileTree.Gains.blocks_iff
    (place : Place) (names : List String) {before after : FileTree}
    {files directories : List Place} {content : List UInt8}
    (h : before.Gains after files directories content)
    (hfiles : ∀ file ∈ files, ∃ other : ArtifactIdentity,
      file = other.markerPlace (place ++ names))
    (hdirectories : ∀ directory ∈ directories, ∃ other : ArtifactIdentity,
      directory ∈ placesOn place (names ++ other.resource.directories))
    (identity : ArtifactIdentity) :
    after.Blocks place names identity ↔ before.Blocks place names identity := by
  have hway : ∀ directory ∈ placesOn place (names ++ identity.resource.directories), ∀ bytes,
      after.node? directory = some (.file bytes) ↔ before.node? directory = some (.file bytes) := by
    intro directory hdirectory bytes
    have hfile : directory ∉ files := by
      intro hmem
      obtain ⟨other, rfl⟩ := hfiles directory hmem
      exact other.markerPlace_not_mem_placesOn identity place names hdirectory
    exact h.file_iff hfile bytes
  have hmarker : after.node? (place ++ (names ++ identity.resource.directories) ++
        [identity.resource.name]) = some .directory ↔
      before.node? (place ++ (names ++ identity.resource.directories) ++
        [identity.resource.name]) = some .directory := by
    refine ⟨fun hafter => ?_, h.keepsWays.directory _⟩
    rw [← List.append_assoc] at hafter ⊢
    have hfile : identity.markerPlace (place ++ names) ∉ files := by
      intro hmem
      have hcontent := h.file_eq _ hmem
      rw [ArtifactIdentity.markerPlace, hafter] at hcontent
      cases hcontent
    refine (h.node?_eq hfile fun hmem => ?_).symm.trans hafter
    obtain ⟨other, hother⟩ := hdirectories _ hmem
    exact identity.markerPlace_not_mem_placesOn other place names hother
  rw [Blocks, Blocks, IsObstructed, IsObstructed, hmarker]
  refine or_congr_left (exists_congr fun directory => and_congr_right fun hdirectory => ?_)
  exact exists_congr (hway directory hdirectory)

end Roots

/-- The directories on the way to the marker of a class. -/
def ElementTable.directoriesTo (table : ElementTable) (place : Place) (names : List String)
    (id : ElementId) : List Place :=
  match resolveIdentity table id with
  | .ok identity => placesOn place (names ++ identity.resource.directories)
  | .error _ => []

/-- The markers that results tell of, below an output root. -/
def markerPlaces (output : Place) (results : List MarkResult) : List Place :=
  (results.filterMap MarkResult.artifact?).map fun identity => identity.markerPlace output

section Marking

variable {root base : Path} {place : Place} {names : List String} {now : Timestamp}
  {table : ElementTable}

/-- What marking a class does on disk. -/
theorem MarksClass.gains_disk
    {tree : FileTree} (hroot : tree.HostsRoot root base place names) {id : ElementId}
    (hid : ∀ identity, resolveIdentity table id = .ok identity → identity.IsWritable root)
    {result : MarkResult} {last : FileTree}
    (h : MarksClass (diskFiler root) now table id tree result last) :
    tree.Gains last (markerPlaces (place ++ names) [result]) (table.directoriesTo place names id)
        (Text.encode (provenance now)) ∧
      result.IsDecidedBy table (tree.Blocks place names) id ∧
      ∀ identity, result.artifact? = some identity →
        ∀ other ∈ placesOn place (names ++ identity.resource.directories),
          last.node? other = some .directory := by
  cases h with
  | unresolved hidentity =>
      exact ⟨.refl tree _ _, .unresolved hidentity, fun _ hmarked => by cases hmarked⟩
  | @unwritten identity error _ hidentity hwrite =>
      have hwritable := hid identity hidentity
      obtain ⟨hgains, hok, -⟩ := writeResource_diskFiler hwritable.isPlain hroot.components_eq
        (hroot.admits hwritable.isPlain.goesTo hwritable.accepts)
        hwritable.accepts.pathFault?_eq hwrite
      rw [ElementTable.directoriesTo, hidentity]
      refine ⟨hgains, .unwritten hidentity ?_ error, fun _ hmarked => by cases hmarked⟩
      by_contra hfree
      cases hok.2 hfree
  | @marked identity _ hidentity hwrite =>
      have hwritable := hid identity hidentity
      obtain ⟨hgains, hok, hdirectories⟩ := writeResource_diskFiler hwritable.isPlain
        hroot.components_eq (hroot.admits hwritable.isPlain.goesTo hwritable.accepts)
        hwritable.accepts.pathFault?_eq hwrite
      rw [if_pos rfl, ← List.append_assoc] at hgains
      rw [ElementTable.directoriesTo, hidentity]
      refine ⟨hgains, .marked hidentity (hok.1 rfl), ?_⟩
      rintro found hfound
      obtain rfl := Option.some.inj hfound
      exact hdirectories rfl

theorem mem_directoriesTo_iff {id : ElementId} {directory : Place} :
    directory ∈ table.directoriesTo place names id ↔
      ∃ identity, resolveIdentity table id = .ok identity ∧
        directory ∈ placesOn place (names ++ identity.resource.directories) := by
  rw [ElementTable.directoriesTo]
  cases resolveIdentity table id <;> simp

theorem markerPlaces_cons (output : Place) (result : MarkResult) (results : List MarkResult) :
    markerPlaces output (result :: results) =
      markerPlaces output [result] ++ markerPlaces output results := by
  rw [markerPlaces, markerPlaces, markerPlaces, ← List.map_append, ← List.filterMap_append,
    List.singleton_append]

theorem mem_markerPlaces_iff {output : Place} {results : List MarkResult} {file : Place} :
    file ∈ markerPlaces output results ↔
      ∃ identity ∈ results.filterMap MarkResult.artifact?, file = identity.markerPlace output := by
  rw [markerPlaces, List.mem_map]
  simp only [eq_comm]

/-- What marking classes one after the other does on disk.  Whether a marker is blocked is a matter of
the tree at the start, whatever is marked before. -/
theorem MarksAll.gains_disk
    {tree : FileTree} (hroot : tree.HostsRoot root base place names) {ids : List ElementId}
    (hids : ∀ id ∈ ids, ∀ identity, resolveIdentity table id = .ok identity →
      identity.IsWritable root)
    {results : List MarkResult} {last : FileTree}
    (h : MarksAll (diskFiler root) now table ids tree results last) :
    tree.Gains last (markerPlaces (place ++ names) results)
        (ids.flatMap (table.directoriesTo place names)) (Text.encode (provenance now)) ∧
      List.Forall₂ (fun id result => result.IsDecidedBy table (tree.Blocks place names) id) ids
        results ∧
      ∀ identity ∈ results.filterMap MarkResult.artifact?,
        ∀ other ∈ placesOn place (names ++ identity.resource.directories),
          last.node? other = some .directory := by
  induction h with
  | nil => exact ⟨.refl _ _ _, .nil, by simp⟩
  | @cons id rest tree middle last result results hfirst _ ih =>
      obtain ⟨hid, hrest⟩ := List.forall_mem_cons.1 hids
      obtain ⟨hgains, hresult, hdirectories⟩ := hfirst.gains_disk hroot hid
      obtain ⟨hmore, hresults, hmoreDirectories⟩ :=
        ih (hroot.of_keepsWays hgains.keepsWays) hrest
      have hsame := hgains.blocks_iff place names
        (fun file hfile => by
          obtain ⟨identity, -, hplace⟩ := mem_markerPlaces_iff.1 hfile
          exact ⟨identity, hplace⟩)
        (fun directory hdirectory => by
          obtain ⟨identity, -, hway⟩ := mem_directoriesTo_iff.1 hdirectory
          exact ⟨identity, hway⟩)
      refine ⟨?_, .cons hresult (hresults.imp fun _ _ hother => hother.congr hsame), ?_⟩
      · rw [markerPlaces_cons, List.flatMap_cons]
        exact hgains.trans hmore
      · intro identity hidentity other hother
        obtain ⟨found, hfound, hartifact⟩ := List.mem_filterMap.1 hidentity
        rcases List.mem_cons.1 hfound with rfl | hfound
        · exact hmore.keepsWays.directory other (hdirectories identity hartifact other hother)
        · exact hmoreDirectories identity (List.mem_filterMap.2 ⟨found, hfound, hartifact⟩) other
            hother

end Marking

end ComponentMarkers
