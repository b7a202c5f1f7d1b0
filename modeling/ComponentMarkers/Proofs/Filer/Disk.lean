import ComponentMarkers.Filer.Disk
import ComponentMarkers.Proofs.Filer.Fates
import ComponentMarkers.Proofs.FileSystem.Directories

/-!
# Writing a resource to disk

A resource below an output root is finished unless something obstructs it: a file where a directory is
needed, or a directory where its own file is to be.  When it is finished the file has just the content
that was written, however long, whatever was there before.  In either case nothing else happens but
that directories are made where nothing was.
-/

namespace ComponentMarkers

open Text ComponentMarkers.Path Component

theorem exists_splitText_eq_concat (mark : Char) (text : String) :
    ∃ init last, splitText mark text = init ++ [last] :=
  ⟨_, _, (List.dropLast_append_getLast
    (mt List.map_eq_nil_iff.1 (splitAt_ne_nil mark text.toList))).symm⟩

namespace ResourceName

/-- The directories that lead to the file of a resource from an output root. -/
def directories (resource : ResourceName) : List String :=
  (segments resource.package).filter (· ≠ "")

/-- There are no slashes in the package, and the name is made of steps to names, with single slashes
between them. -/
structure IsSegmented (resource : ResourceName) : Prop where
  package : '/' ∉ resource.package.toList
  name : ∀ segment ∈ splitText '/' resource.name, IsName segment

/-- The names on the way from an output root to a resource. -/
def way (resource : ResourceName) : List String :=
  resource.directories ++ splitText '/' resource.name

/-- The path of a resource goes through directories to a name and ends there, wherever it is taken
from. -/
structure GoesTo (resource : ResourceName) (directories : List String) (name : String) : Prop where
  isPlainName : isPlainName resource.name
  components_join : ∀ root : Path, (root.join resource.path).components =
    root.components ++ (directories ++ [name]).map .normal
  pieces_join : ∀ root : Path, ∃ init, (root.join resource.path).pieces = init ++ [name]
  endsWithSlash_join : ∀ root : Path, (root.join resource.path).endsWithSlash = false

section Segmented

variable {resource : ResourceName} (h : resource.IsSegmented)

include h

theorem IsSegmented.name_ne_empty : resource.name ≠ "" := by
  intro hempty
  have hname := h.name "" (by rw [hempty]; decide)
  exact hname.ne_empty rfl

theorem IsSegmented.lead_name : lead ⟨resource.name⟩ = [] := by
  have hrelative : ¬ isAbsolute ⟨resource.name⟩ := by
    intro habsolute
    obtain ⟨chars, hchars⟩ := List.head?_eq_some_iff.1 (of_decide_eq_true habsolute)
    refine (h.name "" ?_).ne_empty rfl
    dsimp only at hchars
    rw [splitText, hchars, splitAt, if_pos rfl]
    exact List.mem_cons_self
  rw [lead, if_neg hrelative, if_neg]
  intro hfirst
  exact (h.name "." (List.mem_of_mem_head? hfirst)).ne_dot rfl

theorem IsSegmented.stepsBetween_name :
    stepsBetween resource.name = (splitText '/' resource.name).map .normal := by
  rw [stepsBetween, ← List.filterMap_eq_map]
  refine List.filterMap_congr fun segment hsegment => ?_
  obtain ⟨hempty, hdot, hdots, -⟩ := h.name segment hsegment
  rw [ofPiece?.eq_def]
  split
  · exact absurd rfl hempty
  · exact absurd rfl hdot
  · exact absurd rfl hdots
  · rfl

theorem IsSegmented.isPlainName : isPlainName resource.name := by
  refine (isPlainName_iff _).2 ⟨h.name_ne_empty, h.lead_name, fun step hstep => ?_⟩
  rw [h.stepsBetween_name] at hstep
  obtain ⟨segment, -, rfl⟩ := List.mem_map.1 hstep
  exact ⟨segment, rfl⟩

theorem IsSegmented.isName_of_mem_directories {directory : String}
    (hdirectory : directory ∈ resource.directories) :
    IsName directory ∧ '.' ∉ directory.toList := by
  obtain ⟨hmem, hempty⟩ := List.mem_filter.1 hdirectory
  have hdot := dot_not_mem_of_mem_segments hmem
  refine ⟨⟨of_decide_eq_true hempty, ?_, ?_, ?_⟩, hdot⟩
  · rintro rfl
    exact hdot (by decide)
  · rintro rfl
    exact hdot (by decide)
  · obtain ⟨chars, hchars, rfl⟩ := List.mem_map.1 hmem
    rw [String.toList_ofList]
    exact fun hslash => h.package (mem_of_mem_splitAt hchars hslash).1

theorem IsSegmented.lead_path : resource.path.lead = [] := by
  rw [path, (resourcePath_spec resource.package h.isPlainName).1, if_neg]
  rintro ⟨segment, hsegment, habsolute⟩
  have hmem : segment ∈ resource.directories := by
    refine List.mem_filter.2 ⟨hsegment, decide_eq_true ?_⟩
    rintro rfl
    cases habsolute
  exact (h.isName_of_mem_directories hmem).1.slash_not_mem
    (List.mem_of_mem_head? (of_decide_eq_true habsolute))

theorem IsSegmented.components_path : resource.path.components = resource.way.map .normal := by
  obtain ⟨hpackageLead, hpackageSteps⟩ := packagePath_of_slash_not_mem h.package
  rw [path, resourcePath, components_join _ h.lead_name, components_eq (packagePath _),
    hpackageLead, hpackageSteps, List.nil_append, components_eq, h.lead_name, List.nil_append,
    h.stepsBetween_name, way, List.map_append]
  rfl

/-- A text does not end with a slash if its last piece is not empty. -/
theorem IsSegmented.endsWithSlash_name : endsWithSlash ⟨resource.name⟩ = false := by
  have hjoined : "/".intercalate (splitText '/' resource.name) = resource.name :=
    intercalate_splitText '/' _
  obtain ⟨init, last, hparts⟩ := exists_splitText_eq_concat '/' resource.name
  have hlast := h.name last (by rw [hparts]; exact List.mem_append_right _ List.mem_cons_self)
  have hend : resource.name.toList.getLast? = last.toList.getLast? := by
    rw [hparts] at hjoined
    by_cases hinit : init = []
    · rw [hinit, List.nil_append, String.intercalate_singleton] at hjoined
      rw [hjoined]
    · rw [intercalate_concat hinit] at hjoined
      rw [← hjoined, String.toList_append, List.getLast?_append_of_ne_nil]
      exact mt String.toList_eq_nil_iff.1 hlast.ne_empty
  rw [endsWithSlash, hend]
  exact decide_eq_false fun hslash => hlast.slash_not_mem (List.mem_of_mem_getLast? hslash)

/-- The path of a resource goes through its directories and the first segments of its name to the last
one. -/
theorem IsSegmented.exists_goesTo :
    ∃ init last, splitText '/' resource.name = init ++ [last] ∧
      resource.GoesTo (resource.directories ++ init) last := by
  obtain ⟨init, last, hparts⟩ := exists_splitText_eq_concat '/' resource.name
  have hempty : resource.path.text ≠ "" := by
    intro htext
    have hnone : resource.path.components = [] := by
      rw [components_eq, h.lead_path, htext, stepsBetween_empty, List.nil_append]
    rw [h.components_path, way, hparts] at hnone
    simp at hnone
  refine ⟨init, last, hparts, h.isPlainName, fun root => ?_, fun root => ?_, fun root => ?_⟩
  · rw [components_join root h.lead_path, h.components_path, way, hparts, List.append_assoc]
  · have hname : pieces ⟨resource.name⟩ = init ++ [last] := by
      rw [pieces, ← hparts, List.filter_eq_self]
      exact fun segment hsegment => decide_eq_true (h.name segment hsegment).ne_empty
    have hpieces : resource.path.pieces =
        (packagePath resource.package).pieces ++ (init ++ [last]) :=
      (pieces_join _ h.lead_name).trans (congrArg _ hname)
    refine ⟨root.pieces ++ ((packagePath resource.package).pieces ++ init), ?_⟩
    rw [pieces_join root h.lead_path, hpieces, List.append_assoc, List.append_assoc]
  · rw [endsWithSlash_join root h.lead_path hempty]
    exact (endsWithSlash_join _ h.lead_name h.name_ne_empty).trans h.endsWithSlash_name

end Segmented

/-- There are no slashes in the package, and the name is a single step. -/
structure IsPlain (resource : ResourceName) : Prop where
  package : '/' ∉ resource.package.toList
  name : IsName resource.name

section Plain

variable {resource : ResourceName} (h : resource.IsPlain)

include h

theorem IsPlain.isSegmented : resource.IsSegmented := by
  refine ⟨h.package, fun segment hsegment => ?_⟩
  rw [splitText_of_not_mem h.name.slash_not_mem, List.mem_singleton] at hsegment
  rw [hsegment]
  exact h.name

theorem IsPlain.goesTo : resource.GoesTo resource.directories resource.name := by
  obtain ⟨init, last, hparts, hgoes⟩ := h.isSegmented.exists_goesTo
  rw [splitText_of_not_mem h.name.slash_not_mem, eq_comm, List.append_eq_singleton_iff] at hparts
  rcases hparts with ⟨rfl, hlast⟩ | ⟨-, hlast⟩
  · obtain rfl := List.singleton_inj.1 hlast
    rwa [List.append_nil] at hgoes
  · cases hlast

theorem IsPlain.components_path :
    resource.path.components = (resource.directories ++ [resource.name]).map .normal := by
  rw [h.isSegmented.components_path, way, splitText_of_not_mem h.name.slash_not_mem]

end Plain

end ResourceName

namespace FileTree

section Opening

variable {tree : FileTree} {base : Path} {place : Place} {way : List String} {name : String}

/-- When all directories on a way are there, the walk along its path arrives. -/
theorem Admits.walk_pieces
    (h : tree.Admits base place (way ++ [name]))
    (hdirectory : ∀ other ∈ placesOn place way, tree.node? other = some .directory) {path : Path}
    (hpath : path.components = base.components ++ (way ++ [name]).map .normal)
    {init : List String} (hpieces : path.pieces = init ++ [name]) :
    tree.walk path path.pieces = .ok (place ++ way ++ [name]) := by
  have hentry := h.isEntryName name (List.mem_append_right _ (List.mem_singleton.2 rfl))
  have hlast : tree.HasNoLinkAt (placesOn (place ++ way) [name]) := fun other hother =>
    h.noLink other (by
      rw [placesOn_append]
      exact List.mem_append_right _ hother)
  have hinit : init.filter (· ≠ ".") = base.components.filterMap entry? ++ way := by
    have hfilter := pieces_filter path
    rw [hpieces, hpath, List.filter_append, List.filterMap_append, filterMap_entry?_map_normal,
      List.filter_cons_of_pos (by simpa using hentry.ne_dot), List.filter_nil,
      ← List.append_assoc] at hfilter
    exact List.append_cancel_right hfilter
  have hnone := (findSome?_directoryFault?_eq_none_iff h.leadsTo.directory way).2 hdirectory
  rw [findSome?_directoryFault?, Option.or_eq_none_iff] at hnone
  have hwalk : tree.walk path init = .ok (place ++ way) := by
    have hway := h.of_append.walk_entries (isAbsolute_iff_of_components_eq hpath)
    rw [← hinit, hnone.1] at hway
    rcases walk_of_dotted_of_ok (dotted_filter init) hway with hinit | ⟨fault, hfault, -⟩
    · exact hinit
    · rw [hnone.2] at hfault
      cases hfault
  obtain ⟨left, hleft⟩ := exists_follow_append hwalk
  rw [hpieces, walk, hleft, follow_way (List.forall_mem_singleton.2 hentry) hlast, placesOn,
    placesOn, List.dropLast_cons_cons, List.dropLast_singleton, List.findSome?_singleton, hnone.2]

/-- The file at the end of a way is opened if no directory is in its place. -/
theorem Admits.createFile_eq
    (h : tree.Admits base place (way ++ [name]))
    (hdirectory : ∀ other ∈ placesOn place way, tree.node? other = some .directory) {path : Path}
    (hpath : path.components = base.components ++ (way ++ [name]).map .normal)
    {init : List String} (hpieces : path.pieces = init ++ [name])
    (hslash : path.endsWithSlash = false) (haccepted : pathFault? path = none) :
    tree.createFile path =
      if tree.node? (place ++ way ++ [name]) = some .directory then .error (.system .isDirectory)
      else .ok (place ++ way ++ [name], tree.put (place ++ way ++ [name]) (.file [])) := by
  rw [createFile, openFile, haccepted]
  dsimp only
  rw [if_neg (by simp [hslash]), h.walk_pieces hdirectory hpath hpieces]
  dsimp only
  rw [openAt]
  rcases hnode : tree.node? (place ++ way ++ [name]) with _ | (_ | bytes | target)
  · simp
  · simp
  · simp
  · exact absurd hnode (h.ne_link target)

/-- The file at the end of a way is read. -/
theorem Admits.readFile_eq
    (h : tree.Admits base place (way ++ [name]))
    (hdirectory : ∀ other ∈ placesOn place way, tree.node? other = some .directory) {path : Path}
    (hpath : path.components = base.components ++ (way ++ [name]).map .normal)
    {init : List String} (hpieces : path.pieces = init ++ [name])
    (hslash : path.endsWithSlash = false) (haccepted : pathFault? path = none)
    {content : List UInt8} (hfile : tree.node? (place ++ way ++ [name]) = some (.file content)) :
    tree.readFile path = .ok content := by
  have hsteps : stepsOf path = path.pieces := by
    rw [stepsOf, if_neg (by simp [hslash])]
  have hresolve : tree.resolve? path = .ok (place ++ way ++ [name]) := by
    rw [resolve?, haccepted, hsteps]
    dsimp only
    rw [h.walk_pieces hdirectory hpath hpieces]
    dsimp only
    rw [hfile]
    rfl
  rw [readFile, hresolve]
  dsimp only
  rw [hfile]

end Opening

/-- One file is written where none or another one was. -/
theorem gains_of_node?
    {tree last : FileTree} {place : Place} {content : List UInt8}
    (hfree : tree.node? place = none ∨ ∃ old, tree.node? place = some (.file old))
    (hdirectory : last.workingDirectory = tree.workingDirectory)
    (hnode : ∀ other,
      last.node? other = if other = place then some (.file content) else tree.node? other)
    (directories : List Place) : tree.Gains last [place] directories content := by
  refine ⟨hdirectory, ?_, ?_, ?_⟩
  · intro other hother
    rw [hnode, if_pos (List.mem_singleton.1 hother)]
  · intro other hother
    rwa [List.mem_singleton.1 hother]
  · intro other hother
    rw [hnode, if_neg (mt List.mem_singleton.2 hother)]
    exact Or.inl rfl

end FileTree

/-- What a writer was given is in its file once it is flushed, be it kept back before or not, and
closing it does nothing more. -/
theorem exists_diskFiler_flush
    (root : Path) (tree : FileTree) {place : Place} (hplace : place ≠ []) (content : List UInt8) :
    ∃ writer middle closed last,
      (diskFiler root).write ⟨place, 0, []⟩ content (tree.put place (.file [])) =
        ((.ok (), writer), middle) ∧
      (diskFiler root).flush writer middle = ((.ok (), closed), last) ∧
      (diskFiler root).close closed last = last ∧
      last.workingDirectory = tree.workingDirectory ∧
      ∀ other,
        last.node? other = if other = place then some (.file content) else tree.node? other := by
  have hempty : (tree.put place (.file [])).node? place = some (.file []) := by
    rw [FileTree.node?_put tree hplace, if_pos rfl]
  have hwritten : (tree.put place (.file [])).writeAt place 0 content =
      (tree.put place (.file [])).put place (.file content) := by
    rw [FileTree.writeAt, hempty]
    simp [FileTree.overwrite]
  have hnode : ∀ other, ((tree.put place (.file [])).put place (.file content)).node? other =
      if other = place then some (.file content) else tree.node? other := by
    intro other
    rw [FileTree.node?_put _ hplace, FileTree.node?_put _ hplace]
    split <;> rfl
  by_cases hkept : content.length < DiskWriter.capacity
  · by_cases hnone : content = []
    · refine ⟨⟨place, 0, []⟩, tree.put place (.file []), ⟨place, 0, []⟩,
        tree.put place (.file []), ?_, ?_, ?_, rfl, ?_⟩
      · simp [diskFiler, DiskWriter.write, hnone, DiskWriter.capacity]
      · simp [diskFiler, DiskWriter.flush]
      · simp [diskFiler, DiskWriter.flush]
      · intro other
        rw [FileTree.node?_put _ hplace, hnone]
    · refine ⟨⟨place, 0, content⟩, tree.put place (.file []), ⟨place, content.length, []⟩, _, ?_, ?_,
        ?_, ?_, hnode⟩
      · simp [diskFiler, DiskWriter.write, hkept]
      · simp [diskFiler, DiskWriter.flush, DiskWriter.handOn, hnone, hwritten]
      · simp [diskFiler, DiskWriter.flush]
      · rfl
  · refine ⟨⟨place, content.length, []⟩, (tree.put place (.file [])).put place (.file content),
      ⟨place, content.length, []⟩, _, ?_, ?_, ?_, ?_, hnode⟩
    · simp [diskFiler, DiskWriter.write, DiskWriter.flush, DiskWriter.handOn, hkept,
        Nat.not_lt.1 hkept, hwritten]
    · simp [diskFiler, DiskWriter.flush]
    · simp [diskFiler, DiskWriter.flush]
    · rfl

namespace FileTree

/-- A file stands where a directory on the way is needed, or a directory where the file at the end of
the way is to be. -/
def IsObstructed (tree : FileTree) (place : Place) (way : List String) (name : String) : Prop :=
  (∃ other ∈ placesOn place way, ∃ bytes, tree.node? other = some (.file bytes)) ∨
    tree.node? (place ++ way ++ [name]) = some .directory

theorem concat_not_mem_placesOn (place : Place) (way : List String) (name : String) :
    place ++ way ++ [name] ∉ placesOn place way := by
  intro hmem
  obtain ⟨init, -, hprefix, hsame⟩ := (mem_placesOn_iff _ _ _).1 hmem
  have hlength := congrArg List.length hsame
  have hle := hprefix.length_le
  simp only [List.length_append, List.length_singleton] at hlength
  omega

end FileTree

open FileTree

section Resources

variable {tree : FileTree} {root base : Path} {place : Place} {names : List String}
  {resource : ResourceName}

theorem createOnDisk_of_makeDirectories
    (hname : isPlainName resource.name) {result : Except IoError Unit} {made : FileTree} :
    tree.makeDirectories (root.join resource.path).components.dropLast = (result, made) →
      createOnDisk root resource tree =
        match result with
        | .error fault => (.error fault, made)
        | .ok () =>
          match made.createFile (root.join resource.path) with
          | .error fault => (.error fault, made)
          | .ok (place, created) => (.ok ⟨place, 0, []⟩, created) := by
  intro hmake
  rw [createOnDisk, if_pos hname]
  dsimp only
  rw [hmake]
  cases result <;> rfl

/-- A resource that is obstructed is refused; else its file is opened and empty.  Directories on the way
to it are made in either case. -/
theorem createOnDisk_of_admits
    {directories : List String} {name : String} (hresource : resource.GoesTo directories name)
    (hroot : root.components = base.components ++ names.map .normal)
    (hadmits : tree.Admits base place (names ++ directories ++ [name]))
    (haccepted : pathFault? (root.join resource.path) = none) (content : List UInt8) :
    let way := names ++ directories
    let file := place ++ way ++ [name]
    ∃ made, tree.Gains made [] (placesOn place way) content ∧
      ((tree.IsObstructed place way name ∧
          ∃ fault, createOnDisk root resource tree = (.error fault, made)) ∨
        (¬ tree.IsObstructed place way name ∧
          createOnDisk root resource tree = (.ok ⟨file, 0, []⟩, made.put file (.file [])) ∧
          (made.node? file = none ∨ ∃ old, made.node? file = some (.file old)) ∧
          ∀ other ∈ placesOn place way, made.node? other = some .directory)) := by
  intro way file
  have hcomponents := hresource.components_join root
  obtain ⟨init, hpieces⟩ := hresource.pieces_join root
  have hslash := hresource.endsWithSlash_join root
  rw [hroot, List.append_assoc, ← List.map_append, ← List.append_assoc] at hcomponents
  change tree.Admits base place (way ++ [name]) at hadmits
  change _ = base.components ++ (way ++ [name]).map .normal at hcomponents
  obtain ⟨result, made, hmake, hway⟩ := hadmits.of_append.exists_makeDirectoriesFrom content
  have hdirectories : tree.makeDirectories (root.join resource.path).components.dropLast =
      (result, made) := by
    rw [makeDirectories, hcomponents, List.map_append, List.map_singleton, ← List.append_assoc,
      List.dropLast_concat]
    exact hmake
  have hcreate := createOnDisk_of_makeDirectories hresource.isPlainName hdirectories
  have hfile : made.node? file = tree.node? file :=
    hway.gains.node?_eq List.not_mem_nil (concat_not_mem_placesOn place way name)
  refine ⟨made, hway.gains, ?_⟩
  rcases result with fault | ⟨⟩
  · have hblocked := mt hway.ok_iff.2 (by simp)
    push Not at hblocked
    exact Or.inl ⟨Or.inl hblocked, fault, hcreate⟩
  · have hopened := (hadmits.of_keepsWays hway.gains.keepsWays).createFile_eq (hway.directory rfl)
      hcomponents hpieces hslash haccepted
    dsimp only at hcreate
    rw [hopened] at hcreate
    change made.node? (place ++ way ++ [name]) = _ at hfile
    rw [hfile] at hcreate
    by_cases hnode : tree.node? file = some .directory
    · rw [if_pos hnode] at hcreate
      exact Or.inl ⟨Or.inr hnode, _, hcreate⟩
    · rw [if_neg hnode] at hcreate
      refine Or.inr ⟨?_, hcreate, ?_, hway.directory rfl⟩
      · rintro (⟨other, hother, bytes, hbytes⟩ | hdirectory)
        · exact hway.ok_iff.1 rfl other hother bytes hbytes
        · exact hnode hdirectory
      · rw [hfile]
        rcases hold : tree.node? file with _ | (_ | bytes | target)
        · exact Or.inl rfl
        · exact absurd hold hnode
        · exact Or.inr ⟨bytes, rfl⟩
        · exact absurd hold (hadmits.ne_link target)

/-- A resource is finished unless it is obstructed.  Its file is all that is written, and only
directories on the way to it are made. -/
theorem writeResource_diskFiler
    (hresource : resource.IsPlain)
    (hroot : root.components = base.components ++ names.map .normal)
    (hadmits : tree.Admits base place (names ++ resource.directories ++ [resource.name]))
    (haccepted : pathFault? (root.join resource.path) = none) {origin : Option ElementId}
    {content : List UInt8} {result : Except IoError Unit} {last : FileTree}
    (hwrite : (diskFiler root).writeResource resource origin content tree = (result, last)) :
    let way := names ++ resource.directories
    tree.Gains last (if result = .ok () then [place ++ way ++ [resource.name]] else [])
        (placesOn place way) content ∧
      (result = .ok () ↔ ¬ tree.IsObstructed place way resource.name) ∧
      (result = .ok () → ∀ other ∈ placesOn place way, last.node? other = some .directory) := by
  intro way
  obtain ⟨made, hgains, ⟨hblocked, fault, hcreate⟩ | ⟨hfree, hcreate, hnode, hdirectory⟩⟩ :=
    createOnDisk_of_admits hresource.goesTo hroot hadmits haccepted content
  · rw [(Filer.writeResource_of_create_error content
      (show (diskFiler root).create resource origin tree = _ from hcreate)).1] at hwrite
    obtain ⟨rfl, rfl⟩ := Prod.mk.inj hwrite
    exact ⟨by simpa using hgains, iff_of_false (by simp) (not_not.2 hblocked),
      fun hok => by cases hok⟩
  · obtain ⟨writer, middle, closed, end', hwritten, hflush, hclose, hworking, hnodes⟩ :=
      exists_diskFiler_flush root made (show place ++ way ++ [resource.name] ≠ [] by simp) content
    rw [(Filer.writeResource_of_flush_ok
      (show (diskFiler root).create resource origin tree = _ from hcreate) hwritten hflush).1,
      hclose] at hwrite
    obtain ⟨rfl, rfl⟩ := Prod.mk.inj hwrite
    refine ⟨?_, iff_of_true rfl hfree, fun _ other hother => ?_⟩
    · have hwhole := hgains.trans (gains_of_node? hnode hworking hnodes [])
      rwa [List.append_nil] at hwhole
    · rw [hnodes, if_neg]
      · exact hdirectory other hother
      · rintro rfl
        exact concat_not_mem_placesOn place way resource.name hother

end Resources

end ComponentMarkers
