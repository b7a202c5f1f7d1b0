import ComponentMarkers.Proofs.Filer.Runs
import ComponentMarkers.Proofs.Marking.Disk
import ComponentMarkers.Proofs.Path.Order

/-!
# Runs over an output root

A writer on disk keeps bytes back, so what is in its file is only the first part of what it was given.
What is in the file and what is kept back are the whole of it at any time, and no other writer has a say
in this as long as there is one open writer for each path.  When all writers are dropped, each file has
all that its last writer was given.
-/

namespace ComponentMarkers

open Text ComponentMarkers.Path Component FileTree

namespace DiskWriter

/-- The file of the writer has the first part of a text, and the writer keeps back the rest. -/
def Carries (writer : DiskWriter) (tree : FileTree) (text : List UInt8) : Prop :=
  ∃ content, tree.node? writer.place = some (.file content) ∧ writer.offset = content.length ∧
    content ++ writer.kept = text

theorem Carries.congr
    {writer : DiskWriter} {before after : FileTree} {text : List UInt8}
    (h : writer.Carries before text)
    (hsame : after.node? writer.place = before.node? writer.place) : writer.Carries after text := by
  obtain ⟨content, hfile, hrest⟩ := h
  exact ⟨content, hsame.trans hfile, hrest⟩

/-- A writer that keeps nothing back has all of its text in its file. -/
theorem Carries.node?_of_kept
    {writer : DiskWriter} {tree : FileTree} {text : List UInt8} (h : writer.Carries tree text)
    (hkept : writer.kept = []) : tree.node? writer.place = some (.file text) := by
  obtain ⟨content, hfile, -, rfl⟩ := h
  rw [hfile, hkept, List.append_nil]

/-- The writer goes on to carry a text.  Nothing changes but its own file. -/
structure GoesOn (writer next : DiskWriter) (before after : FileTree) (text : List UInt8) : Prop where
  place_eq : next.place = writer.place
  carries : next.Carries after text
  workingDirectory_eq : after.workingDirectory = before.workingDirectory
  elsewhere : ∀ place, place ≠ writer.place → after.node? place = before.node? place

theorem GoesOn.trans
    {writer next last : DiskWriter} {before middle after : FileTree} {text more : List UInt8}
    (h : writer.GoesOn next before middle text) (hmore : next.GoesOn last middle after more) :
    writer.GoesOn last before after more := by
  refine ⟨hmore.place_eq.trans h.place_eq, hmore.carries,
    hmore.workingDirectory_eq.trans h.workingDirectory_eq, fun place hplace => ?_⟩
  rw [hmore.elsewhere place (by rwa [h.place_eq]), h.elsewhere place hplace]

theorem Carries.goesOn_self
    {writer : DiskWriter} {tree : FileTree} {text : List UInt8} (h : writer.Carries tree text) :
    writer.GoesOn writer tree tree text :=
  ⟨rfl, h, rfl, fun _ _ => rfl⟩

theorem Carries.keeps
    {writer : DiskWriter} {tree : FileTree} {text : List UInt8} (h : writer.Carries tree text)
    (bytes : List UInt8) :
    writer.GoesOn { writer with kept := writer.kept ++ bytes } tree tree (text ++ bytes) := by
  obtain ⟨content, hfile, hoffset, rfl⟩ := h
  exact ⟨rfl, ⟨content, hfile, hoffset, (List.append_assoc _ _ _).symm⟩, rfl, fun _ _ => rfl⟩

theorem overwrite_end (content bytes : List UInt8) :
    overwrite content content.length bytes = content ++ bytes := by
  simp [overwrite]

/-- Bytes are handed on to the end of the file. -/
theorem handOn_goesOn
    {writer : DiskWriter} {tree : FileTree} {content : List UInt8}
    (hfile : tree.node? writer.place = some (.file content))
    (hoffset : writer.offset = content.length) (bytes kept : List UInt8) :
    writer.GoesOn { (writer.handOn bytes tree).1 with kept := kept } tree
      (writer.handOn bytes tree).2 (content ++ bytes ++ kept) := by
  have hplace : writer.place ≠ [] := by
    intro hroot
    rw [hroot, node?_nil] at hfile
    cases hfile
  have hnode : ∀ other, (writer.handOn bytes tree).2.node? other =
      if other = writer.place then some (.file (content ++ bytes)) else tree.node? other := by
    intro other
    rw [handOn]
    dsimp only
    rw [writeAt, hfile]
    dsimp only
    rw [hoffset, overwrite_end, node?_put tree hplace]
  refine ⟨rfl, ⟨content ++ bytes, ?_, ?_, rfl⟩, ?_, fun other hother => ?_⟩
  · exact (hnode writer.place).trans (if_pos rfl)
  · rw [handOn]
    dsimp only
    rw [hoffset, List.length_append]
  · rw [handOn]
    dsimp only
    rw [writeAt, hfile]
    rfl
  · rw [hnode, if_neg hother]

theorem Carries.keepsWays
    {writer next : DiskWriter} {before after : FileTree} {text more : List UInt8}
    (h : writer.Carries before text) (hgoes : writer.GoesOn next before after more) :
    before.KeepsWays after := by
  obtain ⟨content, hfile, -⟩ := h
  obtain ⟨last, hlast, -⟩ := hgoes.carries
  rw [hgoes.place_eq] at hlast
  refine ⟨hgoes.workingDirectory_eq, fun place hdirectory => ?_, fun place target => ?_⟩
  · by_cases hplace : place = writer.place
    · rw [hplace, hfile] at hdirectory
      cases hdirectory
    · rw [hgoes.elsewhere place hplace, hdirectory]
  · by_cases hplace : place = writer.place
    · rw [hplace, hfile, hlast]
      simp
    · rw [hgoes.elsewhere place hplace]

/-- Nothing is kept back behind a flush. -/
theorem Carries.flush
    {writer : DiskWriter} {tree : FileTree} {text : List UInt8} (h : writer.Carries tree text) :
    writer.GoesOn (writer.flush tree).1 tree (writer.flush tree).2 text ∧
      (writer.flush tree).1.kept = [] := by
  rw [DiskWriter.flush]
  split_ifs with hempty
  · exact ⟨h.goesOn_self, List.isEmpty_iff.1 hempty⟩
  · obtain ⟨content, hfile, hoffset, rfl⟩ := h
    have hgoes := handOn_goesOn hfile hoffset writer.kept []
    rw [List.append_nil] at hgoes
    exact ⟨hgoes, rfl⟩

theorem Carries.handOn
    {writer : DiskWriter} {tree : FileTree} {text : List UInt8} (h : writer.Carries tree text)
    (hkept : writer.kept = []) (bytes : List UInt8) :
    writer.GoesOn (writer.handOn bytes tree).1 tree (writer.handOn bytes tree).2
      (text ++ bytes) := by
  obtain ⟨content, hfile, hoffset, rfl⟩ := h
  have hgoes : writer.GoesOn (writer.handOn bytes tree).1 tree (writer.handOn bytes tree).2
      (content ++ bytes ++ writer.kept) := handOn_goesOn hfile hoffset bytes writer.kept
  rwa [hkept, List.append_nil] at hgoes ⊢

/-- Whatever is kept back and whatever is handed on, a writer carries what it is given. -/
theorem Carries.write
    {writer : DiskWriter} {tree : FileTree} {text : List UInt8} (h : writer.Carries tree text)
    (bytes : List UInt8) :
    writer.GoesOn (writer.write bytes tree).1 tree (writer.write bytes tree).2 (text ++ bytes) := by
  rw [DiskWriter.write]
  dsimp only
  split_ifs with hroom hfull hlarge hlarge
  · exact h.keeps bytes
  · obtain ⟨hflush, hkept⟩ := h.flush
    exact hflush.trans (hflush.carries.handOn hkept bytes)
  · -- The piece fills the room exactly, and the room is all that there is.
    refine h.handOn (List.length_eq_zero_iff.1 ?_) bytes
    have hcapacity : 0 < capacity := by decide
    omega
  · exact h.flush.1.trans (h.flush.1.carries.keeps bytes)
  · exact h.keeps bytes

end DiskWriter

/-- Beside using only open writers, a run creates no resource while a writer is open for its path, be it
for another location. -/
def OneWriterAPath (before : List FilerStep) (step : FilerStep) : Prop :=
  OnOpenWriter before step ∧
    ∀ resource ∈ step.created?, isPlainName resource.name →
      ∀ n other, IsOpenFor before n other → ¬ other.path.same resource.path

instance (before : List FilerStep) (step : FilerStep) : Decidable (OneWriterAPath before step) :=
  decidable_of_iff
    (OnOpenWriter before step ∧
      ∀ resource ∈ step.created?, isPlainName resource.name →
        ∀ n < (creations before).length, ∀ other ∈ (creations before)[n]?,
          IsOpenFor before n other → ¬ other.path.same resource.path)
    (and_congr_right fun _ => forall₃_congr fun _ _ _ =>
      ⟨fun h n other hopen => h n hopen.lt_length other hopen.created hopen,
        fun h n _ other _ hopen => h n other hopen⟩)

/-- The resources that a run creates can all be files below an output root: they go there by names, the
file system takes their paths, and none of them is a directory on the way to another one. -/
structure FitsBelow (root : Path) (resources : List ResourceName) : Prop where
  segmented : ∀ resource ∈ resources, isPlainName resource.name → resource.IsSegmented
  accepts : ∀ resource ∈ resources, isPlainName resource.name → Accepts (root.join resource.path)
  eq_of_isPrefix : ∀ resource ∈ resources, ∀ other ∈ resources, isPlainName resource.name →
    isPlainName other.name → resource.path.components <+: other.path.components →
      resource.path.components = other.path.components

instance (resource : ResourceName) : Decidable resource.IsSegmented :=
  decidable_of_iff
    ('/' ∉ resource.package.toList ∧ ∀ segment ∈ splitText '/' resource.name, IsName segment)
    ⟨fun h => ⟨h.1, h.2⟩, fun h => ⟨h.package, h.name⟩⟩

instance (root : Path) (resources : List ResourceName) : Decidable (FitsBelow root resources) :=
  decidable_of_iff
    ((∀ resource ∈ resources, isPlainName resource.name → resource.IsSegmented) ∧
      (∀ resource ∈ resources, isPlainName resource.name → Accepts (root.join resource.path)) ∧
      ∀ resource ∈ resources, ∀ other ∈ resources, isPlainName resource.name →
        isPlainName other.name → resource.path.components <+: other.path.components →
          resource.path.components = other.path.components)
    ⟨fun h => ⟨h.1, h.2.1, h.2.2⟩, fun h => ⟨h.segmented, h.accepts, h.eq_of_isPrefix⟩⟩

theorem FitsBelow.of_subset
    {root : Path} {resources others : List ResourceName} (h : FitsBelow root others)
    (hsubset : resources ⊆ others) : FitsBelow root resources :=
  ⟨fun resource hresource => h.segmented resource (hsubset hresource),
    fun resource hresource => h.accepts resource (hsubset hresource),
    fun resource hresource other hother =>
      h.eq_of_isPrefix resource (hsubset hresource) other (hsubset hother)⟩

/-- After some operations the next one drops a writer whose resource has these names on its path. -/
def DropsOn (way : List String) (before : List FilerStep) (n : Nat) (step : FilerStep) : Prop :=
  step = .drop n ∧ ∃ resource ∈ (creations before)[n]?, resource.path.components = way.map .normal

theorem ResourceName.IsSegmented.same_iff
    {resource other : ResourceName} (h : resource.IsSegmented) (hother : other.IsSegmented) :
    resource.path.same other.path ↔ resource.way = other.way := by
  rw [Path.same_iff, h.components_path, hother.components_path, map_normal_inj]

theorem FitsBelow.eq_of_way_isPrefix
    {root : Path} {resources : List ResourceName} (h : FitsBelow root resources)
    {resource other : ResourceName} (hresource : resource ∈ resources) (hother : other ∈ resources)
    (hplain : isPlainName resource.name) (hotherPlain : isPlainName other.name)
    (hway : resource.way <+: other.way) : resource.way = other.way := by
  have hsame := h.eq_of_isPrefix resource hresource other hother hplain hotherPlain
  rw [(h.segmented resource hresource hplain).components_path,
    (h.segmented other hother hotherPlain).components_path, map_normal_inj] at hsame
  exact hsame (hway.map _)

theorem ResourceName.IsSegmented.way_ne_nil {resource : ResourceName} (h : resource.IsSegmented) :
    resource.way ≠ [] := by
  obtain ⟨init, last, hparts, -⟩ := h.exists_goesTo
  rw [ResourceName.way, hparts]
  simp

theorem IsOpenFor.mem_creations {steps : List FilerStep} {n : Nat} {resource : ResourceName}
    (h : IsOpenFor steps n resource) : resource ∈ creations steps :=
  List.mem_of_getElem? h.created

theorem Path.same_comm {path other : Path} (h : path.same other) : other.same path := by
  rw [Path.same_iff] at h ⊢
  exact h.symm

/-- Open writers have paths of their own. -/
theorem IsOpenFor.eq_of_same
    {steps : List FilerStep} (h : KeepsRule OneWriterAPath steps) {n m : Nat}
    {resource other : ResourceName} (hn : IsOpenFor steps n resource)
    (hm : IsOpenFor steps m other) (hsame : resource.path.same other.path) : n = m := by
  induction steps using List.reverseRecOn with
  | nil => cases hn.created
  | append_singleton steps step ih =>
      obtain ⟨hsteps, -, hpath⟩ := keepsRule_concat_iff.1 h
      cases hstep : step.used? with
      | some k =>
          rw [isOpenFor_concat_iff_of_used? hstep] at hn hm
          exact ih hsteps hn.1 hm.1
      | none =>
          cases step with
          | create created origin =>
              rw [isOpenFor_create_iff (hsteps.imp fun _ _ hrule => hrule.1)] at hn hm
              rcases hn with ⟨rfl, rfl, hplain⟩ | hn
              · rcases hm with ⟨rfl, -, -⟩ | hm
                · rfl
                · exact absurd (Path.same_comm hsame) (hpath _ rfl hplain m other hm)
              · rcases hm with ⟨rfl, rfl, hplain⟩ | hm
                · exact absurd hsame (hpath _ rfl hplain n resource hn)
                · exact ih hsteps hn hm
          | write => cases hstep
          | flush => cases hstep
          | drop => cases hstep

section Runs

variable {root base : Path} {place : Place} {names : List String}

/-- What is below the output root during a run: each open writer carries all that it was given, the file
of a path without an open writer has all that the last writer of the path was given, and nothing else is
there but directories on the way to resources. -/
structure StoresOnDisk (root base : Path) (place : Place) (names : List String)
    (steps : List FilerStep) (run : FilerRun FileTree DiskWriter) : Prop
    extends run.Follows steps where
  hostsRoot : run.state.HostsRoot root base place names
  clear : ∀ other ∈ placesOn place names, ∀ bytes, run.state.node? other ≠ some (.file bytes)
  carries : ∀ n writer resource, run.writer? n = some writer → IsOpenFor steps n resource →
    writer.place = place ++ names ++ resource.way ∧ writer.Carries run.state (written steps n)
  dropped : ∀ way n content, (∀ m other, IsOpenFor steps m other → other.way ≠ way) →
    LastActs (DropsOn way) n content steps →
      run.state.node? (place ++ names ++ way) = some (.file content)
  below : ∀ more, more ≠ [] → run.state.node? (place ++ names ++ more) = none ∨
    (run.state.node? (place ++ names ++ more) = some .directory ∧
      ∃ resource ∈ creations steps, isPlainName resource.name ∧
        more <+: resource.way ∧ more ≠ resource.way) ∨
    ((∃ bytes, run.state.node? (place ++ names ++ more) = some (.file bytes)) ∧
      ∃ resource ∈ creations steps, isPlainName resource.name ∧ more = resource.way)

variable {steps : List FilerStep} {run : FilerRun FileTree DiskWriter}

/-- A resource below the output root is created when none of the others is in its way. -/
theorem StoresOnDisk.exists_createOnDisk
    (h : StoresOnDisk root base place names steps run) {resource : ResourceName}
    (hplain : isPlainName resource.name)
    (hfits : FitsBelow root (creations steps ++ [resource])) :
    ∃ last, createOnDisk root resource run.state =
        (.ok ⟨place ++ names ++ resource.way, 0, []⟩, last) ∧
      run.state.Gains last [place ++ names ++ resource.way]
        (placesOn place (names ++ resource.way.dropLast)) [] := by
  have hmem : resource ∈ creations steps ++ [resource] :=
    List.mem_append_right _ (List.mem_singleton.2 rfl)
  have hsegmented := hfits.segmented resource hmem hplain
  have haccepts := hfits.accepts resource hmem hplain
  obtain ⟨init, name, hparts, hgoes⟩ := hsegmented.exists_goesTo
  have hway : resource.way = resource.directories ++ init ++ [name] := by
    rw [ResourceName.way, hparts, List.append_assoc]
  obtain ⟨made, hgains, hcreate⟩ := createOnDisk_of_admits hgoes h.hostsRoot.components_eq
    (h.hostsRoot.admits hgoes haccepts) haccepts.pathFault?_eq []
  have hplace : place ++ (names ++ (resource.directories ++ init)) ++ [name] =
      place ++ names ++ resource.way := by
    rw [hway]
    simp only [List.append_assoc]
  have hfree : ¬ run.state.IsObstructed place (names ++ (resource.directories ++ init)) name := by
    rintro (⟨other, hother, bytes, hbytes⟩ | hdirectory)
    · rw [placesOn_append, List.mem_append] at hother
      rcases hother with hother | hother
      · exact h.clear other hother bytes hbytes
      · obtain ⟨more, hne, hmore, rfl⟩ := (mem_placesOn_iff _ _ _).1 hother
        rcases h.below more hne with hnone | ⟨hnode, -⟩ | ⟨-, found, hfound, hfoundPlain, rfl⟩
        · rw [hnone] at hbytes
          cases hbytes
        · rw [hnode] at hbytes
          cases hbytes
        · have hsame := hfits.eq_of_way_isPrefix (List.mem_append_left _ hfound) hmem hfoundPlain
            hplain (by
              rw [hway]
              exact hmore.trans (List.prefix_append _ _))
          have hlength := hmore.length_le
          rw [hsame, hway, List.length_append, List.length_singleton] at hlength
          omega
    · rw [hplace] at hdirectory
      rcases h.below resource.way hsegmented.way_ne_nil with
        hnone | ⟨-, found, hfound, hfoundPlain, hmore, hne⟩ | ⟨⟨bytes, hbytes⟩, -⟩
      · rw [hnone] at hdirectory
        cases hdirectory
      · exact hne (hfits.eq_of_way_isPrefix hmem (List.mem_append_left _ hfound) hplain hfoundPlain
          hmore)
      · rw [hbytes] at hdirectory
        cases hdirectory
  rcases hcreate with ⟨hblocked, -⟩ | ⟨-, hcreate, hnode, -⟩
  · exact absurd hblocked hfree
  · rw [hplace] at hcreate hnode
    have hput : made.Gains (made.put (place ++ names ++ resource.way) (.file []))
        [place ++ names ++ resource.way] [] [] :=
      gains_of_node? hnode (by rfl) (node?_put made (by simp [hway]) (.file [])) []
    have hwhole := hgains.trans hput
    rw [List.nil_append, List.append_nil] at hwhole
    refine ⟨_, hcreate, ?_⟩
    rwa [hway, List.dropLast_concat, ← hway]

/-- The place of a resource is none on the way to the output root. -/
theorem not_mem_placesOn_of_ne_nil {way : List String} (hway : way ≠ []) :
    place ++ names ++ way ∉ placesOn place names := by
  intro hmem
  obtain ⟨init, -, hprefix, hsame⟩ := (mem_placesOn_iff _ _ _).1 hmem
  rw [List.append_assoc, List.append_cancel_left_eq] at hsame
  have hlength := hprefix.length_le
  have hpositive := List.length_pos_iff.2 hway
  rw [← hsame, List.length_append] at hlength
  omega

/-- What is below the output root may stay when more resources are created. -/
theorem StoresOnDisk.below_of_subset
    (h : StoresOnDisk root base place names steps run) {resources : List ResourceName}
    (hsubset : creations steps ⊆ resources) {more : List String} (hmore : more ≠ []) :
    run.state.node? (place ++ names ++ more) = none ∨
      (run.state.node? (place ++ names ++ more) = some .directory ∧
        ∃ resource ∈ resources, isPlainName resource.name ∧
          more <+: resource.way ∧ more ≠ resource.way) ∨
      ((∃ bytes, run.state.node? (place ++ names ++ more) = some (.file bytes)) ∧
        ∃ resource ∈ resources, isPlainName resource.name ∧ more = resource.way) := by
  rcases h.below more hmore with hnone | ⟨hdirectory, found, hfound, hrest⟩ |
    ⟨hbytes, found, hfound, hrest⟩
  · exact Or.inl hnone
  · exact Or.inr (Or.inl ⟨hdirectory, found, hsubset hfound, hrest⟩)
  · exact Or.inr (Or.inr ⟨hbytes, found, hsubset hfound, hrest⟩)

section Creation

variable {resource : ResourceName} {last : FileTree}

theorem not_mem_singleton_of_way_ne {way : List String} (h : way ≠ resource.way) :
    place ++ names ++ way ∉ [place ++ names ++ resource.way] :=
  fun hmem => h (List.append_cancel_left (List.mem_singleton.1 hmem))

/-- A creation puts its file below the output root, and directories on the way to it. -/
theorem StoresOnDisk.below_of_gains
    (h : StoresOnDisk root base place names steps run) (hplain : isPlainName resource.name)
    (hgains : run.state.Gains last [place ++ names ++ resource.way]
      (placesOn place (names ++ resource.way.dropLast)) []) {more : List String} (hmore : more ≠ []) :
    last.node? (place ++ names ++ more) = none ∨
      (last.node? (place ++ names ++ more) = some .directory ∧
        ∃ found ∈ creations steps ++ [resource], isPlainName found.name ∧
          more <+: found.way ∧ more ≠ found.way) ∨
      ((∃ bytes, last.node? (place ++ names ++ more) = some (.file bytes)) ∧
        ∃ found ∈ creations steps ++ [resource], isPlainName found.name ∧ more = found.way) := by
  have hmem : resource ∈ creations steps ++ [resource] :=
    List.mem_append_right _ (List.mem_singleton.2 rfl)
  by_cases hsame : more = resource.way
  · refine Or.inr (Or.inr ⟨⟨[], ?_⟩, resource, hmem, hplain, hsame⟩)
    rw [hsame]
    exact hgains.file_eq _ (List.mem_singleton.2 rfl)
  · rcases hgains.other _ (not_mem_singleton_of_way_ne hsame) with hnode | ⟨hmade, -, hdirectory⟩
    · rw [hnode]
      exact h.below_of_subset (List.subset_append_left _ _) hmore
    · obtain ⟨init, -, hinit, heq⟩ := (mem_placesOn_iff _ _ _).1 hmade
      rw [List.append_assoc, List.append_cancel_left_eq] at heq
      rw [← heq, List.prefix_append_right_inj] at hinit
      exact Or.inr (Or.inl ⟨hdirectory, resource, hmem, hplain,
        hinit.trans (List.dropLast_prefix _), hsame⟩)

theorem StoresOnDisk.create
    (h : StoresOnDisk root base place names steps run) (hsteps : KeepsRule OneWriterAPath steps)
    {origin : Option ElementId} (hstep : OneWriterAPath steps (.create resource origin))
    (hplain : isPlainName resource.name) (hfits : FitsBelow root (creations steps ++ [resource])) :
    StoresOnDisk root base place names (steps ++ [.create resource origin])
      (run.created (createOnDisk root resource run.state)) := by
  obtain ⟨last, hcreate, hgains⟩ := h.exists_createOnDisk hplain hfits
  have huses := hsteps.imp fun _ _ hrule => hrule.1
  have hsegmented := hfits.segmented resource
    (List.mem_append_right _ (List.mem_singleton.2 rfl)) hplain
  have hcreations : creations (steps ++ [.create resource origin]) = creations steps ++ [resource] :=
    creations_concat _ _
  -- No other writer is open for the path, so the files of open writers stay as they are.
  have hways : ∀ {m other}, IsOpenFor steps m other → other.way ≠ resource.way := by
    intro m other hopen hway
    have hotherSegmented := hfits.segmented other (List.mem_append_left _ hopen.mem_creations)
      hopen.plain
    exact hstep.2 resource rfl hplain m other hopen ((hotherSegmented.same_iff hsegmented).2 hway)
  rw [hcreate]
  refine ⟨h.toFollows.created huses origin ?_, ?_, ?_, ?_, ?_, ?_⟩
  · rw [FilerStep.answer, if_pos hplain]
    rfl
  · rw [FilerRun.state_created]
    exact h.hostsRoot.of_keepsWays hgains.keepsWays
  · intro other hother bytes
    have hfile : other ∉ [place ++ names ++ resource.way] := by
      rintro hmem
      rw [List.mem_singleton.1 hmem] at hother
      exact not_mem_placesOn_of_ne_nil hsegmented.way_ne_nil hother
    rw [FilerRun.state_created, Ne, hgains.file_iff hfile]
    exact h.clear other hother bytes
  · intro n writer found hwriter hfound
    rw [FilerRun.writer?_created, h.length_eq] at hwriter
    rw [isOpenFor_create_iff huses] at hfound
    rw [FilerRun.state_created, written_concat]
    rcases hfound with ⟨rfl, rfl, -⟩ | hfound
    · rw [if_pos rfl] at hwriter
      obtain rfl := Option.some.inj hwriter
      rw [huses.written_length_eq_nil]
      exact ⟨rfl, [], hgains.file_eq _ (List.mem_singleton.2 rfl), rfl, rfl⟩
    · rw [if_neg (Nat.ne_of_lt hfound.lt_length)] at hwriter
      obtain ⟨hplace, content, hcontent, hoffset, hwhole⟩ := h.carries n writer found hwriter hfound
      have hfile : place ++ names ++ found.way ∉ [place ++ names ++ resource.way] :=
        not_mem_singleton_of_way_ne (hways hfound)
      rw [← hplace] at hfile
      exact ⟨hplace, content, (hgains.file_iff hfile _).2 hcontent, hoffset,
        hwhole.trans (List.append_nil _).symm⟩
  · intro way n content hnone hlast
    have hnew : way ≠ resource.way := by
      rintro rfl
      exact hnone _ resource ((isOpenFor_create_iff huses _ _).2 (Or.inl ⟨rfl, rfl, hplain⟩)) rfl
    rw [FilerRun.state_created, hgains.file_iff (not_mem_singleton_of_way_ne hnew)]
    rw [lastActs_concat_iff] at hlast
    rcases hlast with ⟨⟨hdrop, -⟩, -⟩ | ⟨hlast, -⟩
    · cases hdrop
    · refine h.dropped way n content (fun m other hopen => ?_) hlast
      exact hnone m other (hopen.concat (by simp))
  · intro more hmore
    rw [FilerRun.state_created, hcreations]
    exact h.below_of_gains hplain hgains hmore

end Creation

/-- Nothing happens when a name is not plain. -/
theorem StoresOnDisk.refuse
    (h : StoresOnDisk root base place names steps run) (hsteps : KeepsRule OneWriterAPath steps)
    {resource : ResourceName} {origin : Option ElementId} (hplain : ¬ isPlainName resource.name) :
    StoresOnDisk root base place names (steps ++ [.create resource origin])
      (run.created (createOnDisk root resource run.state)) := by
  have huses := hsteps.imp fun _ _ hrule => hrule.1
  have hcreate : createOnDisk root resource run.state =
      (.error (.invalidName resource.name), run.state) := if_neg hplain
  have hopens : ∀ {n other}, IsOpenFor (steps ++ [.create resource origin]) n other ↔
      IsOpenFor steps n other := by
    intro n other
    rw [isOpenFor_create_iff huses]
    exact or_iff_right fun hnew => hplain hnew.2.2
  rw [hcreate]
  refine ⟨h.toFollows.created huses origin ?_, h.hostsRoot, h.clear, ?_, ?_, ?_⟩
  · exact (if_neg hplain).symm
  · intro n writer found hwriter hfound
    rw [hopens] at hfound
    rw [FilerRun.writer?_created, h.length_eq, if_neg (Nat.ne_of_lt hfound.lt_length)] at hwriter
    obtain ⟨hplace, hcarries⟩ := h.carries n writer found hwriter hfound
    rw [written_concat]
    exact ⟨hplace, by rwa [show FilerStep.givenTo n (.create resource origin) = [] from rfl,
      List.append_nil]⟩
  · intro way n content hnone hlast
    rw [lastActs_concat_iff] at hlast
    rcases hlast with ⟨⟨hdrop, -⟩, -⟩ | ⟨hlast, -⟩
    · cases hdrop
    · exact h.dropped way n content (fun m other hopen => hnone m other (hopens.2 hopen)) hlast
  · exact fun more hmore => h.below_of_subset (creations_prefix_append _ _).subset hmore

/-- An operation on an open writer drops no other one. -/
theorem DropsOn.eq_of_used?
    {step : FilerStep} {n m : Nat} {resource : ResourceName} {way : List String}
    (h : DropsOn way steps m step) (hstep : step.used? = some n) (hopen : IsOpenFor steps n resource)
    (hsegmented : resource.IsSegmented) : step = .drop n ∧ m = n ∧ resource.way = way := by
  obtain ⟨rfl, found, hfound, hway⟩ := h
  obtain rfl := Option.some.inj hstep
  obtain rfl := Option.some.inj (hopen.created.symm.trans hfound)
  rw [hsegmented.components_path, map_normal_inj] at hway
  exact ⟨rfl, rfl, hway⟩

/-- Two open writers have different files. -/
theorem IsOpenFor.way_ne
    {n m : Nat} {resource other : ResourceName} (h : IsOpenFor steps n resource)
    (hother : IsOpenFor steps m other) (hsteps : KeepsRule OneWriterAPath steps)
    (hfits : FitsBelow root (creations steps)) (hne : m ≠ n) : other.way ≠ resource.way := by
  intro hway
  have hsegmented := hfits.segmented resource h.mem_creations h.plain
  have hotherSegmented := hfits.segmented other hother.mem_creations hother.plain
  exact hne (hother.eq_of_same hsteps h ((hotherSegmented.same_iff hsegmented).2 hway))

/-- A way that no writer is open for and that no drop was on had no open writer before. -/
theorem forall_way_ne_of_concat
    {step : FilerStep} {way : List String} (hfits : FitsBelow root (creations steps))
    (hnone : ∀ m other, IsOpenFor (steps ++ [step]) m other → other.way ≠ way)
    (hdrops : ∀ m, ¬ DropsOn way steps m step) (m : Nat) (other : ResourceName)
    (hother : IsOpenFor steps m other) : other.way ≠ way := by
  intro hway
  refine hnone m other (hother.concat fun hdrop => ?_) hway
  refine hdrops m ⟨hdrop, other, hother.created, ?_⟩
  rw [(hfits.segmented other hother.mem_creations hother.plain).components_path, hway]

theorem StoresOnDisk.used
    (h : StoresOnDisk root base place names steps run) (hsteps : KeepsRule OneWriterAPath steps)
    (hfits : FitsBelow root (creations steps)) (step : FilerStep) {n : Nat}
    (hstep : step.used? = some n) (hopen : IsOpen steps n)
    {use : DiskWriter → (Except IoError Unit × Option DiskWriter) × FileTree}
    (hanswer : ∀ writer, (use writer).1.1 = .ok ())
    (hwriter : ∀ writer, (use writer).1.2.isSome ↔ step ≠ .drop n)
    (huse : ∀ writer text, writer.Carries run.state text →
      ∃ next, writer.GoesOn next run.state (use writer).2 (text ++ step.givenTo n) ∧
        (∀ kept ∈ (use writer).1.2, kept = next) ∧ (step = .drop n → next.kept = [])) :
    StoresOnDisk root base place names (steps ++ [step]) (run.used n use) := by
  obtain ⟨resource, hresource⟩ := hopen
  obtain ⟨writer, hn⟩ := Option.isSome_iff_exists.1 ((h.isSome_iff n).2 ⟨resource, hresource⟩)
  obtain ⟨hplace, hcarries⟩ := h.carries n writer resource hn hresource
  obtain ⟨next, hgoes, hnext, hkept⟩ := huse writer _ hcarries
  have hsegmented := hfits.segmented resource hresource.mem_creations hresource.plain
  have helsewhere : ∀ {way}, way ≠ resource.way →
      (use writer).2.node? (place ++ names ++ way) = run.state.node? (place ++ names ++ way) := by
    intro way hne
    refine hgoes.elsewhere _ ?_
    rw [hplace]
    exact mt List.append_cancel_left hne
  have hcreations : creations (steps ++ [step]) = creations steps := by
    rw [creations_concat, FilerStep.created?_of_used? hstep, Option.toList_none, List.append_nil]
  have hfollows := h.toFollows.used hstep ⟨resource, hresource⟩ hanswer hwriter
  have hstate : (run.used n use).state = (use writer).2 := by
    rw [FilerRun.used_eq hn]
  refine ⟨hfollows, ?_, ?_, ?_, ?_, ?_⟩
  · rw [hstate]
    exact h.hostsRoot.of_keepsWays (hcarries.keepsWays hgoes)
  · intro other hother bytes
    rw [hstate, hgoes.elsewhere other]
    · exact h.clear other hother bytes
    · rintro rfl
      rw [hplace] at hother
      exact not_mem_placesOn_of_ne_nil hsegmented.way_ne_nil hother
  · intro m other found hm hfound
    obtain ⟨hfound, hdrop⟩ := (isOpenFor_concat_iff_of_used? hstep).1 hfound
    rw [FilerRun.writer?_used hn] at hm
    rw [hstate, written_concat]
    split_ifs at hm with hsame
    · subst hsame
      obtain rfl := hfound.unique hresource
      rw [hnext other hm, hgoes.place_eq]
      exact ⟨hplace, hgoes.carries⟩
    · obtain ⟨hotherPlace, hotherCarries⟩ := h.carries m other found hm hfound
      rw [FilerStep.givenTo_of_used? hstep hsame, List.append_nil]
      refine ⟨hotherPlace, hotherCarries.congr ?_⟩
      rw [hotherPlace]
      exact helsewhere (hresource.way_ne hfound hsteps hfits hsame)
  · intro way m content hnone hlast
    rw [hstate]
    rw [lastActs_concat_iff] at hlast
    rcases hlast with ⟨hdrops, rfl⟩ | ⟨hlast, hdrops⟩
    · obtain ⟨rfl, rfl, rfl⟩ := hdrops.eq_of_used? hstep hresource hsegmented
      have hcontent := hgoes.carries.node?_of_kept (hkept rfl)
      rw [hgoes.place_eq, hplace] at hcontent
      rw [hcontent]
      exact congrArg (fun bytes => some (Node.file bytes)) (List.append_nil _)
    · have hopens := forall_way_ne_of_concat hfits hnone hdrops
      rw [helsewhere (hopens n resource hresource).symm]
      exact h.dropped way m content hopens hlast
  · intro more hmore
    rw [hstate, hcreations]
    by_cases hsame : more = resource.way
    · obtain ⟨content, hcontent, -⟩ := hgoes.carries
      rw [hgoes.place_eq, hplace, ← hsame] at hcontent
      exact Or.inr (Or.inr ⟨⟨content, hcontent⟩, resource, hresource.mem_creations, hresource.plain,
        hsame⟩)
    · rw [helsewhere hsame]
      exact h.below more hmore

theorem StoresOnDisk.step
    (h : StoresOnDisk root base place names steps run) (hsteps : KeepsRule OneWriterAPath steps)
    {step : FilerStep} (hstep : OneWriterAPath steps step)
    (hfits : FitsBelow root (creations (steps ++ [step]))) :
    StoresOnDisk root base place names (steps ++ [step]) (run.step (diskFiler root) step) := by
  have hbefore := hfits.of_subset (creations_prefix_append steps [step]).subset
  cases step with
  | create resource origin =>
      by_cases hplain : isPlainName resource.name
      · exact h.create hsteps hstep hplain (by rwa [creations_concat] at hfits)
      · exact h.refuse hsteps hplain
  | write n bytes =>
      rw [FilerRun.step]
      refine h.used hsteps hbefore (.write n bytes) rfl (hstep.1 n rfl) ?_ ?_ ?_
      · exact fun _ => rfl
      · simp
      · intro writer text hcarries
        refine ⟨_, ?_, fun kept hkept => (Option.some.inj hkept).symm, by simp⟩
        rw [FilerStep.givenTo, if_pos rfl]
        exact hcarries.write bytes
  | flush n =>
      rw [FilerRun.step]
      refine h.used hsteps hbefore (.flush n) rfl (hstep.1 n rfl) ?_ ?_ ?_
      · exact fun _ => rfl
      · simp
      · intro writer text hcarries
        refine ⟨_, ?_, fun kept hkept => (Option.some.inj hkept).symm, by simp⟩
        rw [show FilerStep.givenTo n (.flush n) = [] from rfl, List.append_nil]
        exact hcarries.flush.1
  | drop n =>
      rw [FilerRun.step]
      refine h.used hsteps hbefore (.drop n) rfl (hstep.1 n rfl) ?_ ?_ ?_
      · exact fun _ => rfl
      · simp
      · intro writer text hcarries
        refine ⟨_, ?_, fun kept hkept => (by cases hkept), fun _ => hcarries.flush.2⟩
        rw [show FilerStep.givenTo n (.drop n) = [] from rfl, List.append_nil]
        exact hcarries.flush.1

theorem storesOnDisk_run
    {tree : FileTree} (hroot : tree.HostsRoot root base place names)
    (hclear : ∀ other ∈ placesOn place names, ∀ bytes, tree.node? other ≠ some (.file bytes))
    (hempty : ∀ more, more ≠ [] → tree.node? (place ++ names ++ more) = none)
    (hsteps : KeepsRule OneWriterAPath steps) (hfits : FitsBelow root (creations steps)) :
    StoresOnDisk root base place names steps ((diskFiler root).run steps tree) := by
  induction steps using List.reverseRecOn with
  | nil =>
      refine ⟨.start tree, hroot, hclear, ?_, ?_, fun more hmore => Or.inl (hempty more hmore)⟩
      · intro n writer resource hwriter
        cases hwriter
      · intro way n content _ hlast
        exact absurd hlast not_lastActs_nil
  | append_singleton steps step ih =>
      obtain ⟨hbefore, hstep⟩ := keepsRule_concat_iff.1 hsteps
      rw [Filer.run_concat]
      exact (ih hbefore (hfits.of_subset (creations_prefix_append steps [step]).subset)).step
        hbefore hstep hfits

end Runs

end ComponentMarkers
