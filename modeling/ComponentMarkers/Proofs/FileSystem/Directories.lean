import ComponentMarkers.Proofs.FileSystem.Walks
import ComponentMarkers.Proofs.Path.Spelling

/-!
# Making directories

From a directory that a path leads to a way goes on through names.  Making the directories on the way
succeeds as long as there is no file on it, and then all of them are there.  When it fails, directories
may have been made where nothing was; nothing else happens in either case.
-/

namespace ComponentMarkers

open ComponentMarkers.Path Component

namespace FileTree

/-- What is in the later tree beside the earlier one: files with one content at places where no
directory or link was, and directories at some of the places where nothing was. -/
structure Gains (before after : FileTree) (files directories : List Place) (content : List UInt8) :
    Prop where
  workingDirectory_eq : after.workingDirectory = before.workingDirectory
  file_eq : ∀ place ∈ files, after.node? place = some (.file content)
  free : ∀ place ∈ files,
    before.node? place = none ∨ ∃ old, before.node? place = some (.file old)
  other : ∀ place, place ∉ files → after.node? place = before.node? place ∨
    place ∈ directories ∧ before.node? place = none ∧ after.node? place = some .directory

theorem Gains.refl (tree : FileTree) (directories : List Place) (content : List UInt8) :
    tree.Gains tree [] directories content :=
  ⟨rfl, by simp, by simp, fun _ _ => Or.inl rfl⟩

theorem Gains.trans
    {before middle after : FileTree} {files moreFiles directories moreDirectories : List Place}
    {content : List UInt8} (h : before.Gains middle files directories content)
    (hmore : middle.Gains after moreFiles moreDirectories content) :
    before.Gains after (files ++ moreFiles) (directories ++ moreDirectories) content := by
  refine ⟨hmore.workingDirectory_eq.trans h.workingDirectory_eq, ?_, ?_, ?_⟩
  · intro place hplace
    by_cases hlast : place ∈ moreFiles
    · exact hmore.file_eq place hlast
    · have hfirst := (List.mem_append.1 hplace).resolve_right hlast
      have hfile := h.file_eq place hfirst
      rcases hmore.other place hlast with hsame | ⟨-, hnone, -⟩
      · rw [hsame, hfile]
      · rw [hfile] at hnone
        cases hnone
  · intro place hplace
    by_cases hfirst : place ∈ files
    · exact h.free place hfirst
    · have hfree := hmore.free place ((List.mem_append.1 hplace).resolve_left hfirst)
      rcases h.other place hfirst with hsame | ⟨-, hnone, -⟩
      · rwa [hsame] at hfree
      · exact Or.inl hnone
  · intro place hplace
    rw [List.mem_append, not_or] at hplace
    rcases h.other place hplace.1 with hsame | ⟨hmem, hnone, hdirectory⟩
    · rcases hmore.other place hplace.2 with hlast | ⟨hmem, hnone, hdirectory⟩
      · exact Or.inl (hlast.trans hsame)
      · exact Or.inr ⟨List.mem_append_right _ hmem, hsame ▸ hnone, hdirectory⟩
    · rcases hmore.other place hplace.2 with hlast | ⟨-, hmiddle, -⟩
      · exact Or.inr ⟨List.mem_append_left _ hmem, hnone, hlast.trans hdirectory⟩
      · rw [hdirectory] at hmiddle
        cases hmiddle

theorem Gains.weaken
    {before after : FileTree} {files directories moreDirectories : List Place}
    {content : List UInt8} (h : before.Gains after files directories content)
    (hsubset : directories ⊆ moreDirectories) :
    before.Gains after files moreDirectories content :=
  ⟨h.workingDirectory_eq, h.file_eq, h.free, fun place hplace =>
    (h.other place hplace).imp_right fun hother => ⟨hsubset hother.1, hother.2⟩⟩

/-- Where no file was gained, there is a file if there was one before. -/
theorem Gains.file_iff
    {before after : FileTree} {files directories : List Place} {content : List UInt8}
    (h : before.Gains after files directories content) {place : Place} (hplace : place ∉ files)
    (bytes : List UInt8) :
    after.node? place = some (.file bytes) ↔ before.node? place = some (.file bytes) := by
  rcases h.other place hplace with hsame | ⟨-, hnone, hdirectory⟩
  · rw [hsame]
  · rw [hnone, hdirectory]
    simp

theorem Gains.node?_eq
    {before after : FileTree} {files directories : List Place} {content : List UInt8}
    (h : before.Gains after files directories content) {place : Place} (hfile : place ∉ files)
    (hdirectory : place ∉ directories) : after.node? place = before.node? place :=
  (h.other place hfile).resolve_right fun hmade => hdirectory hmade.1

/-- Walks go through a tree that gained something as before. -/
theorem Gains.keepsWays
    {before after : FileTree} {files directories : List Place} {content : List UInt8}
    (h : before.Gains after files directories content) : before.KeepsWays after := by
  refine ⟨h.workingDirectory_eq, ?_, ?_⟩
  · intro place hplace
    have hfile : place ∉ files := by
      intro hmem
      rcases h.free place hmem with hfree | ⟨old, hfree⟩
      · rw [hplace] at hfree
        cases hfree
      · rw [hplace] at hfree
        cases hfree
    rcases h.other place hfile with hsame | ⟨-, -, hdirectory⟩
    · rw [hsame, hplace]
    · exact hdirectory
  · intro place target
    by_cases hfile : place ∈ files
    · rw [h.file_eq place hfile]
      rcases h.free place hfile with hfree | ⟨old, hfree⟩
      · rw [hfree]
        simp
      · rw [hfree]
        simp
    · rcases h.other place hfile with hsame | ⟨-, hnone, hdirectory⟩
      · rw [hsame]
      · rw [hnone, hdirectory]
        simp

theorem gains_put_directory
    {tree : FileTree} {place : Place} (hnone : tree.node? place = none) (content : List UInt8) :
    tree.Gains (tree.put place .directory) [] [place] content := by
  have hroot : place ≠ [] := by
    rintro rfl
    rw [node?_nil] at hnone
    cases hnone
  refine ⟨rfl, by simp, by simp, fun other _ => ?_⟩
  rw [node?_put tree hroot]
  by_cases hsame : other = place
  · rw [if_pos hsame]
    exact Or.inr ⟨List.mem_singleton.2 hsame, hsame ▸ hnone, rfl⟩
  · rw [if_neg hsame]
    exact Or.inl rfl

/-- The path leads to a directory at a place, however names in it that stay where they are. -/
structure LeadsTo (tree : FileTree) (path : Path) (place : Place) : Prop where
  walk_eq : tree.walk path (path.pieces.filter (· ≠ ".")) = .ok place
  directory : tree.node? place = some .directory

theorem startOf_congr
    {directory : Place} {path other : Path} (h : path.isAbsolute ↔ other.isAbsolute) :
    startOf directory path = startOf directory other := by
  rw [startOf, startOf]
  simp only [h]

theorem isAbsolute_congr
    {path other : Path} (h : path.components = other.components) :
    path.isAbsolute ↔ other.isAbsolute := by
  rw [isAbsolute_iff_head?, isAbsolute_iff_head?, h]

theorem LeadsTo.of_components_eq
    {tree : FileTree} {path other : Path} {place : Place} (h : tree.LeadsTo path place)
    (hsame : other.components = path.components) : tree.LeadsTo other place := by
  refine ⟨?_, h.directory⟩
  have hwalk := h.walk_eq
  rw [walk, pieces_filter] at hwalk ⊢
  rwa [startOf_congr (isAbsolute_congr hsame), hsame]

theorem LeadsTo.of_keepsWays
    {before after : FileTree} (hways : before.KeepsWays after) {path : Path} {place : Place}
    (h : before.LeadsTo path place) : after.LeadsTo path place := by
  refine ⟨?_, hways.directory place h.directory⟩
  rw [walk, hways.workingDirectory_eq]
  exact hways.follow_eq h.walk_eq

/-- Names that stay where they are do not show on the way to a directory. -/
theorem LeadsTo.walk_of_dotted
    {tree : FileTree} {path : Path} {place : Place} (h : tree.LeadsTo path place)
    {steps : List String} (hsteps : Dotted steps (path.pieces.filter (· ≠ "."))) :
    tree.walk path steps = .ok place := by
  rcases walk_of_dotted_of_ok hsteps h.walk_eq with hwalk | ⟨fault, hfault, -⟩
  · exact hwalk
  · rw [(directoryFault?_eq_none_iff tree place).2 h.directory] at hfault
    cases hfault

theorem dotted_stepsOf (path : Path) :
    Dotted (stepsOf path) (path.pieces.filter (· ≠ ".")) := by
  rw [stepsOf]
  split
  · have hdot := (dotted_filter path.pieces).append (.dot .nil)
    rwa [List.append_nil] at hdot
  · exact dotted_filter path.pieces

/-- Whether a path leads to a directory. -/
theorem isDirectory_iff_of_walk
    {tree : FileTree} {path : Path} (haccepted : pathFault? path = none) :
    tree.isDirectory path ↔
      ∃ place, tree.walk path (path.pieces.filter (· ≠ ".")) = .ok place ∧
        tree.node? place = some .directory := by
  constructor
  · intro hdirectory
    rw [isDirectory, decide_eq_true_eq, nodeOf?, resolve?, haccepted] at hdirectory
    dsimp only at hdirectory
    cases hfilter : tree.walk path (path.pieces.filter (· ≠ ".")) with
    | error fault =>
        rw [walk_of_dotted_of_error (dotted_stepsOf path) hfilter] at hdirectory
        cases hdirectory
    | ok place =>
        rcases walk_of_dotted_of_ok (dotted_stepsOf path) hfilter with hwalk | ⟨fault, -, hwalk⟩
        · rw [hwalk] at hdirectory
          dsimp only at hdirectory
          split at hdirectory
          · rename_i found hfound
            split_ifs at hfound
            obtain rfl := Except.ok.inj hfound
            exact ⟨place, rfl, hdirectory⟩
          · cases hdirectory
        · rw [hwalk] at hdirectory
          cases hdirectory
  · rintro ⟨place, hwalk, hdirectory⟩
    have hsteps := (LeadsTo.mk hwalk hdirectory).walk_of_dotted (dotted_stepsOf path)
    rw [isDirectory, decide_eq_true_eq, nodeOf?, resolve?, haccepted]
    dsimp only
    rw [hsteps]
    dsimp only
    rw [hdirectory]
    simp [hdirectory]

/-- A directory that is there is not made. -/
theorem makeDirectory_of_leadsTo
    {tree : FileTree} {path : Path} {place : Place} (h : tree.LeadsTo path place)
    (haccepted : pathFault? path = none) :
    tree.makeDirectory path = .error (.system .alreadyExists) := by
  rw [makeDirectory, haccepted]
  dsimp only
  cases hlast : path.pieces.getLast? with
  | none => rfl
  | some name =>
      obtain ⟨init, hpieces⟩ := List.getLast?_eq_some_iff.1 hlast
      have hwalk := h.walk_of_dotted (dotted_filter path.pieces)
      rw [hpieces, walk] at hwalk
      rw [hpieces, List.dropLast_concat, walk]
      dsimp only
      rcases hinit : tree.follow mostLinks (startOf tree.workingDirectory path) init with
        fault | directory
      · rw [follow_append_of_error hinit] at hwalk
        cases hwalk
      · obtain ⟨left, hleft⟩ := exists_follow_append hinit
        rw [hleft, follow, advance] at hwalk
        dsimp only
        cases hfault : tree.directoryFault? directory with
        | some fault => simp [hfault] at hwalk
        | none =>
            rw [hfault] at hwalk
            dsimp only at hwalk
            by_cases hdots : name = "." ∨ name = ".."
            · rw [if_pos (by simpa using hdots)]
              rfl
            · obtain ⟨hdot, hparent⟩ := not_or.1 hdots
              rw [if_neg (by simp [hdot, hparent]), makeIn, hfault]
              rw [if_neg hdot, if_neg hparent] at hwalk
              dsimp only
              split_ifs at hwalk ⊢
              cases hnode : tree.node? (directory ++ [name]) with
              | some node => rfl
              | none =>
                  -- The walk would have arrived where nothing is.
                  rw [hnode, advance] at hwalk
                  obtain rfl := Except.ok.inj hwalk
                  rw [h.directory] at hnode
                  cases hnode

/-- Nothing is made where a directory is. -/
theorem LeadsTo.makeDirectoriesFrom_eq
    {tree : FileTree} {base : Path} {place : Place} (h : tree.LeadsTo base place)
    (haccepted : base.components ≠ [] → pathFault? (ofComponents base.components) = none) :
    tree.makeDirectoriesFrom base.components.reverse = (.ok (), tree) := by
  cases hsteps : base.components.reverse with
  | nil => rfl
  | cons last earlier =>
      have hpath := haccepted (fun hnil => by simp [hnil] at hsteps)
      have hleads := h.of_components_eq (components_ofComponents (isSpelt_components base))
      have hdirectory := (isDirectory_iff_of_walk hpath).2
        ⟨place, hleads.walk_eq, hleads.directory⟩
      rw [makeDirectoriesFrom, ← hsteps, List.reverse_reverse,
        makeDirectory_of_leadsTo hleads hpath]
      dsimp only
      rw [if_pos hdirectory]

/-- From a directory that a path leads to a way goes on through names.  The file system looks at all
paths along it, and no links are on it. -/
structure Admits (tree : FileTree) (base : Path) (place : Place) (way : List String) : Prop where
  leadsTo : tree.LeadsTo base place
  isName : ∀ name ∈ way, IsName name
  length_le : ∀ name ∈ way, name.utf8ByteSize ≤ longestName
  accepted : ∀ init, init <+: way → base.components ++ init.map .normal ≠ [] →
    pathFault? (ofComponents (base.components ++ init.map .normal)) = none
  noLink : tree.HasNoLinkAt (placesOn place way)

theorem Admits.isEntryName
    {tree : FileTree} {base : Path} {place : Place} {way : List String}
    (h : tree.Admits base place way) : ∀ name ∈ way, IsEntryName name := fun name hname =>
  ⟨(h.isName name hname).ne_dot, (h.isName name hname).ne_dots, h.length_le name hname⟩

/-- What stands at the end of a way is no link. -/
theorem Admits.ne_link
    {tree : FileTree} {base : Path} {place : Place} {way : List String} {name : String}
    (h : tree.Admits base place (way ++ [name])) (target : Path) :
    tree.node? (place ++ way ++ [name]) ≠ some (.link target) := by
  refine h.noLink _ ?_ target
  rw [placesOn_concat]
  exact List.mem_append_right _ (List.mem_singleton.2 rfl)

theorem Admits.of_keepsWays
    {before after : FileTree} (hways : before.KeepsWays after) {base : Path} {place : Place}
    {way : List String} (h : before.Admits base place way) : after.Admits base place way :=
  ⟨h.leadsTo.of_keepsWays hways, h.isName, h.length_le, h.accepted, fun other hother target hlink =>
    h.noLink other hother target ((hways.link_iff other target).1 hlink)⟩

theorem Admits.of_append
    {tree : FileTree} {base : Path} {place : Place} {way more : List String}
    (h : tree.Admits base place (way ++ more)) : tree.Admits base place way :=
  ⟨h.leadsTo, fun name hname => h.isName name (List.mem_append_left _ hname),
    fun name hname => h.length_le name (List.mem_append_left _ hname),
    fun init hinit => h.accepted init (hinit.trans (List.prefix_append _ _)),
    fun other hother => h.noLink other (by
      rw [placesOn_append]
      exact List.mem_append_left _ hother)⟩

theorem isAbsolute_iff_of_components_eq
    {path base : Path} {names : List String}
    (h : path.components = base.components ++ names.map .normal) :
    path.isAbsolute ↔ base.isAbsolute := by
  rw [isAbsolute_iff_head?, isAbsolute_iff_head?, h, List.head?_append]
  cases base.components with
  | nil => cases names <;> simp
  | cons first rest => simp

theorem filterMap_entry?_map_normal (names : List String) :
    (names.map Component.normal).filterMap entry? = names := by
  rw [List.filterMap_map]
  exact List.filterMap_some

/-- A walk on from a directory fails at the first place on the way that is no directory, the last one
aside. -/
theorem Admits.walk_entries
    {tree : FileTree} {base : Path} {place : Place} {way : List String}
    (h : tree.Admits base place way) {path : Path} (hpath : path.isAbsolute ↔ base.isAbsolute) :
    tree.walk path (base.components.filterMap entry? ++ way) =
      match (place :: placesOn place way).dropLast.findSome? tree.directoryFault? with
      | some fault => .error fault
      | none => .ok (place ++ way) := by
  have hbase := h.leadsTo.walk_eq
  rw [walk, pieces_filter] at hbase
  obtain ⟨left, hleft⟩ := exists_follow_append hbase
  rw [walk, startOf_congr hpath, hleft]
  exact follow_way h.isEntryName h.noLink left

theorem Admits.walk_eq
    {tree : FileTree} {base : Path} {place : Place} {way : List String}
    (h : tree.Admits base place way) {path : Path}
    (hpath : path.components = base.components ++ way.map .normal) :
    tree.walk path (path.pieces.filter (· ≠ ".")) =
      match (place :: placesOn place way).dropLast.findSome? tree.directoryFault? with
      | some fault => .error fault
      | none => .ok (place ++ way) := by
  rw [pieces_filter, hpath, List.filterMap_append, filterMap_entry?_map_normal]
  exact h.walk_entries (isAbsolute_iff_of_components_eq hpath)

theorem Admits.isSpelt
    {tree : FileTree} {base : Path} {place : Place} {way : List String}
    (h : tree.Admits base place way) : IsSpelt (base.components ++ way.map .normal) := by
  refine (isSpelt_components base).append fun step hstep => ?_
  obtain ⟨name, hname, rfl⟩ := List.mem_map.1 hstep
  exact .normal (h.isName name hname)

theorem findSome?_directoryFault?
    (tree : FileTree) (place : Place) (way : List String) :
    (place :: placesOn place way).findSome? tree.directoryFault? =
      ((place :: placesOn place way).dropLast.findSome? tree.directoryFault?).or
        (tree.directoryFault? (place ++ way)) := by
  have hlast : place :: placesOn place way =
      (place :: placesOn place way).dropLast ++ [place ++ way] := by
    cases way using List.reverseRecOn with
    | nil => rw [placesOn, List.append_nil]; rfl
    | append_singleton way name =>
        rw [placesOn_concat, ← List.cons_append, List.dropLast_concat, List.append_assoc]
  conv_lhs => rw [hlast]
  rw [List.findSome?_append, List.findSome?_singleton]

/-- The directory at the end of a way is made if all before it are there and nothing is at its place. -/
theorem Admits.makeDirectory_eq
    {tree : FileTree} {base : Path} {place : Place} {way : List String} {name : String}
    (h : tree.Admits base place (way ++ [name])) :
    tree.makeDirectory (ofComponents (base.components ++ (way ++ [name]).map .normal)) =
      match (place :: placesOn place way).findSome? tree.directoryFault? with
      | some fault => .error (.system fault)
      | none =>
        match tree.node? (place ++ way ++ [name]) with
        | some _ => .error (.system .alreadyExists)
        | none => .ok (tree.put (place ++ way ++ [name]) .directory) := by
  have hstep : IsStep (.normal name) :=
    .normal (h.isName name (List.mem_append_right _ (List.mem_singleton.2 rfl)))
  have hentry := h.isEntryName name (List.mem_append_right _ (List.mem_singleton.2 rfl))
  have haccepted := h.accepted (way ++ [name]) List.prefix_rfl (by simp)
  have hwalk := h.of_append.walk_eq (components_ofComponents h.of_append.isSpelt)
  have hdotted := dotted_filter (ofComponents (base.components ++ way.map .normal)).pieces
  have hjoin := ofComponents_concat h.of_append.isSpelt hstep
  obtain ⟨hlead, -, hpieces, -⟩ := path_of_isStep hstep
  dsimp only [Component.text] at hjoin hlead hpieces
  have hjoined : ∀ steps,
      tree.walk ((ofComponents (base.components ++ way.map .normal)).join ⟨name⟩) steps =
        tree.walk (ofComponents (base.components ++ way.map .normal)) steps := by
    intro steps
    rw [walk, walk, startOf_congr (isAbsolute_join _ hlead)]
  rw [List.map_append, List.map_singleton, ← List.append_assoc] at haccepted ⊢
  rw [makeDirectory, haccepted, hjoin, pieces_join _ hlead, hpieces, List.getLast?_concat,
    List.dropLast_concat, findSome?_directoryFault?]
  dsimp only
  rw [hjoined]
  cases hfirst : (place :: placesOn place way).dropLast.findSome? tree.directoryFault? with
  | some fault =>
      rw [hfirst] at hwalk
      rw [walk_of_dotted_of_error hdotted hwalk]
      rfl
  | none =>
      rw [hfirst] at hwalk
      rw [Option.none_or]
      rcases walk_of_dotted_of_ok hdotted hwalk with harrived | ⟨fault, hfault, herror⟩
      · rw [harrived]
        dsimp only
        rw [if_neg (by simp [hentry.ne_dot, hentry.ne_dots]), makeIn,
          if_neg (Nat.not_lt.2 hentry.length_le)]
        cases tree.directoryFault? (place ++ way) with
        | some fault => rfl
        | none =>
            dsimp only
            cases tree.node? (place ++ way ++ [name]) <;> rfl
      · rw [herror, hfault]

theorem findSome?_directoryFault?_eq_none_iff
    {tree : FileTree} {place : Place} (hplace : tree.node? place = some .directory)
    (way : List String) :
    (place :: placesOn place way).findSome? tree.directoryFault? = none ↔
      ∀ other ∈ placesOn place way, tree.node? other = some .directory := by
  rw [List.findSome?_eq_none_iff, List.forall_mem_cons]
  simp only [directoryFault?_eq_none_iff, hplace, true_and]

/-- The path of a way leads to a directory if there are directories all along it. -/
theorem Admits.isDirectory_iff
    {tree : FileTree} {base : Path} {place : Place} {way : List String}
    (h : tree.Admits base place way) {path : Path}
    (hpath : path.components = base.components ++ way.map .normal)
    (haccepted : pathFault? path = none) :
    tree.isDirectory path ↔
      ∀ other ∈ placesOn place way, tree.node? other = some .directory := by
  rw [isDirectory_iff_of_walk haccepted, h.walk_eq hpath,
    ← findSome?_directoryFault?_eq_none_iff h.leadsTo.directory, findSome?_directoryFault?]
  cases (place :: placesOn place way).dropLast.findSome? tree.directoryFault? with
  | some fault => simp
  | none => simp [directoryFault?_eq_none_iff]

theorem ite_eq_ok_iff (p : Prop) [Decidable p] (fault : IoError) :
    (if p then .ok () else .error fault : Except IoError Unit) = .ok () ↔ p := by
  split_ifs with hp <;> simp [hp]

/-- What making the directories on a way comes to. -/
structure MakesWay (tree made : FileTree) (place : Place) (way : List String)
    (result : Except IoError Unit) (content : List UInt8) : Prop where
  gains : tree.Gains made [] (placesOn place way) content
  ok_iff : result = .ok () ↔
    ∀ other ∈ placesOn place way, ∀ bytes, tree.node? other ≠ some (.file bytes)
  directory : result = .ok () → ∀ other ∈ placesOn place way, made.node? other = some .directory

/-- No directory is gained where a file is. -/
theorem Gains.file_not_mem
    {before after : FileTree} {directories : List Place} {content : List UInt8}
    (h : before.Gains after [] directories content) {place : Place}
    (hplace : after.node? place = some .directory) (bytes : List UInt8) :
    before.node? place ≠ some (.file bytes) := by
  intro hfile
  rw [(h.file_iff List.not_mem_nil bytes).2 hfile] at hplace
  cases hplace

theorem MakesWay.of_iff
    {tree made : FileTree} {place : Place} {way : List String} {result : Except IoError Unit}
    {content : List UInt8} (hgains : tree.Gains made [] (placesOn place way) content)
    (hresult : result = .ok () ↔ ∀ other ∈ placesOn place way, made.node? other = some .directory)
    (hfree : (∀ other ∈ placesOn place way, ∀ bytes, tree.node? other ≠ some (.file bytes)) →
      ∀ other ∈ placesOn place way, made.node? other = some .directory) :
    MakesWay tree made place way result content :=
  ⟨hgains, ⟨fun hok other hother => hgains.file_not_mem (hresult.1 hok other hother),
    fun hnone => hresult.2 (hfree hnone)⟩, hresult.1⟩

theorem forall_placesOn_concat_iff
    (place : Place) (way : List String) (name : String) (p : Place → Prop) :
    (∀ other ∈ placesOn place (way ++ [name]), p other) ↔
      (∀ other ∈ placesOn place way, p other) ∧ p (place ++ way ++ [name]) := by
  rw [placesOn_concat, List.forall_mem_append, List.forall_mem_singleton]

section MakeLast

variable {tree made : FileTree} {base : Path} {place : Place} {way : List String} {name : String}

/-- When all directories before it are there, the last one is made or something is in its place. -/
theorem Admits.makesWay_concat
    (h : tree.Admits base place (way ++ [name])) {content : List UInt8}
    (hgains : tree.Gains made [] (placesOn place way) content)
    (hdirectory : ∀ other ∈ placesOn place way, made.node? other = some .directory) :
    let path := ofComponents (base.components ++ (way ++ [name]).map .normal)
    (∃ last, made.makeDirectory path = .ok last ∧
        MakesWay tree last place (way ++ [name]) (.ok ()) content) ∨
      made.makeDirectory path = .error (.system .alreadyExists) ∧
        MakesWay tree made place (way ++ [name])
          (if made.isDirectory path then .ok () else .error (.system .alreadyExists)) content := by
  intro path
  have hmade := h.of_keepsWays hgains.keepsWays
  have hsubset : placesOn place way ⊆ placesOn place (way ++ [name]) := by
    rw [placesOn_concat]
    exact List.subset_append_left _ _
  have hpath : path.components = base.components ++ (way ++ [name]).map .normal :=
    components_ofComponents h.isSpelt
  have haccepted := h.accepted (way ++ [name]) List.prefix_rfl (by simp)
  have hmake := hmade.makeDirectory_eq
  rw [(findSome?_directoryFault?_eq_none_iff hmade.leadsTo.directory way).2 hdirectory] at hmake
  dsimp only at hmake
  cases hnode : made.node? (place ++ way ++ [name]) with
  | some node =>
      rw [hnode] at hmake
      refine Or.inr ⟨hmake, .of_iff (hgains.weaken hsubset) ?_ ?_⟩
      · exact (ite_eq_ok_iff _ _).trans (hmade.isDirectory_iff hpath haccepted)
      · rw [forall_placesOn_concat_iff, forall_placesOn_concat_iff]
        rintro ⟨-, hfile⟩
        refine ⟨hdirectory, ?_⟩
        rcases hgains.other _ List.not_mem_nil with hsame | ⟨-, -, hmake⟩
        · rw [hsame] at hnode ⊢
          rcases node with _ | bytes | target
          · exact hnode
          · exact absurd hnode (hfile bytes)
          · exact absurd hnode (h.ne_link target)
        · exact hmake
  | none =>
      rw [hnode] at hmake
      have hroot : place ++ way ++ [name] ≠ [] := by simp
      have hlast : ∀ other ∈ placesOn place (way ++ [name]),
          (made.put (place ++ way ++ [name]) .directory).node? other = some .directory := by
        rw [forall_placesOn_concat_iff, node?_put made hroot, if_pos rfl]
        refine ⟨fun other hother => ?_, rfl⟩
        rw [node?_put made hroot]
        split
        · rfl
        · exact hdirectory other hother
      refine Or.inl ⟨_, hmake, .of_iff ?_ (iff_of_true rfl hlast) fun _ => hlast⟩
      have hput := hgains.trans (gains_put_directory hnode content)
      rw [List.append_nil] at hput
      rw [placesOn_concat]
      exact hput

end MakeLast

/-- Making a way does no more than to make the directories on it that are missing.  It succeeds unless
there is a file on the way, and then the directories are there. -/
theorem Admits.exists_makeDirectoriesFrom
    {tree : FileTree} {base : Path} {place : Place} {way : List String}
    (h : tree.Admits base place way) (content : List UInt8) :
    ∃ result made,
      tree.makeDirectoriesFrom (base.components ++ way.map Component.normal).reverse =
          (result, made) ∧
        MakesWay tree made place way result content := by
  induction way using List.reverseRecOn with
  | nil =>
      refine ⟨.ok (), tree, ?_, .of_iff (.refl tree _ content) (by simp [placesOn])
        fun _ => by simp [placesOn]⟩
      rw [List.map_nil, List.append_nil]
      refine h.leadsTo.makeDirectoriesFrom_eq fun hne => ?_
      simpa using h.accepted [] List.nil_prefix (by simpa using hne)
  | append_singleton way name ih =>
      obtain ⟨result, made, hearlier, hmakes⟩ := ih h.of_append
      have hsubset : placesOn place way ⊆ placesOn place (way ++ [name]) := by
        rw [placesOn_concat]
        exact List.subset_append_left _ _
      have hsteps : (base.components ++ (way ++ [name]).map Component.normal).reverse =
          .normal name :: (base.components ++ way.map Component.normal).reverse := by
        simp
      have hpath := components_ofComponents h.isSpelt
      have haccepted := h.accepted (way ++ [name]) List.prefix_rfl (by simp)
      have hmake := h.makeDirectory_eq
      rw [hsteps, makeDirectoriesFrom, ← hsteps, List.reverse_reverse, hearlier]
      cases hfirst : (place :: placesOn place way).findSome? tree.directoryFault? with
      | none =>
          rw [findSome?_directoryFault?_eq_none_iff h.leadsTo.directory] at hfirst
          have hrefl := Gains.refl tree (placesOn place way) content
          rcases h.makesWay_concat hrefl hfirst with ⟨last, hlast, hspec⟩ | ⟨hlast, hspec⟩
          · rw [hlast]
            exact ⟨_, _, rfl, hspec⟩
          · rw [hlast]
            exact ⟨_, _, rfl, hspec⟩
      | some fault =>
          rw [hfirst] at hmake
          dsimp only at hmake
          rw [hmake]
          obtain ⟨other, hother, hfault⟩ := List.exists_of_findSome?_eq_some hfirst
          rcases (directoryFault?_eq_some_iff _ _ _).1 hfault with ⟨rfl, -⟩ | ⟨rfl, node, hnode, hne⟩
          · rcases result with fault | ⟨⟩
            · refine ⟨_, _, rfl, hmakes.gains.weaken hsubset, ?_, fun hok => by cases hok⟩
              rw [forall_placesOn_concat_iff, ← hmakes.ok_iff]
              simp
            · rcases h.makesWay_concat hmakes.gains (hmakes.directory rfl) with
                ⟨last, hlast, hspec⟩ | ⟨hlast, hspec⟩
              · dsimp only
                rw [hlast]
                exact ⟨_, _, rfl, hspec⟩
              · dsimp only
                rw [hlast]
                exact ⟨_, _, rfl, hspec⟩
          · -- There is a file on the way, and nothing is made.
            have hway : other ∈ placesOn place way := by
              rcases List.mem_cons.1 hother with rfl | hother
              · exact absurd (Option.some.inj (hnode.symm.trans h.leadsTo.directory)) hne
              · exact hother
            refine ⟨_, _, rfl, .of_iff (.refl tree _ content) ?_ fun hfree => ?_⟩
            · exact (ite_eq_ok_iff _ _).trans (h.isDirectory_iff hpath haccepted)
            · rcases node with _ | bytes | target
              · exact absurd rfl hne
              · exact absurd hnode (hfree other (hsubset hway) bytes)
              · exact absurd hnode (h.noLink other (hsubset hway) target)

end FileTree

end ComponentMarkers
