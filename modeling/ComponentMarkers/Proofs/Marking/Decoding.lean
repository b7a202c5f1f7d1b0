import ComponentMarkers.Proofs.Marking.Resolution
import ComponentMarkers.Proofs.Path.Resources
import ComponentMarkers.Proofs.Text.Joined

/-!
# Reading marker paths back

The path of a marker is put together in three ways: simple names are joined by a dollar sign, a suffix
is added, and the package becomes directories.  `decodeMarker` undoes all three.  It is right wherever
no simple name has a dollar sign or a slash in it and no segment of the package has a slash in it or is
empty; the number of simple names is of no account.
-/

namespace ComponentMarkers

open Text ComponentMarkers.Path

/-- What the name of a marker ends with. -/
def markerSuffix : String :=
  ".component"

/-- The package and the simple names, the outermost first, that the path of a marker is made of.  Only
the steps of the path count, not how it is spelled. -/
def decodeMarker (path : Path) : Option (String × List String) :=
  match (path.components.filterMap Component.name?).reverse with
  | [] => none
  | fileName :: directories =>
    (fileName.toList.dropSuffix? markerSuffix.toList).map fun nested =>
      (".".intercalate directories.reverse, splitText '$' (String.ofList nested))

/-- The unnamed package, or one whose segments are not empty and have no slash in them. -/
def IsPlainPackage (package : String) : Prop :=
  package = "" ∨ ∀ segment ∈ segments package, segment ≠ "" ∧ '/' ∉ segment.toList

instance (package : String) : Decidable (IsPlainPackage package) :=
  inferInstanceAs (Decidable (_ ∨ _))

/-- A simple name in which none of the characters stands that separate names. -/
def IsPlainSimpleName (name : String) : Prop :=
  '$' ∉ name.toList ∧ '/' ∉ name.toList

instance (name : String) : Decidable (IsPlainSimpleName name) :=
  inferInstanceAs (Decidable (_ ∧ _))

theorem IsPlainPackage.slash_not_mem {package : String} (h : IsPlainPackage package) :
    '/' ∉ package.toList := by
  rcases h with rfl | h
  · simp
  · intro hslash
    rw [← intercalate_splitText '.' package] at hslash
    rcases mem_intercalate hslash with hdot | ⟨segment, hsegment, hmem⟩
    · exact absurd hdot (by decide)
    · exact (h segment hsegment).2 hmem

/-- The segments that become directories make up the package. -/
theorem IsPlainPackage.intercalate_segments {package : String} (h : IsPlainPackage package) :
    ".".intercalate ((segments package).filter (· ≠ "")) = package := by
  rcases h with rfl | h
  · decide
  · rw [List.filter_eq_self.2 fun segment hsegment => decide_eq_true (h segment hsegment).1]
    exact intercalate_splitText '.' package

/-- A name that ends with the suffix of markers is no step of its own. -/
theorem append_markerSuffix_ne (name : String) :
    name ++ markerSuffix ≠ "" ∧ name ++ markerSuffix ≠ "." ∧ name ++ markerSuffix ≠ ".." := by
  have hlength : 10 ≤ (name ++ markerSuffix).length := by
    rw [String.length_append]
    exact Nat.le_add_left _ _
  refine ⟨?_, ?_, ?_⟩
  all_goals
    intro h
    rw [h] at hlength
    revert hlength
    decide

/-- The steps to a marker: the segments of its package and its file name. -/
theorem ArtifactIdentity.components_relativePath
    {identity : ArtifactIdentity} (hpackage : '/' ∉ identity.package.toList)
    (hnested : '/' ∉ identity.nestedName.toList) :
    identity.relativePath.components =
      ((segments identity.package).filter (· ≠ "")).map .normal ++
        [.normal (identity.nestedName ++ markerSuffix)] := by
  obtain ⟨hempty, hdot, hdots⟩ := append_markerSuffix_ne identity.nestedName
  apply components_resourcePath hpackage _ hempty hdot hdots
  rw [String.toList_append, List.mem_append, not_or]
  exact ⟨hnested, by decide⟩

/-- The path of a marker is read back as what it was made of. -/
theorem decodeMarker_relativePath
    {package : String} {names : List String} (hpackage : IsPlainPackage package)
    (hne : names ≠ []) (hnames : ∀ name ∈ names, IsPlainSimpleName name) :
    decodeMarker (ArtifactIdentity.mk package
      (ArtifactIdentity.separator.intercalate names)).relativePath = some (package, names) := by
  have hnested : '/' ∉ (ArtifactIdentity.separator.intercalate names).toList := by
    intro hslash
    rcases mem_intercalate hslash with hseparator | ⟨name, hname, hmem⟩
    · exact absurd hseparator (by decide)
    · exact (hnames name hname).2 hmem
  have hsteps : ((ArtifactIdentity.mk package (ArtifactIdentity.separator.intercalate
      names)).relativePath.components.filterMap Component.name?).reverse =
        (ArtifactIdentity.separator.intercalate names ++ markerSuffix) ::
          ((segments package).filter (· ≠ "")).reverse := by
    rw [ArtifactIdentity.components_relativePath hpackage.slash_not_mem hnested,
      List.filterMap_append, List.filterMap_map, List.reverse_append]
    rw [show Component.name? ∘ Component.normal = some from rfl, List.filterMap_some]
    rfl
  have hsuffix : (ArtifactIdentity.separator.intercalate names ++ markerSuffix).toList.dropSuffix?
      markerSuffix.toList = some (ArtifactIdentity.separator.intercalate names).toList :=
    List.dropSuffix?_eq_some_iff.2 ⟨_, String.toList_append, beq_self_eq_true _⟩
  have hsplit : splitText '$' (ArtifactIdentity.separator.intercalate names) = names :=
    splitText_intercalate hne fun name hname => (hnames name hname).1
  rw [decodeMarker, hsteps]
  dsimp only
  rw [hsuffix, Option.map_some, String.ofList_toList, hsplit, List.reverse_reverse,
    hpackage.intercalate_segments]

example : decodeMarker ⟨"./shop/cart//Cart$Item.component"⟩ = some ("shop.cart", ["Cart", "Item"]) := by
  decide +kernel

/-- The reading of a path depends on its steps alone. -/
theorem decodeMarker_eq_of_same {path other : Path} (h : path.same other) :
    decodeMarker path = decodeMarker other := by
  rw [decodeMarker, decodeMarker, of_decide_eq_true h]

namespace ElementTable

/-- The element is a type that leads to its package through the given simple names, and package and
names are plain. -/
structure LeadsPlainly (table : ElementTable) (id : ElementId) (package : String)
    (names : List String) : Prop where
  leads : table.LeadsToPackage id package names
  isType : ∃ element, table.get? id = some element ∧ element.kind.isType
  package_isPlain : IsPlainPackage package
  names_arePlain : ∀ name ∈ names, IsPlainSimpleName name

theorem LeadsToPackage.ne_nil
    {table : ElementTable} {id : ElementId} {element : Element} {package : String}
    {names : List String} (h : table.LeadsToPackage id package names)
    (hget : table.get? id = some element) (hkind : element.kind.isType) : names ≠ [] := by
  cases h with
  | package hsame hpackage =>
      obtain rfl := Option.some.inj (hget.symm.trans hsame)
      rw [ElementKind.isPackage_eq_false_of_isType hkind] at hpackage
      cases hpackage
  | type => simp

/-- A type with plain names is resolved, and the path of its marker tells its package and the names of
the types around it. -/
theorem LeadsPlainly.exists_decodeMarker_eq
    {table : ElementTable} {id : ElementId} {package : String} {names : List String}
    (h : table.LeadsPlainly id package names) :
    ∃ identity, resolveIdentity table id = .ok identity ∧
      decodeMarker identity.relativePath = some (package, names) := by
  obtain ⟨element, hget, hkind⟩ := h.isType
  exact ⟨_, resolveIdentity_of_leadsToPackage hget hkind h.leads,
    decodeMarker_relativePath h.package_isPlain (h.leads.ne_nil hget hkind) h.names_arePlain⟩

/-- Types with plain names, in one table or in two, share a marker path only when they have the same
package and the same names. -/
theorem LeadsPlainly.eq_of_same
    {table other : ElementTable} {id otherId : ElementId} {package otherPackage : String}
    {names otherNames : List String} (h : table.LeadsPlainly id package names)
    (hother : other.LeadsPlainly otherId otherPackage otherNames)
    {identity otherIdentity : ArtifactIdentity} (hidentity : resolveIdentity table id = .ok identity)
    (hotherIdentity : resolveIdentity other otherId = .ok otherIdentity)
    (hsame : identity.relativePath.same otherIdentity.relativePath) :
    package = otherPackage ∧ names = otherNames := by
  obtain ⟨found, hfound, hdecode⟩ := h.exists_decodeMarker_eq
  obtain ⟨otherFound, hotherFound, hotherDecode⟩ := hother.exists_decodeMarker_eq
  obtain rfl := Except.ok.inj (hfound.symm.trans hidentity)
  obtain rfl := Except.ok.inj (hotherFound.symm.trans hotherIdentity)
  rw [decodeMarker_eq_of_same hsame, hotherDecode] at hdecode
  obtain ⟨rfl, rfl⟩ : otherPackage = package ∧ otherNames = names := by simpa using hdecode
  exact ⟨rfl, rfl⟩

end ElementTable

end ComponentMarkers
