import ComponentMarkers.Marking.Identity
import ComponentMarkers.Proofs.Marking.Chains

/-!
# When an identity is resolved

A type has an identity when there are only types on the way up to a package.  `LeadsToPackage` is that
way as a relation; it depends on neither the bound of a chain nor what was visited.  Conversely the
package of every resolved identity is a package of the table.
-/

namespace ComponentMarkers

theorem ElementKind.isPackage_eq_false_of_isType {kind : ElementKind} (hkind : kind.isType) :
    kind.isPackage = false := by
  revert hkind
  cases kind <;> decide

namespace ElementTable

/-- From `id` on there are only types up to a package with the name `package`.  `names` are the simple
names of these types, the outermost first. -/
inductive LeadsToPackage (table : ElementTable) :
    (id : ElementId) → (package : String) → (names : List String) → Prop where
  | package {id : ElementId} {element : Element} (hget : table.get? id = some element)
      (hkind : element.kind.isPackage) : LeadsToPackage table id element.qualifiedName []
  | type {id owner : ElementId} {element : Element} {package : String} {names : List String}
      (hget : table.get? id = some element) (hkind : element.kind.isType)
      (howner : element.enclosing = some owner)
      (hrest : LeadsToPackage table owner package names) :
      LeadsToPackage table id package (names ++ [element.simpleName])

theorem LeadsToPackage.unique
    {table : ElementTable} {id : ElementId} {package other : String}
    {names otherNames : List String} (h : table.LeadsToPackage id package names)
    (hother : table.LeadsToPackage id other otherNames) :
    package = other ∧ names = otherNames := by
  induction h generalizing other otherNames with
  | package hget hkind =>
      cases hother with
      | package hsame =>
          obtain rfl := Option.some.inj (hget.symm.trans hsame)
          exact ⟨rfl, rfl⟩
      | type hsame htype =>
          obtain rfl := Option.some.inj (hget.symm.trans hsame)
          rw [ElementKind.isPackage_eq_false_of_isType htype] at hkind
          cases hkind
  | type hget hkind howner hrest ih =>
      cases hother with
      | package hsame hpackage =>
          obtain rfl := Option.some.inj (hget.symm.trans hsame)
          rw [ElementKind.isPackage_eq_false_of_isType hkind] at hpackage
          cases hpackage
      | type hsame _ hsameOwner hmore =>
          obtain rfl := Option.some.inj (hget.symm.trans hsame)
          obtain rfl := Option.some.inj (howner.symm.trans hsameOwner)
          obtain ⟨rfl, rfl⟩ := ih hmore
          exact ⟨rfl, rfl⟩

/-- What holds of the names of all packages and of the simple names of all types holds of the names on
the way. -/
theorem LeadsToPackage.forall_names
    {table : ElementTable} {id : ElementId} {package : String} {names : List String}
    (h : table.LeadsToPackage id package names) {P Q : String → Prop}
    (hpackage : ∀ other element, table.get? other = some element → element.kind.isPackage →
      P element.qualifiedName)
    (htype : ∀ other element, table.get? other = some element → element.kind.isType →
      Q element.simpleName) : P package ∧ ∀ name ∈ names, Q name := by
  induction h with
  | package hget hkind => exact ⟨hpackage _ _ hget hkind, by simp⟩
  | type hget hkind _ _ ih =>
      obtain ⟨howner, hnames⟩ := ih
      refine ⟨howner, fun name hname => ?_⟩
      rcases List.mem_append.1 hname with hname | hname
      · exact hnames name hname
      · rw [List.mem_singleton.1 hname]
        exact htype _ _ hget hkind

/-- Climbing a chain finds the package that its first element leads to.  What was visited before is
farther away from the package, so the chain does not come back to it. -/
theorem LeadsToPackage.climb_eq
    {table : ElementTable} {id : ElementId} {package : String} {names : List String}
    (h : table.LeadsToPackage id package names) {visited : List ElementId} {chain : EnclosingChain}
    (hchain : table.IsChain visited (some id) chain)
    (hvisited : ∀ other ∈ visited, ∀ otherPackage otherNames,
      table.LeadsToPackage other otherPackage otherNames → names.length < otherNames.length)
    (met : List String) :
    climb chain.ending met chain.links = .ok (package, names ++ met) := by
  induction h generalizing visited chain met with
  | @package id element hget hkind =>
      cases hchain with
      | loop hmem => exact absurd (hvisited id hmem _ _ (.package hget hkind)) (Nat.lt_irrefl _)
      | unknown _ hnone => simp [hget] at hnone
      | link _ hsame _ =>
          obtain rfl := Option.some.inj (hget.symm.trans hsame)
          rw [climb, if_pos hkind]
          rfl
  | @type id owner element package names hget hkind howner hrest ih =>
      have hself : table.LeadsToPackage id package (names ++ [element.simpleName]) :=
        .type hget hkind howner hrest
      cases hchain with
      | loop hmem => exact absurd (hvisited id hmem _ _ hself) (Nat.lt_irrefl _)
      | unknown _ hnone => simp [hget] at hnone
      | link _ hsame hmore =>
          obtain rfl := Option.some.inj (hget.symm.trans hsame)
          rw [howner] at hmore
          rw [climb, ElementKind.isPackage_eq_false_of_isType hkind, if_neg Bool.false_ne_true,
            if_pos hkind]
          rw [ih hmore ?_ (element.simpleName :: met), List.append_assoc, List.singleton_append]
          intro other hother otherPackage otherNames hleads
          rcases List.mem_cons.1 hother with rfl | hother
          · obtain ⟨-, rfl⟩ := hself.unique hleads
            simp
          · have hlt := hvisited other hother otherPackage otherNames hleads
            rw [List.length_append] at hlt
            omega

theorem enclosingChain_eq_of_get?
    {table : ElementTable} {id : ElementId} {element : Element}
    (hget : table.get? id = some element) :
    ∃ rest, table.IsChain [id] element.enclosing rest ∧
      table.enclosingChain id = ⟨(id, element) :: rest.links, rest.ending⟩ := by
  have hchain := table.isChain_enclosingChain id
  generalize table.enclosingChain id = chain at hchain
  cases hchain with
  | loop hmem => cases hmem
  | unknown _ hnone => simp [hget] at hnone
  | link _ hsame hrest =>
      obtain rfl := Option.some.inj (hget.symm.trans hsame)
      exact ⟨_, hrest, rfl⟩

end ElementTable

open ElementTable

/-- A type that leads to a package is resolved. -/
theorem resolveIdentity_of_leadsToPackage
    {table : ElementTable} {id : ElementId} {element : Element} {package : String}
    {names : List String} (hget : table.get? id = some element) (hkind : element.kind.isType)
    (hleads : table.LeadsToPackage id package names) :
    resolveIdentity table id = .ok ⟨package, ArtifactIdentity.separator.intercalate names⟩ := by
  obtain ⟨rest, hrest, hchain⟩ := enclosingChain_eq_of_get? hget
  cases hleads with
  | package hsame hpackage =>
      obtain rfl := Option.some.inj (hget.symm.trans hsame)
      rw [ElementKind.isPackage_eq_false_of_isType hkind] at hpackage
      cases hpackage
  | @type _ owner same _ names hsame htype howner hmore =>
      obtain rfl := Option.some.inj (hget.symm.trans hsame)
      rw [howner] at hrest
      have hclimb := hmore.climb_eq hrest ?_ [element.simpleName]
      · rw [resolveIdentity, hget]
        dsimp only
        rw [hchain]
        dsimp only [List.tail_cons]
        rw [hclimb]
      · intro other hother otherPackage otherNames hother'
        obtain rfl := List.mem_singleton.1 hother
        obtain ⟨-, rfl⟩ := (LeadsToPackage.type hget hkind howner hmore).unique hother'
        simp

/-- A climb that arrives has gone through types up to a package. -/
theorem ElementTable.IsChain.exists_leadsToPackage_of_climb
    {table : ElementTable} {visited : List ElementId} {next : Option ElementId}
    {chain : EnclosingChain} (hchain : table.IsChain visited next chain) {met all : List String}
    {package : String} (hclimb : climb chain.ending met chain.links = .ok (package, all)) :
    ∃ id names, next = some id ∧ table.LeadsToPackage id package names ∧ all = names ++ met := by
  induction hchain generalizing met with
  | top => simp [climb] at hclimb
  | loop => simp [climb] at hclimb
  | unknown => simp [climb] at hclimb
  | @link visited id element rest hid hget hrest ih =>
      rw [climb] at hclimb
      split at hclimb
      · rename_i hkind
        obtain ⟨rfl, rfl⟩ : element.qualifiedName = package ∧ met = all := by simpa using hclimb
        exact ⟨id, [], rfl, .package hget hkind, rfl⟩
      · split at hclimb
        · rename_i hkind
          obtain ⟨owner, names, howner, hleads, rfl⟩ := ih hclimb
          refine ⟨id, names ++ [element.simpleName], rfl, .type hget hkind howner hleads, ?_⟩
          rw [List.append_assoc, List.singleton_append]
        · cases hclimb

/-- A type that is resolved leads to its package, and its nested name is made of the names on the
way. -/
theorem exists_leadsToPackage_of_resolveIdentity
    {table : ElementTable} {id : ElementId} {element : Element} {identity : ArtifactIdentity}
    (hget : table.get? id = some element) (hkind : element.kind.isType)
    (h : resolveIdentity table id = .ok identity) :
    ∃ names, table.LeadsToPackage id identity.package names ∧
      identity.nestedName = ArtifactIdentity.separator.intercalate names := by
  obtain ⟨rest, hrest, hchain⟩ := enclosingChain_eq_of_get? hget
  rw [resolveIdentity, hget] at h
  dsimp only at h
  rw [hchain] at h
  dsimp only [List.tail_cons] at h
  split at h
  · rename_i package all hclimb
    obtain ⟨owner, names, howner, hleads, rfl⟩ := hrest.exists_leadsToPackage_of_climb hclimb
    rw [← Except.ok.inj h]
    exact ⟨names ++ [element.simpleName], .type hget hkind howner hleads, rfl⟩
  · cases h
  · cases h

theorem climb_ne_unknown
    {ending : ChainEnd} (hending : ∀ id, ending ≠ .unknown id) (met : List String)
    (links : List (ElementId × Element)) (unknown : UnknownElement) :
    climb ending met links ≠ .error (.inr unknown) := by
  induction links generalizing met with
  | nil =>
      cases ending with
      | top => simp [climb]
      | loop back => simp [climb]
      | unknown id => exact absurd rfl (hending id)
  | cons link rest ih =>
      rw [climb]
      split
      · simp
      · split
        · exact ih _
        · simp

/-- A chain may be broken, but as long as it does not run into an unknown element there is an answer. -/
theorem resolveIdentity_ne_unknown
    {table : ElementTable} {id : ElementId} (hknows : table.KnowsChain id)
    (unknown : UnknownElement) : resolveIdentity table id ≠ .error (.unknown unknown) := by
  obtain ⟨element, hget⟩ :=
    Option.isSome_iff_exists.1 (hknows.isSome_of_reaches Relation.ReflTransGen.refl)
  have hclimb := climb_ne_unknown hknows [element.simpleName] (table.enclosingChain id).links.tail
  rw [resolveIdentity, hget]
  dsimp only
  split
  · simp
  · simp
  · rename_i found hfound
    exact absurd hfound (hclimb found)

theorem exists_package_of_climb
    {ending : ChainEnd} {met names : List String} {links : List (ElementId × Element)}
    {package : String} (h : climb ending met links = .ok (package, names)) :
    ∃ link ∈ links, link.2.kind = .package ∧ link.2.qualifiedName = package := by
  induction links generalizing met with
  | nil => cases ending <;> simp [climb] at h
  | cons link rest ih =>
      rw [climb] at h
      split at h
      · rename_i hkind
        refine ⟨link, List.mem_cons_self, of_decide_eq_true hkind, ?_⟩
        exact congrArg Prod.fst (Except.ok.inj h)
      · split at h
        · obtain ⟨found, hfound, hspec⟩ := ih h
          exact ⟨found, List.mem_cons_of_mem _ hfound, hspec⟩
        · cases h

/-- The package of an identity is a package of the table. -/
theorem exists_package_of_resolveIdentity
    {table : ElementTable} {id : ElementId} {identity : ArtifactIdentity}
    (h : resolveIdentity table id = .ok identity) :
    ∃ owner element, table.get? owner = some element ∧ element.kind = .package ∧
      element.qualifiedName = identity.package := by
  rw [resolveIdentity] at h
  split at h
  · cases h
  · dsimp only at h
    split at h
    · rename_i package names hclimb
      obtain ⟨link, hlink, hkind, hname⟩ := exists_package_of_climb hclimb
      obtain ⟨hget, -⟩ :=
        (table.isChain_enclosingChain id).link_spec link (List.mem_of_mem_tail hlink)
      refine ⟨link.1, link.2, hget, hkind, ?_⟩
      rw [hname, ← Except.ok.inj h]
    · cases h
    · cases h

end ComponentMarkers
