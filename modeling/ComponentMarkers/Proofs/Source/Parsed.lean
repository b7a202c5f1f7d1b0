import ComponentMarkers.Proofs.Source.Occurrences
import ComponentMarkers.Proofs.Source.Origins

/-!
# What readers of sources declare

Whatever a source text holds, its unit declares types at the top and types and their members further
in.  No declaration is a package, and nothing but types has members.
-/

namespace ComponentMarkers.Source

/-- What is read of the member is a type if it has a body. -/
def Member.IsProper (member : Member) : Prop :=
  ∀ head, member = .type head → head.kind.isType

theorem ne_package_of_isType {kind : ElementKind} (h : kind.isType) : kind ≠ .package := by
  rintro rfl
  cases h

theorem isType_of_typeKind? {trees : List Tree} {kind : ElementKind}
    (h : typeKind? trees = some kind) : kind.isType := by
  unfold typeKind? at h
  split at h
  · split at h
    · cases h
    · split at h
      · cases h
        rfl
      · cases h
        rfl
      · cases h
        rfl
      · cases h
        rfl
      · split at h
        · split at h
          · cases h
            rfl
          · cases h
        · cases h
      · cases h
  · cases h

theorem ReadsMember.isProper {trees : List Tree} {member : Member} (h : ReadsMember trees member) :
    member.IsProper := by
  rintro head rfl
  cases h with
  | type hhead =>
      obtain ⟨_, _, _, -, hkind, -⟩ := exists_of_typeHead? hhead
      exact isType_of_typeKind? hkind

theorem Member.IsProper.isProper_of_mem_declarations
    {member : Member} (h : member.IsProper) {levels : Nat} {declaration : Declaration}
    (hmem : declaration ∈ member.declarations (TypeHead.declaration levels)) :
    declaration.IsProper := by
  cases member with
  | type head =>
      obtain rfl := List.mem_singleton.1 hmem
      rw [head.declaration_eq]
      exact ⟨ne_package_of_isType (h head rfl), fun _ => h head rfl⟩
  | fields =>
      obtain ⟨name, -, rfl⟩ := List.mem_map.1 hmem
      exact ⟨ElementKind.noConfusion, fun hmembers => absurd rfl hmembers⟩
  | _ =>
      obtain rfl := List.mem_singleton.1 hmem
      exact ⟨ElementKind.noConfusion, fun hmembers => absurd rfl hmembers⟩

/-- What the members of a type have if the type has it is handed down to every level that is read. -/
theorem TypeHead.every_declaration
    {p : Member → Prop} {q : Declaration → Prop}
    (hmembers : ∀ head, p (.type head) → ∀ member ∈ head.members, p member)
    (hdeclaration : ∀ member levels, p member →
      ∀ declaration ∈ member.declarations (TypeHead.declaration levels), q declaration)
    {head : TypeHead} (h : p (.type head)) (levels : Nat) : (head.declaration levels).Every q := by
  induction levels generalizing head with
  | zero =>
      rw [Declaration.every_iff]
      exact ⟨hdeclaration _ 0 h _ (List.mem_singleton_self _),
        fun declaration hmem => absurd hmem List.not_mem_nil⟩
  | succ levels ih =>
      rw [Declaration.every_iff]
      refine ⟨hdeclaration _ _ h _ (List.mem_singleton_self _), fun declaration hmem => ?_⟩
      obtain ⟨member, hmember, hdeclared⟩ := List.mem_flatMap.1 hmem
      have hp := hmembers head h member hmember
      rcases Member.mem_declarations hdeclared with ⟨inner, rfl, rfl⟩ | hnone
      · exact ih hp
      · rw [Declaration.every_iff, hnone]
        exact ⟨hdeclaration member levels hp declaration hdeclared,
          fun inner hinner => absurd hinner List.not_mem_nil⟩

/-- Every declaration that is read from a source text is proper. -/
theorem every_isProper_of_mem_readUnit
    (source : String) (path : Option Path) {declaration : Declaration}
    (h : declaration ∈ (readUnit source path).types) :
    declaration.Every Declaration.IsProper := by
  obtain ⟨head, levels, hhead, rfl⟩ := exists_head_of_mem_types_readUnit h
  obtain ⟨names, row, after, -, hread⟩ := exists_typeHead?_of_mem_items hhead
  obtain ⟨_, _, _, -, hkind, -⟩ := exists_of_typeHead? hread
  refine TypeHead.every_declaration (p := Member.IsProper) (fun outer _ member hmember => ?_)
    (fun member levels hproper declaration => hproper.isProper_of_mem_declarations) ?_ levels
  · obtain ⟨row, -, hreads⟩ := outer.exists_readsMember hmember
    exact hreads.isProper
  · rintro _ ⟨⟩
    exact isType_of_typeKind? hkind

end ComponentMarkers.Source
