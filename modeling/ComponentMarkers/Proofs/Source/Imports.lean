import ComponentMarkers.Proofs.Text.Dotted
import ComponentMarkers.Source.ImportContext

/-!
# What a simple name means in a unit

Annotations are told by taking an identifier apart at its last dot, superclasses by putting packages and
names together.  For a simple name both come to the same identifiers, those that begin with a dot aside:
taken apart, such an identifier seems to be in the unnamed package, where no dot would stand before it.
-/

namespace ComponentMarkers.Source

open Text

/-- The import brings the type with a simple name into scope by itself. -/
structure Import.Brings (item : Import) (simple : String) : Prop where
  not_static : item.isStatic = false
  not_onDemand : item.onDemand = false
  endsIn : EndsIn item.name simple

namespace ImportContext

/-- The packages in which simple names are looked up, the nearest first. -/
def packages (context : ImportContext) : List String :=
  context.package :: context.onDemand ++ [implicitPackage]

theorem mem_packages_iff (context : ImportContext) (package : String) :
    package ∈ context.packages ↔
      (package = context.package ∨ package = implicitPackage) ∨ package ∈ context.onDemand := by
  simp only [packages, List.mem_cons, List.mem_append, List.cons_append, List.not_mem_nil, or_false]
  rw [or_assoc, or_comm (a := package = implicitPackage)]

variable {context : ImportContext} {simple : String}

theorem endsIn_of_imported?
    (hsimple : '.' ∉ simple.toList) {imported : String}
    (h : context.imported? simple = some imported) : EndsIn imported simple := by
  have hlast := List.find?_some (p := fun name => decide (lastSegment name = simple)) h
  exact (lastSegment_eq_iff hsimple imported).1 (of_decide_eq_true hlast)

/-- The identifier has a last dot or none, and is taken apart accordingly. -/
theorem exists_split (identifier : String) :
    ∃ package last, (splitLast? identifier).getD ("", identifier) = (package, last) ∧
      '.' ∉ last.toList ∧
      ((package = "" ∧ identifier = last) ∨ identifier = package ++ "." ++ last) := by
  rcases exists_last_dot identifier with hdot | ⟨owner, last, hlast, rfl⟩
  · refine ⟨"", identifier, ?_, hdot, Or.inl ⟨rfl, rfl⟩⟩
    rw [splitLast?_of_not_mem hdot, Option.getD_none]
  · refine ⟨owner, last, ?_, hlast, Or.inr rfl⟩
    rw [splitLast?_append_dot owner hlast, Option.getD_some]

theorem denotes_iff_of_split
    (hsimple : '.' ∉ simple.toList) {identifier package last : String}
    (hsplit : (splitLast? identifier).getD ("", identifier) = (package, last)) :
    context.denotes simple identifier ↔
      simple = last ∧
        (context.imported? simple = some identifier ∨
          context.imported? simple = none ∧ package ∈ context.packages) := by
  have hdotless : ¬ simple.toList.contains '.' := mt List.contains_iff_mem.1 hsimple
  rw [denotes, if_neg hdotless, hsplit]
  dsimp only
  by_cases hlast : simple = last
  · rw [if_neg (not_not_intro hlast)]
    cases context.imported? simple with
    | some imported => simp [hlast]
    | none => simp [hlast, mem_packages_iff]
  · rw [if_pos hlast]
    simp [hlast]

/-- If an import brings the name into scope, the name denotes what is imported and nothing else. -/
theorem denotes_iff_of_imported?
    (hsimple : '.' ∉ simple.toList) {imported : String}
    (h : context.imported? simple = some imported) (identifier : String) :
    context.denotes simple identifier ↔ identifier = imported := by
  obtain ⟨package, last, hsplit, hlast, hidentifier⟩ := exists_split identifier
  rw [denotes_iff_of_split hsimple hsplit, h]
  constructor
  · rintro ⟨-, hsame | ⟨hnone, -⟩⟩
    · exact (Option.some.inj hsame).symm
    · cases hnone
  · rintro rfl
    refine ⟨?_, Or.inl rfl⟩
    -- The import ends in the name, and so does the identifier.
    have himport := (lastSegment_eq_iff hsimple identifier).2 (endsIn_of_imported? hsimple h)
    have hends : EndsIn identifier last := by
      rcases hidentifier with ⟨-, hsame⟩ | hsame
      · exact Or.inl hsame
      · exact Or.inr ⟨package, hsame⟩
    rw [← himport, (lastSegment_eq_iff hlast identifier).2 hends]

/-- If no import brings the name into scope, it denotes what has this name in one of the packages. -/
theorem denotes_iff_of_imported?_eq_none
    (hsimple : '.' ∉ simple.toList) (h : context.imported? simple = none) (identifier : String) :
    context.denotes simple identifier ↔
      (identifier = simple ∧ "" ∈ context.packages) ∨
        ∃ package ∈ context.packages, identifier = package ++ "." ++ simple := by
  constructor
  · obtain ⟨package, last, hsplit, -, hidentifier⟩ := exists_split identifier
    rw [denotes_iff_of_split hsimple hsplit, h]
    rintro ⟨rfl, hsome | ⟨-, hpackage⟩⟩
    · cases hsome
    · rcases hidentifier with ⟨rfl, hsame⟩ | hsame
      · exact Or.inl ⟨hsame, hpackage⟩
      · exact Or.inr ⟨package, hpackage, hsame⟩
  · rintro (⟨rfl, hpackage⟩ | ⟨package, hpackage, rfl⟩)
    · apply (denotes_iff_of_split hsimple ?_).2 ⟨rfl, Or.inr ⟨h, hpackage⟩⟩
      rw [splitLast?_of_not_mem hsimple, Option.getD_none]
    · apply (denotes_iff_of_split hsimple ?_).2 ⟨rfl, Or.inr ⟨h, hpackage⟩⟩
      rw [splitLast?_append_dot package hsimple, Option.getD_some]

/-- Names in packages begin with no dot unless the package does. -/
theorem exists_eq_qualify_iff
    {identifier : String} (hidentifier : identifier.toList.head? ≠ some '.') (packages : List String)
    (simple : String) :
    (∃ package ∈ packages, identifier = qualify package simple) ↔
      (identifier = simple ∧ "" ∈ packages) ∨
        ∃ package ∈ packages, identifier = package ++ "." ++ simple := by
  constructor
  · rintro ⟨package, hpackage, rfl⟩
    by_cases hempty : package = ""
    · subst hempty
      exact Or.inl ⟨qualify_empty simple, hpackage⟩
    · exact Or.inr ⟨package, hpackage, qualify_of_ne_empty hempty simple⟩
  · rintro (⟨rfl, hpackage⟩ | ⟨package, hpackage, rfl⟩)
    · exact ⟨"", hpackage, (qualify_empty identifier).symm⟩
    · refine ⟨package, hpackage, (qualify_of_ne_empty ?_ simple).symm⟩
      rintro rfl
      apply hidentifier
      rw [toList_append_dot]
      rfl

/-- Both ways of looking a simple name up come to the same. -/
theorem denotes_iff_mem
    (hsimple : '.' ∉ simple.toList) {identifier : String}
    (hidentifier : identifier.toList.head? ≠ some '.') :
    context.denotes simple identifier ↔ identifier ∈ context.typeCandidates simple := by
  rw [typeCandidates]
  cases himported : context.imported? simple with
  | some imported => rw [denotes_iff_of_imported? hsimple himported, List.mem_singleton]
  | none =>
      dsimp only
      rw [denotes_iff_of_imported?_eq_none hsimple himported, ← exists_eq_qualify_iff hidentifier,
        List.mem_map]
      exact exists_congr fun package => and_congr_right fun _ => eq_comm

/-- The first import that brings a name into scope is found. -/
theorem imported?_ofImports
    (package : Option String) (hsimple : '.' ∉ simple.toList)
    {before : List Import} {item : Import} (hitem : item.Brings simple)
    (hbefore : ∀ other ∈ before, ¬ other.Brings simple) (after : List Import) :
    (ofImports package (before ++ item :: after)).imported? simple = some item.name := by
  have hearlier : (ofImports package before).imported? simple = none := by
    rw [imported?, List.find?_eq_none]
    intro name hname hlast
    obtain ⟨other, hother, rfl⟩ := List.mem_map.1 hname
    simp only [List.mem_filter, Bool.not_eq_true'] at hother
    obtain ⟨⟨hmem, hstatic⟩, hdemand⟩ := hother
    apply hbefore other hmem
    exact ⟨hstatic, hdemand, (lastSegment_eq_iff hsimple other.name).1 (of_decide_eq_true hlast)⟩
  have hsplit : (ofImports package (before ++ item :: after)).singleTypes =
      (ofImports package before).singleTypes ++
        item.name :: (ofImports package after).singleTypes := by
    simp [ofImports, hitem.not_static, hitem.not_onDemand]
  have hlast : lastSegment item.name = simple :=
    (lastSegment_eq_iff hsimple item.name).2 hitem.endsIn
  rw [imported?] at hearlier ⊢
  rw [hsplit, List.find?_append, hearlier, Option.none_or, List.find?_cons_of_pos]
  exact decide_eq_true hlast

/-- Of the imports only those that are not static count. -/
theorem ofImports_of_filter_eq
    (package : Option String) {imports others : List Import}
    (h : (others.filter fun item => !item.isStatic) = imports.filter fun item => !item.isStatic) :
    ofImports package others = ofImports package imports := by
  rw [ofImports, ofImports, h]

/-- In every unit, a simple name denotes the identifiers that are its candidates, as far as they do not
begin with a dot.  If an import brings the name into scope, the first such import is all that it denotes.
Static imports have no say in either. -/
theorem denotes_iff_mem_typeCandidates
    (package : Option String) (imports : List Import) (simple : String)
    (hsimple : '.' ∉ simple.toList) :
    (∀ identifier : String, identifier.toList.head? ≠ some '.' →
      ((ofImports package imports).denotes simple identifier ↔
        identifier ∈ (ofImports package imports).typeCandidates simple)) ∧
      (∀ before item after, imports = before ++ item :: after → item.Brings simple →
        (∀ other ∈ before, ¬ other.Brings simple) →
          (∀ identifier, (ofImports package imports).denotes simple identifier ↔
            identifier = item.name) ∧
          (ofImports package imports).typeCandidates simple = [item.name]) ∧
      ∀ others : List Import,
        ((others.filter fun item => !item.isStatic) = imports.filter fun item => !item.isStatic) →
          (∀ written identifier, (ofImports package others).denotes written identifier =
            (ofImports package imports).denotes written identifier) ∧
          ∀ name, (ofImports package others).typeCandidates name =
            (ofImports package imports).typeCandidates name := by
  refine ⟨?_, ?_, ?_⟩
  · intro identifier hidentifier
    exact denotes_iff_mem hsimple hidentifier
  · rintro before item after rfl hitem hbefore
    have himported := imported?_ofImports package hsimple hitem hbefore after
    refine ⟨denotes_iff_of_imported? hsimple himported, ?_⟩
    rw [typeCandidates, himported]
  · intro others hothers
    rw [ofImports_of_filter_eq package hothers]
    exact ⟨fun _ _ => rfl, fun _ => rfl⟩

/-- A static import, an import on demand, and two imports of one simple name. -/
def scopeImports : List Import :=
  [⟨"util.Dsl.Scoped", false, true⟩, ⟨"scopes", true, false⟩, ⟨"shop.Scoped", false, false⟩,
    ⟨"web.Scoped", false, false⟩]

/-- The first of the two imports that are not static wins over the package and over the other one. -/
theorem denotes_iff_mem_typeCandidates_scopeImports :
    '.' ∉ "Scoped".toList ∧ "web.Scoped".toList.head? ≠ some '.' ∧
      ((ofImports (some "web") scopeImports).denotes "Scoped" "web.Scoped" ↔
        "web.Scoped" ∈ (ofImports (some "web") scopeImports).typeCandidates "Scoped") ∧
      (∀ identifier, (ofImports (some "web") scopeImports).denotes "Scoped" identifier ↔
        identifier = "shop.Scoped") ∧
      (ofImports (some "web") scopeImports).denotes "Scoped" "web.Scoped" = false ∧
      (ofImports (some "web") scopeImports.tail).typeCandidates "Scoped" = ["shop.Scoped"] := by
  have hsimple : '.' ∉ "Scoped".toList := by decide
  have hidentifier : "web.Scoped".toList.head? ≠ some '.' := by decide
  have hitem : Import.Brings ⟨"shop.Scoped", false, false⟩ "Scoped" :=
    ⟨rfl, rfl, Or.inr ⟨"shop", rfl⟩⟩
  have hkinds : ∀ other ∈ scopeImports.take 2, other.isStatic ∨ other.onDemand := by decide
  have hbefore : ∀ other ∈ scopeImports.take 2, ¬ other.Brings "Scoped" := by
    intro other hother hbrings
    have hkind := hkinds other hother
    rw [hbrings.not_static, hbrings.not_onDemand] at hkind
    simp at hkind
  obtain ⟨hiff, hfirst, hstatic⟩ :=
    denotes_iff_mem_typeCandidates (some "web") scopeImports "Scoped" hsimple
  obtain ⟨hdenotes, hcandidates⟩ := hfirst _ _ (scopeImports.drop 3) rfl hitem hbefore
  refine ⟨hsimple, hidentifier, hiff _ hidentifier, hdenotes, ?_, ?_⟩
  · rw [← Bool.not_eq_true, hdenotes]
    decide
  · rw [(hstatic scopeImports.tail rfl).2, hcandidates]

end ImportContext

end ComponentMarkers.Source
