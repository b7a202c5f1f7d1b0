import ComponentMarkers.Proofs.Source.Statements

/-!
# Bodies are opaque

Two sources that differ only inside bodies and values are read as the same unit, but for one place.
Where the default of an annotation's element is an annotation, that annotation is read as one of the
element.  So such sources have the same unit exactly if the defaults that differ come to the same
annotations.
-/

namespace ComponentMarkers.Source

open Source.Tree

/-- Where trees stand: at the top of a source, among the members of a type, or in the body of an enum
up to the end of its constants. -/
inductive Region where
  | top
  | body
  | enumBody
  deriving DecidableEq

/-- What the body of a type begins with. -/
def Region.inside (kind : ElementKind) : Region :=
  if kind = .enum then .enumBody else .body

/-- Rows of trees that differ only inside bodies, values, and the arguments of constants.  The last list
holds the defaults of annotation elements, each with the one in its place. -/
inductive DifferInBodies : Region → List Tree → List Tree → List (List Tree × List Tree) → Prop
  | nil {region : Region} : DifferInBodies region [] [] []
  | heading {row left right : List Tree} {defaults : List (List Tree × List Tree)}
      (hrow : IsHeading row) (hrest : DifferInBodies .top left right defaults) :
      DifferInBodies .top (row ++ left) (row ++ right) defaults
  | statement {row left right : List Tree} {mark : Tree} {defaults : List (List Tree × List Tree)}
      (hrow : IsStatement row) (hmark : mark.isSymbol ';')
      (hrest : DifferInBodies .top left right defaults) :
      DifferInBodies .top (row ++ mark :: left) (row ++ mark :: right) defaults
  | block {row left right : List Tree} {body other : Tree} {defaults : List (List Tree × List Tree)}
      (hrow : IsStatement row) (hbody : body.isGroup .curly) (hother : other.isGroup .curly)
      (hrest : DifferInBodies .top left right defaults) :
      DifferInBodies .top (row ++ body :: left) (row ++ other :: right) defaults
  | type {region : Region} {kind : ElementKind} {row inner other left right : List Tree}
      {opening : Token} {closing : Option Token} {defaults more : List (List Tree × List Tree)}
      (hregion : region ≠ .enumBody) (hrow : IsTypeHead kind row)
      (hinner : DifferInBodies (.inside kind) inner other defaults)
      (hrest : DifferInBodies region left right more) :
      DifferInBodies region (row ++ .group .curly opening inner closing :: left)
        (row ++ .group .curly opening other closing :: right) (defaults ++ more)
  | semicolon {left right : List Tree} {mark : Tree} {defaults : List (List Tree × List Tree)}
      (hmark : mark.isSymbol ';') (hrest : DifferInBodies .body left right defaults) :
      DifferInBodies .body (mark :: left) (mark :: right) defaults
  | body {row left right : List Tree} {body other : Tree} {defaults : List (List Tree × List Tree)}
      (hrow : IsBodyHead row) (hbody : body.isGroup .curly) (hother : other.isGroup .curly)
      (hrest : DifferInBodies .body left right defaults) :
      DifferInBodies .body (row ++ body :: left) (row ++ other :: right) defaults
  | method {head throws left right : List Tree} {mark : Tree}
      {defaults : List (List Tree × List Tree)} (hhead : IsMethodHead head)
      (hthrows : IsThrowsClause throws) (hmark : mark.isSymbol ';')
      (hrest : DifferInBodies .body left right defaults) :
      DifferInBodies .body (head ++ (throws ++ mark :: left)) (head ++ (throws ++ mark :: right))
        defaults
  | element {head value other left right : List Tree} {keyword mark ending : Tree}
      {defaults : List (List Tree × List Tree)} (hhead : IsMethodHead head)
      (hkeyword : keyword.isWord "default") (hvalue : IsDefault value) (hother : IsDefault other)
      (hmark : mark.isSymbol ';') (hending : ending.isSymbol ';')
      (hrest : DifferInBodies .body left right defaults) :
      DifferInBodies .body (head ++ keyword :: (value ++ mark :: left))
        (head ++ keyword :: (other ++ ending :: right)) ((value, other) :: defaults)
  | fields {typed fields others left right : List Tree} {heads : List (Tree × List Tree)}
      {mark ending : Tree} {defaults : List (List Tree × List Tree)} (htyped : IsTyped typed)
      (hfields : AreDeclarators heads fields) (hothers : AreDeclarators heads others)
      (hmark : mark.isSymbol ';') (hending : ending.isSymbol ';')
      (hrest : DifferInBodies .body left right defaults) :
      DifferInBodies .body (typed ++ (fields ++ mark :: left)) (typed ++ (others ++ ending :: right))
        defaults
  | constant {row ending other left right : List Tree} {defaults : List (List Tree × List Tree)}
      (hrow : IsConstantHead row) (hending : IsConstantEnd ending) (hother : IsConstantEnd other)
      (hleft : EndsConstant left) (hrest : DifferInBodies .enumBody left right defaults) :
      DifferInBodies .enumBody (row ++ (ending ++ left)) (row ++ (other ++ right)) defaults
  | comma {left right : List Tree} {mark : Tree} {defaults : List (List Tree × List Tree)}
      (hmark : mark.isSymbol ',') (hrest : DifferInBodies .enumBody left right defaults) :
      DifferInBodies .enumBody (mark :: left) (mark :: right) defaults
  | separator {left right : List Tree} {mark : Tree} {defaults : List (List Tree × List Tree)}
      (hmark : mark.isSymbol ';') (hrest : DifferInBodies .body left right defaults) :
      DifferInBodies .enumBody (mark :: left) (mark :: right) defaults

/-- The names of annotations that the default of an element adds to those of the element. -/
def defaultValueNames (trees : List Tree) : List String :=
  annotationNames [] (defaultValue trees)

/-- The defaults come to the same annotations. -/
def DefaultsAgree (defaults : List (List Tree × List Tree)) : Prop :=
  ∀ pair ∈ defaults, defaultValueNames pair.1 = defaultValueNames pair.2

theorem defaultsAgree_append {defaults more : List (List Tree × List Tree)} :
    DefaultsAgree (defaults ++ more) ↔ DefaultsAgree defaults ∧ DefaultsAgree more :=
  List.forall_mem_append

theorem defaultsAgree_cons
    {value other : List Tree} {defaults : List (List Tree × List Tree)} :
    DefaultsAgree ((value, other) :: defaults) ↔
      defaultValueNames value = defaultValueNames other ∧ DefaultsAgree defaults :=
  List.forall_mem_cons

section Reading

variable {region : Region} {left right lefts rights : List Tree} {agree : Prop}

/-- What is read of the trees, but for packages and imports. -/
def Region.membersOf : Region → List Tree → List Member
  | .top, trees => ((items trees).filterMap Item.head?).map .type
  | .body, trees => members trees
  | .enumBody, trees => (constants trees).1 ++ members (constants trees).2

theorem TypeHead.members_eq (head : TypeHead) :
    head.members = (Region.inside head.kind).membersOf head.body := by
  rw [TypeHead.members, Region.inside]
  split
  · rfl
  · rfl

theorem Region.membersOf_nil (region : Region) : region.membersOf [] = [] := by
  cases region with
  | top => rw [Region.membersOf, items_nil, List.filterMap_nil, List.map_nil]
  | body => exact members_nil
  | enumBody => rw [Region.membersOf, constants_nil, members_nil, List.append_nil]

/-- What the members declare, types among them being read to the given depth. -/
def declarationsOf (levels : Nat) (members : List Member) : List Declaration :=
  members.flatMap (Member.declarations (TypeHead.declaration levels))

theorem declarationsOf_append (levels : Nat) (members more : List Member) :
    declarationsOf levels (members ++ more) =
      declarationsOf levels members ++ declarationsOf levels more :=
  List.flatMap_append

theorem declarationsOf_map_type (levels : Nat) (heads : List TypeHead) :
    declarationsOf levels (heads.map .type) = heads.map (TypeHead.declaration levels) := by
  rw [declarationsOf, List.flatMap_map, List.map_eq_flatMap]
  rfl

/-- Members that are no types declare the same at any depth. -/
theorem declarationsOf_eq
    {members : List Member} (h : ∀ head, .type head ∉ members) (levels others : Nat) :
    declarationsOf levels members = declarationsOf others members := by
  rw [declarationsOf, declarationsOf, List.flatMap_def, List.flatMap_def]
  congr 1
  refine List.map_congr_left fun member hmember => ?_
  cases member with
  | type head => exact absurd hmember (h head)
  | _ => rfl

/-- The same is declared in both rows, read to the depth of their brackets, exactly if `agree` holds. -/
def Region.Agrees (region : Region) (left right : List Tree) (agree : Prop) : Prop :=
  ∀ levels others, depthAll left ≤ levels → depthAll right ≤ others →
    (declarationsOf levels (region.membersOf left) =
      declarationsOf others (region.membersOf right) ↔ agree)

/-- What is found in front of the rows agrees on conditions of its own. -/
theorem Region.Agrees.append
    (h : region.Agrees left right agree) {next : Region} {found other : List Member} {first : Prop}
    (hleft : next.membersOf lefts = found ++ region.membersOf left)
    (hright : next.membersOf rights = other ++ region.membersOf right)
    (hdepth : depthAll left ≤ depthAll lefts) (hother : depthAll right ≤ depthAll rights)
    (hlength : ∀ levels others,
      (declarationsOf levels found).length = (declarationsOf others other).length)
    (hfirst : ∀ levels others, depthAll lefts ≤ levels → depthAll rights ≤ others →
      (declarationsOf levels found = declarationsOf others other ↔ first)) :
    next.Agrees lefts rights (first ∧ agree) := by
  intro levels others hlevels hothers
  have hrest := h levels others (Nat.le_trans hdepth hlevels) (Nat.le_trans hother hothers)
  rw [hleft, hright, declarationsOf_append, declarationsOf_append,
    ← hfirst levels others hlevels hothers, ← hrest]
  constructor
  · exact fun hsame => List.append_inj hsame (hlength levels others)
  · rintro ⟨hsame, hmore⟩
    rw [hsame, hmore]

/-- No type is found in front of the rows, and the same in both. -/
theorem Region.Agrees.append_same
    (h : region.Agrees left right agree) {next : Region} {found : List Member}
    (hfound : ∀ head, .type head ∉ found)
    (hleft : next.membersOf lefts = found ++ region.membersOf left)
    (hright : next.membersOf rights = found ++ region.membersOf right)
    (hdepth : depthAll left ≤ depthAll lefts) (hother : depthAll right ≤ depthAll rights) :
    next.Agrees lefts rights agree := by
  have hsame := h.append hleft hright hdepth hother
    (fun levels others => congrArg List.length (declarationsOf_eq hfound levels others))
    (fun levels others _ _ => iff_true_intro (declarationsOf_eq hfound levels others))
  rwa [true_and] at hsame

/-- Nothing that counts stands in front of the rows. -/
theorem Region.Agrees.of_eq
    (h : region.Agrees left right agree) {next : Region}
    (hleft : next.membersOf lefts = region.membersOf left)
    (hright : next.membersOf rights = region.membersOf right)
    (hdepth : depthAll left ≤ depthAll lefts) (hother : depthAll right ≤ depthAll rights) :
    next.Agrees lefts rights agree :=
  h.append_same (fun _ => List.not_mem_nil) hleft hright hdepth hother

theorem depthAll_le_append (row rest : List Tree) : depthAll rest ≤ depthAll (row ++ rest) := by
  rw [depthAll_append]
  exact Nat.le_max_right _ _

theorem depthAll_le_append_cons (row : List Tree) (tree : Tree) (rest : List Tree) :
    depthAll rest ≤ depthAll (row ++ tree :: rest) := by
  rw [depthAll_append, depthAll]
  omega

end Reading

section Agreement

variable {region : Region} {left right : List Tree} {defaults : List (List Tree × List Tree)}

/-- Rows that differ in bodies begin with the same tree. -/
theorem DifferInBodies.head?_eq (h : DifferInBodies .enumBody left right defaults) :
    left.head? = right.head? := by
  cases h with
  | nil => rfl
  | type hregion => exact absurd rfl hregion
  | constant hrow =>
      obtain ⟨_, _⟩ := hrow
      simp only [List.append_assoc, List.head?_append, List.head?_cons, Option.some_or]
  | comma => rfl
  | separator => rfl

/-- The default of an element comes after its annotations. -/
theorem annotationNames_append (names own : List AnnotationNode) (value : List Tree) :
    annotationNames names (own ++ defaultValue value) =
      annotationNames names own ++ defaultValueNames value := by
  rw [annotationNames, annotationNames, defaultValueNames, annotationNames, List.nil_append,
    ← List.append_assoc, List.map_append]

/-- Types with the same head agree as far as their bodies do. -/
theorem Region.Agrees.declaration_eq_iff
    {kind : ElementKind} {agree : Prop} (h : (Region.inside kind).Agrees left right agree)
    {name : String} {names : List AnnotationNode} {superclass : Option ExtendsClause}
    {levels others : Nat}
    (hlevels : depthAll left < levels) (hothers : depthAll right < others) :
    (TypeHead.mk kind name names superclass left).declaration levels =
      (TypeHead.mk kind name names superclass right).declaration others ↔ agree := by
  obtain ⟨levels, rfl⟩ := Nat.exists_eq_add_one_of_ne_zero (Nat.ne_zero_of_lt hlevels)
  obtain ⟨others, rfl⟩ := Nat.exists_eq_add_one_of_ne_zero (Nat.ne_zero_of_lt hothers)
  have hbodies := h levels others (Nat.le_of_lt_succ hlevels) (Nat.le_of_lt_succ hothers)
  rw [TypeHead.declaration, TypeHead.declaration, TypeHead.members_eq, TypeHead.members_eq, ← hbodies]
  simp only [TypeHead.withMembers, declarationsOf, Declaration.mk.injEq, true_and]

theorem append_cons_ne_nil (row : List Tree) (tree : Tree) (rest : List Tree) :
    row ++ tree :: rest ≠ [] :=
  List.append_ne_nil_of_right_ne_nil _ (List.cons_ne_nil _ _)

theorem membersOf_semicolon {mark : Tree} (h : mark.isSymbol ';') (rest : List Tree) :
    Region.body.membersOf (mark :: rest) = Region.body.membersOf rest :=
  members_of_nextMembers (List.cons_ne_nil _ _) (nextMembers_of_isSymbol h rest)

theorem membersOf_body
    {row rest : List Tree} {tree : Tree} {found : List Member}
    (h : nextMembers (row ++ tree :: rest) = (found, rest)) :
    Region.body.membersOf (row ++ tree :: rest) = found ++ Region.body.membersOf rest :=
  members_of_nextMembers (append_cons_ne_nil row tree rest) h

/-- A type is found in front of what follows its body. -/
theorem IsTypeHead.exists_membersOf
    {kind : ElementKind} {row : List Tree} (h : IsTypeHead kind row) (hregion : region ≠ .enumBody) :
    ∃ name names superclass, ∀ opening inner closing rest,
      region.membersOf (row ++ .group .curly opening inner closing :: rest) =
        [.type ⟨kind, name, names, superclass, inner⟩] ++ region.membersOf rest := by
  obtain ⟨name, names, superclass, hreads⟩ := h.exists_reads
  refine ⟨name, names, superclass, fun opening inner closing rest => ?_⟩
  obtain ⟨hmember, hitem⟩ := hreads opening inner closing rest
  cases region with
  | top =>
      rw [Region.membersOf, items_of_item? hitem]
      rfl
  | body => exact membersOf_body hmember
  | enumBody => exact absurd rfl hregion

/-- A package and an import declare no type. -/
theorem IsHeading.membersOf {row : List Tree} (h : IsHeading row) (rest : List Tree) :
    Region.top.membersOf (row ++ rest) = Region.top.membersOf rest := by
  obtain ⟨item, hitem, hread⟩ := h.exists_item?
  rw [Region.membersOf, items_of_item? (hread rest), List.filterMap_cons, hitem]
  rfl

theorem IsStatement.membersOf {row : List Tree} (h : IsStatement row) {mark : Tree}
    (hmark : mark.isSymbol ';' ∨ mark.isGroup .curly) (rest : List Tree) :
    Region.top.membersOf (row ++ mark :: rest) = Region.top.membersOf rest := by
  rw [Region.membersOf, h.items (Bool.or_eq_true_iff.2 hmark), Region.membersOf]

/-- What is declared agrees exactly if the defaults of annotation elements do. -/
theorem DifferInBodies.agrees (h : DifferInBodies region left right defaults) :
    region.Agrees left right (DefaultsAgree defaults) := by
  induction h with
  | @nil region =>
      intro levels others _ _
      rw [region.membersOf_nil]
      exact iff_of_true rfl (List.forall_mem_nil _)
  | heading hrow _ ih =>
      exact ih.of_eq (hrow.membersOf _) (hrow.membersOf _) (depthAll_le_append _ _)
        (depthAll_le_append _ _)
  | statement hrow hmark _ ih =>
      exact ih.of_eq (hrow.membersOf (Or.inl hmark) _) (hrow.membersOf (Or.inl hmark) _)
        (depthAll_le_append_cons _ _ _) (depthAll_le_append_cons _ _ _)
  | block hrow hbody hother _ ih =>
      exact ih.of_eq (hrow.membersOf (Or.inr hbody) _) (hrow.membersOf (Or.inr hother) _)
        (depthAll_le_append_cons _ _ _) (depthAll_le_append_cons _ _ _)
  | type hregion hrow _ _ ihinner ihrest =>
      obtain ⟨name, names, superclass, hread⟩ := hrow.exists_membersOf hregion
      rw [defaultsAgree_append]
      refine ihrest.append (hread _ _ _ _) (hread _ _ _ _) (depthAll_le_append_cons _ _ _)
        (depthAll_le_append_cons _ _ _) (fun _ _ => rfl) fun levels others hlevels hothers => ?_
      rw [depthAll_append, depthAll, depth] at hlevels hothers
      exact List.singleton_inj.trans (ihinner.declaration_eq_iff (by omega) (by omega))
  | semicolon hmark _ ih =>
      exact ih.of_eq (membersOf_semicolon hmark _) (membersOf_semicolon hmark _)
        (depthAll_le_append_cons [] _ _) (depthAll_le_append_cons [] _ _)
  | body hrow hbody hother _ ih =>
      obtain ⟨found, hfound, hread⟩ := hrow.exists_nextMembers
      exact ih.append_same hfound (membersOf_body (hread _ _ hbody)) (membersOf_body (hread _ _ hother))
        (depthAll_le_append_cons _ _ _) (depthAll_le_append_cons _ _ _)
  | @method head throws left right mark _ hhead hthrows hmark _ ih =>
      obtain ⟨name, names, own, hread, -⟩ := hhead.exists_nextMembers
      have hmethod := fun rest => hread throws mark rest hthrows (Bool.or_eq_true_iff.2 (Or.inl hmark))
      simp only [← List.append_assoc] at hmethod ⊢
      exact ih.append_same (by simp) (membersOf_body (hmethod _)) (membersOf_body (hmethod _))
        (depthAll_le_append_cons _ _ _) (depthAll_le_append_cons _ _ _)
  | @element head value other left right keyword mark ending _ hhead hkeyword hvalue hother hmark
      hending _ ih =>
      obtain ⟨name, names, own, -, hread⟩ := hhead.exists_nextMembers
      have hleft := hread keyword value mark left hkeyword hvalue hmark
      have hright := hread keyword other ending right hkeyword hother hending
      rw [defaultsAgree_cons]
      simp only [← List.cons_append, ← List.append_assoc] at hleft hright ⊢
      refine ih.append (membersOf_body hleft) (membersOf_body hright) (depthAll_le_append_cons _ _ _)
        (depthAll_le_append_cons _ _ _) (fun _ _ => rfl) fun levels others _ _ => ?_
      apply List.singleton_inj.trans
      simp only [Declaration.mk.injEq, true_and, and_true, annotationNames_append,
        List.append_cancel_left_eq]
  | @fields typed fields others left right heads mark ending _ htyped hfields hothers hmark hending
      _ ih =>
      obtain ⟨names, own, hread⟩ := htyped.exists_fields
      have hleft := hread heads fields mark left hfields hmark
      have hright := hread heads others ending right hothers hending
      simp only [← List.append_assoc] at hleft hright ⊢
      exact ih.append_same (by simp) (membersOf_body hleft) (membersOf_body hright)
        (depthAll_le_append_cons _ _ _) (depthAll_le_append_cons _ _ _)
  | constant hrow hending hother hleft hrest ih =>
      obtain ⟨name, names, hread⟩ := hrow.exists_constants
      have hright : EndsConstant _ := fun tree htree => hleft tree (hrest.head?_eq ▸ htree)
      have hfound : ∀ head, .type head ∉ [Member.constant names name] := by simp
      refine ih.append_same hfound ?_ ?_ ?_ ?_
      · rw [Region.membersOf, hread _ _ hending hleft]
        rfl
      · rw [Region.membersOf, hread _ _ hother hright]
        rfl
      · exact Nat.le_trans (depthAll_le_append _ _) (depthAll_le_append _ _)
      · exact Nat.le_trans (depthAll_le_append _ _) (depthAll_le_append _ _)
  | comma hmark _ ih =>
      have hcomma := constants_of_comma hmark
      exact ih.of_eq (by rw [Region.membersOf, hcomma, Region.membersOf])
        (by rw [Region.membersOf, hcomma, Region.membersOf]) (depthAll_le_append_cons [] _ _)
        (depthAll_le_append_cons [] _ _)
  | @separator left right mark _ hmark _ ih =>
      have hsemicolon : ∀ rest,
          Region.enumBody.membersOf (mark :: rest) = Region.body.membersOf rest := by
        intro rest
        rw [Region.membersOf.eq_def]
        dsimp only
        rw [constants_of_semicolon hmark, List.nil_append]
        exact membersOf_semicolon hmark rest
      exact ih.of_eq (hsemicolon _) (hsemicolon _) (depthAll_le_append_cons [] _ _)
        (depthAll_le_append_cons [] _ _)

end Agreement

section Units

variable {left right : List Tree} {defaults : List (List Tree × List Tree)}

/-- The packages and imports, which are no types. -/
def headings (items : List Item) : List Item :=
  items.filter fun item => item.head?.isNone

theorem headings_cons (item : Item) (rest : List Item) :
    headings (item :: rest) = if item.head?.isNone then item :: headings rest else headings rest :=
  List.filter_cons

/-- The unit as if it declared no types. -/
def CompilationUnit.withoutTypes (unit : CompilationUnit) : CompilationUnit :=
  { unit with types := [] }

theorem CompilationUnit.eq_iff {unit other : CompilationUnit} :
    unit = other ↔ unit.withoutTypes = other.withoutTypes ∧ unit.types = other.types := by
  obtain ⟨path, package, annotations, imports, types⟩ := unit
  obtain ⟨path', package', annotations', imports', types'⟩ := other
  simp only [withoutTypes, CompilationUnit.mk.injEq, and_true, and_assoc]

theorem withoutTypes_addItem (levels : Nat) (unit : CompilationUnit) (item : Item) :
    (addItem levels unit item).withoutTypes =
      if item.head?.isNone then addItem 0 unit.withoutTypes item else unit.withoutTypes := by
  cases item <;> rfl

/-- Types aside, a unit is made of its packages and imports. -/
theorem withoutTypes_unitOfItems (path : Option Path) (levels : Nat) (items : List Item) :
    (unitOfItems path levels items).withoutTypes = unitOfItems path 0 (headings items) := by
  have hfold : ∀ (items : List Item) (unit : CompilationUnit),
      (items.foldl (addItem levels) unit).withoutTypes =
        (headings items).foldl (addItem 0) unit.withoutTypes := by
    intro items
    induction items with
    | nil => exact fun _ => rfl
    | cons item rest ih =>
        intro unit
        rw [List.foldl_cons, ih, withoutTypes_addItem, headings_cons]
        split
        · rfl
        · rfl
  rw [unitOfItems_eq_foldl, hfold]
  rfl

theorem headings_of_type {trees rest : List Tree} {head : TypeHead}
    (h : item? trees = some (.type head, rest)) : headings (items trees) = headings (items rest) := by
  rw [items_of_item? h]
  rfl

/-- Packages and imports are the same. -/
theorem DifferInBodies.headings_eq (h : DifferInBodies .top left right defaults) :
    headings (items left) = headings (items right) := by
  generalize hregion : Region.top = region at h
  induction h with
  | nil => rfl
  | heading hrow _ ih =>
      obtain ⟨item, -, hread⟩ := hrow.exists_item?
      rw [items_of_item? (hread _), items_of_item? (hread _), headings_cons, headings_cons, ih rfl]
  | statement hrow hmark _ ih =>
      rw [hrow.items (Bool.or_eq_true_iff.2 (Or.inl hmark)),
        hrow.items (Bool.or_eq_true_iff.2 (Or.inl hmark))]
      exact ih rfl
  | block hrow hbody hother _ ih =>
      rw [hrow.items (Bool.or_eq_true_iff.2 (Or.inr hbody)),
        hrow.items (Bool.or_eq_true_iff.2 (Or.inr hother))]
      exact ih rfl
  | type _ hrow _ _ _ ih =>
      obtain ⟨name, names, superclass, hreads⟩ := hrow.exists_reads
      rw [headings_of_type (hreads _ _ _ _).2, headings_of_type (hreads _ _ _ _).2]
      exact ih hregion
  | _ => cases hregion

/-- Units of rows that differ in bodies, read to the depth of their brackets. -/
theorem DifferInBodies.unitOfItems_eq_iff
    (h : DifferInBodies .top left right defaults) (path : Option Path) :
    unitOfItems path (depthAll left) (items left) = unitOfItems path (depthAll right) (items right) ↔
      DefaultsAgree defaults := by
  have htypes := h.agrees (depthAll left) (depthAll right) (Nat.le_refl _) (Nat.le_refl _)
  rw [Region.membersOf, Region.membersOf, declarationsOf_map_type, declarationsOf_map_type] at htypes
  rw [CompilationUnit.eq_iff, withoutTypes_unitOfItems, withoutTypes_unitOfItems, h.headings_eq,
    types_unitOfItems, types_unitOfItems, htypes]
  exact and_iff_right rfl

theorem defaultsAgree_of_isValue
    (h : ∀ pair ∈ defaults, IsValue pair.1 ∧ IsValue pair.2) : DefaultsAgree defaults := by
  intro pair hpair
  obtain ⟨hvalue, hother⟩ := h pair hpair
  have hnone := hvalue.defaultValue []
  have hsame := hother.defaultValue []
  rw [List.append_nil] at hnone hsame
  rw [defaultValueNames, defaultValueNames, hnone, hsame]

/-- Sources whose brackets are paired and that differ only inside bodies are read as the same unit,
except where the default of an annotation's element is an annotation in one of them and not the same in
the other. -/
theorem readUnit_eq_readUnit_iff
    {source other : String} (hsource : tokens source = tokensAmong left) (hleft : ArePaired left)
    (hother : tokens other = tokensAmong right) (hright : ArePaired right)
    (h : DifferInBodies .top left right defaults) (path : Option Path) :
    (readUnit source path = readUnit other path ↔ DefaultsAgree defaults) ∧
      ((∀ pair ∈ defaults, IsValue pair.1 ∧ IsValue pair.2) →
        readUnit source path = readUnit other path) := by
  have hiff := h.unitOfItems_eq_iff path
  rw [readUnit, readUnit, hsource, hother, hleft.nest_tokensAmong, hright.nest_tokensAmong]
  exact ⟨hiff, fun hvalues => hiff.2 (defaultsAgree_of_isValue hvalues)⟩

end Units

section Samples

/-- A source with a field, a method, a constant and an element, given what they hold. -/
def sampleSource (value body constant limit : String) : String :=
  "@S class A \x7b int n = " ++ value ++ ", m; @P T f() throws E \x7b" ++ body ++
    "\x7d \x7d enum C \x7b X \x7b" ++ constant ++ "\x7d, Y \x7d @interface L \x7b int v() default " ++
      limit ++ "; \x7d"

/-- The trees between the brackets of the class. -/
def sampleInner (value body : List Tree) : List Tree :=
  ofWord "int" :: (ofWord "n" :: ofSymbol '=' :: (value ++ [ofSymbol ',', ofWord "m"]) ++
    ofSymbol ';' :: ofSymbol '@' :: ofWord "P" :: ofWord "T" :: ofWord "f" :: enclosed .round [] ::
      ofWord "throws" :: ofWord "E" :: [enclosed .curly body])

/-- The trees of the source. -/
def sampleTrees (value body constant limit : List Tree) : List Tree :=
  ofSymbol '@' :: ofWord "S" :: ofWord "class" :: ofWord "A" ::
    enclosed .curly (sampleInner value body) ::
    ofWord "enum" :: ofWord "C" ::
      enclosed .curly [ofWord "X", enclosed .curly constant, ofSymbol ',', ofWord "Y"] ::
        ofWord "@interface" :: ofWord "L" ::
          [enclosed .curly (ofWord "int" :: ofWord "v" :: enclosed .round [] :: ofWord "default" ::
            (limit ++ [ofSymbol ';']))]

variable {value body constant limit values bodies constants limits : List Tree}

theorem isTypeHead_of_keyword
    {annotations : List Tree} {text name : String} {kind : ElementKind}
    (hannotations : AreModifiers ("sealed" :: modifierWords) annotations)
    (htext : (text, kind) ∈ typeKeywords) (hkind : kind ≠ .record) :
    IsTypeHead kind (annotations ++ [ofWord text, ofWord name]) :=
  .mk hannotations rfl htext rfl (Or.inl rfl) (fun hrecord => absurd hrecord hkind)
    (List.forall_mem_nil _) (.plain fun _ hnone => by cases hnone)

theorem isAnnotation_of_word {text : String} (h : text ∉ operatorWords) :
    IsAnnotation [ofSymbol '@', ofWord text] :=
  .marker rfl (.mk ⟨text, rfl, h⟩ .nil)

theorem areModifiers_of_word {words : List String} {text : String} (h : text ∉ operatorWords) :
    AreModifiers words [ofSymbol '@', ofWord text] :=
  AreModifiers.annotation (isAnnotation_of_word h) .nil

theorem isMethodHead_of_words
    {typed : List Tree} (htyped : IsTyped typed) {name : String} (hname : name ∉ operatorWords)
    (parameters : List Tree) : IsMethodHead (typed ++ [ofWord name, enclosed .round parameters]) :=
  .mk htyped ⟨name, rfl, hname⟩ rfl .nil

theorem isTyped_int : IsTyped [ofWord "int"] := by
  have htype : IsType [ofWord "int"] := .mk (.primitive rfl (by decide)) .nil
  exact .plain .nil htype (.word rfl (by decide))

theorem differInBodies_sampleInner (hvalue : IsValue value) (hvalues : IsValue values) :
    DifferInBodies .body (sampleInner value body) (sampleInner values bodies) [] := by
  have hfields : ∀ value, IsValue value → AreDeclarators [(ofWord "n", []), (ofWord "m", [])]
      (ofWord "n" :: ofSymbol '=' :: (value ++ [ofSymbol ',', ofWord "m"])) := by
    intro value hvalue
    have hlast : AreDeclarators [(ofWord "m", [])] [ofWord "m"] :=
      .last ⟨"m", rfl, by decide⟩ .nil .nothing
    exact .cons ⟨"n", rfl, by decide⟩ .nil (.value rfl hvalue) rfl hlast
  have htyped : IsTyped [ofSymbol '@', ofWord "P", ofWord "T"] := by
    have htype : IsType [ofWord "T"] :=
      .mk (.reference ⟨"T", rfl, by decide, by decide⟩ (.last (Or.inl rfl))) .nil
    exact .plain (areModifiers_of_word (by decide)) htype (.word rfl (by decide))
  have hthrows : IsThrowsClause [ofWord "throws", ofWord "E"] := by
    have htype : IsType [ofWord "E"] :=
      .mk (.reference ⟨"E", rfl, by decide, by decide⟩ (.last (Or.inl rfl))) .nil
    exact .types rfl (.last .nil htype)
  have hmethod := IsBodyHead.method (isMethodHead_of_words htyped (by decide : "f" ∉ operatorWords) [])
    hthrows
  exact .fields isTyped_int (hfields value hvalue) (hfields values hvalues) rfl rfl
    (.body hmethod rfl rfl .nil)

/-- Such sources differ only in what their members hold. -/
theorem differInBodies_sampleTrees
    (hvalue : IsValue value) (hvalues : IsValue values) (hlimit : IsDefault limit)
    (hlimits : IsDefault limits) :
    DifferInBodies .top (sampleTrees value body constant limit)
      (sampleTrees values bodies constants limits) [(limit, limits)] := by
  have hclass : IsTypeHead .classType [ofSymbol '@', ofWord "S", ofWord "class", ofWord "A"] :=
    isTypeHead_of_keyword (areModifiers_of_word (by decide)) (by decide) (by decide)
  have henum : IsTypeHead .enum [ofWord "enum", ofWord "C"] :=
    isTypeHead_of_keyword .nil (by decide) (by decide)
  have hannotation : IsTypeHead .annotationType [ofWord "@interface", ofWord "L"] :=
    isTypeHead_of_keyword .nil (by decide) (by decide)
  have hconstants : DifferInBodies .enumBody
      [ofWord "X", enclosed .curly constant, ofSymbol ',', ofWord "Y"]
      [ofWord "X", enclosed .curly constants, ofSymbol ',', ofWord "Y"] [] := by
    have hbody : ∀ body, IsConstantEnd [enclosed .curly body] :=
      fun body => .mk (Or.inl rfl) (Or.inr ⟨_, rfl, rfl⟩)
    have hnothing : IsConstantEnd [] := .mk (Or.inl rfl) (Or.inl rfl)
    have hlast : DifferInBodies .enumBody [ofWord "Y"] [ofWord "Y"] [] :=
      .constant (.mk .nil ⟨"Y", rfl, by decide, by decide⟩) hnothing hnothing
        (fun _ hnone => by cases hnone) .nil
    refine .constant (.mk .nil ⟨"X", rfl, by decide, by decide⟩) (hbody constant) (hbody constants) ?_
      (.comma rfl hlast)
    intro tree htree
    obtain rfl := Option.some.inj htree
    rfl
  have helement : DifferInBodies .body
      (ofWord "int" :: ofWord "v" :: enclosed .round [] :: ofWord "default" ::
        (limit ++ [ofSymbol ';']))
      (ofWord "int" :: ofWord "v" :: enclosed .round [] :: ofWord "default" ::
        (limits ++ [ofSymbol ';'])) [(limit, limits)] :=
    .element (isMethodHead_of_words isTyped_int (by decide) []) rfl hlimit hlimits rfl rfl .nil
  exact .type (by decide) hclass (differInBodies_sampleInner hvalue hvalues)
    (.type (by decide) henum hconstants (.type (by decide) hannotation helement .nil))

theorem isPaired_ofWord (text : String) : (ofWord text).IsPaired :=
  .leaf rfl rfl

theorem isPaired_ofSymbol {char : Char} (h : char ∈ [',', ';', '=', '@']) :
    (ofSymbol char).IsPaired := by
  have hnone : ∀ char ∈ [',', ';', '=', '@'],
      Bracket.opening? (.symbol char) = none ∧ Bracket.closing? (.symbol char) = none := by
    simp [Bracket.opening?, Bracket.closing?]
  exact .leaf (hnone char h).1 (hnone char h).2

theorem arePaired_cons {tree : Tree} {rest : List Tree} :
    ArePaired (tree :: rest) ↔ tree.IsPaired ∧ ArePaired rest := by
  constructor
  · rintro ⟨⟩
    exact ⟨‹_›, ‹_›⟩
  · exact fun h => .cons h.1 h.2

theorem arePaired_append {row rest : List Tree} :
    ArePaired (row ++ rest) ↔ ArePaired row ∧ ArePaired rest := by
  induction row with
  | nil => exact (and_iff_right .nil).symm
  | cons tree more ih => rw [List.cons_append, arePaired_cons, arePaired_cons, ih, and_assoc]

theorem isPaired_enclosed {bracket : Bracket} {inner : List Tree} (h : ArePaired inner) :
    (enclosed bracket inner).IsPaired := by
  cases bracket <;> exact .group rfl h rfl rfl

/-- The brackets of the source are paired if those of what its members hold are. -/
theorem arePaired_sampleTrees
    (hvalue : ArePaired value) (hbody : ArePaired body) (hconstant : ArePaired constant)
    (hlimit : ArePaired limit) : ArePaired (sampleTrees value body constant limit) := by
  have hnil : ArePaired [] := .nil
  have hinner : ArePaired (sampleInner value body) := by
    simp [sampleInner, arePaired_cons, arePaired_append, isPaired_ofWord, isPaired_ofSymbol,
      isPaired_enclosed, hnil, hvalue, hbody]
  simp [sampleTrees, arePaired_cons, arePaired_append, isPaired_ofWord, isPaired_ofSymbol,
    isPaired_enclosed, hnil, hinner, hconstant, hlimit]

theorem arePaired_nest {tokens : List Token} (h : pairUp [] tokens) : ArePaired (nest tokens) := by
  obtain ⟨trees, hpaired, rfl⟩ := exists_arePaired_of_pairUp h
  rwa [hpaired.nest_tokensAmong]

/-- The tree of a number. -/
def ofNumber (text : String) : Tree :=
  .leaf ⟨[], .number text⟩

theorem isValue_ofNumber (text : String) : IsValue [ofNumber text] :=
  .expression (.operand (.literal rfl))

theorem arePaired_ofNumber (text : String) : ArePaired [ofNumber text] :=
  .cons (.leaf rfl rfl) .nil

/-- An object of an anonymous class. -/
def objectTrees : List Tree :=
  [ofWord "new", ofWord "B", enclosed .round [], enclosed .curly (nest (tokens "@P int b, c;"))]

theorem isValue_objectTrees : IsValue objectTrees := by
  have htype : IsTypeName [ofWord "B"] :=
    .reference ⟨"B", rfl, by decide, by decide⟩ (.last (Or.inl rfl))
  have hcreation : IsCreation .operand objectTrees :=
    .object rfl .nil (Or.inl rfl) .nil htype rfl (Or.inr ⟨_, rfl, rfl⟩)
  exact .expression (.operand (.creation hcreation))

theorem arePaired_objectTrees : ArePaired objectTrees := by
  have hbody : ArePaired (nest (tokens "@P int b, c;")) := arePaired_nest (by decide +kernel)
  exact .cons (isPaired_ofWord _) (.cons (isPaired_ofWord _)
    (.cons (isPaired_enclosed .nil) (.cons (isPaired_enclosed hbody) .nil)))

/-- A body with a local class, and with braces in a literal and in a comment. -/
def localText : String :=
  "/* \x7d */ @S class D \x7b @P D() \x7b\x7d \x7d g(\"\x7d\");"

/-- A source that holds as little as it can. -/
def plainSource : String :=
  sampleSource "1" "" "" "1"

/-- The same source with declarations in all that its members hold. -/
def busySource : String :=
  sampleSource "new B() \x7b@P int b, c;\x7d" localText "@P void g() \x7b\x7d" "2"

/-- The plain source with an annotation as the default of its element. -/
def annotatedSource : String :=
  sampleSource "1" "" "" "@U"

/-- The trees of the plain source. -/
def plainTrees : List Tree :=
  sampleTrees [ofNumber "1"] [] [] [ofNumber "1"]

/-- The trees of the busy source. -/
def busyTrees : List Tree :=
  sampleTrees objectTrees (nest (tokens localText)) (nest (tokens "@P void g() \x7b\x7d"))
    [ofNumber "2"]

/-- The trees of the annotated source. -/
def annotatedTrees : List Tree :=
  sampleTrees [ofNumber "1"] [] [] [ofSymbol '@', ofWord "U"]

theorem tokens_plainSource : tokens plainSource = tokensAmong plainTrees := by
  decide +kernel

theorem arePaired_plainTrees : ArePaired plainTrees :=
  arePaired_sampleTrees (arePaired_ofNumber _) .nil .nil (arePaired_ofNumber _)

/-- The busy source is read as the plain one: no declaration in it is seen. -/
theorem readUnit_plainSource_eq_busySource :
    tokens plainSource = tokensAmong plainTrees ∧ ArePaired plainTrees ∧
      tokens busySource = tokensAmong busyTrees ∧ ArePaired busyTrees ∧
      DifferInBodies .top plainTrees busyTrees [([ofNumber "1"], [ofNumber "2"])] ∧
      readUnit plainSource none = readUnit busySource none := by
  have hbusy : tokens busySource = tokensAmong busyTrees := by decide +kernel
  have hpaired : ArePaired busyTrees :=
    arePaired_sampleTrees arePaired_objectTrees (arePaired_nest (by decide +kernel))
      (arePaired_nest (by decide +kernel)) (arePaired_ofNumber _)
  have hdiffer : DifferInBodies .top plainTrees busyTrees [([ofNumber "1"], [ofNumber "2"])] :=
    differInBodies_sampleTrees (isValue_ofNumber _) isValue_objectTrees (.value (isValue_ofNumber _))
      (.value (isValue_ofNumber _))
  have hread :=
    readUnit_eq_readUnit_iff tokens_plainSource arePaired_plainTrees hbusy hpaired hdiffer none
  refine ⟨tokens_plainSource, arePaired_plainTrees, hbusy, hpaired, hdiffer, hread.2 ?_⟩
  exact List.forall_mem_singleton.2 ⟨isValue_ofNumber _, isValue_ofNumber _⟩

/-- An annotation as the default of an element makes another unit: it is read as one of the element. -/
theorem readUnit_plainSource_ne_annotatedSource :
    tokens plainSource = tokensAmong plainTrees ∧ ArePaired plainTrees ∧
      tokens annotatedSource = tokensAmong annotatedTrees ∧ ArePaired annotatedTrees ∧
      DifferInBodies .top plainTrees annotatedTrees
        [([ofNumber "1"], [ofSymbol '@', ofWord "U"])] ∧
      readUnit plainSource none ≠ readUnit annotatedSource none := by
  have hannotated : tokens annotatedSource = tokensAmong annotatedTrees := by decide +kernel
  have hpaired : ArePaired annotatedTrees :=
    arePaired_sampleTrees (arePaired_ofNumber _) .nil .nil
      (.cons (isPaired_ofSymbol (by decide)) (.cons (isPaired_ofWord _) .nil))
  have hdefault : IsDefault [ofSymbol '@', ofWord "U"] :=
    IsDefault.annotation (isAnnotation_of_word (by decide))
  have hdiffer : DifferInBodies .top plainTrees annotatedTrees
      [([ofNumber "1"], [ofSymbol '@', ofWord "U"])] :=
    differInBodies_sampleTrees (isValue_ofNumber _) (isValue_ofNumber _) (.value (isValue_ofNumber _))
      hdefault
  refine ⟨tokens_plainSource, arePaired_plainTrees, hannotated, hpaired, hdiffer, fun hsame => ?_⟩
  rw [readUnit, readUnit, tokens_plainSource, hannotated, arePaired_plainTrees.nest_tokensAmong,
    hpaired.nest_tokensAmong] at hsame
  have hagree := List.forall_mem_singleton.1 ((hdiffer.unitOfItems_eq_iff none).1 hsame)
  have hnames : defaultValueNames [ofSymbol '@', ofWord "U"] = ["U"] := by decide +kernel
  rw [hnames] at hagree
  cases hagree

end Samples

end ComponentMarkers.Source
