import ComponentMarkers.Proofs.Source.Alike

/-!
# Units of rows that differ in comments

Members, types and the declarations at the top of a source are read off rows that are alike in the same
way.  `CompilationUnit.rename` forgets of a unit what a function of its dotted names and one of its
superclasses forget; up to that the units are equal.
-/

namespace ComponentMarkers.Source

open Text Source.Tree

variable {f : String → String} {g : Option String → Option String}

section Heads

variable {trees trees' : List Tree} {names names' : List AnnotationNode}

theorem RowsAlike.typeKind?_eq (h : RowsAlike f g trees trees') :
    typeKind? trees' = typeKind? trees := by
  cases h with
  | nil => rfl
  | cons hkeyword hrest =>
      cases hrest with
      | nil => rfl
      | cons hname hmore =>
          unfold typeKind?
          dsimp only
          rw [hkeyword.word?_eq, hname.word?_eq]
          cases hmore with
          | nil => rfl
          | cons hnext =>
              dsimp only
              rw [hnext.isSymbol_eq, hnext.isGroup_eq]

theorem RowsAlike.body? (h : RowsAlike f g trees trees') :
    ReadAlike f g (RowsAlike f g) (Source.body? trees) (Source.body? trees') := by
  induction trees generalizing trees' with
  | nil =>
      cases h
      exact .neither
  | cons tree rest ih =>
      cases h with
      | cons htree hrest =>
          by_cases hcurly : tree.isGroup .curly
          · cases htree with
            | leaf => cases hcurly
            | @group bracket _ _ _ _ _ _ hinner =>
                obtain rfl : bracket = .curly := of_decide_eq_true hcurly
                exact .both hinner hrest
          · rw [Bool.not_eq_true] at hcurly
            have hcurly' := hcurly
            rw [← htree.isGroup_eq] at hcurly'
            rw [body?_of_not_curly hcurly, body?_of_not_curly hcurly', htree.isSymbol_eq]
            split
            · exact .neither
            · exact ih hrest

theorem RowsAlike.extendedClass?_eq (h : RowsAlike f g trees trees') :
    g (extendedClass? trees) = g (extendedClass? trees') := by
  cases h with
  | nil => rfl
  | cons _ _ _ hclass => exact hclass

/-- The declarations of types are the same up to comments. -/
structure TypeHead.Alike (f : String → String) (g : Option String → Option String)
    (head head' : TypeHead) : Prop where
  kind_eq : head.kind = head'.kind
  name_eq : head.name = head'.name
  modifiers_eq :
    SameAnnotations f head.modifiers head'.modifiers
  superclass_eq : g (head.superclass.bind ExtendsClause.className?) =
    g (head'.superclass.bind ExtendsClause.className?)
  body : RowsAlike f g head.body head'.body

theorem RowsAlike.typeHead? (h : RowsAlike f g trees trees')
    (hnames : SameAnnotations f names names') :
    ReadAlike f g (TypeHead.Alike f g) (Source.typeHead? names trees)
      (Source.typeHead? names' trees') := by
  have hkind := h.typeKind?_eq
  unfold Source.typeHead?
  rw [hkind]
  rcases Source.typeKind? trees with _ | kind
  · exact .neither
  cases h with
  | nil => exact .neither
  | cons _ hrest =>
      cases hrest with
      | nil => exact .neither
      | @cons name name' rest rest' hname hmore =>
          have hclauses := hmore.afterTypeArguments
          have hsuper : g ((if kind = .classType then
              extendsClause? (Source.afterTypeArguments rest) else none).bind
                ExtendsClause.className?) =
              g ((if kind = .classType then
                extendsClause? (Source.afterTypeArguments rest') else none).bind
                  ExtendsClause.className?) := by
            by_cases hclass : kind = .classType
            · rw [if_pos hclass, if_pos hclass]
              exact hclauses.extendedClass?_eq
            · rw [if_neg hclass, if_neg hclass]
          refine hclauses.body?.map fun hinner hafter => ⟨⟨rfl, ?_, hnames, hsuper, hinner⟩, hafter⟩
          dsimp only
          rw [hname.word?_eq]

end Heads

section Members

variable {trees trees' : List Tree} {names names' : List AnnotationNode}

theorem RowsAlike.afterField (h : RowsAlike f g trees trees') :
    RowsAlike f g (Source.afterField trees) (Source.afterField trees') :=
  h.afterDimensions.afterInitializer

theorem RowsAlike.declarators (h : RowsAlike f g trees trees') :
    (Source.declarators trees).1 = (Source.declarators trees').1 ∧
      RowsAlike f g (Source.declarators trees).2 (Source.declarators trees').2 := by
  induction hlength : trees.length using Nat.strongRecOn generalizing trees trees' with
  | ind length ih =>
      subst hlength
      have hall := h
      cases h with
      | nil =>
          rw [declarators.eq_def]
          exact ⟨rfl, .nil⟩
      | @cons tree tree' rest rest' htree hrest =>
          have hword := htree.word?_eq
          cases hname : tree.word? with
          | none =>
              rw [hname] at hword
              rw [declarators_of_not_word hname, declarators_of_not_word hword, htree.isSymbol_eq]
              split
              · exact ih _ (Nat.lt_succ_self _) hrest rfl
              · exact ⟨rfl, hall⟩
          | some name =>
              rw [hname] at hword
              have hafter := hrest.afterField
              have hlength := afterField_length rest
              rw [declarators_of_word hname, declarators_of_word hword]
              generalize Source.afterField rest = row at hafter hlength ⊢
              generalize Source.afterField rest' = row' at hafter ⊢
              have hrow := hafter
              cases hafter with
              | nil => exact ⟨rfl, .nil⟩
              | @cons mark mark' more more' hmark hmore =>
                  dsimp only
                  rw [hmark.isSymbol_eq]
                  split
                  · obtain ⟨hnames, hfinal⟩ := ih _ (Nat.lt_succ_of_le
                      (Nat.le_of_succ_le hlength)) hmore rfl
                    rw [hnames]
                    exact ⟨rfl, hfinal⟩
                  · exact ⟨rfl, hrow⟩

theorem RowsAlike.afterEnd (h : RowsAlike f g trees trees') :
    RowsAlike f g (Source.afterEnd trees) (Source.afterEnd trees') := by
  have hall := h
  cases h with
  | nil => exact hall
  | cons htree hrest =>
      rw [Source.afterEnd, Source.afterEnd, htree.isSymbol_eq]
      split
      · exact hrest
      · exact hall

theorem RowsAlike.afterTypes (h : RowsAlike f g trees trees') :
    RowsAlike f g (Source.afterTypes trees) (Source.afterTypes trees') := by
  induction hlength : trees.length using Nat.strongRecOn generalizing trees trees' with
  | ind length ih =>
      subst hlength
      rcases h.typeReference?.neither_or_both with
        ⟨hone, hother⟩ | ⟨name, after, name', after', hone, hother, -, hafter⟩
      · rw [afterTypes_eq, afterTypes_eq trees', hone, hother]
        exact h
      · have hshorter := typeReference?_length hone
        rw [afterTypes_eq, afterTypes_eq trees', hone, hother]
        have hrow := hafter
        cases hafter with
        | nil => exact .nil
        | @cons comma comma' rest rest' hcomma hrest =>
            dsimp only
            rw [hcomma.isSymbol_eq]
            split
            · exact ih _ (Nat.lt_of_succ_lt hshorter) hrest rfl
            · exact hrow

theorem RowsAlike.afterThrows (h : RowsAlike f g trees trees') :
    RowsAlike f g (Source.afterThrows trees) (Source.afterThrows trees') := by
  have hall := h
  cases h with
  | nil => exact hall
  | cons htree hrest =>
      rw [Source.afterThrows, Source.afterThrows, htree.isWord_eq]
      split
      · exact hrest.afterTypes
      · exact hall

theorem Tree.Alike.endsMethod_eq {tree tree' : Tree} (h : Tree.Alike f g tree tree') :
    endsMethod tree' = endsMethod tree := by
  rw [endsMethod, endsMethod, h.isSymbol_eq, h.isGroup_eq]

theorem RowsAlike.defaultValue (h : RowsAlike f g trees trees') :
    SameAnnotations f (Source.defaultValue trees) (Source.defaultValue trees') := by
  rcases h.annotation?.neither_or_both with
    ⟨hone, hother⟩ | ⟨name, after, name', after', hone, hother, hnames, hafter⟩
  · rw [Source.defaultValue, Source.defaultValue, hone, hother]
    rfl
  · rw [Source.defaultValue, Source.defaultValue, hone, hother]
    dsimp only
    rw [hafter.afterType.startsReference_eq]
    split
    · rfl
    · exact .cons hnames rfl

theorem RowsAlike.methodEnd (h : RowsAlike f g trees trees') :
    NamesAlike f g (Source.methodEnd trees) (Source.methodEnd trees') := by
  have hend := h.afterDimensions.afterThrows
  rw [Source.methodEnd, Source.methodEnd]
  generalize Source.afterThrows (Source.afterDimensions trees) = row at hend ⊢
  generalize Source.afterThrows (Source.afterDimensions trees') = row' at hend ⊢
  have hall := hend
  cases hend with
  | nil => exact ⟨rfl, .nil⟩
  | cons htree hrest =>
      dsimp only
      rw [htree.isWord_eq, htree.endsMethod_eq]
      split
      · exact ⟨hrest.defaultValue, (hrest.afterValue false).afterEnd⟩
      split
      · exact ⟨rfl, hrest⟩
      cases hrest with
      | nil => exact ⟨rfl, hall⟩
      | cons hnext hafter =>
          dsimp only
          rw [hnext.endsMethod_eq]
          split
          · exact ⟨rfl, hafter⟩
          · exact ⟨rfl, hall⟩

/-- The members are the same up to comments. -/
inductive Member.Alike (f : String → String) (g : Option String → Option String) :
    Member → Member → Prop where
  | type {head head' : TypeHead} (hhead : head.Alike f g head') :
      Member.Alike f g (.type head) (.type head')
  | method {modifiers modifiers' own own' : List AnnotationNode} (name : String)
      (hmodifiers : SameAnnotations f modifiers modifiers')
      (hown : SameAnnotations f own own') :
      Member.Alike f g (.method modifiers own name) (.method modifiers' own' name)
  | constructor {modifiers modifiers' : List AnnotationNode}
      (hmodifiers : SameAnnotations f modifiers modifiers') :
      Member.Alike f g (.constructor modifiers) (.constructor modifiers')
  | fields {modifiers modifiers' own own' : List AnnotationNode} (names : List String)
      (hmodifiers : SameAnnotations f modifiers modifiers')
      (hown : SameAnnotations f own own') :
      Member.Alike f g (.fields modifiers own names) (.fields modifiers' own' names)
  | constant {modifiers modifiers' : List AnnotationNode} (name : String)
      (hmodifiers : SameAnnotations f modifiers modifiers') :
      Member.Alike f g (.constant modifiers name) (.constant modifiers' name)

theorem RowsAlike.constructor? (h : RowsAlike f g trees trees')
    (hnames : SameAnnotations f names names') :
    ReadAlike f g (Member.Alike f g) (Source.constructor? names trees)
      (Source.constructor? names' trees') := by
  cases h with
  | nil => exact .neither
  | cons hname hrest =>
      cases hrest with
      | nil => exact .neither
      | cons hparameters hafter =>
          rw [Source.constructor?, Source.constructor?, hname.word?_eq, hparameters.isGroup_eq,
            hparameters.isGroup_eq]
          split
          · exact .both (.constructor hnames) hafter.afterBlock
          split
          · exact .both (.constructor hnames) hafter
          · exact .neither

theorem RowsAlike.typedMembers? {own own' : List AnnotationNode} (h : RowsAlike f g trees trees')
    (hnames : SameAnnotations f names names')
    (hown : SameAnnotations f own own') :
    ReadAlike f g (List.Forall₂ (Member.Alike f g)) (Source.typedMembers? names own trees)
      (Source.typedMembers? names' own' trees') := by
  rcases h.typeReference?.neither_or_both with
    ⟨hone, hother⟩ | ⟨type, row, type', row', hone, hother, -, hrow⟩
  · rw [Source.typedMembers?, Source.typedMembers?, hone, hother]
    exact .neither
  · rw [Source.typedMembers?, Source.typedMembers?, hone, hother]
    have hall := hrow
    cases hrow with
    | nil => exact .both .nil .nil
    | @cons name name' rest rest' hname hrest =>
        dsimp only
        rw [hname.word?_eq]
        cases name.word? with
        | none => exact .both .nil hall
        | some word =>
            cases hrest with
            | nil => exact .both (.cons (.fields _ hnames hown) .nil) .nil
            | cons hparameters hafter =>
                dsimp only
                rw [hparameters.isGroup_eq]
                split
                · obtain ⟨hmore, hfinal⟩ := hafter.methodEnd
                  exact .both (.cons (.method _ hnames (hown.append hmore)) .nil) hfinal
                · obtain ⟨hfields, hfinal⟩ := hall.declarators
                  rw [hfields]
                  exact .both (.cons (.fields _ hnames hown) .nil) hfinal.afterEnd

theorem RowsAlike.nextMembers (h : RowsAlike f g trees trees') :
    List.Forall₂ (Member.Alike f g) (Source.nextMembers trees).1 (Source.nextMembers trees').1 ∧
      RowsAlike f g (Source.nextMembers trees).2 (Source.nextMembers trees').2 := by
  obtain ⟨hnames, hrest⟩ := h.modifiers
  obtain ⟨hmore, hlast⟩ := hrest.afterTypeArguments.annotations
  rw [nextMembers_eq_getD rfl rfl, nextMembers_eq_getD rfl rfl]
  refine (((hrest.typeHead? hnames).map ?_).or
    (((hlast.constructor? hnames).map ?_).or (hlast.typedMembers? hnames hmore))).getD .nil hlast.tail
  · exact fun hhead hafter => ⟨.cons (.type hhead) .nil, hafter⟩
  · exact fun hmember hafter => ⟨.cons hmember .nil, hafter⟩

theorem RowsAlike.afterConstant (h : RowsAlike f g trees trees') :
    RowsAlike f g (Source.afterConstant trees) (Source.afterConstant trees') := by
  have hafter := h.afterArguments
  rw [Source.afterConstant, Source.afterConstant]
  generalize Source.afterArguments trees = row at hafter ⊢
  generalize Source.afterArguments trees' = row' at hafter ⊢
  have hrow := hafter
  cases hafter with
  | nil => exact .nil
  | cons htree hrest =>
      dsimp only
      rw [htree.isGroup_eq]
      split
      · exact hrest
      · exact hrow

theorem RowsAlike.constants (h : RowsAlike f g trees trees') :
    List.Forall₂ (Member.Alike f g) (Source.constants trees).1 (Source.constants trees').1 ∧
      RowsAlike f g (Source.constants trees).2 (Source.constants trees').2 := by
  induction hlength : trees.length using Nat.strongRecOn generalizing trees trees' with
  | ind length ih =>
      subst hlength
      obtain ⟨hnames, hrow⟩ := h.modifiers
      have hshorter := modifiers_length trees
      rw [constants_eq, constants_eq trees']
      generalize Source.modifiers trees = found at hnames hrow hshorter ⊢
      generalize Source.modifiers trees' = found' at hnames hrow ⊢
      obtain ⟨names, row⟩ := found
      obtain ⟨names', row'⟩ := found'
      dsimp only at hnames hrow hshorter
      have hall := hrow
      cases hrow with
      | nil => exact ⟨.nil, .nil⟩
      | @cons name name' rest rest' hname hrest =>
          have hrestLength : rest.length < trees.length := hshorter
          dsimp only
          rw [hname.word?_eq]
          cases name.word? with
          | none =>
              dsimp only
              rw [hname.isSymbol_eq]
              split
              · exact ih _ hrestLength hrest rfl
              · exact ⟨.nil, hall⟩
          | some constant =>
              have helement : Member.Alike f g (.constant names constant) (.constant names' constant) :=
                .constant _ hnames
              have hafter := hrest.afterConstant
              have hafterLength := afterConstant_length rest
              dsimp only
              generalize Source.afterConstant rest = row at hafter hafterLength ⊢
              generalize Source.afterConstant rest' = row' at hafter ⊢
              have hend := hafter
              cases hafter with
              | nil => exact ⟨.cons helement .nil, .nil⟩
              | @cons mark mark' more more' hmark hmore =>
                  dsimp only
                  rw [hmark.isSymbol_eq]
                  split
                  · have hmoreLength : more.length < trees.length :=
                      Nat.lt_trans (Nat.lt_of_succ_le hafterLength) hrestLength
                    obtain ⟨hmembers, hfinal⟩ := ih _ hmoreLength hmore rfl
                    exact ⟨.cons helement hmembers, hfinal⟩
                  · exact ⟨.cons helement .nil, hend⟩

theorem RowsAlike.members (h : RowsAlike f g trees trees') :
    List.Forall₂ (Member.Alike f g) (Source.members trees) (Source.members trees') := by
  induction hlength : trees.length using Nat.strongRecOn generalizing trees trees' with
  | ind length ih =>
      subst hlength
      by_cases hempty : trees = []
      · subst hempty
        cases h
        rw [members_nil]
        exact .nil
      · have hempty' : trees' ≠ [] := by
          rintro rfl
          cases h
          exact hempty rfl
        obtain ⟨hfound, hrest⟩ := h.nextMembers
        rw [members_of_nextMembers hempty rfl, members_of_nextMembers hempty' rfl]
        exact List.rel_append hfound (ih _ (nextMembers_length hempty) hrest rfl)

theorem TypeHead.Alike.members {head head' : TypeHead} (h : head.Alike f g head') :
    List.Forall₂ (Member.Alike f g) head.members head'.members := by
  rw [TypeHead.members, TypeHead.members, ← h.kind_eq]
  split
  · obtain ⟨hconstants, hrest⟩ := h.body.constants
    exact List.rel_append hconstants hrest.members
  · exact h.body.members

end Members

section Items

variable {trees trees' : List Tree} {names names' : List AnnotationNode}

/-- The declarations at the top of a source are the same up to comments. -/
inductive Item.Alike (f : String → String) (g : Option String → Option String) : Item → Item → Prop where
  | package {name name' : String} {annotations annotations' : List AnnotationNode}
      (hname : f (dottedText name) = f (dottedText name'))
      (hnames : SameAnnotations f annotations annotations') :
      Item.Alike f g (.package ⟨annotations, name⟩) (.package ⟨annotations', name'⟩)
  | import {name name' : String} (onDemand isStatic : Bool)
      (hname : f (dottedText name) = f (dottedText name')) :
      Item.Alike f g (.import ⟨name, onDemand, isStatic⟩) (.import ⟨name', onDemand, isStatic⟩)
  | type {head head' : TypeHead} (hhead : head.Alike f g head') :
      Item.Alike f g (.type head) (.type head')

theorem RowsAlike.packageItem? (h : RowsAlike f g trees trees')
    (hnames : SameAnnotations f names names') :
    ReadAlike f g (Item.Alike f g) (Source.packageItem? names trees)
      (Source.packageItem? names' trees') := by
  cases h with
  | nil => exact .neither
  | cons hkeyword hrest =>
      rw [Source.packageItem?, Source.packageItem?, hkeyword.isWord_eq]
      split
      · exact hrest.dottedName?.map fun hname hafter => ⟨.package hname hnames, hafter.afterEnd⟩
      · exact .neither

theorem RowsAlike.afterStar? (h : RowsAlike f g trees trees') :
    AfterAlike f g (Source.afterStar? trees) (Source.afterStar? trees') := by
  cases h with
  | nil => exact .neither
  | cons hdot hrest =>
      cases hrest with
      | nil => exact .neither
      | cons hstar hafter =>
          rw [Source.afterStar?, Source.afterStar?, hdot.isSymbol_eq, hstar.isSymbol_eq]
          split
          · exact .both trivial hafter
          · exact .neither

theorem RowsAlike.importItem? (h : RowsAlike f g trees trees') :
    ReadAlike f g (Item.Alike f g) (Source.importItem? trees) (Source.importItem? trees') := by
  cases h with
  | nil => exact .neither
  | @cons keyword keyword' rest rest' hkeyword hrest =>
      have hstatic : (rest'.head?.any fun tree => tree.isWord "static") =
          rest.head?.any fun tree => tree.isWord "static" := by
        cases hrest with
        | nil => rfl
        | cons hfirst => exact hfirst.isWord_eq "static"
      rw [Source.importItem?, Source.importItem?, hkeyword.isWord_eq]
      split
      · dsimp only
        rw [hstatic]
        generalize (rest.head?.any fun tree => tree.isWord "static") = isStatic
        have hname : RowsAlike f g (if isStatic then rest.tail else rest)
            (if isStatic then rest'.tail else rest') := by
          split
          · exact hrest.tail
          · exact hrest
        refine hname.dottedName?.map fun hname hafter => ?_
        dsimp only
        rcases hafter.afterStar?.neither_or_both with
          ⟨hone, hother⟩ | ⟨final, final', hone, hother, hfinal⟩
        · rw [hone, hother]
          exact ⟨.import _ _ hname, hafter.afterEnd⟩
        · rw [hone, hother]
          exact ⟨.import _ _ hname, hfinal.afterEnd⟩
      · exact .neither

theorem RowsAlike.item? (h : RowsAlike f g trees trees') :
    ReadAlike f g (Item.Alike f g) (Source.item? trees) (Source.item? trees') := by
  obtain ⟨hnames, hrest⟩ := h.modifiers
  rw [item?_eq_or rfl, item?_eq_or rfl]
  refine (hrest.packageItem? hnames).or (hrest.importItem?.or ((hrest.typeHead? hnames).map ?_))
  exact fun hhead hafter => ⟨.type hhead, hafter⟩

theorem Tree.Alike.goesOn_eq {tree tree' : Tree} (h : Tree.Alike f g tree tree') :
    goesOn tree' = goesOn tree := by
  simp only [goesOn, h.isGroup_eq, h.isWord_eq, h.isSymbol_eq]

theorem RowsAlike.startsItem_eq (h : RowsAlike f g trees trees') :
    startsItem trees' = startsItem trees := by
  have hkind := h.typeKind?_eq
  cases h with
  | nil => rfl
  | cons hkeyword hrest =>
      cases hrest with
      | nil => rfl
      | cons hname =>
          rw [startsItem, startsItem, hkind, hkeyword.isWord_eq, hkeyword.isWord_eq, hname.word?_eq]

theorem RowsAlike.afterStatement
    {previous previous' : Tree} (hprevious : Tree.Alike f g previous previous')
    (h : RowsAlike f g trees trees') :
    RowsAlike f g (Source.afterStatement previous trees) (Source.afterStatement previous' trees') := by
  induction trees generalizing trees' previous previous' with
  | nil =>
      cases h
      exact .nil
  | cons tree rest ih =>
      have hstarts := h.startsItem_eq
      have hall := h
      cases h with
      | cons htree hrest =>
          rw [Source.afterStatement, Source.afterStatement, htree.isSymbol_eq, htree.isGroup_eq,
            hprevious.goesOn_eq, hstarts]
          split
          · exact hrest
          split
          · exact hall
          · exact ih htree hrest

theorem RowsAlike.items (h : RowsAlike f g trees trees') :
    List.Forall₂ (Item.Alike f g) (Source.items trees) (Source.items trees') := by
  induction hlength : trees.length using Nat.strongRecOn generalizing trees trees' with
  | ind length ih =>
      subst hlength
      have hitem := h.item?
      cases h with
      | nil =>
          rw [items_nil]
          exact .nil
      | @cons tree tree' rest rest' htree hrest =>
          rw [items_cons, items_cons]
          rcases hitem.neither_or_both with
            ⟨hone, hother⟩ | ⟨item, after, item', after', hone, hother, hsame, hafter⟩
          · rw [hone, hother]
            dsimp only
            rw [htree.isSymbol_eq, htree.isGroup_eq]
            split
            · exact ih _ (Nat.lt_succ_self _) hrest rfl
            · exact ih _ (Nat.lt_succ_of_le (afterStatement_length tree rest))
                (hrest.afterStatement htree) rfl
          · rw [hone, hother]
            exact .cons hsame (ih _ (item?_length hone) hafter rfl)

end Items

mutual

/-- The declaration with other names of annotations and superclasses. -/
def Declaration.rename (f : String → String) (g : Option String → Option String) :
    Declaration → Declaration
  | ⟨kind, name, annotations, superclass, members⟩ =>
    ⟨kind, name, annotations.map f, g superclass, renameAll f g members⟩

/-- Declarations with other names of annotations and superclasses. -/
def renameAll (f : String → String) (g : Option String → Option String) :
    List Declaration → List Declaration
  | [] => []
  | declaration :: rest => declaration.rename f g :: renameAll f g rest

end

/-- The unit with other dotted names. -/
def CompilationUnit.rename (f : String → String) (g : Option String → Option String)
    (unit : CompilationUnit) : CompilationUnit where
  path := unit.path
  package := unit.package.map f
  packageAnnotations := unit.packageAnnotations.map f
  imports := unit.imports.map fun item => { item with name := f item.name }
  types := renameAll f g unit.types

section Units

mutual

theorem Declaration.rename_id : (declaration : Declaration) → declaration.rename id id = declaration
  | ⟨kind, name, annotations, superclass, members⟩ => by
    rw [Declaration.rename, List.map_id, id, renameAll_id members]

theorem renameAll_id : (declarations : List Declaration) →
    renameAll id id declarations = declarations
  | [] => by rw [renameAll]
  | declaration :: rest => by
    rw [renameAll, Declaration.rename_id declaration, renameAll_id rest]

end

theorem CompilationUnit.rename_id (unit : CompilationUnit) : unit.rename id id = unit := by
  obtain ⟨path, package, packageAnnotations, imports, types⟩ := unit
  rw [CompilationUnit.rename, Option.map_id, List.map_id, renameAll_id]
  exact congrArg (CompilationUnit.mk _ _ _ · _) (List.map_id imports)

theorem renameAll_append (declarations others : List Declaration) :
    renameAll f g (declarations ++ others) = renameAll f g declarations ++ renameAll f g others := by
  induction declarations with
  | nil => rw [List.nil_append, renameAll, List.nil_append]
  | cons declaration rest ih => rw [List.cons_append, renameAll, renameAll, ih, List.cons_append]

theorem renameAll_flatMap_congr
    {α : Type} {r : α → α → Prop} {one other : List α} {read : α → List Declaration}
    (h : List.Forall₂ r one other)
    (hread : ∀ a b, r a b → renameAll f g (read a) = renameAll f g (read b)) :
    renameAll f g (one.flatMap read) = renameAll f g (other.flatMap read) := by
  induction h with
  | nil => rfl
  | cons hfirst _ ih =>
      rw [List.flatMap_cons, List.flatMap_cons, renameAll_append, renameAll_append, hread _ _ hfirst, ih]

theorem renameAll_singleton (declaration : Declaration) :
    renameAll f g [declaration] = [declaration.rename f g] := by
  rw [renameAll, renameAll]

/-- Members that are the same up to comments declare the same up to `f` and `g`, if types do. -/
theorem Member.Alike.renameAll_declarations
    {ofType : TypeHead → Declaration}
    (hofType : ∀ {head head' : TypeHead}, head.Alike f g head' →
      (ofType head).rename f g = (ofType head').rename f g)
    {member member' : Member} (h : Member.Alike f g member member') :
    renameAll f g (member.declarations ofType) = renameAll f g (member'.declarations ofType) := by
  cases h with
  | type hhead =>
      rw [Member.declarations, Member.declarations, renameAll_singleton, renameAll_singleton,
        hofType hhead]
  | method _ hmodifiers hown =>
      rw [Member.declarations, Member.declarations, renameAll_singleton, renameAll_singleton,
        Declaration.rename, Declaration.rename, hmodifiers.map_annotationNames hown]
  | constructor hmodifiers =>
      rw [Member.declarations, Member.declarations, renameAll_singleton, renameAll_singleton,
        Declaration.rename, Declaration.rename, hmodifiers.map_annotationNames rfl]
  | fields names hmodifiers hown =>
      rw [Member.declarations, Member.declarations]
      induction names with
      | nil => rfl
      | cons name rest ih =>
          rw [List.map_cons, List.map_cons, renameAll, renameAll, ih, Declaration.rename,
            Declaration.rename, hmodifiers.map_annotationNames hown]
  | constant _ hmodifiers =>
      rw [Member.declarations, Member.declarations, renameAll_singleton, renameAll_singleton,
        Declaration.rename, Declaration.rename, hmodifiers.map_annotationNames rfl]

theorem TypeHead.Alike.rename_withMembers
    {head head' : TypeHead} (h : head.Alike f g head') {members members' : List Declaration}
    (hmembers : renameAll f g members = renameAll f g members') :
    (head.withMembers members).rename f g = (head'.withMembers members').rename f g := by
  rw [TypeHead.withMembers, TypeHead.withMembers, Declaration.rename, Declaration.rename, h.kind_eq,
    h.name_eq, h.modifiers_eq.map_annotationNames rfl, h.superclass_eq, hmembers]

/-- Types that are the same up to comments have the same declarations up to `f` and `g`. -/
theorem TypeHead.Alike.rename_declaration (levels : Nat) :
    ∀ {head head' : TypeHead}, head.Alike f g head' →
      (head.declaration levels).rename f g = (head'.declaration levels).rename f g := by
  induction levels with
  | zero => exact fun h => h.rename_withMembers rfl
  | succ levels ih =>
      intro head head' h
      apply h.rename_withMembers
      exact renameAll_flatMap_congr h.members fun _ _ hmember => hmember.renameAll_declarations ih

mutual

theorem Tree.Alike.depth_eq : {tree tree' : Tree} → Tree.Alike f g tree tree' →
    tree'.depth = tree.depth
  | _, _, .leaf _ _ _ => rfl
  | _, _, .group hinner => by
    rw [depth, depth, hinner.depthAll_eq]

theorem RowsAlike.depthAll_eq : {trees trees' : List Tree} → RowsAlike f g trees trees' →
    depthAll trees' = depthAll trees
  | _, _, .nil => rfl
  | _, _, .cons htree hrest _ _ => by
    rw [depthAll, depthAll, htree.depth_eq, hrest.depthAll_eq]

end

theorem rename_addItem
    {item item' : Item} (hitem : Item.Alike f g item item') (levels : Nat)
    {unit unit' : CompilationUnit} (hunit : unit.rename f g = unit'.rename f g) :
    (addItem levels unit item).rename f g = (addItem levels unit' item').rename f g := by
  simp only [CompilationUnit.rename, CompilationUnit.mk.injEq] at hunit
  obtain ⟨hpath, hpackage, hannotations, himports, htypes⟩ := hunit
  cases hitem with
  | package hname hnames =>
      simp only [addItem, CompilationUnit.rename, PackageClause.packageName, Option.map_some, hpath,
        hname, SameAnnotations.map_annotationNames rfl hnames, himports, htypes]
  | «import» _ _ hname =>
      simp only [addItem, CompilationUnit.rename, ImportClause.toImport, List.map_append, List.map_cons,
        List.map_nil, hpath, hpackage, hannotations, himports, htypes, hname]
  | type hhead =>
      simp only [addItem, CompilationUnit.rename, renameAll_append, renameAll, hpath, hpackage,
        hannotations, himports, htypes, hhead.rename_declaration levels]

/-- Rows that are alike make up the same unit up to `f` and `g`. -/
theorem RowsAlike.rename_unitOfItems
    {trees trees' : List Tree} (h : RowsAlike f g trees trees') (path : Option Path) :
    (unitOfItems path (depthAll trees) (Source.items trees)).rename f g =
      (unitOfItems path (depthAll trees') (Source.items trees')).rename f g := by
  have hfold : ∀ {one other : List Item}, List.Forall₂ (Item.Alike f g) one other →
      ∀ {unit unit' : CompilationUnit}, unit.rename f g = unit'.rename f g →
        (one.foldl (addItem (depthAll trees)) unit).rename f g =
          (other.foldl (addItem (depthAll trees)) unit').rename f g := by
    intro one other hitems
    induction hitems with
    | nil => exact id
    | cons hitem _ ih =>
        intro unit unit' hunit
        exact ih (rename_addItem hitem _ hunit)
  rw [h.depthAll_eq, unitOfItems_eq_foldl, unitOfItems_eq_foldl]
  exact hfold h.items rfl

end Units

end ComponentMarkers.Source
