import ComponentMarkers.Proofs.Source.Bodies
import ComponentMarkers.Proofs.Source.Printing

/-!
# Outlines are recovered

The text of an outline is read as the unit that the outline describes.  The tokens of the text nest
into the trees of the outline; the package, the imports and the types are read off these one by one.
-/

namespace ComponentMarkers.Source

open Text Source.Tree

section Statements

theorem PackageOutline.item?_trees (outline : PackageOutline) (rest : List Tree) :
    item? (outline.trees ++ rest) =
      some (.package ⟨annotationNodes outline.annotations, outline.name.text⟩, rest) := by
  have hmodifiers : modifiers (outline.trees ++ rest) =
      (annotationNodes outline.annotations,
        ofWord "package" :: (outline.name.trees ++ ofSymbol ';' :: rest)) := by
    have hall := modifiers_annotationTrees outline.annotations "package"
      (outline.name.trees ++ ofSymbol ';' :: rest)
    rw [modifiers_ofWord (by decide), List.append_nil] at hall
    rw [PackageOutline.trees, ← hall]
    simp only [List.append_assoc, List.cons_append, List.nil_append]
  have hnext : startsSegment (ofSymbol ';' :: rest) = false := by
    cases rest <;> rfl
  have hpackage : (ofWord "package").isWord "package" = true := rfl
  apply item?_of_packageItem? hmodifiers
  rw [packageItem?, if_pos hpackage, dottedName?_trees _ hnext]
  rfl

/-- What is read of an import. -/
def ImportOutline.clause (outline : ImportOutline) : ImportClause :=
  ⟨outline.name.text, outline.onDemand, outline.isStatic⟩

theorem ImportOutline.item?_trees (outline : ImportOutline) (rest : List Tree) :
    item? (outline.trees ++ rest) = some (.import outline.clause, rest) := by
  obtain ⟨name, onDemand, isStatic⟩ := outline
  let ending := (if onDemand then [ofSymbol '.', ofSymbol '*'] else []) ++ ofSymbol ';' :: rest
  let named := (if isStatic then [ofWord "static"] else []) ++ (name.trees ++ ending)
  have hmodifiers : modifiers (ofWord "import" :: named) = ([], ofWord "import" :: named) :=
    modifiers_ofWord (by decide) named
  have htrees : ImportOutline.trees ⟨name, onDemand, isStatic⟩ ++ rest = ofWord "import" :: named := by
    rw [ImportOutline.trees]
    simp only [named, ending, List.append_assoc, List.cons_append, List.nil_append]
  have hstatic : (named.head?.any fun tree => tree.isWord "static") = isStatic := by
    cases isStatic with
    | true => rfl
    | false =>
        have hne : name.first.text ≠ "static" := name.first.ne_of_mem_keywords (by decide)
        have hword : (name.first.tree.isWord "static") = (some name.first.text == some "static") := rfl
        rw [show named.head? = some name.first.tree from rfl, Option.any_some, hword]
        exact beq_eq_false_iff_ne.2 (mt Option.some.inj hne)
  have hname : (if isStatic then named.tail else named) = name.trees ++ ending := by
    cases isStatic <;> rfl
  have hnext : startsSegment ending = false := by
    cases onDemand with
    | true => rfl
    | false => cases rest <;> rfl
  have hstar : (afterStar? ending).isSome = onDemand ∧
      afterEnd ((afterStar? ending).getD ending) = rest := by
    cases onDemand with
    | true => exact ⟨rfl, rfl⟩
    | false => cases rest <;> exact ⟨rfl, rfl⟩
  have himport : (ofWord "import").isWord "import" = true := rfl
  rw [htrees]
  apply item?_of_importItem? hmodifiers rfl
  rw [importItem?, if_pos himport]
  dsimp only
  rw [hstatic, hname, dottedName?_trees _ hnext, Option.map_some]
  dsimp only
  rw [hstar.1, hstar.2]
  rfl

end Statements

section Units

variable (outline : UnitOutline)

end Units

end ComponentMarkers.Source
