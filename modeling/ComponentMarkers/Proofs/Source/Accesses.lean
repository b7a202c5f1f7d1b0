import ComponentMarkers.Proofs.Lists
import ComponentMarkers.Proofs.Source.Reordering

/-!
# Lookups that must not fail

Elements and contexts are looked up by numbers that are stored elsewhere, and here a lookup that finds
nothing is an error, as is a walk that does not come to an end.  In a round whose numbers are all in range
no lookup fails: superclasses and annotated elements are what the round says they are.
-/

namespace ComponentMarkers.Source

/-- How looking something up goes wrong. -/
inductive BadAccess where
  /-- There is no element with the number. -/
  | element (id : ElementId)
  /-- There is no unit with the number. -/
  | unit (n : Nat)
  /-- A walk is longer than the elements are many. -/
  | endless
  deriving DecidableEq, Repr

namespace SourceRound

/-- The element with a number, which there has to be. -/
def elementAt (round : SourceRound) (id : ElementId) : Except BadAccess SourceElement :=
  match round.get? id with
  | some found => .ok found
  | none => .error (.element id)

/-- The context of the unit a name is written in, which there has to be. -/
def contextAt (round : SourceRound) (name : WrittenName) : Except BadAccess ImportContext :=
  match round.units[name.unit]? with
  | some context => .ok context
  | none => .error (.unit name.unit)

/-- The qualified names of the types around an element, the innermost first.  There may be at most
`bound` of them. -/
def enclosingTypeNamesAt (round : SourceRound) :
    (bound : Nat) → Option ElementId → Except BadAccess (List String)
  | _, none => .ok []
  | 0, some _ => .error .endless
  | bound + 1, some id => do
    let owner ← round.elementAt id
    if owner.element.kind.isType then
      let names ← round.enclosingTypeNamesAt bound owner.element.enclosing
      return owner.element.qualifiedName :: names
    else
      return []

/-- The class that an element extends: all names are made, then the types of these names are looked at one
after the other. -/
def superclassAt (round : SourceRound) (id : ElementId) : Except BadAccess (Option ElementId) :=
  match round.get? id with
  | none => .ok none
  | some found =>
    match found.superclass with
    | none => .ok none
    | some name => do
      let owners ← round.enclosingTypeNamesAt round.elements.size found.element.enclosing
      let context ← round.contextAt name
      ((superclassNames owners context name.text).filterMap round.types.find?).findM? fun id => do
        return (← round.elementAt id).element.kind = .classType

/-- The element itself carries the annotation. -/
def carriesAt (round : SourceRound) (id : ElementId) (identifier : String) :
    Except BadAccess Bool := do
  let found ← round.elementAt id
  found.annotations.anyM fun name => do
    return (← round.contextAt name).denotes name.text identifier

/-- Subclasses inherit the annotation. -/
def isInheritedAt (round : SourceRound) (identifier : String) : Except BadAccess Bool :=
  if inheritedScopes.contains identifier then
    .ok true
  else
    match round.types.find? identifier with
    | none => .ok false
    | some id => do
      if (← round.elementAt id).element.kind = .annotationType then
        round.carriesAt id inheritedAnnotation
      else
        return false

/-- The flag of an element in a row with a flag for each. -/
def flagAt (flags : List Bool) (id : ElementId) : Except BadAccess Bool :=
  match flags[id.index]? with
  | some flag => .ok flag
  | none => .error (.element id)

/-- The walk along the superclasses of an element comes to one with a flag before it comes to one in
`seen`.  There may be at most `bound` steps. -/
def inheritsAt (round : SourceRound) (flags : List Bool) :
    (bound : Nat) → (seen : List ElementId) → ElementId → Except BadAccess Bool
  | 0, _, _ => .error .endless
  | bound + 1, seen, id => do
    match ← round.superclassAt id with
    | none => return false
    | some ancestor =>
      if seen.contains ancestor then
        return false
      else if ← flagAt flags ancestor then
        return true
      else
        round.inheritsAt flags bound (ancestor :: seen) ancestor

/-- The elements that carry an annotation, which is first looked for on each of them. -/
def annotatedAt (round : SourceRound) (identifier : String) : Except BadAccess (List ElementId) := do
  let flags ← round.ids.mapM fun id => round.carriesAt id identifier
  let inherited ← round.isInheritedAt identifier
  round.ids.filterM fun id => do
    if ← flagAt flags id then
      return true
    else if inherited then
      if (← round.elementAt id).element.kind = .classType then
        round.inheritsAt flags round.elements.size [id] id
      else
        return false
    else
      return false

/-- All numbers that the round has stored are those of its elements and units, and elements are behind
what they are inside. -/
structure IsInRange (round : SourceRound) : Prop where
  enclosing : ∀ (n : Nat) (found : SourceElement) (owner : ElementId),
    round.elements[n]? = some found → found.element.enclosing = some owner → owner.index < n
  annotations : ∀ (n : Nat) (found : SourceElement), round.elements[n]? = some found →
    ∀ name ∈ found.annotations, name.unit < round.units.size
  superclass : ∀ (n : Nat) (found : SourceElement) (name : WrittenName),
    round.elements[n]? = some found → found.superclass = some name → name.unit < round.units.size
  packages : ∀ name id, round.packages.find? name = some id → id.index < round.elements.size
  types : ∀ name id, round.types.find? name = some id → id.index < round.elements.size
  roots : ∀ id ∈ round.roots, id.index < round.elements.size

end SourceRound

namespace SourceRound

section Lookups

variable {round : SourceRound}

theorem elementAt_eq_ok
    {id : ElementId} {found : SourceElement} (hget : round.get? id = some found) :
    round.elementAt id = .ok found := by
  rw [elementAt, hget]

theorem exists_get?_of_lt
    {id : ElementId} (h : id.index < round.elements.size) : ∃ found, round.get? id = some found :=
  ⟨round.elements[id.index], Array.getElem?_eq_getElem h⟩

theorem contextAt_eq_ok
    {name : WrittenName} (h : name.unit < round.units.size) :
    round.contextAt name = .ok (round.contextOf name) := by
  rw [contextAt, contextOf, Array.getElem?_eq_getElem h]
  rfl

/-- The kind of an element is looked up where it may be asked for. -/
theorem elementAt_kind
    {id : ElementId} (h : id.index < round.elements.size) (kind : ElementKind) :
    (do return (← round.elementAt id).element.kind = kind : Except BadAccess Bool) =
      .ok ((round.get? id).any fun found => found.element.kind = kind) := by
  obtain ⟨found, hget⟩ := exists_get?_of_lt h
  rw [elementAt_eq_ok hget, hget]
  rfl

/-- Owners have smaller numbers, so the way up is no longer than the number of an element says. -/
theorem IsInRange.enclosingTypeNamesAt_eq
    (h : round.IsInRange) {n bound : Nat} {found : SourceElement}
    (hfound : round.elements[n]? = some found) (hbound : n ≤ bound) :
    round.enclosingTypeNamesAt bound found.element.enclosing =
      .ok (round.enclosingTypeNames bound found.element.enclosing) := by
  induction bound generalizing n found with
  | zero =>
      cases howner : found.element.enclosing with
      | none => rfl
      | some owner =>
          have hlt := h.enclosing n found owner hfound howner
          omega
  | succ bound ih =>
      cases howner : found.element.enclosing with
      | none => rfl
      | some owner =>
          have hlt := h.enclosing n found owner hfound howner
          have hsize := (Array.getElem?_eq_some_iff.1 hfound).1
          obtain ⟨around, hget⟩ := exists_get?_of_lt (Nat.lt_trans hlt hsize)
          have hrest := ih (n := owner.index) hget (by omega)
          rw [enclosingTypeNamesAt, enclosingTypeNames, elementAt_eq_ok hget, hget]
          change (if around.element.kind.isType then
            (do
              let names ← round.enclosingTypeNamesAt bound around.element.enclosing
              return around.element.qualifiedName :: names : Except BadAccess (List String))
            else .ok []) = _
          rw [hrest]
          dsimp only
          by_cases htype : around.element.kind.isType
          · rw [if_pos htype, if_pos htype]
            rfl
          · rw [if_neg htype, if_neg htype]

/-- The superclass is found without a bad access, whatever number is asked for. -/
theorem IsInRange.superclassAt_eq (h : round.IsInRange) (id : ElementId) :
    round.superclassAt id = .ok (round.superclass? id) := by
  rw [superclassAt, superclass?]
  cases hget : round.get? id with
  | none => rfl
  | some found =>
      change _ = Except.ok (found.superclass.bind _)
      dsimp only
      cases hname : found.superclass with
      | none => rfl
      | some name =>
          have hsize := (Array.getElem?_eq_some_iff.1 hget).1
          dsimp only
          rw [h.enclosingTypeNamesAt_eq hget (Nat.le_of_lt hsize),
            contextAt_eq_ok (h.superclass id.index found name hget hname)]
          apply findM?_eq_ok (p := round.isClass)
          intro candidate hcandidate
          obtain ⟨text, -, hfind⟩ := List.mem_filterMap.1 hcandidate
          exact elementAt_kind (h.types text candidate hfind) .classType

theorem IsInRange.carriesAt_eq
    (h : round.IsInRange) {id : ElementId} (hid : id.index < round.elements.size)
    (identifier : String) : round.carriesAt id identifier = .ok (round.carries id identifier) := by
  obtain ⟨found, hget⟩ := exists_get?_of_lt hid
  rw [carriesAt, carries, elementAt_eq_ok hget, hget]
  apply anyM_eq_ok
  intro name hname
  rw [contextAt_eq_ok (h.annotations id.index found hget name hname)]
  rfl

theorem IsInRange.isInheritedAt_eq (h : round.IsInRange) (identifier : String) :
    round.isInheritedAt identifier = .ok (round.isInherited identifier) := by
  rw [isInheritedAt, isInherited]
  by_cases hscope : inheritedScopes.contains identifier
  · rw [if_pos hscope, hscope]
    rfl
  · rw [if_neg hscope, Bool.eq_false_of_not_eq_true hscope, Bool.false_or]
    cases hfind : round.types.find? identifier with
    | none => rfl
    | some id =>
        have hid := h.types identifier id hfind
        obtain ⟨found, hget⟩ := exists_get?_of_lt hid
        dsimp only
        rw [elementAt_eq_ok hget, Option.any_some, hget, Option.any_some]
        change (if found.element.kind = .annotationType then _ else _) = _
        by_cases hkind : found.element.kind = .annotationType
        · rw [if_pos hkind, h.carriesAt_eq hid, decide_eq_true hkind, Bool.true_and]
        · rw [if_neg hkind, decide_eq_false hkind, Bool.false_and]
          rfl

/-- A row with a flag for each element has the flag of every element of the round. -/
theorem flagAt_map_ids
    (p : ElementId → Bool) {id : ElementId} (hid : id.index < round.elements.size) :
    flagAt (round.ids.map p) id = .ok (p id) := by
  have hflag : (round.ids.map p)[id.index]? = some (p id) := by
    rw [ids, List.getElem?_map, List.getElem?_map, List.getElem?_range hid, Option.map_some,
      Option.map_some, ElementId.ofIndex_index]
  rw [flagAt, hflag]

/-- The walk looks at the superclasses one after the other, and ends before its steps are used up. -/
theorem IsInRange.inheritsAt_eq
    (h : round.IsInRange) (p : ElementId → Bool) {bound : Nat} {seen : List ElementId}
    {id : ElementId} (hnodup : seen.Nodup) (hknown : ∀ other ∈ seen, (round.get? other).isSome)
    (hbound : round.elements.size < seen.length + bound) :
    round.inheritsAt (round.ids.map p) bound seen id =
      .ok ((round.ancestorsFrom bound seen id).any p) := by
  induction bound generalizing seen id with
  | zero =>
      have hle := length_le_size_of_nodup hnodup hknown
      omega
  | succ bound ih =>
      rw [inheritsAt, ancestorsFrom, h.superclassAt_eq]
      cases hsuper : round.superclass? id with
      | none => rfl
      | some ancestor =>
          have hget := isSome_get?_of_isClass (isClass_of_superclass? hsuper)
          obtain ⟨found, hfound⟩ := Option.isSome_iff_exists.1 hget
          change (if seen.contains ancestor then _ else _) = _
          dsimp only
          by_cases hseen : seen.contains ancestor
          · rw [if_pos hseen, if_pos hseen]
            rfl
          · have hflag := flagAt_map_ids p (Array.getElem?_eq_some_iff.1 hfound).1
            have hrest : round.inheritsAt (round.ids.map p) bound (ancestor :: seen) ancestor =
                .ok ((round.ancestorsFrom bound (ancestor :: seen) ancestor).any p) := by
              apply ih
              · exact List.nodup_cons.2 ⟨mt List.contains_iff_mem.2 hseen, hnodup⟩
              · exact List.forall_mem_cons.2 ⟨hget, hknown⟩
              · rw [List.length_cons]
                omega
            rw [if_neg hseen, if_neg hseen, hflag, List.any_cons]
            change (if p ancestor then _ else _) = _
            cases p ancestor with
            | true => rfl
            | false => exact hrest

theorem lt_size_of_mem_ids
    (hsize : round.elements.size < ElementId.count) {id : ElementId} (h : id ∈ round.ids) :
    id.index < round.elements.size := by
  obtain ⟨found, hget⟩ := Option.isSome_iff_exists.1 ((mem_ids_iff hsize id).1 h)
  exact (Array.getElem?_eq_some_iff.1 hget).1

/-- The annotated elements are found without a bad access, whatever annotation is asked for. -/
theorem IsInRange.annotatedAt_eq
    (h : round.IsInRange) (hsize : round.elements.size < ElementId.count) (identifier : String) :
    round.annotatedAt identifier = .ok (round.annotated identifier) := by
  rw [annotatedAt, annotated,
    mapM_eq_ok fun id hid => h.carriesAt_eq (lt_size_of_mem_ids hsize hid) identifier,
    h.isInheritedAt_eq]
  apply filterM_eq_ok
  intro id hid
  have hlt := lt_size_of_mem_ids hsize hid
  obtain ⟨found, hget⟩ := exists_get?_of_lt hlt
  have hwalk : round.inheritsAt (round.ids.map fun id => round.carries id identifier)
      round.elements.size [id] id =
        .ok ((round.ancestors id).any fun ancestor => round.carries ancestor identifier) := by
    apply h.inheritsAt_eq
    · exact List.nodup_singleton id
    · exact List.forall_mem_singleton.2 (Option.isSome_of_eq_some hget)
    · rw [List.length_singleton]
      omega
  rw [flagAt_map_ids _ hlt, elementAt_eq_ok hget, hwalk, isClass, hget, Option.any_some]
  change (if round.carries id identifier then _ else _) = _
  cases round.carries id identifier with
  | true => rfl
  | false =>
      cases round.isInherited identifier with
      | false => rfl
      | true =>
          change (if found.element.kind = .classType then _ else _) = _
          by_cases hkind : found.element.kind = .classType
          · rw [if_pos hkind, decide_eq_true hkind]
            rfl
          · rw [if_neg hkind, decide_eq_false hkind]
            rfl

end Lookups

end SourceRound

end ComponentMarkers.Source
