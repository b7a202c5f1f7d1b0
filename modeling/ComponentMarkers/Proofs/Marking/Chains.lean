import ComponentMarkers.Marking.Chain
import Mathlib.Data.List.Nodup
import Mathlib.Data.List.Perm.Subperm
import Mathlib.Logic.Relation

/-!
# Enclosing chains as a relation

`ElementTable.chainFrom` carries a bound so that it ends on every table.  The relation `IsChain` says
what a chain is without the bound, and `isChain_enclosingChain` shows that the bound is never used up:
the elements on a chain are distinct and all in the table.

Everything else about chains is derived from the relation.  In a closed table no chain runs into an
unknown element, and its links are exactly the elements that are reached from its start.
-/

namespace ComponentMarkers

namespace ElementTable

/-- `id` is written in `owner`. -/
def EnclosedBy (table : ElementTable) (id owner : ElementId) : Prop :=
  ∃ element, table.get? id = some element ∧ element.enclosing = some owner

/-- `owner` is `id` or one of the elements around it. -/
def Reaches (table : ElementTable) : ElementId → ElementId → Prop :=
  Relation.ReflTransGen table.EnclosedBy

/-- The table has every element that one of its elements is written in. -/
def IsClosed (table : ElementTable) : Prop :=
  ∀ id owner, table.EnclosedBy id owner → (table.get? owner).isSome

/-- The chain that goes on with `next` when the elements in `visited` are on it already, whatever its
length. -/
inductive IsChain (table : ElementTable) :
    (visited : List ElementId) → (next : Option ElementId) → EnclosingChain → Prop where
  | top {visited : List ElementId} : IsChain table visited none ⟨[], .top⟩
  | loop {visited : List ElementId} {id : ElementId} (hid : id ∈ visited) :
      IsChain table visited (some id) ⟨[], .loop id⟩
  | unknown {visited : List ElementId} {id : ElementId} (hid : id ∉ visited)
      (hget : table.get? id = none) : IsChain table visited (some id) ⟨[], .unknown id⟩
  | link {visited : List ElementId} {id : ElementId} {element : Element} {rest : EnclosingChain}
      (hid : id ∉ visited) (hget : table.get? id = some element)
      (hrest : IsChain table (id :: visited) element.enclosing rest) :
      IsChain table visited (some id) ⟨(id, element) :: rest.links, rest.ending⟩

theorem index_lt_of_get? {table : ElementTable} {id : ElementId} {element : Element}
    (hget : table.get? id = some element) : id.index < table.elements.size :=
  (Array.getElem?_eq_some_iff.1 hget).1

/-- Whether a table is closed can be checked element by element. -/
theorem isClosed_of_forall_mem
    {table : ElementTable}
    (h : ∀ element ∈ table.elements.toList, ∀ owner ∈ element.enclosing,
      (table.get? owner).isSome) :
    table.IsClosed := by
  rintro id owner ⟨element, hget, howner⟩
  have hmem : element ∈ table.elements := Array.mem_of_getElem? hget
  exact h element (Array.mem_toList_iff.2 hmem) owner howner

/-- Distinct elements of a table are not more than the table has. -/
theorem length_le_size_of_known
    {table : ElementTable} {visited : List ElementId} (hnodup : visited.Nodup)
    (hknown : ∀ id ∈ visited, (table.get? id).isSome) :
    visited.length ≤ table.elements.size := by
  have hinjective : Function.Injective ElementId.index := by
    intro a b hab
    rw [← ElementId.ofIndex_index a, hab, ElementId.ofIndex_index]
  have hsubset : visited.map ElementId.index ⊆ List.range table.elements.size := by
    intro n hn
    obtain ⟨id, hid, rfl⟩ := List.mem_map.1 hn
    obtain ⟨element, hget⟩ := Option.isSome_iff_exists.1 (hknown id hid)
    exact List.mem_range.2 (index_lt_of_get? hget)
  have hle := (List.Nodup.subperm (hnodup.map hinjective) hsubset).length_le
  simpa using hle

/-- As long as the bound covers the elements that are not on the chain yet, it does not show. -/
theorem isChain_chainFrom
    {table : ElementTable} {bound : Nat} {visited : List ElementId} {next : Option ElementId}
    (hnodup : visited.Nodup) (hknown : ∀ id ∈ visited, (table.get? id).isSome)
    (hbound : table.elements.size ≤ visited.length + bound) :
    table.IsChain visited next (table.chainFrom bound visited next) := by
  fun_induction chainFrom table bound visited next with
  | case1 => exact .top
  | case2 bound visited id hid => exact .loop (List.contains_iff_mem.1 hid)
  | case3 bound visited id hid hget => exact .unknown (mt List.contains_iff_mem.2 hid) hget
  | case4 visited id hid element hget =>
      -- One more element would be more than the table has.
      have hmore : ∀ other ∈ id :: visited, (table.get? other).isSome :=
        List.forall_mem_cons.2 ⟨by rw [hget]; rfl, hknown⟩
      have hdistinct := List.nodup_cons.2 ⟨mt List.contains_iff_mem.2 hid, hnodup⟩
      have hle := length_le_size_of_known hdistinct hmore
      rw [List.length_cons] at hle
      omega
  | case5 visited id hid element hget bound rest ih =>
      have hnew := mt List.contains_iff_mem.2 hid
      refine .link hnew hget (ih ?_ ?_ ?_)
      · exact List.nodup_cons.2 ⟨hnew, hnodup⟩
      · exact List.forall_mem_cons.2 ⟨by rw [hget]; rfl, hknown⟩
      · rw [List.length_cons]
        omega

theorem isChain_enclosingChain (table : ElementTable) (id : ElementId) :
    table.IsChain [] (some id) (table.enclosingChain id) := by
  apply isChain_chainFrom List.nodup_nil
  · simp
  · simp

/-- There is one chain only. -/
theorem IsChain.unique
    {table : ElementTable} {visited : List ElementId} {next : Option ElementId}
    {chain other : EnclosingChain} (hchain : table.IsChain visited next chain)
    (hother : table.IsChain visited next other) : chain = other := by
  induction hchain generalizing other with
  | top =>
      cases hother
      rfl
  | loop hid =>
      cases hother with
      | loop => rfl
      | unknown hnot => exact absurd hid hnot
      | link hnot => exact absurd hid hnot
  | unknown hid hget =>
      cases hother with
      | loop hmem => exact absurd hmem hid
      | unknown => rfl
      | link _ hsome => simp [hget] at hsome
  | link hid hget hrest ih =>
      cases hother with
      | loop hmem => exact absurd hmem hid
      | unknown _ hnone => simp [hget] at hnone
      | link _ hsome hmore =>
          obtain rfl : _ = _ := Option.some.inj (hget.symm.trans hsome)
          rw [ih hmore]

/-- Links are elements of the table that are reached from the first one. -/
theorem IsChain.link_spec
    {table : ElementTable} {visited : List ElementId} {next : Option ElementId}
    {chain : EnclosingChain} (hchain : table.IsChain visited next chain) :
    ∀ link ∈ chain.links, table.get? link.1 = some link.2 ∧
      ∃ first, next = some first ∧ table.Reaches first link.1 := by
  induction hchain with
  | top => simp
  | loop => simp
  | unknown => simp
  | @link visited id element rest hid hget hrest ih =>
      intro link hlink
      rcases List.mem_cons.1 hlink with rfl | hlink
      · exact ⟨hget, id, rfl, Relation.ReflTransGen.refl⟩
      · obtain ⟨hknown, owner, howner, hreach⟩ := ih link hlink
        exact ⟨hknown, id, rfl, Relation.ReflTransGen.head ⟨element, hget, howner⟩ hreach⟩

/-- With the elements that came before it a chain that ends with known elements holds its first element
and, with every element, the one it is written in. -/
theorem IsChain.closed
    {table : ElementTable} {visited : List ElementId} {next : Option ElementId}
    {chain : EnclosingChain} (hchain : table.IsChain visited next chain)
    (hending : ∀ id, chain.ending ≠ .unknown id)
    (hvisited : ∀ id ∈ visited, ∀ owner, table.EnclosedBy id owner →
      owner ∈ visited ∨ next = some owner) :
    (∀ id, next = some id → id ∈ visited ++ chain.links.map Prod.fst) ∧
      ∀ id ∈ visited ++ chain.links.map Prod.fst, ∀ owner, table.EnclosedBy id owner →
        owner ∈ visited ++ chain.links.map Prod.fst := by
  induction hchain with
  | top =>
      constructor
      · intro id hid
        cases hid
      · intro id hid owner howner
        rw [List.map_nil, List.append_nil] at hid ⊢
        rcases hvisited id hid owner howner with hmem | hnone
        · exact hmem
        · cases hnone
  | @loop visited back hback =>
      constructor
      · intro id hid
        obtain rfl := Option.some.inj hid
        exact List.mem_append_left _ hback
      · intro id hid owner howner
        rw [List.map_nil, List.append_nil] at hid ⊢
        rcases hvisited id hid owner howner with hmem | heq
        · exact hmem
        · obtain rfl := Option.some.inj heq
          exact hback
  | unknown hid hget => exact absurd rfl (hending _)
  | @link visited id element rest hid hget hrest ih =>
      have hcovered : ∀ other ∈ id :: visited, ∀ owner, table.EnclosedBy other owner →
          owner ∈ id :: visited ∨ element.enclosing = some owner := by
        intro other hother owner howner
        rcases List.mem_cons.1 hother with rfl | hother
        · obtain ⟨found, hfound, henclosing⟩ := howner
          obtain rfl := Option.some.inj (hget.symm.trans hfound)
          exact Or.inr henclosing
        · rcases hvisited other hother owner howner with hmem | heq
          · exact Or.inl (List.mem_cons_of_mem _ hmem)
          · obtain rfl := Option.some.inj heq
            exact Or.inl List.mem_cons_self
      have hsame : ∀ other, other ∈ visited ++ ((id, element) :: rest.links).map Prod.fst ↔
          other ∈ (id :: visited) ++ rest.links.map Prod.fst :=
        fun _ => List.perm_middle.mem_iff
      obtain ⟨-, hsteps⟩ := ih hending hcovered
      constructor
      · intro other hother
        obtain rfl := Option.some.inj hother
        exact (hsame _).2 (List.mem_append_left _ List.mem_cons_self)
      · intro other hother owner howner
        exact (hsame _).2 (hsteps other ((hsame _).1 hother) owner howner)

/-- What a chain runs into is reached from its start and not in the table. -/
theorem IsChain.of_ending_eq_unknown
    {table : ElementTable} {visited : List ElementId} {next : Option ElementId}
    {chain : EnclosingChain} (hchain : table.IsChain visited next chain) {id : ElementId}
    (hending : chain.ending = .unknown id) :
    table.get? id = none ∧ ∃ first, next = some first ∧ table.Reaches first id := by
  induction hchain with
  | top => cases hending
  | loop => cases hending
  | unknown _ hget =>
      obtain rfl := ChainEnd.unknown.inj hending
      exact ⟨hget, _, rfl, Relation.ReflTransGen.refl⟩
  | @link visited start element rest _ hget _ ih =>
      obtain ⟨hnone, owner, howner, hreach⟩ := ih hending
      exact ⟨hnone, start, rfl, Relation.ReflTransGen.head ⟨element, hget, howner⟩ hreach⟩

/-- The chain from an element does not run into an unknown one. -/
def KnowsChain (table : ElementTable) (id : ElementId) : Prop :=
  ∀ other, (table.enclosingChain id).ending ≠ .unknown other

/-- A chain that does not run into an unknown element goes on to everything that its start reaches. -/
theorem KnowsChain.mem_of_reaches
    {table : ElementTable} {id owner : ElementId} (hknows : table.KnowsChain id)
    (hreach : table.Reaches id owner) : owner ∈ (table.enclosingChain id).links.map Prod.fst := by
  obtain ⟨hstart, hsteps⟩ :=
    (table.isChain_enclosingChain id).closed hknows (fun other hother => by cases hother)
  rw [List.nil_append] at hstart hsteps
  induction hreach with
  | refl => exact hstart id rfl
  | tail _ hstep ih => exact hsteps _ ih _ hstep

/-- The links of a chain are the elements reached from its start, each with what the table knows of
it. -/
theorem KnowsChain.mem_links_iff
    {table : ElementTable} {id : ElementId} (hknows : table.KnowsChain id) (owner : ElementId)
    (element : Element) :
    (owner, element) ∈ (table.enclosingChain id).links ↔
      table.Reaches id owner ∧ table.get? owner = some element := by
  have hchain := table.isChain_enclosingChain id
  constructor
  · intro hlink
    obtain ⟨hget, first, hfirst, hreach⟩ := hchain.link_spec _ hlink
    obtain rfl := Option.some.inj hfirst
    exact ⟨hreach, hget⟩
  · rintro ⟨hreach, hget⟩
    obtain ⟨⟨same, found⟩, hlink, rfl⟩ := List.mem_map.1 (hknows.mem_of_reaches hreach)
    obtain rfl := Option.some.inj ((hchain.link_spec _ hlink).1.symm.trans hget)
    exact hlink

theorem KnowsChain.isSome_of_reaches
    {table : ElementTable} {id owner : ElementId} (hknows : table.KnowsChain id)
    (hreach : table.Reaches id owner) : (table.get? owner).isSome := by
  obtain ⟨link, hlink, rfl⟩ := List.mem_map.1 (hknows.mem_of_reaches hreach)
  rw [((table.isChain_enclosingChain id).link_spec link hlink).1]
  rfl

theorem KnowsChain.of_reaches
    {table : ElementTable} {id owner : ElementId} (hknows : table.KnowsChain id)
    (hreach : table.Reaches id owner) : table.KnowsChain owner := by
  intro other hending
  obtain ⟨hnone, first, hfirst, hother⟩ :=
    (table.isChain_enclosingChain owner).of_ending_eq_unknown hending
  obtain rfl := Option.some.inj hfirst
  have hsome := hknows.isSome_of_reaches (hreach.trans hother)
  rw [hnone] at hsome
  cases hsome

/-- A chain of a closed table does not run into an unknown element. -/
theorem knowsChain_of_isClosed
    {table : ElementTable} (hclosed : table.IsClosed) {id : ElementId}
    (hid : (table.get? id).isSome) : table.KnowsChain id := by
  have hknown : ∀ owner, table.Reaches id owner → (table.get? owner).isSome := by
    intro owner hreach
    cases hreach with
    | refl => exact hid
    | tail _ hstep => exact hclosed _ _ hstep
  intro other hending
  obtain ⟨hnone, first, hfirst, hreach⟩ :=
    (table.isChain_enclosingChain id).of_ending_eq_unknown hending
  obtain rfl := Option.some.inj hfirst
  have hsome := hknown other hreach
  rw [hnone] at hsome
  cases hsome

end ElementTable

end ComponentMarkers
