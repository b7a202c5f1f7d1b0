import ComponentMarkers.Proofs.Marking.Chains

/-!
# Owners by their distance

An element has at most one owner, so what is around it can be counted: `ownerAfter?` is what is reached
by going up a given number of times.  It has no bound and visits nothing twice on purpose; in a table that
leads round in a circle it goes round for ever.

Chains are related to it here.  Their links are the owners at growing distances, and no owner comes
before the link that shows it.
-/

namespace ComponentMarkers

namespace ElementTable

/-- The element that is reached by going up to the owner `n` times. -/
def ownerAfter? (table : ElementTable) : (n : Nat) → ElementId → Option ElementId
  | 0, id => some id
  | n + 1, id => ((table.get? id).bind Element.enclosing).bind (table.ownerAfter? n)

variable {table : ElementTable}

theorem ownerAfter?_succ_of_get?
    {id : ElementId} {element : Element} (hget : table.get? id = some element) (n : Nat) :
    table.ownerAfter? (n + 1) id = element.enclosing.bind (table.ownerAfter? n) := by
  rw [ownerAfter?, hget]
  rfl

theorem ownerAfter?_add (n m : Nat) (id : ElementId) :
    table.ownerAfter? (n + m) id = (table.ownerAfter? n id).bind (table.ownerAfter? m) := by
  induction n generalizing id with
  | zero => simp [ownerAfter?]
  | succ n ih =>
      have hrest : table.ownerAfter? (n + m) = fun owner =>
          (table.ownerAfter? n owner).bind (table.ownerAfter? m) :=
        funext ih
      simp only [Nat.succ_add, ownerAfter?, Option.bind_assoc, hrest]

/-- The last step up is one to the owner. -/
theorem ownerAfter?_succ (n : Nat) (id : ElementId) :
    table.ownerAfter? (n + 1) id =
      (table.ownerAfter? n id).bind fun owner => (table.get? owner).bind Element.enclosing := by
  rw [ownerAfter?_add]
  apply Option.bind_congr
  intro owner _
  simp [ownerAfter?]

theorem enclosedBy_iff_ownerAfter?_one {id owner : ElementId} :
    table.EnclosedBy id owner ↔ table.ownerAfter? 1 id = some owner := by
  have hone : table.ownerAfter? 1 id = (table.get? id).bind Element.enclosing := by
    simp [ownerAfter?]
  rw [hone, Option.bind_eq_some_iff]
  rfl

/-- What is reached is reached at some distance. -/
theorem reaches_iff_exists_ownerAfter? {id owner : ElementId} :
    table.Reaches id owner ↔ ∃ n, table.ownerAfter? n id = some owner := by
  constructor
  · intro hreach
    induction hreach with
    | refl => exact ⟨0, rfl⟩
    | @tail middle last _ hstep ih =>
        obtain ⟨n, hn⟩ := ih
        refine ⟨n + 1, ?_⟩
        rw [ownerAfter?_add, hn]
        exact enclosedBy_iff_ownerAfter?_one.1 hstep
  · rintro ⟨n, hn⟩
    induction n generalizing owner with
    | zero =>
        rw [ownerAfter?, Option.some.injEq] at hn
        rw [hn]
        exact Relation.ReflTransGen.refl
    | succ n ih =>
        rw [ownerAfter?_add] at hn
        obtain ⟨middle, hmiddle, hstep⟩ := Option.bind_eq_some_iff.1 hn
        exact (ih hmiddle).tail (enclosedBy_iff_ownerAfter?_one.2 hstep)

/-- What is on a chain was not visited before. -/
theorem IsChain.not_mem_visited
    {visited : List ElementId} {next : Option ElementId} {chain : EnclosingChain}
    (hchain : table.IsChain visited next chain) :
    ∀ id ∈ chain.links.map Prod.fst, id ∉ visited := by
  induction hchain with
  | top => simp
  | loop => simp
  | unknown => simp
  | link hid _ _ ih =>
      rw [List.map_cons, List.forall_mem_cons]
      refine ⟨hid, fun other hother hmem => ?_⟩
      exact ih other hother (List.mem_cons_of_mem _ hmem)

/-- Going up from `start` one comes to `id` before one comes to `later` for the first time. -/
def ComesFirst (table : ElementTable) (start id later : ElementId) : Prop :=
  ∃ n, table.ownerAfter? n start = some id ∧
    ∀ m, table.ownerAfter? m start = some later → n < m

/-- The links of a chain are in the order in which one comes to them. -/
theorem IsChain.pairwise_comesFirst
    {visited : List ElementId} {start : ElementId} {chain : EnclosingChain}
    (hchain : table.IsChain visited (some start) chain) :
    (chain.links.map Prod.fst).Pairwise (table.ComesFirst start) := by
  generalize hnext : some start = next at hchain
  induction hchain generalizing start with
  | top => exact .nil
  | loop => exact .nil
  | unknown => exact .nil
  | @link visited id element rest _ hget hrest ih =>
      obtain rfl := Option.some.inj hnext
      -- The start itself does not come again on the chain.
      have hne : ∀ later ∈ rest.links.map Prod.fst, later ≠ start := by
        rintro later hlater rfl
        exact hrest.not_mem_visited later hlater List.mem_cons_self
      have hpositive : ∀ later ∈ rest.links.map Prod.fst, ∀ m,
          table.ownerAfter? m start = some later → 0 < m := by
        intro later hlater m hm
        apply Nat.pos_of_ne_zero
        rintro rfl
        exact hne later hlater (Option.some.inj hm).symm
      rw [List.map_cons, List.pairwise_cons]
      constructor
      · intro later hlater
        exact ⟨0, rfl, hpositive later hlater⟩
      · cases howner : element.enclosing with
        | none =>
            rw [howner] at hrest
            obtain rfl : rest = ⟨[], .top⟩ := hrest.unique .top
            exact .nil
        | some owner =>
            have hstep : ∀ n, table.ownerAfter? (n + 1) start = table.ownerAfter? n owner := by
              intro n
              rw [ownerAfter?_succ_of_get? hget, howner, Option.bind_some]
            apply (ih howner.symm).imp_of_mem
            rintro first later - hlater ⟨n, hn, hfirst⟩
            refine ⟨n + 1, (hstep n).trans hn, fun m hm => ?_⟩
            obtain ⟨m, rfl⟩ := Nat.exists_eq_succ_of_ne_zero
              (Nat.ne_of_gt (hpositive later hlater m hm))
            exact Nat.succ_lt_succ (hfirst m ((hstep m).symm.trans hm))

end ElementTable

end ComponentMarkers
