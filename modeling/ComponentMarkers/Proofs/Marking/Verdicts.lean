import ComponentMarkers.Proofs.Marking.Owners
import ComponentMarkers.Proofs.Marking.Resolution

/-!
# What decides an identity

Going up from an element, the first thing met that is not a new type decides: a package gives the element
its identity, and a member, the end of the chain or an element that was met before keeps it from having
one.  `verdictAt?` says this of a single distance, from the owners alone.  A climb visits the distances
one after the other, so it finds the first verdict, and `resolveIdentity` is decided in both directions.

A package that leads back to itself has no identity although there is a package above it: whether an
element was met before is asked first.  For no other element does this make a difference.
-/

namespace ComponentMarkers

namespace ElementTable

/-- What is met for the first time after `n` steps up from `id`. -/
def FirstAt (table : ElementTable) (id : ElementId) (n : Nat) (owner : ElementId) : Prop :=
  table.ownerAfter? n id = some owner ∧ ∀ k < n, table.ownerAfter? k id ≠ some owner

/-- What is decided after `n` steps up from `id`: a package that gives it its identity or a fault.  At a
type that is met for the first time nothing is decided. -/
def verdictAt? (table : ElementTable) (id : ElementId) (n : Nat) :
    Option (Except ChainFault Element) :=
  match table.ownerAfter? n id with
  | none => some (.error .endsEarly)
  | some owner =>
    if ∃ k < n, table.ownerAfter? k id = some owner then some (.error (.loopsBack owner))
    else
      (table.get? owner).bind fun element =>
        if element.kind.isPackage then some (.ok element)
        else if element.kind.isType then none
        else some (.error (.enclosedBy element.kind))

/-- The first verdict on the way up from `id`, which is not about `id` itself, is met after `n` steps and
one more. -/
def FirstVerdict (table : ElementTable) (id : ElementId) (n : Nat)
    (verdict : Except ChainFault Element) : Prop :=
  table.verdictAt? id (n + 1) = some verdict ∧ ∀ k < n, table.verdictAt? id (k + 1) = none

/-- The simple names from what is reached by going up `n` times down to `id`. -/
def namesDownFrom (table : ElementTable) (id : ElementId) (n : Nat) : List String :=
  (List.range (n + 1)).reverse.filterMap fun k =>
    ((table.ownerAfter? k id).bind table.get?).map Element.simpleName

variable {table : ElementTable} {id : ElementId} {n : Nat}

theorem namesDownFrom_zero {element : Element} (hget : table.get? id = some element) :
    table.namesDownFrom id 0 = [element.simpleName] := by
  simp [namesDownFrom, ownerAfter?, hget]

theorem namesDownFrom_succ
    {owner : ElementId} {element : Element} (howner : table.ownerAfter? (n + 1) id = some owner)
    (hget : table.get? owner = some element) :
    table.namesDownFrom id (n + 1) = element.simpleName :: table.namesDownFrom id n := by
  rw [namesDownFrom, List.range_succ, List.reverse_append, List.reverse_singleton,
    List.singleton_append, List.filterMap_cons_some (b := element.simpleName)]
  · rfl
  · simp [howner, hget]

theorem verdictAt?_eq_of_firstAt
    {owner : ElementId} {element : Element} (hfirst : table.FirstAt id n owner)
    (hget : table.get? owner = some element) :
    table.verdictAt? id n =
      if element.kind.isPackage then some (.ok element)
      else if element.kind.isType then none
      else some (.error (.enclosedBy element.kind)) := by
  have hnew : ¬ ∃ k < n, table.ownerAfter? k id = some owner := by
    rintro ⟨k, hk, hsame⟩
    exact hfirst.2 k hk hsame
  rw [verdictAt?, hfirst.1]
  dsimp only
  rw [if_neg hnew, hget]
  rfl

theorem verdictAt?_eq_of_back
    {owner : ElementId} (howner : table.ownerAfter? n id = some owner)
    (hback : ∃ k < n, table.ownerAfter? k id = some owner) :
    table.verdictAt? id n = some (.error (.loopsBack owner)) := by
  rw [verdictAt?, howner]
  dsimp only
  rw [if_pos hback]

theorem verdictAt?_eq_of_none (hnone : table.ownerAfter? n id = none) :
    table.verdictAt? id n = some (.error .endsEarly) := by
  rw [verdictAt?, hnone]

/-- Where a package is the verdict it is met for the first time. -/
theorem exists_firstAt_of_verdictAt?_eq_ok
    {package : Element} (h : table.verdictAt? id n = some (.ok package)) :
    ∃ owner, table.FirstAt id n owner ∧ table.get? owner = some package ∧
      package.kind.isPackage := by
  cases howner : table.ownerAfter? n id with
  | none => simp [verdictAt?_eq_of_none howner] at h
  | some owner =>
      by_cases hback : ∃ k < n, table.ownerAfter? k id = some owner
      · simp [verdictAt?_eq_of_back howner hback] at h
      · have hfirst : table.FirstAt id n owner :=
          ⟨howner, fun k hk hsame => hback ⟨k, hk, hsame⟩⟩
        cases hget : table.get? owner with
        | none => simp [verdictAt?, howner, hback, hget] at h
        | some element =>
            rw [verdictAt?_eq_of_firstAt hfirst hget] at h
            by_cases hpackage : element.kind.isPackage
            · rw [if_pos hpackage] at h
              obtain rfl : element = package := by simpa using h
              exact ⟨owner, hfirst, hget, hpackage⟩
            · rw [if_neg hpackage] at h
              split at h <;> simp at h

/-- In a closed table nothing is decided at types only. -/
theorem IsClosed.exists_type_of_verdictAt?_eq_none
    (hclosed : table.IsClosed) (h : table.verdictAt? id (n + 1) = none) :
    ∃ owner element, table.ownerAfter? (n + 1) id = some owner ∧
      table.get? owner = some element ∧ element.kind.isType := by
  cases howner : table.ownerAfter? (n + 1) id with
  | none => simp [verdictAt?_eq_of_none howner] at h
  | some owner =>
      by_cases hback : ∃ k < n + 1, table.ownerAfter? k id = some owner
      · simp [verdictAt?_eq_of_back howner hback] at h
      · have hstep := howner
        rw [ownerAfter?_add] at hstep
        obtain ⟨before, -, hbefore⟩ := Option.bind_eq_some_iff.1 hstep
        obtain ⟨element, hget⟩ := Option.isSome_iff_exists.1
          (hclosed before owner (enclosedBy_iff_ownerAfter?_one.2 hbefore))
        have hfirst : table.FirstAt id (n + 1) owner :=
          ⟨howner, fun k hk hsame => hback ⟨k, hk, hsame⟩⟩
        rw [verdictAt?_eq_of_firstAt hfirst hget] at h
        refine ⟨owner, element, rfl, hget, ?_⟩
        by_contra htype
        rw [if_neg htype] at h
        split at h <;> cases h

/-- There is at most one first verdict. -/
theorem FirstVerdict.unique
    {verdict other : Except ChainFault Element} {m : Nat} (h : table.FirstVerdict id n verdict)
    (hother : table.FirstVerdict id m other) : n = m ∧ verdict = other := by
  have hle : ∀ {a b : Nat} {v w : Except ChainFault Element}, table.FirstVerdict id a v →
      table.FirstVerdict id b w → a ≤ b := by
    intro a b v w ha hb
    by_contra hlt
    have hnone := ha.2 b (Nat.lt_of_not_le hlt)
    rw [hb.1] at hnone
    cases hnone
  obtain rfl := Nat.le_antisymm (hle h hother) (hle hother h)
  refine ⟨rfl, ?_⟩
  exact Option.some.inj (h.1.symm.trans hother.1)

/-- The way up to a package that is not the start, with types only between the two, meets nothing twice:
what is met twice is met over and over, and so there would be a package among the types. -/
theorem ownerAfter?_ne_of_types
    {owner : ElementId} {package : Element} (howner : table.ownerAfter? (n + 1) id = some owner)
    (hne : owner ≠ id) (hget : table.get? owner = some package) (hpackage : package.kind.isPackage)
    (htypes : ∀ k < n, ∃ between element, table.ownerAfter? (k + 1) id = some between ∧
      table.get? between = some element ∧ element.kind.isType)
    {j k : Nat} (hjk : j < k) (hk : k ≤ n + 1) :
    table.ownerAfter? j id ≠ table.ownerAfter? k id := by
  intro hsame
  -- Going on from the earlier of the two leads to the package sooner.
  have hsooner : table.ownerAfter? (j + (n + 1 - k)) id = some owner := by
    rw [ownerAfter?_add, hsame, ← ownerAfter?_add, Nat.add_sub_cancel' hk]
    exact howner
  rcases Nat.eq_zero_or_eq_succ_pred (j + (n + 1 - k)) with hzero | hsucc
  · rw [hzero] at hsooner
    exact hne (Option.some.inj hsooner).symm
  · rw [hsucc] at hsooner
    obtain ⟨between, element, hbetween, hfound, htype⟩ :=
      htypes (j + (n + 1 - k)).pred (by omega)
    obtain rfl := Option.some.inj (hsooner.symm.trans hbetween)
    obtain rfl := Option.some.inj (hget.symm.trans hfound)
    rw [ElementKind.isPackage_eq_false_of_isType htype] at hpackage
    cases hpackage

/-- The first verdict is a package exactly when there are types only up to a package other than the
start. -/
theorem IsClosed.firstVerdict_ok_iff (hclosed : table.IsClosed) {package : Element} :
    table.FirstVerdict id n (.ok package) ↔
      ∃ owner, table.ownerAfter? (n + 1) id = some owner ∧ owner ≠ id ∧
        table.get? owner = some package ∧ package.kind.isPackage ∧
        ∀ k < n, ∃ between element, table.ownerAfter? (k + 1) id = some between ∧
          table.get? between = some element ∧ element.kind.isType := by
  constructor
  · rintro ⟨hverdict, hbefore⟩
    obtain ⟨owner, hfirst, hget, hpackage⟩ := exists_firstAt_of_verdictAt?_eq_ok hverdict
    refine ⟨owner, hfirst.1, ?_, hget, hpackage, fun k hk => ?_⟩
    · rintro rfl
      exact hfirst.2 0 n.succ_pos rfl
    · exact hclosed.exists_type_of_verdictAt?_eq_none (hbefore k hk)
  · rintro ⟨owner, howner, hne, hget, hpackage, htypes⟩
    have hdistinct : ∀ j k, j < k → k ≤ n + 1 → table.ownerAfter? j id ≠ table.ownerAfter? k id :=
      fun _ _ => ownerAfter?_ne_of_types howner hne hget hpackage htypes
    constructor
    · have hfirst : table.FirstAt id (n + 1) owner :=
        ⟨howner, fun j hj hsame => hdistinct j _ hj (Nat.le_refl _) (hsame.trans howner.symm)⟩
      rw [verdictAt?_eq_of_firstAt hfirst hget, if_pos hpackage]
    · intro k hk
      obtain ⟨between, element, hbetween, hfound, htype⟩ := htypes k hk
      have hfirst : table.FirstAt id (k + 1) between :=
        ⟨hbetween, fun j hj hsame =>
          hdistinct j _ hj (Nat.succ_le_succ (Nat.le_of_lt hk)) (hsame.trans hbetween.symm)⟩
      rw [verdictAt?_eq_of_firstAt hfirst hfound,
        ElementKind.isPackage_eq_false_of_isType htype, if_neg Bool.false_ne_true, if_pos htype]

/-- A climb that has come `n` times up past types goes on to the first verdict from there.  The elements
visited are those met so far. -/
theorem IsChain.climb_eq_of_verdict
    {visited : List ElementId} {next : Option ElementId} {chain : EnclosingChain}
    (hchain : table.IsChain visited next chain) (hknown : ∀ other, chain.ending ≠ .unknown other)
    (hnext : table.ownerAfter? (n + 1) id = next)
    (hvisited : ∀ other, other ∈ visited ↔ ∃ k < n + 1, table.ownerAfter? k id = some other) :
    ∃ m verdict, n ≤ m ∧ table.verdictAt? id (m + 1) = some verdict ∧
      (∀ k, n ≤ k → k < m → table.verdictAt? id (k + 1) = none) ∧
      climb chain.ending (table.namesDownFrom id n) chain.links =
        match verdict with
        | .ok package => .ok (package.qualifiedName, table.namesDownFrom id m)
        | .error fault => .error (.inl fault) := by
  have hnothing : ∀ k, n ≤ k → k < n → table.verdictAt? id (k + 1) = none :=
    fun k hle hlt => absurd hlt (Nat.not_lt_of_le hle)
  induction hchain generalizing n with
  | top => exact ⟨n, _, Nat.le_refl n, verdictAt?_eq_of_none hnext, hnothing, rfl⟩
  | loop hid =>
      exact ⟨n, _, Nat.le_refl n, verdictAt?_eq_of_back hnext ((hvisited _).1 hid), hnothing, rfl⟩
  | unknown => exact absurd rfl (hknown _)
  | @link visited owner element rest hnew hget hrest ih =>
      have hfirst : table.FirstAt id (n + 1) owner :=
        ⟨hnext, fun k hk hsame => hnew ((hvisited _).2 ⟨k, hk, hsame⟩)⟩
      have hverdict := verdictAt?_eq_of_firstAt hfirst hget
      rw [climb]
      by_cases hpackage : element.kind.isPackage
      · rw [if_pos hpackage] at hverdict ⊢
        exact ⟨n, _, Nat.le_refl n, hverdict, hnothing, rfl⟩
      · rw [if_neg hpackage] at hverdict ⊢
        by_cases htype : element.kind.isType
        · rw [if_pos htype] at hverdict ⊢
          rw [← namesDownFrom_succ hnext hget]
          have hup : table.ownerAfter? (n + 1 + 1) id = element.enclosing := by
            rw [ownerAfter?_succ, hnext, Option.bind_some, hget, Option.bind_some]
          have hvisited' : ∀ other, other ∈ owner :: visited ↔
              ∃ k < n + 1 + 1, table.ownerAfter? k id = some other := by
            intro other
            rw [List.mem_cons, hvisited, Nat.exists_lt_succ_right (n := n + 1), hnext,
              Option.some.injEq, or_comm, eq_comm]
          obtain ⟨m, verdict, hle, hlast, hbefore, hclimb⟩ := ih hknown hup hvisited' (by omega)
          refine ⟨m, verdict, Nat.le_of_succ_le hle, hlast, fun k hk hlt => ?_, hclimb⟩
          rcases Nat.eq_or_lt_of_le hk with rfl | hk
          · exact hverdict
          · exact hbefore k hk hlt
        · rw [if_neg htype] at hverdict ⊢
          exact ⟨n, _, Nat.le_refl n, hverdict, hnothing, rfl⟩

end ElementTable

open ElementTable

/-- An identity or its fault is what the first verdict says. -/
theorem exists_firstVerdict_of_isClosed
    {table : ElementTable} (hclosed : table.IsClosed) {id : ElementId} {element : Element}
    (hget : table.get? id = some element) :
    ∃ n verdict, table.FirstVerdict id n verdict ∧
      resolveIdentity table id =
        match verdict with
        | .ok package =>
          .ok ⟨package.qualifiedName,
            ArtifactIdentity.separator.intercalate (table.namesDownFrom id n)⟩
        | .error fault => .error (.structural ⟨element.qualifiedName, fault⟩) := by
  have hknows := knowsChain_of_isClosed hclosed (Option.isSome_of_eq_some hget)
  obtain ⟨rest, hrest, hchain⟩ := enclosingChain_eq_of_get? hget
  have hending : ∀ other, rest.ending ≠ .unknown other := by
    intro other hother
    exact hknows other (by rw [hchain]; exact hother)
  have hup : table.ownerAfter? (0 + 1) id = element.enclosing := by
    rw [ownerAfter?_succ_of_get? hget]
    cases element.enclosing <;> rfl
  have hvisited : ∀ other, other ∈ [id] ↔ ∃ k < 0 + 1, table.ownerAfter? k id = some other := by
    intro other
    simp [ownerAfter?, eq_comm]
  obtain ⟨m, verdict, -, hlast, hbefore, hclimb⟩ :=
    hrest.climb_eq_of_verdict hending hup hvisited
  refine ⟨m, verdict, ⟨hlast, fun k => hbefore k (Nat.zero_le k)⟩, ?_⟩
  rw [namesDownFrom_zero hget] at hclimb
  rw [resolveIdentity, hget]
  dsimp only
  rw [hchain]
  dsimp only [List.tail_cons]
  rw [hclimb]
  cases verdict <;> rfl

/-- Whether an element of a closed table has an identity, and which, is decided by what is around it.  It
has one exactly when there are types only between it and a package other than itself: the name of that
package and the simple names from the outermost of the types down to the element.  Otherwise the first
verdict on the way up is a fault, and the answer is this fault with the element's qualified name. -/
theorem resolveIdentity_decides
    (table : ElementTable) (hclosed : table.IsClosed) (id : ElementId) (element : Element)
    (hget : table.get? id = some element) :
    (∀ identity, resolveIdentity table id = .ok identity ↔
      ∃ n owner package, table.ownerAfter? (n + 1) id = some owner ∧ owner ≠ id ∧
        table.get? owner = some package ∧ package.kind.isPackage ∧
        (∀ k < n, ∃ between type, table.ownerAfter? (k + 1) id = some between ∧
          table.get? between = some type ∧ type.kind.isType) ∧
        identity = ⟨package.qualifiedName,
          ArtifactIdentity.separator.intercalate (table.namesDownFrom id n)⟩) ∧
      ∀ error, resolveIdentity table id = .error error ↔
        ∃ n fault, table.FirstVerdict id n (.error fault) ∧
          error = .structural ⟨element.qualifiedName, fault⟩ := by
  obtain ⟨m, verdict, hfirst, hresolve⟩ := exists_firstVerdict_of_isClosed hclosed hget
  constructor
  · intro identity
    rw [hresolve]
    constructor
    · intro h
      cases verdict with
      | error fault => cases h
      | ok package =>
          obtain ⟨owner, howner, hne, hpackage, hkind, htypes⟩ := hclosed.firstVerdict_ok_iff.1 hfirst
          exact ⟨m, owner, package, howner, hne, hpackage, hkind, htypes, (Except.ok.inj h).symm⟩
    · rintro ⟨n, owner, package, howner, hne, hpackage, hkind, htypes, rfl⟩
      have hpackageFirst : table.FirstVerdict id n (.ok package) :=
        hclosed.firstVerdict_ok_iff.2 ⟨owner, howner, hne, hpackage, hkind, htypes⟩
      obtain ⟨rfl, rfl⟩ := hfirst.unique hpackageFirst
      rfl
  · intro error
    rw [hresolve]
    constructor
    · intro h
      cases verdict with
      | ok package => cases h
      | error fault => exact ⟨m, fault, hfirst, (Except.error.inj h).symm⟩
    · rintro ⟨n, fault, hfault, rfl⟩
      obtain ⟨rfl, rfl⟩ := hfirst.unique hfault
      rfl

/-- A table with a class in a class of a package, a class in a method of it, and two classes that are
written in each other. -/
def tangledTable : ElementTable :=
  ⟨#[⟨.package, "a", "a", none⟩, ⟨.classType, "A", "a.A", some ⟨0⟩⟩,
    ⟨.classType, "B", "a.A.B", some ⟨1⟩⟩, ⟨.method, "m", "a.A.m", some ⟨1⟩⟩,
    ⟨.classType, "L", "a.A.m.L", some ⟨3⟩⟩, ⟨.classType, "C", "D.C", some ⟨6⟩⟩,
    ⟨.classType, "D", "C.D", some ⟨5⟩⟩]⟩

/-- The class in a class has an identity; the class in the method and the two others have none, for
different reasons. -/
theorem resolveIdentity_decides_tangledTable :
    tangledTable.IsClosed ∧
      resolveIdentity tangledTable ⟨2⟩ = .ok ⟨"a", "A$B"⟩ ∧
      resolveIdentity tangledTable ⟨4⟩ = .error (.structural ⟨"a.A.m.L", .enclosedBy .method⟩) ∧
      resolveIdentity tangledTable ⟨5⟩ = .error (.structural ⟨"D.C", .loopsBack ⟨5⟩⟩) := by
  have hclosed : tangledTable.IsClosed := isClosed_of_forall_mem (by decide)
  refine ⟨hclosed, ?_, ?_, ?_⟩
  · apply ((resolveIdentity_decides tangledTable hclosed ⟨2⟩ _ rfl).1 _).2
    refine ⟨1, ⟨0⟩, _, rfl, by decide, rfl, rfl, ?_, by decide⟩
    intro k hk
    obtain rfl := Nat.lt_one_iff.1 hk
    exact ⟨⟨1⟩, _, rfl, rfl, rfl⟩
  · apply ((resolveIdentity_decides tangledTable hclosed ⟨4⟩ _ rfl).2 _).2
    exact ⟨0, .enclosedBy .method, ⟨by decide, by simp⟩, rfl⟩
  · apply ((resolveIdentity_decides tangledTable hclosed ⟨5⟩ _ rfl).2 _).2
    exact ⟨1, .loopsBack ⟨5⟩, ⟨by decide, by decide⟩, rfl⟩

/-- It does not suffice that there is a package: one that is written in itself reaches a package with
nothing between and has no identity. -/
theorem not_resolveIdentity_iff_package_above :
    ¬ ∀ (table : ElementTable) (id : ElementId) (element : Element), table.IsClosed →
      table.get? id = some element →
        ((∃ identity, resolveIdentity table id = .ok identity) ↔
          ∃ n owner package, table.ownerAfter? (n + 1) id = some owner ∧
            table.get? owner = some package ∧ package.kind.isPackage ∧
            ∀ k < n, ∃ between type, table.ownerAfter? (k + 1) id = some between ∧
              table.get? between = some type ∧ type.kind.isType) := by
  intro h
  have hclosed : (⟨#[⟨.package, "p", "p", some ⟨0⟩⟩]⟩ : ElementTable).IsClosed :=
    isClosed_of_forall_mem (by decide)
  obtain ⟨identity, hidentity⟩ := (h _ ⟨0⟩ _ hclosed rfl).2 ⟨0, ⟨0⟩, _, rfl, rfl, rfl, by simp⟩
  have hfault : resolveIdentity ⟨#[⟨.package, "p", "p", some ⟨0⟩⟩]⟩ ⟨0⟩ =
      .error (.structural ⟨"p", .loopsBack ⟨0⟩⟩) := by
    decide
  rw [hfault] at hidentity
  cases hidentity

end ComponentMarkers
