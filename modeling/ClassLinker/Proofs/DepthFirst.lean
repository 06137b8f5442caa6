import Mathlib.Data.Set.Insert
import Mathlib.Logic.Relation

set_option autoImplicit false

namespace ClassLinker.DepthFirst

variable {α : Type}

/-- The nodes of `agenda` are searched one after the other, and `found` lists the nodes that are entered, in the order
in which they are left. A node in `marked` is not entered. -/
inductive Search (next : α → List α) : List α → Set α → List α → Prop where
  | done (marked : Set α) : Search next [] marked []
  | skip {x : α} {rest : List α} {marked : Set α} {found : List α} (met : x ∈ marked)
      (later : Search next rest marked found) : Search next (x :: rest) marked found
  | enter {x : α} {rest : List α} {marked : Set α} {below found : List α} (unmet : x ∉ marked)
      (inner : Search next (next x) (insert x marked) below)
      (later : Search next rest (insert x marked ∪ {y | y ∈ below}) found) :
      Search next (x :: rest) marked (below ++ x :: found)

/-- A way from one node to another that does not leave a list of nodes. -/
def Linked (next : α → List α) (nodes : List α) : α → α → Prop :=
  Relation.ReflTransGen fun x y => x ∈ nodes ∧ y ∈ nodes ∧ y ∈ next x

theorem Linked.mono {next : α → List α} {nodes more : List α} (subset : nodes ⊆ more) {x y : α}
    (linked : Linked next nodes x y) : Linked next more x y :=
  Relation.ReflTransGen.mono (fun _ _ edge => ⟨subset edge.1, subset edge.2.1, edge.2.2⟩) x y linked

namespace Search

variable {next : α → List α} {agenda : List α} {marked : Set α} {found : List α}

theorem append {more : List α} {others : List α} (first : Search next agenda marked found)
    (second : Search next more (marked ∪ {y | y ∈ found}) others) :
    Search next (agenda ++ more) marked (found ++ others) := by
  induction first with
  | done marked => simpa using second
  | skip met _ ih => exact .skip met (ih second)
  | @enter x rest marked below found unmet inner _ _ ih =>
    have marks : marked ∪ {y | y ∈ below ++ x :: found} =
        insert x marked ∪ {y | y ∈ below} ∪ {y | y ∈ found} := by
      ext y
      simp only [List.mem_append, List.mem_cons, Set.mem_union, Set.mem_insert_iff, Set.mem_ofPred_eq]
      grind
    rw [marks] at second
    rw [List.append_assoc]
    exact .enter unmet inner (ih second)

theorem unmarked (search : Search next agenda marked found) {x : α} (member : x ∈ found) : x ∉ marked := by
  induction search with
  | done => cases member
  | skip _ _ ih => exact ih member
  | enter unmet _ _ ihInner ihLater =>
    intro met
    rcases List.mem_append.mp member with sooner | later
    next => exact ihInner sooner (.inr met)
    next =>
      rcases List.mem_cons.mp later with rfl | later
      next => exact unmet met
      next => exact ihLater later (.inl (.inr met))

theorem nodup (search : Search next agenda marked found) : found.Nodup := by
  induction search with
  | done => exact List.nodup_nil
  | skip _ _ ih => exact ih
  | @enter x rest marked below found _ inner later ihInner ihLater =>
    rw [List.nodup_append, List.nodup_cons]
    refine ⟨ihInner, ⟨?_, ihLater⟩, ?_⟩
    next =>
      intro again
      exact later.unmarked again (.inl (.inl rfl))
    next =>
      rintro y sooner _ member rfl
      rcases List.mem_cons.mp member with rfl | again
      next => exact inner.unmarked sooner (.inl rfl)
      next => exact later.unmarked again (.inr sooner)

theorem agenda_found (search : Search next agenda marked found) {x : α} (member : x ∈ agenda) :
    x ∈ marked ∨ x ∈ found := by
  induction search with
  | done => cases member
  | skip met _ ih =>
    rcases List.mem_cons.mp member with rfl | member
    next => exact .inl met
    next => exact ih member
  | enter _ _ _ _ ih =>
    rcases List.mem_cons.mp member with rfl | member
    next => exact .inr (by simp)
    next =>
      rcases ih member with ((rfl | old) | sooner) | later
      next => exact .inr (by simp)
      next => exact .inl old
      next => exact .inr (List.mem_append_left _ sooner)
      next => exact .inr (List.mem_append_right _ (List.mem_cons_of_mem _ later))

theorem next_found (search : Search next agenda marked found) {x y : α} (member : x ∈ found) (follows : y ∈ next x) :
    y ∈ marked ∨ y ∈ found := by
  induction search with
  | done => cases member
  | skip _ _ ih => exact ih member
  | @enter z rest marked below found _ inner _ ihInner ihLater =>
    -- what a search inside this one finds or has marked is found or marked here
    have inside (reached : y ∈ insert z marked ∨ y ∈ below) : y ∈ marked ∨ y ∈ below ++ z :: found := by
      rcases reached with (rfl | old) | sooner
      next => exact .inr (by simp)
      next => exact .inl old
      next => exact .inr (List.mem_append_left _ sooner)
    rcases List.mem_append.mp member with sooner | member
    next => exact inside (ihInner sooner)
    next =>
      rcases List.mem_cons.mp member with rfl | member
      next => exact inside (inner.agenda_found follows)
      next =>
        rcases ihLater member with old | later
        next => exact inside old
        next => exact .inr (List.mem_append_right _ (List.mem_cons_of_mem _ later))

theorem subset_of_closed (search : Search next agenda marked found) {nodes : Set α}
    (start : ∀ x ∈ agenda, x ∉ marked → x ∈ nodes)
    (closed : ∀ x ∈ nodes, ∀ y ∈ next x, y ∉ marked → y ∈ nodes) {x : α} (member : x ∈ found) : x ∈ nodes := by
  induction search with
  | done => cases member
  | skip _ _ ih => exact ih (fun x later => start x (List.mem_cons_of_mem _ later)) closed member
  | @enter z rest marked below found unmet _ _ ihInner ihLater =>
    have entered : z ∈ nodes := start z (List.mem_cons_self ..) unmet
    rcases List.mem_append.mp member with sooner | member
    next =>
      -- the inner search marks more, so that it asks for less
      apply ihInner _ _ sooner
      next => exact fun y follows fresh => closed z entered y follows fun met => fresh (.inr met)
      next => exact fun x inside y follows fresh => closed x inside y follows fun met => fresh (.inr met)
    next =>
      rcases List.mem_cons.mp member with rfl | later
      next => exact entered
      next =>
        apply ihLater _ _ later
        next => exact fun y more fresh => start y (List.mem_cons_of_mem _ more) fun met => fresh (.inl (.inr met))
        next => exact fun x inside y follows fresh => closed x inside y follows fun met => fresh (.inl (.inr met))

theorem subset_of_marked {more : Set α} {others : List α} (search : Search next agenda marked found)
    (other : Search next agenda more others) (subset : marked ⊆ more) : others ⊆ found := by
  intro x member
  -- what the first search found is closed, whatever else is marked
  change x ∈ {y | y ∈ found}
  refine other.subset_of_closed ?_ ?_ member
  next => exact fun y start fresh => (search.agenda_found start).resolve_left fun met => fresh (subset met)
  next =>
    exact fun y inside z follows fresh => (search.next_found inside follows).resolve_left fun met => fresh (subset met)

theorem linked (search : Search next agenda marked found) {x : α} (member : x ∈ found) :
    ∃ root ∈ agenda, root ∈ found ∧ Linked next found root x := by
  induction search with
  | done => cases member
  | skip _ _ ih =>
    obtain ⟨root, asked, inside, way⟩ := ih member
    exact ⟨root, List.mem_cons_of_mem _ asked, inside, way⟩
  | @enter z rest marked below found _ _ _ ihInner ihLater =>
    have sub : below ⊆ below ++ z :: found := List.subset_append_left ..
    have here : z ∈ below ++ z :: found := by simp
    rcases List.mem_append.mp member with sooner | member
    next =>
      obtain ⟨root, follows, inside, way⟩ := ihInner sooner
      exact ⟨z, List.mem_cons_self .., here, .head ⟨here, sub inside, follows⟩ (way.mono sub)⟩
    next =>
      rcases List.mem_cons.mp member with rfl | later
      next => exact ⟨x, List.mem_cons_self .., here, .refl⟩
      next =>
        obtain ⟨root, asked, inside, way⟩ := ihLater later
        have sub : found ⊆ below ++ z :: found := fun y inside => by simp [inside]
        exact ⟨root, List.mem_cons_of_mem _ asked, sub inside, way.mono sub⟩

theorem pair_sublist_append {xs ys : List α} {x y : α} (first : x ∈ xs) (second : y ∈ ys) :
    [x, y].Sublist (xs ++ ys) :=
  (List.singleton_sublist.mpr first).append (List.singleton_sublist.mpr second)

theorem before_or_linked (search : Search next agenda marked found) {x y : α} (member : x ∈ found)
    (follows : y ∈ next x) (listed : y ∈ found) : [y, x].Sublist found ∨ Linked next found y x := by
  induction search with
  | done => cases member
  | skip _ _ ih => exact ih member listed
  | @enter z rest marked below found _ inner later ihInner ihLater =>
    have sub : below ⊆ below ++ z :: found := List.subset_append_left ..
    -- what the inner search leads to is not left for later
    have notLater (reached : y ∈ insert z marked ∨ y ∈ below) : y ∉ found := fun member =>
      later.unmarked member reached
    rcases List.mem_append.mp member with sooner | member
    next =>
      rcases List.mem_append.mp listed with listedSooner | listed
      next =>
        rcases ihInner sooner listedSooner with before | way
        next => exact .inl (before.trans (List.sublist_append_left ..))
        next => exact .inr (way.mono sub)
      next =>
        rcases List.mem_cons.mp listed with rfl | listedLater
        next =>
          -- the node that is being left leads to all that was found below it
          obtain ⟨root, asked, inside, way⟩ := inner.linked sooner
          exact .inr (.head ⟨by simp, sub inside, asked⟩ (way.mono sub))
        next => exact absurd listedLater (notLater (inner.next_found sooner follows))
    next =>
      rcases List.mem_cons.mp member with rfl | memberLater
      next =>
        rcases List.mem_append.mp listed with listedSooner | listed
        next => exact .inl (pair_sublist_append listedSooner (List.mem_cons_self ..))
        next =>
          rcases List.mem_cons.mp listed with rfl | listedLater
          next => exact .inr .refl
          next => exact absurd listedLater (notLater (inner.agenda_found follows))
      next =>
        rcases List.mem_append.mp listed with listedSooner | listed
        next => exact .inl (pair_sublist_append listedSooner (List.mem_cons_of_mem _ memberLater))
        next =>
          rcases List.mem_cons.mp listed with rfl | listedLater
          next =>
            exact .inl (((List.singleton_sublist.mpr memberLater).cons_cons y).trans (List.sublist_append_right ..))
          next =>
            rcases ihLater memberLater listedLater with before | way
            next => exact .inl ((before.cons z).trans (List.sublist_append_right ..))
            next => exact .inr (way.mono fun w inside => by simp [inside])

end Search

end ClassLinker.DepthFirst
