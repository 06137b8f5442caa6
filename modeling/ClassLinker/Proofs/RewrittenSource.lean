import ClassLinker.Proofs.Rewriting
import Mathlib.Data.List.Nodup

set_option autoImplicit false

namespace ClassLinker.ParentCall

open Script (Node Tree)
open Text (isBoundary slice takeBytes dropBytes)

def overridingMethods (t : Tree) (c : ClassDefinition) : List (Parent × Method) :=
  (Parent.ofDescriptor? c.descriptor).toList.flatMap fun parent =>
    (methodsIn t .prototype c.config.children).map (parent, ·)

def bodyEdit (t : Tree) (entry : Parent × Method) : Edit :=
  ⟨entry.2.body.start, entry.2.body.stop, rewritten t entry.1 entry.2 entry.2.body⟩

section
variable {t : Tree} {c : ClassDefinition} {parent : Parent}

theorem overridingMethods_none (orphan : Parent.ofDescriptor? c.descriptor = none) : overridingMethods t c = [] := by
  rw [overridingMethods, orphan]
  rfl

theorem overridingMethods_some (has : Parent.ofDescriptor? c.descriptor = some parent) :
    overridingMethods t c = (methodsIn t .prototype c.config.children).map (parent, ·) := by
  rw [overridingMethods, has, Option.toList_some, List.flatMap_singleton]

theorem bodies_overridingMethods (t : Tree) (c : ClassDefinition) :
    (overridingMethods t c).map (·.2) = [] ∨
      (overridingMethods t c).map (·.2) = methodsIn t .prototype c.config.children := by
  cases has : Parent.ofDescriptor? c.descriptor with
  | none => exact .inl (by rw [overridingMethods_none has]; rfl)
  | some parent => exact .inr (by rw [overridingMethods_some has, List.map_map]; exact List.map_id _)

end

theorem inOrder_bodyEdits {t : Tree} {lo hi : Nat} {entries : List (Parent × Method)}
    (placed : Node.placedIn lo hi (entries.map (·.2.body)) = true) (le : lo ≤ hi) :
    InOrder lo (entries.map (bodyEdit t)) hi := by
  induction entries generalizing lo with
  | nil => exact le
  | cons entry rest ih =>
    obtain ⟨first, others⟩ := Node.placedIn_cons.1 placed
    have bounds := Node.placed_iff.1 first
    exact ⟨bounds.1, bounds.2.1, ih others bounds.2.2.1⟩

section
variable {t : Tree} {parent : Parent}

theorem renders_methods {lo hi fuel : Nat} {methods : List Method} {first : List Site}
    (fits : ∀ m ∈ methods, Fits t m.body) (placed : Node.placedIn lo hi (methods.map (·.body)) = true) (le : lo ≤ hi)
    (before : ∀ s ∈ first, s.start < lo) (enough : (methods.flatMap fun m => Site.inOrder t m m.body).length ≤ fuel) :
    ∀ m ∈ methods, ∀ s ∈ Site.inOrder t m m.body,
      renderSite? t.source parent (first ++ methods.flatMap fun m => Site.inOrder t m m.body) fuel s =
        some (rewritten t parent m s.node) := by
  induction methods generalizing lo first with
  | nil => simp
  | cons m rest ih =>
    obtain ⟨here, others⟩ := Node.placedIn_cons.1 placed
    have bounds := Node.placed_iff.1 here
    have own := fits m List.mem_cons_self
    have fits' : ∀ x ∈ rest, Fits t x.body := fun x member => fits x (List.mem_cons_of_mem m member)
    have order := ordered_methods fits' others bounds.2.2.1
    rw [List.flatMap_cons, List.length_append] at enough
    intro m' member s found
    rcases List.mem_cons.1 member with rfl | member
    -- the sites of the methods before have moved to `first`, those of the methods after follow
    · have around : Around first (rest.flatMap fun m => Site.inOrder t m m.body) m'.body := by
        refine ⟨fun x among => .inl (Nat.lt_of_lt_of_le (before x among) bounds.1), fun x among => ?_⟩
        exact ⟨(order.inside x among).1, (order.inside x among).2.1⟩
      rw [List.flatMap_cons, ← List.append_assoc]
      exact renders own around (Nat.le_trans (Nat.le_add_right _ _) enough) s found
    · have before' : ∀ x ∈ first ++ Site.inOrder t m m.body, x.start < m.body.stop := by
        intro x among
        rcases List.mem_append.1 among with among | among
        · exact Nat.lt_of_lt_of_le (before x among) (Nat.le_trans bounds.1 bounds.2.1)
        · have inside := (Site.ordered_inOrder m own).inside x among
          omega
      rw [List.flatMap_cons, ← List.append_assoc]
      exact ih fits' others bounds.2.2.1 before' (Nat.le_trans (Nat.le_add_left _ _) enough) m' member s found

theorem rendered_class (parent : Parent) {c : ClassDefinition} (fits : Fits t c.config) {m : Method}
    (method : m ∈ methodsIn t .prototype c.config.children) {s : Site} (site : s ∈ Site.inOrder t m m.body) :
    renderSite? t.source parent (sortedSites t c) (sortedSites t c).length s = some (rewritten t parent m s.node) := by
  have bodies := bodiesIn_config t c
  rw [sortedSites_eq fits]
  have each : ∀ x ∈ methodsIn t .prototype c.config.children, Fits t x.body :=
    fun x member => fits.of_part (bodies.parts x member)
  have alone : ∀ s ∈ ([] : List Site), s.start < c.config.start := by simp
  exact renders_methods each (bodies.placed fits.placed) fits.width alone (Nat.le_refl _) m method s site

theorem outermostEdits?_eq {render : Site → List Char} {render? : Site → Option (List Char)} {sites : List Site}
    (each : ∀ s ∈ sites, render? s = some (render s)) (cursor : Nat) :
    outermostEdits? render? cursor sites = some (outermostEdits render cursor sites) := by
  induction sites generalizing cursor with
  | nil => rfl
  | cons s rest ih =>
    have others := ih fun x member => each x (List.mem_cons_of_mem s member)
    rw [outermostEdits?, outermostEdits]
    split
    next => exact others cursor
    next => simp [each s List.mem_cons_self, others s.stop]

end

section
variable {source : List Char}

theorem dropBytes_earlier {cursor mid : Nat} (le : cursor ≤ mid) (boundary : isBoundary source cursor = true) :
    dropBytes cursor source = slice source cursor mid ++ dropBytes mid source := by
  have whole : takeBytes cursor source ++ dropBytes cursor source =
      takeBytes cursor source ++ (slice source cursor mid ++ dropBytes mid source) := by
    rw [← List.append_assoc, Text.takeBytes_append_slice le boundary, Text.takeBytes_append_dropBytes,
      Text.takeBytes_append_dropBytes]
  exact List.append_cancel_left whole

theorem woven_earlier {cursor mid : Nat} {edits : List Edit} (le : cursor ≤ mid)
    (boundary : isBoundary source cursor = true) (boundary' : isBoundary source mid = true)
    (after : ∀ e ∈ edits, mid ≤ e.start) :
    woven source cursor edits = slice source cursor mid ++ woven source mid edits := by
  cases edits with
  | nil => exact dropBytes_earlier le boundary
  | cons e rest =>
    rw [woven, woven, ← Text.slice_append le (after e List.mem_cons_self) boundary boundary']
    simp

theorem woven_outermostEdits {render : Site → List Char} {sites : List Site} {cursor hi : Nat} (le : cursor ≤ hi)
    (boundary : isBoundary source cursor = true) (boundary' : isBoundary source hi = true)
    (inside : ∀ s ∈ sites, s.stop ≤ hi ∧ isBoundary source s.stop = true) {edits : List Edit}
    (after : ∀ e ∈ edits, hi ≤ e.start) :
    woven source cursor (outermostEdits render cursor sites ++ edits) =
      spanText source render hi cursor sites ++ woven source hi edits := by
  induction sites generalizing cursor with
  | nil => exact woven_earlier le boundary boundary' after
  | cons s rest ih =>
    have first := inside s List.mem_cons_self
    have inside' : ∀ x ∈ rest, x.stop ≤ hi ∧ isBoundary source x.stop = true :=
      fun x member => inside x (List.mem_cons_of_mem s member)
    rw [outermostEdits, spanText]
    by_cases early : s.start < cursor
    · simp only [early, Nat.not_le.2 early, decide_false, Bool.false_and, Bool.false_eq_true, if_true, if_false]
      exact ih le boundary inside'
    · simp only [early, Nat.le_of_not_lt early, first.1, decide_true, Bool.and_self, if_true, if_false,
        List.cons_append, woven, ih first.1 first.2 inside', List.append_assoc]

theorem outermostEdits_earlier {render : Site → List Char} {sites : List Site} {cursor : Nat}
    (after : ∀ s ∈ sites, cursor ≤ s.start) :
    outermostEdits render 0 sites = outermostEdits render cursor sites := by
  cases sites with
  | nil => rfl
  | cons s rest =>
    rw [outermostEdits, outermostEdits, if_neg (Nat.not_lt_zero _), if_neg (Nat.not_lt.2 (after s List.mem_cons_self))]

end

section
variable {t : Tree} {parent : Parent}

theorem scans_methods {render : Site → Option (List Char)} {lo hi cursor : Nat} {methods : List Method}
    (fits : ∀ m ∈ methods, Fits t m.body) (placed : Node.placedIn lo hi (methods.map (·.body)) = true)
    (rendered : ∀ m ∈ methods, ∀ s ∈ Site.inOrder t m m.body, render s = some (rewritten t parent m s.node))
    (le : cursor ≤ lo) (le' : lo ≤ hi) (boundary : isBoundary t.source cursor = true)
    (boundary' : isBoundary t.source hi = true) :
    ∃ text, spanText? t.source render hi cursor (methods.flatMap fun m => Site.inOrder t m m.body) = some text ∧
      ∀ {edits : List Edit}, (∀ e ∈ edits, hi ≤ e.start) →
        woven t.source cursor (methods.map (fun m => bodyEdit t (parent, m)) ++ edits) =
          text ++ woven t.source hi edits := by
  -- A scan of the sites of methods that follow each other replaces the bodies by their texts.
  induction methods generalizing lo cursor with
  | nil =>
    refine ⟨slice t.source cursor hi, Text.slice?_eq (Nat.le_trans le le') boundary boundary', fun after => ?_⟩
    exact woven_earlier (Nat.le_trans le le') boundary boundary' after
  | cons m rest ih =>
    obtain ⟨here, others⟩ := Node.placedIn_cons.1 placed
    have bounds := Node.placed_iff.1 here
    have own := fits m List.mem_cons_self
    have fits' : ∀ x ∈ rest, Fits t x.body := fun x member => fits x (List.mem_cons_of_mem m member)
    obtain ⟨text, scanned, replaced⟩ := ih fits' others (fun x member => rendered x (List.mem_cons_of_mem m member))
      (Nat.le_refl m.body.stop) bounds.2.2.1 own.boundary.2
    refine ⟨slice t.source cursor m.body.start ++ rewritten t parent m m.body ++ text, ?_, fun after => ?_⟩
    · have order := ordered_methods fits' others bounds.2.2.1
      exact scans own (rendered m List.mem_cons_self) (Nat.le_trans le bounds.1) boundary bounds.2.2.1
        (fun s member => (order.inside s member).1) scanned
    · rw [List.map_cons, List.cons_append, woven, bodyEdit, replaced after]
      simp

theorem woven_class {c : ClassDefinition} (file : String) (fits : Fits t c.config) {cursor : Nat}
    (le : cursor ≤ c.config.start) (boundary : isBoundary t.source cursor = true) :
    ∃ text, ∀ {edits : List Edit}, (∀ e ∈ edits, c.config.stop ≤ e.start) →
      woven t.source cursor ((classEdits t file c).edits ++ edits) = text ++ woven t.source c.config.stop edits ∧
      woven t.source cursor ((overridingMethods t c).map (bodyEdit t) ++ edits) =
        text ++ woven t.source c.config.stop edits := by
  cases has : Parent.ofDescriptor? c.descriptor with
  | none =>
    refine ⟨slice t.source cursor c.config.stop, fun after => ?_⟩
    rw [classEdits_none has, overridingMethods_none has]
    have kept := woven_earlier (Nat.le_trans le fits.width) boundary fits.boundary.2 after
    exact ⟨kept, kept⟩
  | some parent =>
    have bodies := bodiesIn_config t c
    have fits' : ∀ m ∈ methodsIn t .prototype c.config.children, Fits t m.body :=
      fun m member => fits.of_part (bodies.parts m member)
    have order := ordered_methods fits' (bodies.placed fits.placed) fits.width
    obtain ⟨text, scanned, replaced⟩ := scans_methods fits' (bodies.placed fits.placed)
      (fun m method s site => rendered_class parent fits method site) le fits.width boundary fits.boundary.2
    -- the same scan gives the text for the edits at the sites and for those of whole bodies
    refine ⟨text, fun after => ⟨?_, ?_⟩⟩
    · have inside : ∀ s ∈ sortedSites t c, cursor ≤ s.start ∧ s.stop ≤ c.config.stop ∧
          isBoundary t.source s.stop = true := by
        rw [sortedSites_eq fits]
        intro s member
        have bounds := order.inside s member
        obtain ⟨m, method, site⟩ := List.mem_flatMap.1 member
        have own := (fits' m method).of_part (Site.mem_inOrder.1 site).1
        exact ⟨Nat.le_trans le bounds.1, bounds.2.2, own.boundary.2⟩
      rw [classEdits_some has, outermostEdits_earlier fun s member => (inside s member).1,
        woven_outermostEdits (Nat.le_trans le fits.width) boundary fits.boundary.2
          (fun s member => (inside s member).2) after]
      congr 1
      rw [← sortedSites_eq fits] at scanned
      exact spanText_of_checked (fun _ _ rendered => renderSite_of_checked rendered) scanned
    · rw [overridingMethods_some has, List.map_map]
      exact replaced after

end

section
variable {t : Tree} {lo hi : Nat} {classes : List ClassDefinition} (fits : ∀ c ∈ classes, Fits t c.config)
  (placed : Node.placedIn lo hi (classes.map (·.config)) = true) (le : lo ≤ hi)

include placed le in
theorem placedIn_overridingMethods :
    Node.placedIn lo hi ((classes.flatMap (overridingMethods t)).map (·.2.body)) = true := by
  induction classes generalizing lo with
  | nil => rfl
  | cons c rest ih =>
    obtain ⟨first, others⟩ := Node.placedIn_cons.1 placed
    have bounds := Node.placed_iff.1 first
    have own : Node.placedIn lo c.config.stop ((overridingMethods t c).map (·.2.body)) = true := by
      have apart : (overridingMethods t c).map (·.2.body) = ((overridingMethods t c).map (·.2)).map (·.body) := by
        rw [List.map_map]
        rfl
      rw [apart]
      rcases bodies_overridingMethods t c with none | all
      · rw [none]
        rfl
      · rw [all]
        exact (bodiesIn_config t c).placed (Node.placed_to_stop first)
    rw [List.flatMap_cons, List.map_append]
    exact Node.placedIn_append own (ih others bounds.2.2.1) bounds.2.2.1 (Nat.le_trans bounds.1 bounds.2.1)

include fits placed le in
theorem woven_gatheredEdits (file : String) {cursor : Nat} (low : cursor ≤ lo)
    (boundary : isBoundary t.source cursor = true) :
    woven t.source cursor (gatheredEdits t file classes) =
      woven t.source cursor ((classes.flatMap (overridingMethods t)).map (bodyEdit t)) := by
  induction classes generalizing lo cursor with
  | nil => rfl
  | cons c rest ih =>
    obtain ⟨first, others⟩ := Node.placedIn_cons.1 placed
    have bounds := Node.placed_iff.1 first
    have own := fits c List.mem_cons_self
    have later := ih (fun x member => fits x (List.mem_cons_of_mem c member)) others bounds.2.2.1
      (Nat.le_refl c.config.stop) own.boundary.2
    -- what follows the class starts after it, in both lists
    have after : ∀ e ∈ gatheredEdits t file rest, c.config.stop ≤ e.start :=
      (inOrder_gatheredEdits others bounds.2.2.1 file).le_start
    have after' : ∀ e ∈ (rest.flatMap (overridingMethods t)).map (bodyEdit t), c.config.stop ≤ e.start :=
      (inOrder_bodyEdits (placedIn_overridingMethods others bounds.2.2.1) bounds.2.2.1).le_start
    obtain ⟨text, both⟩ := woven_class file own (Nat.le_trans low bounds.1) boundary
    calc woven t.source cursor (gatheredEdits t file (c :: rest))
        = text ++ woven t.source c.config.stop (gatheredEdits t file rest) := by
          rw [gatheredEdits, List.flatMap_cons]
          exact (both after).1
      _ = text ++ woven t.source c.config.stop ((rest.flatMap (overridingMethods t)).map (bodyEdit t)) := by rw [later]
      _ = woven t.source cursor (((c :: rest).flatMap (overridingMethods t)).map (bodyEdit t)) := by
          rw [List.flatMap_cons, List.map_append]
          exact (both after').2.symm

end

theorem fits_root {source : List Char} {t : Tree} (read : Tree.ofSource? source = some t) : Fits t t.root where
  placed := by
    have bounds := Node.placed_iff.1 t.placed
    exact Node.placed_iff.2 ⟨Nat.le_refl _, bounds.2.1, Nat.le_refl _, bounds.2.2.2⟩
  bounded := t.bounded
  shaped := Script.shaped_readProgram (Tree.ofSource?_eq read).2

section
variable {t : Tree} {c : ClassDefinition} (fits : Fits t c.config)
include fits

theorem fits_method {entry : Parent × Method} (member : entry ∈ overridingMethods t c) : Fits t entry.2.body := by
  rcases bodies_overridingMethods t c with none | all
  · rw [List.map_eq_nil_iff.1 none] at member
    cases member
  · have method : entry.2 ∈ methodsIn t .prototype c.config.children := all ▸ List.mem_map_of_mem member
    exact fits.of_part ((bodiesIn_config t c).parts entry.2 method)

theorem covered_class (file : String) {entry : Parent × Method} (member : entry ∈ overridingMethods t c) {s : Site}
    (site : s ∈ Site.inOrder t entry.2 entry.2.body) :
    ∃ e ∈ (classEdits t file c).edits, e.start ≤ s.start ∧ s.stop ≤ e.stop := by
  cases has : Parent.ofDescriptor? c.descriptor with
  | none =>
    rw [overridingMethods_none has] at member
    cases member
  | some parent =>
    rw [overridingMethods_some has] at member
    obtain ⟨m, method, rfl⟩ := List.mem_map.1 member
    have sorted : s ∈ sortedSites t c := by
      rw [sortedSites_eq fits]
      exact List.mem_flatMap.2 ⟨m, method, site⟩
    obtain ⟨e, found, inside⟩ := (outermostEdits_sorted t c _ fits.placed fits.width).2 s sorted
    rw [classEdits_some has]
    exact ⟨e, found, inside.1, inside.2.2⟩

theorem mem_classEdits_text {file : String} {e : Edit} (member : e ∈ (classEdits t file c).edits) :
    ∃ entry ∈ overridingMethods t c, ∃ s ∈ Site.inOrder t entry.2 entry.2.body,
      e = ⟨s.start, s.stop, rewritten t entry.1 entry.2 s.node⟩ := by
  obtain ⟨parent, has, s, site, rfl⟩ := mem_classEdits member
  rw [sortedSites_eq fits] at site
  obtain ⟨m, method, site⟩ := List.mem_flatMap.1 site
  refine ⟨(parent, m), ?_, s, site, ?_⟩
  · rw [overridingMethods_some has]
    exact List.mem_map_of_mem method
  · rw [editAt, renderSite_of_checked (rendered_class parent fits method site)]

theorem classEdits?_eq (file : String) : classEdits? t c = some (classEdits t file c).edits := by
  cases has : Parent.ofDescriptor? c.descriptor with
  | none => rw [classEdits?, has, classEdits_none has]
  | some parent =>
    rw [classEdits?, has, classEdits_some has]
    refine outermostEdits?_eq (fun s site => ?_) 0
    rw [sortedSites_eq fits] at site
    obtain ⟨m, method, site⟩ := List.mem_flatMap.1 site
    have rendered := rendered_class parent fits method site
    rw [rendered, editAt, renderSite_of_checked rendered]

theorem replaced_classEdits (file : String) :
    (classEdits t file c).replaced =
      ((overridingMethods t c).flatMap fun entry => replacedIn t entry.2.body).length := by
  cases has : Parent.ofDescriptor? c.descriptor with
  | none => simp [classEdits, has, overridingMethods_none has]
  | some parent =>
    have count : (classEdits t file c).replaced = (sortedSites t c).length := by simp [classEdits, has, sortedSites]
    rw [count, sortedSites_eq fits, overridingMethods_some has, List.flatMap_map, List.length_flatMap,
      List.length_flatMap]
    congr 1
    refine List.map_congr_left fun m method => ?_
    rw [replacedIn_eq m (fits.of_part ((bodiesIn_config t c).parts m method)), List.length_map]

end

theorem mem_replacedIn {t : Tree} {n body : Node} (fits : Fits t body) (m : Method) :
    n ∈ replacedIn t body ↔ body.Part n ∧ isSite t n = true := by
  rw [replacedIn_eq m fits, List.mem_map]
  constructor
  · rintro ⟨s, member, rfl⟩
    obtain ⟨part, found⟩ := Site.mem_inOrder.1 member
    exact ⟨part, by rw [isSite_eq t m, found, Option.isSome_some]⟩
  · rintro ⟨part, site⟩
    rw [isSite_eq t m] at site
    obtain ⟨s, found⟩ := Option.isSome_iff_exists.1 site
    have node := Site.ofNode?_node found
    exact ⟨s, Site.mem_inOrder.2 (by rw [node]; exact ⟨part, found⟩), node⟩

/-- Classes of a source in any order, and the same classes as they follow each other in it. -/
structure Extracted (t : Tree) (classes ordered : List ClassDefinition) : Prop where
  same : classes.Perm ordered
  fits : ∀ c ∈ ordered, Fits t c.config
  placed : Node.placedIn 0 (Text.byteSize t.source) (ordered.map (·.config)) = true

theorem extracted_of_sublist {source : List Char} {t : Tree} (read : Tree.ofSource? source = some t)
    {systems : List String} {file : String} {classes ordered : List ClassDefinition} (same : classes.Perm ordered)
    (part : ordered.Sublist (ClassDefinition.all t systems file)) : Extracted t classes ordered where
  same := same
  fits := fun c member => (fits_root read).of_part (part_config_of_mem (part.subset member))
  placed := by
    have bounds := Node.placed_iff.1 t.placed
    have all := placedIn_configs t systems file bounds.2.2.2
    rw [← all_eq_filterMap] at all
    exact Node.placedIn_widen (Node.placedIn_sublist all (part.map _)) bounds.1 bounds.2.2.1

namespace Extracted

variable {t : Tree} {classes ordered : List ClassDefinition} (extracted : Extracted t classes ordered)
include extracted

theorem inOrder (file : String) : InOrder 0 (gatheredEdits t file ordered) (Text.byteSize t.source) :=
  inOrder_gatheredEdits extracted.placed (Nat.zero_le _) file

theorem fits_method {entry : Parent × Method} (member : entry ∈ ordered.flatMap (overridingMethods t)) :
    Fits t entry.2.body := by
  obtain ⟨c, among, method⟩ := List.mem_flatMap.1 member
  exact ParentCall.fits_method (extracted.fits c among) method

theorem mem_edits {file : String} {e : Edit} (member : e ∈ gatheredEdits t file ordered) :
    ∃ entry ∈ ordered.flatMap (overridingMethods t), ∃ n ∈ replacedIn t entry.2.body,
      e = ⟨n.start, n.stop, rewritten t entry.1 entry.2 n⟩ := by
  obtain ⟨c, among, inClass⟩ := List.mem_flatMap.1 member
  obtain ⟨entry, method, s, site, rfl⟩ := mem_classEdits_text (extracted.fits c among) inClass
  refine ⟨entry, List.mem_flatMap.2 ⟨c, among, method⟩, s.node, ?_, rfl⟩
  rw [replacedIn_eq entry.2 (ParentCall.fits_method (extracted.fits c among) method)]
  exact List.mem_map_of_mem site

theorem room {file : String} {e : Edit} (member : e ∈ gatheredEdits t file ordered) : e.start < e.stop := by
  obtain ⟨c, among, inClass⟩ := List.mem_flatMap.1 member
  obtain ⟨entry, method, s, site, rfl⟩ := mem_classEdits_text (extracted.fits c among) inClass
  have fits := ParentCall.fits_method (extracted.fits c among) method
  exact ((Site.ordered_inOrder entry.2 fits).inside s site).2.1

theorem allEdits_eq (file : String) : allEdits t file classes = gatheredEdits t file ordered := by
  have order := (extracted.inOrder file).pairwise
  have starts : ((gatheredEdits t file ordered).map (·.start)).Nodup := by
    rw [List.Nodup, List.pairwise_map]
    refine order.imp_of_mem fun {a b} left _ both => ?_
    exact Nat.ne_of_lt (both.2 (extracted.room left))
  have perm : (allEdits t file classes).Perm (gatheredEdits t file ordered) :=
    (List.mergeSort_perm _ _).trans (extracted.same.flatMap_right _)
  have sorted : (allEdits t file classes).Pairwise fun a b => a.start ≤ b.start :=
    (List.pairwise_mergeSort Edit.before_trans Edit.before_total _).imp of_decide_eq_true
  -- two edits never start at the same place, so there is only one sorted order
  refine perm.eq_of_pairwise (fun a b left right ab ba => ?_) sorted (order.imp And.left)
  exact List.inj_on_of_nodup_map starts (perm.mem_iff.1 left) right (Nat.le_antisymm ab ba)

theorem placed_edits (file : String) : ∀ e ∈ gatheredEdits t file ordered, e.Placed t.source := by
  intro e member
  obtain ⟨entry, among, n, site, rfl⟩ := extracted.mem_edits member
  have fits := extracted.fits_method among
  exact (fits.of_part ((mem_replacedIn fits entry.2).1 site).1).boundary

theorem covered (file : String) {entry : Parent × Method} (among : entry ∈ ordered.flatMap (overridingMethods t))
    {n : Node} (member : n ∈ replacedIn t entry.2.body) :
    ∃ e ∈ gatheredEdits t file ordered, e.start ≤ n.start ∧ n.stop ≤ e.stop := by
  obtain ⟨c, isClass, method⟩ := List.mem_flatMap.1 among
  rw [replacedIn_eq entry.2 (extracted.fits_method among)] at member
  obtain ⟨s, site, rfl⟩ := List.mem_map.1 member
  obtain ⟨e, inClass, inside⟩ := covered_class (extracted.fits c isClass) file method site
  exact ⟨e, List.mem_flatMap.2 ⟨c, isClass, inClass⟩, inside⟩

theorem applyEdits_eq (file : String) :
    applyEdits (gatheredEdits t file ordered) t.source = woven t.source 0 (gatheredEdits t file ordered) := by
  rw [applyEdits_eq_woven (extracted.inOrder file) (Text.isBoundary_zero _) (extracted.placed_edits file),
    Text.takeBytes_zero, List.nil_append]

theorem substitute?_eq (file : String) : substitute? t classes = some (substitute t file classes).code.toList := by
  have each : classes.mapM (classEdits? t) = some (classes.map fun c => (classEdits t file c).edits) :=
    mapM_of_forall fun c member =>
      classEdits?_eq (extracted.fits c (extracted.same.mem_iff.1 member)) file
  have sorted : ((classes.map fun c => (classEdits t file c).edits).flatten).mergeSort Edit.before =
      gatheredEdits t file ordered := by
    rw [← List.flatMap_def]
    exact extracted.allEdits_eq file
  rw [substitute?, each, code_substitute, String.toList_ofList, extracted.allEdits_eq file]
  simp only [Option.bind_eq_bind, Option.bind_some, sorted]
  exact applyEdits?_eq (extracted.inOrder file) (extracted.placed_edits file)

theorem replaced_eq (file : String) :
    (substitute t file classes).replaced =
      ((ordered.flatMap (overridingMethods t)).flatMap fun entry => replacedIn t entry.2.body).length := by
  have sum : (substitute t file classes).replaced = (classes.map fun c => (classEdits t file c).replaced).sum := by
    rw [List.sum_eq_foldl, List.foldl_map, substitute, List.foldl_map]
  rw [sum, (extracted.same.map _).sum_nat, List.flatMap_assoc, List.length_flatMap]
  exact congrArg List.sum (List.map_congr_left fun c member => replaced_classEdits (extracted.fits c member) file)

theorem nodup_sites :
    ((ordered.flatMap (overridingMethods t)).flatMap fun entry => replacedIn t entry.2.body).Nodup := by
  have bodies := placedIn_overridingMethods (t := t) extracted.placed (Nat.zero_le _)
  have fits : ∀ m ∈ (ordered.flatMap (overridingMethods t)).map (·.2), Fits t m.body := by
    intro m member
    obtain ⟨entry, among, rfl⟩ := List.mem_map.1 member
    exact extracted.fits_method among
  -- the methods of all classes together are one list of methods in order
  have order := ordered_methods fits (by rw [List.map_map]; exact bodies) (Nat.zero_le _)
  have nodes : ((ordered.flatMap (overridingMethods t)).flatMap fun entry => replacedIn t entry.2.body) =
      (((ordered.flatMap (overridingMethods t)).map (·.2)).flatMap fun m => Site.inOrder t m m.body).map (·.node) := by
    rw [List.flatMap_map, List.map_flatMap]
    exact List.flatMap_congr fun entry among => replacedIn_eq entry.2 (extracted.fits_method among)
  rw [nodes]
  exact order.nodup

end Extracted

/-- Substitution is a recursion on the tree. Each method of a class with a parent is replaced by its rewritten text,
that is, each outermost site in it by the call with the rewritten texts of its parts, and all else is kept. All cuts
on the way, those for the texts of nodes too, are at boundaries inside the text, and the bound on the nesting is never
reached. The sites replaced are those below the methods, each once. The classes may be given in any order. -/
theorem substitution_follows_tree {source : List Char} {t : Tree} (read : Tree.ofSource? source = some t)
    (systems : List String) (file : String) {classes ordered : List ClassDefinition} (same : classes.Perm ordered)
    (part : ordered.Sublist (ClassDefinition.all t systems file)) :
    let result := substitute t file classes
    let methods := ordered.flatMap (overridingMethods t)
    let edits := allEdits t file classes
    let sites := methods.flatMap fun entry => replacedIn t entry.2.body
    substitute? t classes = some result.code.toList ∧
      (∀ n, t.root.Part n → Text.slice? source n.start n.stop = some (t.text n).toList) ∧
      (result.code = String.ofList (woven source 0 (methods.map (bodyEdit t))) ∧
        InOrder 0 (methods.map (bodyEdit t)) (Text.byteSize source)) ∧
      (result.code = String.ofList (woven source 0 edits) ∧ InOrder 0 edits (Text.byteSize source) ∧
        (∀ e ∈ edits, ∃ entry ∈ methods, ∃ n ∈ replacedIn t entry.2.body,
          e = ⟨n.start, n.stop, rewritten t entry.1 entry.2 n⟩) ∧
        ∀ n ∈ sites, ∃ e ∈ edits, e.start ≤ n.start ∧ n.stop ≤ e.stop) ∧
      (∀ c ∈ classes, Parent.ofDescriptor? c.descriptor = none → (classEdits t file c).edits = []) ∧
      result.replaced = sites.length ∧ sites.Nodup ∧
      ∀ n, n ∈ sites ↔ ∃ entry ∈ methods, entry.2.body.Part n ∧ isSite t n = true := by
  intro result methods edits sites
  have extracted := extracted_of_sublist read same part
  have root := fits_root read
  obtain ⟨rfl, -⟩ := Tree.ofSource?_eq read
  have texts : ∀ n, t.root.Part n → Text.slice? t.source n.start n.stop = some (t.text n).toList := by
    intro n below
    have fits := root.of_part below
    rw [Text.slice?_eq fits.width fits.boundary.1 fits.boundary.2, Tree.text, String.toList_ofList]
  have sorted : edits = gatheredEdits t file ordered := extracted.allEdits_eq file
  have code : result.code = String.ofList (woven t.source 0 edits) := by
    rw [sorted, ← extracted.applyEdits_eq file, ← extracted.allEdits_eq file]
    exact code_substitute t file classes
  have bodies : woven t.source 0 edits = woven t.source 0 (methods.map (bodyEdit t)) := by
    rw [sorted]
    exact woven_gatheredEdits extracted.fits extracted.placed (Nat.zero_le _) file (Nat.le_refl 0)
      (Text.isBoundary_zero _)
  have covered : ∀ n ∈ sites, ∃ e ∈ edits, e.start ≤ n.start ∧ n.stop ≤ e.stop := by
    intro n member
    obtain ⟨entry, among, site⟩ := List.mem_flatMap.1 member
    rw [sorted]
    exact extracted.covered file among site
  have found : ∀ n, n ∈ sites ↔ ∃ entry ∈ methods, entry.2.body.Part n ∧ isSite t n = true := by
    intro n
    rw [List.mem_flatMap]
    refine exists_congr fun entry => and_congr_right fun among => ?_
    exact mem_replacedIn (extracted.fits_method among) entry.2
  have placed := placedIn_overridingMethods (t := t) extracted.placed (Nat.zero_le _)
  exact ⟨extracted.substitute?_eq file, texts,
    ⟨by rw [code, bodies], inOrder_bodyEdits placed (Nat.zero_le _)⟩,
    ⟨code, sorted ▸ extracted.inOrder file, fun e member => extracted.mem_edits (sorted ▸ member), covered⟩,
    fun c _ orphan => classEdits_none orphan, extracted.replaced_eq file, extracted.nodup_sites, found⟩

set_option maxRecDepth 100000 in
theorem nested_sites_follow_tree :
    ∃ t, Tree.ofSource? ("E.define('A',\x7bextend:'B',m()\x7ba.callParent().callParent([b.callParent()])\x7d\x7d);" ++
        "E.define('C',\x7boverride:'D',n()\x7bc.callParent()\x7d\x7d)").toList = some t ∧
      (ClassDefinition.all t ["E"] "a.js").reverse ≠ ClassDefinition.all t ["E"] "a.js" ∧
      (substitute t "a.js" (ClassDefinition.all t ["E"] "a.js").reverse).code.toList =
        ("E.define('A',\x7bextend:'B',m()\x7b(B.prototype || B)['m'].apply(" ++
          "(B.prototype || B)['m'].apply(a), (B.prototype || B)['m'].apply(b))\x7d\x7d);" ++
          "E.define('C',\x7boverride:'D',n()\x7b((D.prototype || D)['n']['$previous'] || " ++
          "(D.prototype || D)['n']).apply(c)\x7d\x7d)").toList ∧
      (substitute t "a.js" (ClassDefinition.all t ["E"] "a.js").reverse).replaced = 4 := by
  -- Two classes, the later one given first: a site in the receiver of another, with the same start, and one in the
  -- array that it passes on.
  have runs : ((Tree.ofSource?
      ("E.define('A',\x7bextend:'B',m()\x7ba.callParent().callParent([b.callParent()])\x7d\x7d);" ++
        "E.define('C',\x7boverride:'D',n()\x7bc.callParent()\x7d\x7d)").toList).any fun t =>
        let methods := (ClassDefinition.all t ["E"] "a.js").flatMap (overridingMethods t)
        ((ClassDefinition.all t ["E"] "a.js").map (·.descriptor.name) = ["A", "C"] &&
          woven t.source 0 (methods.map (bodyEdit t)) =
          ("E.define('A',\x7bextend:'B',m()\x7b(B.prototype || B)['m'].apply(" ++
            "(B.prototype || B)['m'].apply(a), (B.prototype || B)['m'].apply(b))\x7d\x7d);" ++
            "E.define('C',\x7boverride:'D',n()\x7b((D.prototype || D)['n']['$previous'] || " ++
            "(D.prototype || D)['n']).apply(c)\x7d\x7d)").toList) &&
        (methods.flatMap fun entry => replacedIn t entry.2.body).length = 4) = true := by
    decide +kernel
  obtain ⟨t, read, holds⟩ := (Option.any_eq_true _ _).mp runs
  simp only [Bool.and_eq_true, decide_eq_true_eq] at holds
  obtain ⟨⟨names, code'⟩, count⟩ := holds
  obtain ⟨-, -, ⟨code, -⟩, -, -, replaced, -⟩ :=
    substitution_follows_tree read ["E"] "a.js" (List.reverse_perm (ClassDefinition.all t ["E"] "a.js"))
      (List.Sublist.refl (ClassDefinition.all t ["E"] "a.js"))
  refine ⟨t, read, fun same => ?_, ?_, replaced.trans count⟩
  · have reversed := congrArg (List.map (·.descriptor.name)) same
    rw [List.map_reverse, names] at reversed
    exact absurd reversed (by decide)
  · rw [code, String.toList_ofList, ← (Tree.ofSource?_eq read).1, code']

end ClassLinker.ParentCall
