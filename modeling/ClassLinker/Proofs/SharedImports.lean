import ClassLinker.Proofs.Missing
import ClassLinker.Proofs.RegistryLog
import ClassLinker.Proofs.WalkSearch

set_option autoImplicit false

namespace ClassLinker

/-- Entries without the scripts that are refused and without the style sheets that stand after those. The flag tells
whether the style sheets at the start stay. -/
def ImportEntry.withoutScripts (refused : String → Bool) : Bool → List ImportEntry → List ImportEntry
  | _, [] => []
  | _, .script path :: rest =>
    if refused path then withoutScripts refused false rest else .script path :: withoutScripts refused true rest
  | true, .asset path :: rest => .asset path :: withoutScripts refused true rest
  | false, .asset _ :: rest => withoutScripts refused false rest

theorem ImportEntry.withoutScripts_assets (refused : String → Bool) (stay : Bool) (assets : List String)
    (rest : List ImportEntry) :
    withoutScripts refused stay (assets.map .asset ++ rest) =
      (if stay then assets.map .asset else []) ++ withoutScripts refused stay rest := by
  induction assets with
  | nil => cases stay <;> rfl
  | cons path others ih => cases stay <;> simpa [withoutScripts] using ih

theorem Surroundings.assetsOf_eq (s : Surroundings) (path : String) :
    ∃ assets : List String, s.assetsOf path = assets.map .asset := by
  unfold assetsOf
  split
  next => exact ⟨_, rfl⟩
  next => exact ⟨[], rfl⟩

theorem Surroundings.withoutScripts_entriesOf (s : Surroundings) (refused : String → Bool) (stay : Bool)
    (paths : List String) :
    ImportEntry.withoutScripts refused stay (paths.flatMap s.entriesOf) =
      (paths.filter fun path => !refused path).flatMap s.entriesOf := by
  induction paths generalizing stay with
  | nil => cases stay <;> rfl
  | cons path rest ih =>
    -- the flag at the end of a block does not matter, since the next one starts with a script
    obtain ⟨assets, eq⟩ := s.assetsOf_eq path
    rw [List.flatMap_cons, entriesOf, List.cons_append, eq, List.filter_cons]
    cases gone : refused path with
    | true => simp [ImportEntry.withoutScripts, gone, ImportEntry.withoutScripts_assets, ih]
    | false => simp [ImportEntry.withoutScripts, gone, ImportEntry.withoutScripts_assets, ih, entriesOf, eq]

namespace Claims

theorem fst_claim {c : Claims} (once : c.policy = .global) (path file : String) :
    (c.claim path file).1 = !(c.owner? path).any (· ≠ file) := by
  rw [Bool.eq_iff_iff, claim_iff once]
  cases c.owner? path <;> simp

theorem Granted.extends {c c' : Claims} {file : String} {paths : List String} (granted : c.Granted c' file paths)
    (once : c.policy = .global) {path other : String} (taken : c.owner? path = some other) :
    c'.owner? path = some other := by
  rw [granted.owner once]
  split
  next member => rw [granted.free once path member other taken]
  next => exact taken

theorem Granted.refused_again {c c' : Claims} {file : String} {paths : List String} (granted : c.Granted c' file paths)
    {path : String} (refused : (c.claim path file).1 = false) : ((c'.release file).claim path file).1 = false := by
  cases policy : c.policy with
  | file => simp [claim, policy] at refused
  | global =>
    have once : (c'.release file).policy = .global := granted.policy.trans policy
    rw [fst_claim policy] at refused
    cases taken : c.owner? path with
    | none => simp [taken] at refused
    | some other =>
      have differs : other ≠ file := by simpa [taken] using refused
      rw [fst_claim once, owner_release, granted.extends policy taken]
      simp [differs]

end Claims

namespace Surroundings

/-- If every path is imported only once, the imports of a file are those that it would get alone, less the scripts that
other files have, with their style sheets. What is missing and what is noted is the same. Each script belongs to one of
the classes, and the file has claimed it; nobody else's claims have changed. -/
theorem shared_imports_filter_alone (s : Surroundings) (file : String) (classes : List Descriptor)
    (existing : List String) (owners : Table String) :
    let claims : Claims := ⟨.global, owners⟩
    let found := (s.resolveFile file classes existing claims).1
    let after := (s.resolveFile file classes existing claims).2
    let alone := (s.resolveFile file classes existing (.ofPolicy .file)).1
    let scripts := found.entries.filterMap ImportEntry.script?
    found.entries =
      ImportEntry.withoutScripts (fun path => (claims.owner? path).any (· ≠ file)) true alone.entries ∧
    found.missing = alone.missing ∧ found.diagnostics = alone.diagnostics ∧
    found.byClass.flatMap (·.2) = scripts ∧
    after.policy = .global ∧
    (∀ path, after.owner? path = if path ∈ scripts then some file else claims.owner? path) ∧
    (∀ path other, claims.owner? path = some other → after.owner? path = some other) := by
  intro claims found after alone scripts
  have once : claims.policy = .global := rfl
  have resolves : s.Resolves file classes existing claims found after := s.resolveFile_resolves ..
  have free : s.Resolves file classes existing (.ofPolicy .file) alone _ := s.resolveFile_resolves ..
  have listed : scripts = found.scripts := resolves.script_entries
  have granted := resolves.granted
  obtain ⟨_, missing, diagnostics⟩ := s.resolveFile_beside file classes existing claims
  refine ⟨?_, missing, diagnostics, listed.symm, granted.policy, ?_, ?_⟩
  next =>
    have kept : found.scripts = alone.scripts.filter fun path => (claims.claim path file).1 :=
      s.scripts_resolveFile file classes existing claims
    rw [resolves.entries, free.entries, withoutScripts_entriesOf, kept]
    simp only [Claims.fst_claim once]
  next =>
    intro path
    rw [granted.owner once, listed]
  next => exact fun path other taken => granted.extends once taken

theorem script_of_another_left_out :
    let a : Descriptor := { name := "A", requires := ["B", "C"], sourceFile := "/a" }
    let s : Surroundings := ⟨Registry.after [.register { name := "B", sourceFile := "/b" },
      .register { name := "C", sourceFile := "/c" }], ⟨[], ["js"]⟩,
      ⟨[("b.scss", .file (.text "")), ("c.scss", .file (.text ""))]⟩, { Config.default with autoImportAssets := true }⟩
    let claims : Claims := ⟨.global, Table.ofList [("/b", "/other")]⟩
    let found := s.resolveFile "/a" [a] [] claims
    (s.resolveFile "/a" [a] [] (.ofPolicy .file)).1.entries =
      [.script "/b", .asset "/b.scss", .script "/c", .asset "/c.scss"] ∧
    found.1.entries = [.script "/c", .asset "/c.scss"] ∧ claims.owner? "/b" = some "/other" ∧
    found.2.owner? "/b" = some "/other" := by
  -- Another file has one of two scripts, each of which has a style sheet.
  intro a s claims found
  have runs : (s.resolveFile "/a" [a] [] (.ofPolicy .file)).1.entries =
      [.script "/b", .asset "/b.scss", .script "/c", .asset "/c.scss"] ∧
      found.1.entries = [.script "/c", .asset "/c.scss"] ∧ claims.owner? "/b" = some "/other" := by decide +kernel
  obtain ⟨alone, shared, taken⟩ := runs
  obtain ⟨_, _, _, _, _, _, kept⟩ := shared_imports_filter_alone s "/a" [a] [] claims.owners
  exact ⟨alone, shared, taken, kept "/b" "/other" taken⟩

theorem scripts_resolveAlone_subset {s : Surroundings} (coherent : s.registry.Coherent) (file : String)
    (classes : List Descriptor) (existing more : List String) :
    (s.resolveAlone file classes (existing ++ more)).scripts ⊆ (s.resolveAlone file classes existing).scripts := by
  have search (existing : List String) := search_resolveFile coherent file classes existing (.ofPolicy .file) rfl
  have few := search existing
  have many := search (existing ++ more)
  rw [(s.resolveFile_resolves ..).script_entries] at few many
  -- the second search starts with more marks
  refine few.subset_of_marked many ?_
  rintro path (own | imported)
  next => exact .inl own
  next => exact .inr (List.mem_append_left _ imported)

theorem missing_resolveFile (s : Surroundings) (file : String) (classes : List Descriptor) (existing : List String)
    (claims : Claims) : (s.resolveFile file classes existing claims).1.missing =
      classes.foldl (fun missing d => d.references.foldl (Walk.note s d.name) missing) ∅ := by
  have walks (w : Walk) : (classes.foldl (Walk.visitOwn s) w).missing =
      classes.foldl (fun missing d => d.references.foldl (Walk.note s d.name) missing) w.missing := by
    induction classes generalizing w with
    | nil => rfl
    | cons d rest ih =>
      rw [List.foldl_cons, ih, List.foldl_cons, Walk.visitOwn, Walk.visit_direct_missing]
  exact walks _

/-- Whatever is registered and claimed, a file that imports the scripts that were found for it, and has given back its
claims, needs no more imports, and it lacks what it lacked before. -/
theorem injected_imports_suffice (operations : List Registry.Operation) (resolver : Resolver) (workspace : Workspace)
    (config : Config) (file : String) (classes : List Descriptor) (existing : List String) (claims : Claims) :
    let s : Surroundings := ⟨Registry.after operations, resolver, workspace, config⟩
    let first := s.resolveFile file classes existing claims
    let scripts := first.1.entries.filterMap ImportEntry.script?
    let second := s.resolveFile file classes (existing ++ scripts) (first.2.release file)
    second.1.entries = [] ∧ second.1.missing = first.1.missing := by
  intro s first scripts second
  have coherent : s.registry.Coherent := (Registry.holds_after operations).coherent
  have once : s.Resolves file classes existing claims first.1 first.2 := s.resolveFile_resolves ..
  have again : s.Resolves file classes (existing ++ scripts) (first.2.release file) second.1 second.2 :=
    s.resolveFile_resolves ..
  have none : second.1.scripts = [] := by
    rw [List.eq_nil_iff_forall_not_mem]
    intro path member
    have unlisted : path ∉ first.1.scripts := by
      rw [← once.script_entries]
      exact fun listed => again.added path member (List.mem_append_right _ listed)
    rw [scripts_resolveFile, List.mem_filter] at member
    obtain ⟨needed, granted⟩ := member
    -- it was needed before and not imported, so that another file has it
    have refused : (claims.claim path file).1 = false := by
      rw [← Bool.not_eq_true]
      intro allowed
      apply unlisted
      rw [scripts_resolveFile, List.mem_filter]
      exact ⟨scripts_resolveAlone_subset coherent file classes existing scripts needed, allowed⟩
    rw [once.granted.refused_again refused] at granted
    cases granted
  refine ⟨?_, by rw [missing_resolveFile, missing_resolveFile]⟩
  rw [again.entries, none]
  rfl

end Surroundings

end ClassLinker
