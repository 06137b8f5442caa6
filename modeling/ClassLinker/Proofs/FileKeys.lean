import ClassLinker.Proofs.NormalPaths
import ClassLinker.Proofs.Operations

set_option autoImplicit false

namespace ClassLinker

namespace WebPath

theorem splitOn_joinWith {names : List (List Char)} (clean : ∀ name ∈ names, '/' ∉ name) (filled : names ≠ []) :
    Text.splitOn '/' (Text.joinWith '/' names) = names := by
  have parts := splitOn_trail clean
  rw [← ofSegments_eq_trail filled, ofSegments, Text.splitOn, if_pos rfl] at parts
  exact (List.cons.inj parts).2

theorem normalise_normalise (path : String) (scripts : List String) :
    normalise (normalise path []) scripts = normalise path scripts := by
  have same : segments (normalise path []).toList = segments path.toList := by
    rw [normalise_eq_ofSegments, String.toList_ofList]
    exact segments_ofSegments fun name member => isName_of_mem_segments member
  rw [normalise, normaliseChars, same, normalise, normaliseChars]

theorem toList_normalise (path : String) : ∃ rest, (normalise path []).toList = '/' :: rest ∧ '\\' ∉ rest ∧
    (rest = [] ∨ ∀ segment ∈ Text.splitOn '/' rest, IsName segment) := by
  have proper : ∀ name ∈ segments path.toList, IsName name := fun name member => isName_of_mem_segments member
  have clean : '\\' ∉ ofSegments (segments path.toList) := backslash_not_mem_ofSegments proper
  rw [ofSegments, List.mem_cons, not_or] at clean
  refine ⟨Text.joinWith '/' (segments path.toList), ?_, clean.2, ?_⟩
  next =>
    rw [normalise_eq_ofSegments, String.toList_ofList]
    rfl
  next =>
    by_cases none : segments path.toList = []
    next =>
      rw [none]
      exact .inl rfl
    next =>
      rw [splitOn_joinWith (fun name member => (proper name member).slash) none]
      exact .inr proper

end WebPath

namespace Session

open WebPath

/-- The path under which a session knows the file that an id stands for: the one that transformations and changes of the
file look up and record. -/
def keyOf (s : Session) (id : String) : String := s.pathOf (s.fileOf id)

theorem pathOf_normalise (s : Session) (file : String) : s.pathOf (normalise file []) = s.pathOf file :=
  normalise_normalise file s.config.scripts

theorem fileOf_below_root {s : Session} {id base file : String} {slashes more : List Char}
    (root : s.root = base ++ String.ofList slashes) (only : ∀ c ∈ slashes ++ more, c = '/' ∨ c = '\\')
    (spelled : withoutQuery id = base ++ String.ofList more ++ "/" ++ file) :
    s.fileOf id = normalise ("/" ++ file) [] := by
  rw [fileOf, root]
  exact ofFileId_below_root only spelled []

theorem calls_of_fileOf {s : Session} {id id' : String} (same : s.fileOf id = s.fileOf id') (w : Workspace) :
    (∀ change, s.fileChanged w id change = s.fileChanged w id' change) ∧
    (isAlwaysSkipped id = isAlwaysSkipped id' → ∀ source, s.transform w id source = s.transform w id' source) := by
  refine ⟨fun change => ?_, fun skipped source => ?_⟩
  next =>
    unfold fileChanged
    rw [same]
  next =>
    unfold transform
    rw [same, skipped]

/-- Every path has one normal form. It starts with a slash, has no backslash and, unless it is the root, neither empty
segments nor dots for one, and it is the same for each of its spellings, before and after an extension is dropped. So a
file below the root has the key that a search computes for it, for all ids that consist of the root, with as many
slashes after it as one likes, the path of the file and perhaps a query, if there are no other question marks. The calls
that take such ids do the same with and without the query. -/
theorem one_key_for_every_spelling :
    (∀ path : String,
      (∃ rest, (normalise path []).toList = '/' :: rest ∧ '\\' ∉ rest ∧
        (rest = [] ∨ ∀ segment ∈ Text.splitOn '/' rest, segment ≠ [] ∧ segment ≠ ['.'] ∧ segment ≠ ['.', '.'])) ∧
      normalise (normalise path []) [] = normalise path [] ∧
      ∀ scripts, normalise (normalise path []) scripts = normalise path scripts) ∧
    (∀ (s : Session) (base file query : String) (slashes more : List Char),
      s.root = base ++ String.ofList slashes → (∀ c ∈ slashes ++ more, c = '/' ∨ c = '\\') →
      '?' ∉ base.toList → '?' ∉ file.toList →
      let id := base ++ String.ofList more ++ "/" ++ file
      s.keyOf id = s.pathOf ("/" ++ file) ∧ s.keyOf (id ++ "?" ++ query) = s.pathOf ("/" ++ file) ∧
      ∀ w, (∀ change, s.fileChanged w (id ++ "?" ++ query) change = s.fileChanged w id change) ∧
        (isAlwaysSkipped (id ++ "?" ++ query) = isAlwaysSkipped id →
          ∀ source, s.transform w (id ++ "?" ++ query) source = s.transform w id source)) := by
  refine ⟨fun path => ⟨?_, normalise_normalise path [], normalise_normalise path⟩, ?_⟩
  next =>
    obtain ⟨rest, spelled, clean, segments⟩ := toList_normalise path
    refine ⟨rest, spelled, clean, segments.imp_right fun proper segment member => ?_⟩
    exact ⟨(proper segment member).filled, (proper segment member).here, (proper segment member).above⟩
  next =>
    intro s base file query slashes more root only plainRoot plainFile id
    have plain : '?' ∉ id.toList := by
      have others : '?' ∉ more := fun inside => by
        rcases only _ (List.mem_append_right _ inside) with same | same <;> cases same
      simp [id, plainRoot, plainFile, others]
    have bare : s.fileOf id = normalise ("/" ++ file) [] := fileOf_below_root root only (withoutQuery_eq_self plain)
    have asked : s.fileOf (id ++ "?" ++ query) = normalise ("/" ++ file) [] :=
      fileOf_below_root root only (withoutQuery_append plain query)
    refine ⟨?_, ?_, calls_of_fileOf (asked.trans bare.symm)⟩
    next => rw [keyOf, bare, pathOf_normalise]
    next => rw [keyOf, asked, pathOf_normalise]

theorem keys_of_ids_with_backslashes :
    let s := blank "C:\\proj\\" Config.default [] []
    s.root = "C:\\proj" ++ String.ofList ['\\'] ∧
      s.keyOf "C:\\proj//src\\..\\lib/A.js" = "/lib/A" ∧ s.keyOf "C:\\proj//src\\..\\lib/A.js?v=1" = "/lib/A" := by
  -- The root ends with a backslash, and the ids have a slash too many and dots.
  intro s
  have root : s.root = "C:\\proj" ++ String.ofList ['\\'] := by decide +kernel
  have key : s.pathOf ("/" ++ "src\\..\\lib/A.js") = "/lib/A" := by decide +kernel
  obtain ⟨bare, asked, _⟩ := one_key_for_every_spelling.2 s "C:\\proj" "src\\..\\lib/A.js" "v=1" ['\\'] ['/'] root
    (by simp) (by simp) (by simp)
  exact ⟨root, bare.trans key, asked.trans key⟩

end Session

end ClassLinker
