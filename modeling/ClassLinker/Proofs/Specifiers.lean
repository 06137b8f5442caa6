import ClassLinker.Imports.Basic
import ClassLinker.Proofs.NormalPaths

set_option autoImplicit false

namespace ClassLinker

namespace WebPath

theorem IsName.append_extension {name ext : List Char} (proper : IsName name) (plain : '/' ∉ ext ∧ '\\' ∉ ext) :
    IsName (name ++ '.' :: ext) where
  filled := by simp
  here := by
    intro same
    have length := congrArg List.length same
    have filled := List.length_pos_of_ne_nil proper.filled
    simp at length
    omega
  above := by
    intro same
    -- a name with a dot after it has two characters only if it has one itself, which is then the first dot
    obtain ⟨c, rest, rfl⟩ := List.exists_cons_of_ne_nil proper.filled
    obtain ⟨rfl, tail⟩ := List.cons.inj same
    cases rest with
    | nil => exact proper.here rfl
    | cons d rest => simpa using congrArg List.length tail
  slash := by simp [proper.slash, plain.1]
  backslash := by simp [proper.backslash, plain.2]

theorem dropExtension_append (ext : String) (others : List String) (front : List Char) :
    dropExtension (ext :: others) (front ++ '.' :: ext.toList) = front := by
  rw [dropExtension, withoutExtension?_eq_some.mpr rfl, Option.getD_some]

theorem dropExtension_root (scripts : List String) : dropExtension scripts ['/'] = ['/'] := by
  rw [dropExtension_eq_self_iff]
  intro ext _
  rw [Option.eq_none_iff_forall_ne_some]
  intro front found
  -- the root has no dot
  have dotted : '.' ∈ ['/'] := by
    rw [withoutExtension?_eq_some.mp found]
    simp
  exact absurd dotted (by decide)

section
variable {ext : String} (plain : '/' ∉ ext.toList ∧ '\\' ∉ ext.toList) (others : List String)
include plain

theorem normaliseChars_root_extension : normaliseChars (ext :: others) ('/' :: '.' :: ext.toList) = ['/'] := by
  -- The root is written as a name that is nothing but an extension; an extension that is empty or a dot makes it a
  -- segment that does not count.
  have clean : '/' ∉ '.' :: ext.toList ∧ '\\' ∉ '.' :: ext.toList := by simp [plain.1, plain.2]
  have folded : segments ('/' :: '.' :: ext.toList) = foldSegments [] ['.' :: ext.toList] := by
    rw [segments_cons_slash, segments, slashed_eq_self clean.2, Text.splitOn_of_not_mem clean.1]
  rw [normaliseChars, folded]
  by_cases empty : ext.toList = []
  next =>
    rw [empty]
    exact dropExtension_root (ext :: others)
  next =>
    by_cases dot : ext.toList = ['.']
    next =>
      rw [dot]
      exact dropExtension_root (ext :: others)
    next =>
      have proper : IsName ('.' :: ext.toList) := ⟨by simp, by simp [empty], by simp [dot], clean.1, clean.2⟩
      rw [foldSegments_of_isName (by simpa using proper)]
      exact dropExtension_append ext others ['/']

theorem normaliseChars_extension {names : List (List Char)} (proper : ∀ name ∈ names, IsName name) :
    normaliseChars (ext :: others) (ofSegments names ++ '.' :: ext.toList) = ofSegments names := by
  rcases List.eq_nil_or_concat' names with rfl | ⟨outer, last, rfl⟩
  next => exact normaliseChars_root_extension plain others
  next =>
    -- the extension makes the last name longer, and leaves the others as they are
    have written : ofSegments (outer ++ [last]) ++ '.' :: ext.toList = trail (outer ++ [last ++ '.' :: ext.toList]) := by
      rw [ofSegments_eq_trail (by simp)]
      simp
    have longer : ∀ name ∈ outer ++ [last ++ '.' :: ext.toList], IsName name := by
      rw [List.forall_mem_append, List.forall_mem_singleton] at proper ⊢
      exact ⟨proper.1, proper.2.append_extension plain⟩
    rw [normaliseChars, written, segments_trail longer, ofSegments_eq_trail (by simp), ← written]
    exact dropExtension_append ext others _

end

/-- A script whose path is in normal form is imported, from whatever file, by a specifier that is read as its path. -/
theorem specifier_names_script (importer : String) {path ext : String} {scripts : List String}
    (normal : normalise path [] = path) (first : scripts.head? = some ext)
    (plain : '/' ∉ ext.toList ∧ '\\' ∉ ext.toList) :
    ofSpecifier? importer ((ImportEntry.script path).specifier ext) scripts = some path := by
  obtain ⟨names, proper, spelled⟩ := normalise_eq_self_iff.mp normal
  obtain ⟨others, rfl⟩ := List.head?_eq_some_iff.mp first
  have written : ((ImportEntry.script path).specifier ext).toList = ofSegments names ++ '.' :: ext.toList := by
    simp [ImportEntry.specifier, spelled]
  have rooted : Text.startsWith ['/'] ((ImportEntry.script path).specifier ext).toList = true := by
    rw [written]
    rfl
  rw [ofSpecifier?, if_pos rooted, normalise, written, normaliseChars_extension plain others proper, ← spelled,
    String.ofList_toList]

theorem specifier_names_script_with_dots :
    let scripts := ["view.js", "js", ".js", ""]
    normalise "/src/.../main.view" [] = "/src/.../main.view" ∧
      (ImportEntry.script "/src/.../main.view").specifier "view.js" = "/src/.../main.view.view.js" ∧
      ofSpecifier? "src/App.js" "/src/.../main.view.view.js" scripts = some "/src/.../main.view" := by
  -- The other extensions include one that ends like the first one, and the path has a dot in its name.
  intro scripts
  have normal : normalise "/src/.../main.view" [] = "/src/.../main.view" := by decide +kernel
  have written : (ImportEntry.script "/src/.../main.view").specifier "view.js" = "/src/.../main.view.view.js" := by
    decide +kernel
  have first : scripts.head? = some "view.js" := rfl
  have read := specifier_names_script "src/App.js" normal first (by decide)
  rw [written] at read
  exact ⟨normal, written, read⟩

end WebPath

end ClassLinker
