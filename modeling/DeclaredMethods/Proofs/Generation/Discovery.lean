import DeclaredMethods.Generation
import DeclaredMethods.Proofs.Files.Writing

/-!
# The sources that are found and where their documents go

A source that is found is a file, and the names behind the path it was found for say where its
document goes. All that the output path forgets is the extension of the last name, so the sources of
one input path, which all have the same extension, have different output paths.
-/

namespace DeclaredMethods

open Files Files.Location Files.Tree

/-- The path of a file below another path has the pieces of both. -/
theorem pieces_pathBelow {names : List String} (hne : names ≠ [])
    (hnames : ∀ name ∈ names, IsName name) (root : String) :
    pieces (pathBelow root names) = base root ++ names := by
  induction names generalizing root with
  | nil => exact absurd rfl hne
  | cons name names ih =>
    obtain ⟨hname, hnames⟩ := List.forall_mem_cons.1 hnames
    have hpiece := pieces_of_not_mem hname.no_slash
    rw [pathBelow, List.foldl_cons]
    cases names with
    | nil => rw [List.foldl_nil, pieces_join (isAbsolute_of_isName hpiece hname), hpiece]
    | cons next names =>
      have hrest := ih (List.cons_ne_nil _ _) hnames (join root name)
      rwa [pathBelow, base_join hname, List.append_assoc, List.singleton_append] at hrest

theorem start_pathBelow {names : List String} (hnames : ∀ name ∈ names, IsName name)
    (root : String) : start (pathBelow root names) = start root := by
  induction names generalizing root with
  | nil => rfl
  | cons name names ih =>
    obtain ⟨hname, hnames⟩ := List.forall_mem_cons.1 hnames
    have habsolute := isAbsolute_of_isName (pieces_of_not_mem hname.no_slash) hname
    rw [pathBelow, List.foldl_cons]
    exact (ih hnames _).trans (by rw [start, start, isAbsolute_join habsolute])

/-- The path below a directory leads to what stands below it. -/
theorem find_pathBelow {tree : Tree} (h : tree.WellFormed) {root : String} {directory : Location}
    (hroot : tree.find root = .ok (directory, .directory)) {names : List String} (hne : names ≠ [])
    (hnames : ∀ name ∈ names, IsName name) {entry : Files.Entry}
    (hentry : tree.entry? (directory ++ names) = some entry) :
    tree.find (pathBelow root names) = .ok (directory ++ names, entry) := by
  have hpieces := pieces_pathBelow hne hnames root
  have hpath : pathBelow root names ≠ "" := by
    intro hempty
    have hlast : names.getLast? = some "" := by
      rw [← List.getLast?_append_of_ne_nil (base root) hne, ← hpieces, hempty]
      rfl
    exact (hnames "" (List.mem_of_getLast? hlast)).ne_empty rfl
  refine find_eq_ok_iff.2 ⟨?_, hentry⟩
  rw [follow_eq hpath, hpieces, start_pathBelow hnames, List.foldlM_append,
    foldlM_step_base (find_eq_ok_iff.1 hroot).1]
  exact h.foldlM_step_names hnames hentry

namespace SourceInput

/-- A source whose relative path consists of names. -/
structure Named (input : SourceInput) (front : List String) (name : String) : Prop where
  pieces_eq : pieces input.relative = front ++ [name]
  names : ∀ part ∈ front ++ [name], IsName part

/-- A source that is a file and whose relative path consists of names. -/
structure Discovered (tree : Tree) (input : SourceInput) : Prop where
  file : ∃ content, tree.find input.path = .ok (along input.path, .file content)
  named : ∃ front name, input.Named front name

/-- A relative path without the extension of its last name. -/
def stem? (relative : String) : Option (List String × String) :=
  (splitName? relative).map fun (front, name) ↦ (front, (splitExtension name).1)

namespace Named

variable {input : SourceInput} {front : List String} {name : String}

theorem isName_last (h : input.Named front name) : IsName name :=
  h.names name (List.mem_append_right _ List.mem_cons_self)

/-- A source is named relative to the path it was found under. -/
theorem isAbsolute_relative (h : input.Named front name) : isAbsolute input.relative = false := by
  obtain ⟨hpieces, hnames⟩ := h
  cases front with
  | nil => exact isAbsolute_of_isName hpieces (hnames name List.mem_cons_self)
  | cons first rest => exact isAbsolute_of_isName hpieces (hnames first List.mem_cons_self)

/-- Outputs stand below the output directory as sources do below the path they were found under. -/
theorem pieces_join (h : input.Named front name) (outputDir : String) :
    pieces (join outputDir input.relative) = (base outputDir ++ front) ++ [name] := by
  rw [Files.pieces_join h.isAbsolute_relative, h.pieces_eq, List.append_assoc]

/-- The document of a source goes below the output directory, by the names of the source but for the
extension of the last one. -/
theorem pieces_outputPath (h : input.Named front name) (outputDir : String) :
    pieces (input.outputPath outputDir) = base outputDir ++ front ++ [renamed "rbs" name] :=
  pieces_withExtension (h.pieces_join outputDir) h.isName_last (by decide)

theorem start_outputPath (h : input.Named front name) (outputDir : String) :
    start (input.outputPath outputDir) = start outputDir := by
  rw [start, start, outputPath,
    isAbsolute_withExtension (h.pieces_join outputDir) h.isName_last (by decide),
    isAbsolute_join h.isAbsolute_relative]

theorem stem?_eq (h : input.Named front name) :
    stem? input.relative = some (front, (splitExtension name).1) := by
  rw [stem?, splitName?_of_pieces h.pieces_eq h.isName_last]
  rfl

end Named

/-- Two documents go to the same path exactly if the relative paths of their sources differ in the
extension at most. -/
theorem outputPath_eq_iff {tree : Tree} {first second : SourceInput}
    (hfirst : first.Discovered tree) (hsecond : second.Discovered tree) (outputDir : String) :
    first.outputPath outputDir = second.outputPath outputDir ↔
      stem? first.relative = stem? second.relative := by
  obtain ⟨front₁, name₁, hnamed₁⟩ := hfirst.named
  obtain ⟨front₂, name₂, hnamed₂⟩ := hsecond.named
  have hout₁ := hnamed₁.pieces_outputPath outputDir
  have hout₂ := hnamed₂.pieces_outputPath outputDir
  have hrenamed : renamed "rbs" name₁ = renamed "rbs" name₂ ↔ _ :=
    renamed_eq_renamed_iff (by decide) (by decide)
  rw [hnamed₁.stem?_eq, hnamed₂.stem?_eq, Option.some.injEq, Prod.mk.injEq, ← hrenamed]
  constructor
  · intro h
    rw [h, hout₂] at hout₁
    obtain ⟨hfront, hname⟩ := List.append_inj' hout₁ rfl
    exact ⟨(List.append_cancel_left hfront).symm, (List.singleton_inj.1 hname).symm⟩
  · rintro ⟨hfront, hname⟩
    apply pieces_injective
    rw [hout₁, hout₂, hfront, hname]

end SourceInput

section Discover

variable {tree : Tree}

/-- What the walk below a directory finds. -/
theorem discoverPath_directory (h : tree.WellFormed) {root : String} {directory : Location}
    (hroot : tree.find root = .ok (directory, .directory)) {names : List String}
    (hmem : names ∈ tree.filesBelow directory) :
    (⟨pathBelow root names, ofPieces names⟩ : SourceInput).Discovered tree ∧
      pieces (ofPieces names) = names := by
  obtain ⟨hne, hnames, content, hentry⟩ := h.file_of_mem_filesUpTo hmem
  have hfind := find_pathBelow h hroot hne hnames hentry
  have hpieces : pieces (ofPieces names) = names :=
    pieces_ofPieces hne fun part hpart ↦ (hnames part hpart).no_slash
  refine ⟨⟨⟨content, ?_⟩, names.dropLast, names.getLast hne, ?_, ?_⟩, hpieces⟩
  · rwa [← eq_along_of_follow_eq_ok (find_eq_ok_iff.1 hfind).1]
  · rw [hpieces, List.dropLast_append_getLast]
  · rwa [List.dropLast_append_getLast]

/-- The sources of a path are files of the tree. -/
theorem discovered_of_discoverPath (h : tree.WellFormed) {root : String} {found : List SourceInput}
    (hfound : discoverPath tree root = .ok found) : ∀ input ∈ found, input.Discovered tree := by
  rw [discoverPath] at hfound
  split at hfound
  next hfile =>
    obtain ⟨location, content, hfind⟩ := isFile_iff.1 hfile
    split at hfound
    next name hname =>
      cases hfound
      have hisName := isName_of_fileName? hname
      refine List.forall_mem_singleton.2 ⟨⟨content, ?_⟩, [], name, ?_, ?_⟩
      · rwa [← eq_along_of_follow_eq_ok (find_eq_ok_iff.1 hfind).1]
      · exact pieces_of_not_mem hisName.no_slash
      · exact List.forall_mem_singleton.2 hisName
    next => cases hfound
  next =>
    split at hfound
    next => cases hfound
    next directory hdirectory =>
      cases hfound
      intro input hinput
      obtain ⟨names, hnames, rfl⟩ := List.mem_map.1 (List.mem_of_mem_filter hinput)
      exact (discoverPath_directory h (directory?_eq_some_iff.1 hdirectory) hnames).1

/-- All sources of a run were found in its tree. -/
theorem discovered_of_discover (h : tree.WellFormed) {roots : List String}
    {inputs : List SourceInput} (hinputs : discover tree roots = .ok inputs) :
    ∀ input ∈ inputs, input.Discovered tree := by
  induction roots generalizing inputs with
  | nil =>
    cases hinputs
    exact List.forall_mem_nil _
  | cons root roots ih =>
    rw [discover] at hinputs
    cases hfound : discoverPath tree root with
    | error error =>
      rw [hfound] at hinputs
      cases hinputs
    | ok found =>
      cases hrest : discover tree roots with
      | error error =>
        rw [hfound, hrest] at hinputs
        cases hinputs
      | ok rest =>
        rw [hfound, hrest] at hinputs
        cases hinputs
        exact List.forall_mem_append.2 ⟨discovered_of_discoverPath h hfound, ih hrest⟩

/-- The sources below a directory that have the same output path are the same. -/
theorem eq_of_outputPath_eq (h : tree.WellFormed) {root outputDir : String} {directory : Location}
    (hroot : tree.find root = .ok (directory, .directory)) {first second : List String}
    (hfirst : first ∈ tree.filesBelow directory) (hsecond : second ∈ tree.filesBelow directory)
    (hextension₁ : hasExtension (pathBelow root first) "rb" = true)
    (hextension₂ : hasExtension (pathBelow root second) "rb" = true)
    (hout : (⟨pathBelow root first, ofPieces first⟩ : SourceInput).outputPath outputDir =
      (⟨pathBelow root second, ofPieces second⟩ : SourceInput).outputPath outputDir) :
    first = second := by
  obtain ⟨hdiscovered₁, hpieces₁⟩ := discoverPath_directory h hroot hfirst
  obtain ⟨hdiscovered₂, hpieces₂⟩ := discoverPath_directory h hroot hsecond
  have hstem := (SourceInput.outputPath_eq_iff hdiscovered₁ hdiscovered₂ outputDir).1 hout
  obtain ⟨front₁, name₁, hnamed₁⟩ := hdiscovered₁.named
  obtain ⟨front₂, name₂, hnamed₂⟩ := hdiscovered₂.named
  rw [hnamed₁.stem?_eq, hnamed₂.stem?_eq, Option.some.injEq, Prod.mk.injEq] at hstem
  obtain rfl : first = front₁ ++ [name₁] := hpieces₁.symm.trans hnamed₁.pieces_eq
  obtain rfl : second = front₂ ++ [name₂] := hpieces₂.symm.trans hnamed₂.pieces_eq
  have hlast : ∀ {front name}, (∀ part ∈ front ++ [name], IsName part) →
      hasExtension (pathBelow root (front ++ [name])) "rb" = true →
      name = (splitExtension name).1 ++ "." ++ "rb" := by
    intro front name hnames hextension
    have hpieces := pieces_pathBelow (by simp) hnames root
    rw [← List.append_assoc] at hpieces
    exact eq_append_of_hasExtension hextension hpieces
      (hnames name (List.mem_append_right _ List.mem_cons_self))
  rw [hlast hnamed₁.names hextension₁, hlast hnamed₂.names hextension₂, hstem.1, hstem.2]

/-- The sources that are found for one path have different output paths. -/
theorem nodup_outputPath_of_discoverPath (h : tree.WellFormed) {root : String}
    {found : List SourceInput} (hfound : discoverPath tree root = .ok found) (outputDir : String) :
    (found.map fun input ↦ input.outputPath outputDir).Nodup := by
  rw [discoverPath] at hfound
  split at hfound
  · split at hfound
    · cases hfound
      exact List.nodup_singleton _
    · cases hfound
  · split at hfound
    · cases hfound
    next directory hdirectory =>
      cases hfound
      rw [List.filter_map, List.map_map]
      refine List.Nodup.map_on (fun first hfirst second hsecond hout ↦ ?_)
        ((h.nodup_filesUpTo _ directory).filter _)
      obtain ⟨hfirst, hextension₁⟩ := List.mem_filter.1 hfirst
      obtain ⟨hsecond, hextension₂⟩ := List.mem_filter.1 hsecond
      exact eq_of_outputPath_eq h (directory?_eq_some_iff.1 hdirectory) hfirst hsecond hextension₁
        hextension₂ hout

end Discover

end DeclaredMethods
