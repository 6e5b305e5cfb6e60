import DeclaredMethods.Proofs.Generation.Discovery

/-!
# The order in which sources are processed

Writing a document puts a file at its place and directories on the way to it. If the documents of
two sources stay clear of each other and of each other's sources, then neither is written
differently because the other was written before. So a run whose sources are all apart gives the
same outcome whatever order they are processed in, and every document that is written is found at
its place in the end. Sources that are not apart, such as two files of one name below different
input paths, can overwrite each other's documents.
-/

namespace DeclaredMethods

open Files Files.Location Files.Tree

/-- What writing a document gives and what it changes. -/
theorem writeDocument_spec {tree : Tree} (h : tree.WellFormed) {output last : String}
    {front : List String} (hends : Ends output front last) (document : String) :
    ∃ after, writeDocument tree output document =
        ((tree.refusal? output).elim (.ok ()) fun error ↦ .error (.unwritable output error),
          after) ∧
      after.WellFormed ∧
        ∀ location, after.entry? location =
          (tree.puts output document location).or (tree.entry? location) := by
  rw [writeDocument, makeParents_eq]
  cases hobstacle : tree.obstacleTo? output with
  | some error =>
    refine ⟨tree, ?_, h, fun location ↦ ?_⟩
    · rw [refusal?, hobstacle]
      rfl
    · rw [puts, hobstacle]
      rfl
  | none =>
    have hprepared := h.prepared hends hobstacle
    have hway := entry?_prepared_of_mem_way hobstacle
    dsimp only
    rw [hprepared.writeText_eq hends hway]
    by_cases hplace : (tree.prepared output).isDirectory (along output) = true
    · have hrefusal : tree.refusal? output = some .isADirectory := by
        rw [refusal?, hobstacle, if_pos ((isDirectory_prepared_iff hobstacle _).1 hplace)]
        rfl
      rw [if_pos hplace, hrefusal]
      refine ⟨tree.prepared output, rfl, hprepared, fun location ↦ ?_⟩
      rw [or_puts hobstacle, hrefusal, if_neg fun h ↦ Option.some_ne_none _ h.1]
    · have hrefusal : tree.refusal? output = none := by
        rw [refusal?, hobstacle, if_neg ((isDirectory_prepared_iff hobstacle _).not.1 hplace)]
        rfl
      rw [if_neg hplace, hrefusal]
      obtain ⟨hgiven, hwritten⟩ := hprepared.put_along hends hway (Bool.eq_false_iff.2 hplace)
        document.toUTF8
      refine ⟨_, rfl, hwritten, fun location ↦ ?_⟩
      rw [or_puts hobstacle, hrefusal, entry?_put _ hgiven]
      exact if_congr ⟨fun h ↦ ⟨rfl, h.symm⟩, fun h ↦ h.2.symm⟩ rfl rfl

/-- Generating a document writes nothing. -/
theorem written_generateSource (definitions : DefinitionSource) (file : Option String)
    (text : String) : (generateSource definitions file text).written = none := by
  rw [generateSource]
  dsimp only
  split <;> rfl

/-- What is returned for a source whose document goes to a path. -/
def SourceResult.settled (source : SourceResult) (output : String) (refusal : Option FileError) :
    Except RunError SourceResult :=
  match source.document, refusal with
  | none, _ => .ok source
  | some _, some error => .error (.unwritable output error)
  | some _, none => .ok { source with written := some output }

namespace SourceInput

variable (definitions : DefinitionSource) (outputDir : String)

/-- The document of a source, if its file can be read and has no syntax errors. -/
def document? (tree : Tree) (input : SourceInput) : Option String :=
  (tree.readText input.path).toOption.bind fun text ↦
    (generateSource definitions (some input.path) text).document

def puts (tree : Tree) (input : SourceInput) (location : Location) : Option Files.Entry :=
  (input.document? definitions tree).bind fun document ↦
    tree.puts (input.outputPath outputDir) document location

/-- What becomes of a source, from what its file is read as and from why its document cannot be
written. -/
def resultOf (input : SourceInput) (read : Except FileError String) (refusal : Option FileError) :
    Except RunError SourceResult :=
  match read with
  | .error error => .error (.unreadable error)
  | .ok text =>
    (generateSource definitions (some input.path) text).settled (input.outputPath outputDir) refusal

/-- What becomes of a source that is processed alone. -/
def outcome (tree : Tree) (input : SourceInput) : FileOutcome :=
  generateFile definitions tree input.path (input.outputPath outputDir)

variable {definitions outputDir} {tree : Tree} {input : SourceInput}

/-- The output of a source stands below the output directory. -/
theorem Discovered.below (h : input.Discovered tree) (outputDir : String) :
    ∃ front last, Below outputDir (input.outputPath outputDir) front last := by
  obtain ⟨front, name, hnamed⟩ := h.named
  exact ⟨front, renamed "rbs" name,
    ⟨hnamed.pieces_outputPath outputDir, isIdle_renamed (by decide) name⟩,
    hnamed.start_outputPath outputDir, (List.forall_mem_append.1 hnamed.names).1⟩

theorem Discovered.ends (h : input.Discovered tree) (outputDir : String) :
    ∃ front last, Ends (input.outputPath outputDir) front last := by
  obtain ⟨front, last, hbelow⟩ := h.below outputDir
  exact ⟨_, _, hbelow.toEnds⟩

/-- What processing a source gives and what it changes. -/
theorem outcome_spec (definitions : DefinitionSource) (h : tree.WellFormed)
    (hinput : ∃ front last, Ends (input.outputPath outputDir) front last) :
    (input.outcome definitions outputDir tree).result =
        input.resultOf definitions outputDir (tree.readText input.path)
          (tree.refusal? (input.outputPath outputDir)) ∧
      (input.outcome definitions outputDir tree).tree.WellFormed ∧
        ∀ location, entry? (input.outcome definitions outputDir tree).tree location =
          (input.puts definitions outputDir tree location).or (tree.entry? location) := by
  obtain ⟨front, last, hends⟩ := hinput
  simp only [outcome, generateFile, resultOf, puts, document?]
  cases tree.readText input.path with
  | error error => exact ⟨rfl, h, fun location ↦ rfl⟩
  | ok text =>
    dsimp only [Except.toOption, Option.bind_some]
    generalize generateSource definitions (some input.path) text = source
    unfold SourceResult.settled
    cases source.document with
    | none => exact ⟨rfl, h, fun location ↦ rfl⟩
    | some document =>
      obtain ⟨after, hwrite, hafter, hentries⟩ := writeDocument_spec h hends document
      dsimp only [Option.bind_some]
      rw [hwrite]
      cases tree.refusal? (input.outputPath outputDir) with
      | none => exact ⟨rfl, hafter, hentries⟩
      | some error => exact ⟨rfl, hafter, hentries⟩

/-- What a source puts depends on its file and on whether its document can be written. -/
theorem puts_congr {other : Tree} (hread : other.readText input.path = tree.readText input.path)
    (hobstacle : other.obstacleTo? (input.outputPath outputDir) =
      tree.obstacleTo? (input.outputPath outputDir))
    (hrefusal : other.refusal? (input.outputPath outputDir) =
      tree.refusal? (input.outputPath outputDir)) (location : Location) :
    input.puts definitions outputDir other location =
      input.puts definitions outputDir tree location := by
  simp only [puts, document?, Tree.puts, hread, hrefusal, hobstacle]

/-- A document that was written is the document of its source. -/
theorem exists_of_written {read : Except FileError String} {refusal : Option FileError}
    {source : SourceResult}
    (hsource : input.resultOf definitions outputDir read refusal = .ok source) {output : String}
    (hwritten : source.written = some output) :
    input.outputPath outputDir = output ∧ refusal = none ∧
      ∃ text document, read = .ok text ∧
        (generateSource definitions (some input.path) text).document = some document := by
  cases read with
  | error error => cases hsource
  | ok text =>
    have hnone := written_generateSource definitions (some input.path) text
    rw [resultOf] at hsource
    generalize hgenerated : generateSource definitions (some input.path) text = generated
      at hsource hnone
    unfold SourceResult.settled at hsource
    split at hsource
    · cases hsource
      rw [hnone] at hwritten
      cases hwritten
    · cases hsource
    next document hdocument =>
      cases hsource
      exact ⟨Option.some.inj hwritten, rfl, text, document, rfl, hgenerated ▸ hdocument⟩

/-! ## Sources that are apart -/

/-- The document of a source goes neither to the path of the document of another source or a path
above it, nor to the place of the other source. -/
def Spares (outputDir : String) (input other : SourceInput) : Prop :=
  ¬pieces (input.outputPath outputDir) <+: pieces (other.outputPath outputDir) ∧
    along (input.outputPath outputDir) ≠ along other.path

/-- Two sources that spare each other. -/
def Apart (outputDir : String) (first second : SourceInput) : Prop :=
  first.Spares outputDir second ∧ second.Spares outputDir first

instance (outputDir : String) (input other : SourceInput) :
    Decidable (input.Spares outputDir other) :=
  inferInstanceAs (Decidable (_ ∧ _))

instance (outputDir : String) (first second : SourceInput) :
    Decidable (first.Apart outputDir second) :=
  inferInstanceAs (Decidable (_ ∧ _))

theorem Apart.symm {first second : SourceInput} (h : first.Apart outputDir second) :
    second.Apart outputDir first :=
  ⟨h.2, h.1⟩

/-- Processing a source puts its output where it belongs, and directories on the way there. -/
theorem puts_eq_some {location : Location} {entry : Files.Entry}
    (h : input.puts definitions outputDir tree location = some entry) :
    (tree.refusal? (input.outputPath outputDir) = none ∧
        location = along (input.outputPath outputDir) ∧ ∃ content, entry = .file content) ∨
      (tree.obstacleTo? (input.outputPath outputDir) = none ∧
        location ∈ way (input.outputPath outputDir) ∧ entry = .directory) := by
  obtain ⟨document, -, hputs⟩ := Option.bind_eq_some_iff.1 h
  rcases Tree.puts_eq_some hputs with ⟨hrefusal, hplace, hentry⟩ | hway
  · exact .inl ⟨hrefusal, hplace, _, hentry⟩
  · exact .inr hway

/-- A document that can be written goes neither to the place of a document that it spares nor on the
way to it. -/
theorem Spares.along_not_mem_way {other : SourceInput} (hspares : input.Spares outputDir other)
    (h : tree.WellFormed) (hinput : input.Discovered tree) (hother : other.Discovered tree)
    (hrefusal : tree.refusal? (input.outputPath outputDir) = none) :
    along (input.outputPath outputDir) ∉ way (other.outputPath outputDir) ∧
      along (input.outputPath outputDir) ≠ along (other.outputPath outputDir) := by
  obtain ⟨front₁, last₁, hbelow₁⟩ := hinput.below outputDir
  obtain ⟨front₂, last₂, hbelow₂⟩ := hother.below outputDir
  exact hbelow₁.along_not_mem_way h hbelow₂ hrefusal hspares.1

/-- Sources that are apart put the same where they both put something. -/
theorem Apart.eq_of_puts {other : SourceInput} (hapart : input.Apart outputDir other)
    (h : tree.WellFormed) (hinput : input.Discovered tree) (hother : other.Discovered tree)
    {location : Location} {entry entry' : Files.Entry}
    (hputs : input.puts definitions outputDir tree location = some entry)
    (hputs' : other.puts definitions outputDir tree location = some entry') : entry = entry' := by
  rcases puts_eq_some hputs with ⟨hrefusal, hplace, -⟩ | ⟨-, hway, rfl⟩
  · obtain ⟨hway, hne⟩ := hapart.1.along_not_mem_way h hinput hother hrefusal
    rcases puts_eq_some hputs' with ⟨-, hplace', -⟩ | ⟨-, hway', -⟩
    · exact absurd (hplace.symm.trans hplace') hne
    · exact absurd (hplace ▸ hway') hway
  · rcases puts_eq_some hputs' with ⟨hrefusal', hplace', -⟩ | ⟨-, -, rfl⟩
    · have hway' := (hapart.2.along_not_mem_way h hother hinput hrefusal').1
      exact absurd (hplace' ▸ hway) hway'
    · rfl

end SourceInput

section After

variable (definitions : DefinitionSource) (outputDir : String)

/-- What the files are after sources have been processed that were found in a tree. -/
structure After (tree : Tree) (done : List SourceInput) (after : Tree) : Prop where
  wellFormed : after.WellFormed
  kept : ∀ location, (∀ input ∈ done, input.puts definitions outputDir tree location = none) →
    after.entry? location = tree.entry? location
  put : ∀ input ∈ done, ∀ location entry,
    input.puts definitions outputDir tree location = some entry →
      after.entry? location = some entry

variable {definitions outputDir} {tree after : Tree} {done : List SourceInput}

theorem After.refl (h : tree.WellFormed) : After definitions outputDir tree [] tree :=
  ⟨h, fun _ _ ↦ rfl, List.forall_mem_nil _⟩

/-- At every location there is what some source put there, or what was there before. -/
theorem After.cases (h : After definitions outputDir tree done after) (location : Location) :
    (∃ input ∈ done, ∃ entry, input.puts definitions outputDir tree location = some entry ∧
      after.entry? location = some entry) ∨
    (∀ input ∈ done, input.puts definitions outputDir tree location = none) ∧
      after.entry? location = tree.entry? location := by
  by_cases hput : ∃ input ∈ done, ∃ entry,
      input.puts definitions outputDir tree location = some entry
  · obtain ⟨input, hinput, entry, hentry⟩ := hput
    exact .inl ⟨input, hinput, entry, hentry, h.put input hinput location entry hentry⟩
  · have hnone : ∀ input ∈ done, input.puts definitions outputDir tree location = none := by
      intro input hinput
      rw [Option.eq_none_iff_forall_ne_some]
      exact fun entry hentry ↦ hput ⟨input, hinput, entry, hentry⟩
    exact .inr ⟨hnone, h.kept location hnone⟩

/-- The order in which sources were processed cannot be told from the files. -/
theorem After.entry?_eq {done' : List SourceInput} {after' : Tree}
    (h : After definitions outputDir tree done after)
    (h' : After definitions outputDir tree done' after')
    (hdone : ∀ input, input ∈ done ↔ input ∈ done') (location : Location) :
    after.entry? location = after'.entry? location := by
  rcases h.cases location with ⟨input, hinput, entry, hputs, hentry⟩ | ⟨hnone, hsame⟩
  · rw [hentry, h'.put input ((hdone input).1 hinput) location entry hputs]
  · rw [hsame, h'.kept location fun input hinput ↦ hnone input ((hdone input).2 hinput)]

/-- Directories stay directories. -/
theorem After.directory (h : After definitions outputDir tree done after) {location : Location}
    (hdirectory : tree.entry? location = some .directory) :
    after.entry? location = some .directory := by
  rcases h.cases location with ⟨input, -, entry, hputs, hentry⟩ | ⟨-, hsame⟩
  · rcases SourceInput.puts_eq_some hputs with ⟨hrefusal, hplace, -⟩ | ⟨-, -, rfl⟩
    · have hfree := (refusal?_eq_none_iff.1 hrefusal).2.2
      rw [← hplace, isDirectory_iff.2 hdirectory] at hfree
      cases hfree
    · exact hentry
  · rw [hsame, hdirectory]

variable {input : SourceInput}

/-- A source that the ones before it spare is read as it was. -/
theorem After.readText_eq (h : After definitions outputDir tree done after)
    (hinput : input.Discovered tree)
    (hspares : ∀ earlier ∈ done, earlier.Spares outputDir input) :
    after.readText input.path = tree.readText input.path := by
  obtain ⟨content, hfind⟩ := hinput.file
  have hfile := (find_eq_ok_iff.1 hfind).2
  have hsame : after.entry? (along input.path) = tree.entry? (along input.path) := by
    rcases h.cases (along input.path) with ⟨earlier, hearlier, entry, hputs, -⟩ | ⟨-, hsame⟩
    · rcases SourceInput.puts_eq_some hputs with ⟨-, hplace, -⟩ | ⟨hobstacle, hway, -⟩
      · exact absurd hplace.symm (hspares earlier hearlier).2
      · have hfree := obstacleTo?_eq_none_iff.1 hobstacle _ hway
        rw [blocks_eq_true_iff.2 ⟨content, hfile⟩] at hfree
        cases hfree
    · exact hsame
  rw [readText, readText, hfind, find_of_directories hfind (fun _ ↦ h.directory) hsame]

/-- Whether a document can be written is not changed by sources that are apart from its own. -/
theorem After.refusal?_eq (h : After definitions outputDir tree done after)
    (htree : tree.WellFormed) (hinput : input.Discovered tree)
    (hdone : ∀ earlier ∈ done, earlier.Discovered tree ∧ earlier.Apart outputDir input) :
    after.obstacleTo? (input.outputPath outputDir) =
        tree.obstacleTo? (input.outputPath outputDir) ∧
      after.refusal? (input.outputPath outputDir) =
        tree.refusal? (input.outputPath outputDir) := by
  have hway : ∀ inner ∈ way (input.outputPath outputDir),
      tree.blocks inner = after.blocks inner := by
    intro inner hinner
    rcases h.cases inner with ⟨earlier, hearlier, entry, hputs, hentry⟩ | ⟨-, hsame⟩
    · obtain ⟨hfound, hapart⟩ := hdone earlier hearlier
      rcases SourceInput.puts_eq_some hputs with ⟨hrefusal, hplace, -⟩ | ⟨hobstacle, hinner', rfl⟩
      · have hapart := hapart.1.along_not_mem_way htree hfound hinput hrefusal
        exact absurd (hplace ▸ hinner) hapart.1
      · rw [obstacleTo?_eq_none_iff.1 hobstacle inner hinner', blocks, hentry]
    · rw [blocks, blocks, hsame]
  have hplace : tree.obstacleTo? (input.outputPath outputDir) = none →
      along (input.outputPath outputDir) ∉ way (input.outputPath outputDir) →
      tree.isDirectory (along (input.outputPath outputDir)) =
        after.isDirectory (along (input.outputPath outputDir)) := by
    intro hobstacle hnot
    rcases h.cases (along (input.outputPath outputDir)) with
      ⟨earlier, hearlier, entry, hputs, hentry⟩ | ⟨-, hsame⟩
    · obtain ⟨hfound, hapart⟩ := hdone earlier hearlier
      rcases SourceInput.puts_eq_some hputs with ⟨hrefusal, hplace, -⟩ | ⟨-, hinner, rfl⟩
      · have hapart := hapart.1.along_not_mem_way htree hfound hinput hrefusal
        exact absurd hplace.symm hapart.2
      · -- The directory on the way of the other document was there before.
        rw [isDirectory_iff.2 hentry, ← Bool.not_eq_false]
        intro hfree
        have hrefusal := refusal?_eq_none_iff.2 ⟨hobstacle, hnot, hfree⟩
        exact (hapart.2.along_not_mem_way htree hinput hfound hrefusal).1 hinner
    · rw [isDirectory, isDirectory, hsame]
  obtain ⟨hobstacle, hrefusal⟩ := refusal?_congr hway hplace
  exact ⟨hobstacle.symm, hrefusal.symm⟩

/-- A source that is apart from those before it gives what it gives alone. -/
theorem After.step (h : After definitions outputDir tree done after) (htree : tree.WellFormed)
    (hinput : input.Discovered tree)
    (hdone : ∀ earlier ∈ done, earlier.Discovered tree ∧ earlier.Apart outputDir input) :
    (input.outcome definitions outputDir after).result =
        (input.outcome definitions outputDir tree).result ∧
      After definitions outputDir tree (input :: done)
        (input.outcome definitions outputDir after).tree := by
  have hread := h.readText_eq hinput fun earlier hearlier ↦ (hdone earlier hearlier).2.1
  obtain ⟨hobstacle, hrefusal⟩ := h.refusal?_eq htree hinput hdone
  obtain ⟨hresult, hafter, hentries⟩ :=
    SourceInput.outcome_spec definitions h.wellFormed (hinput.ends outputDir)
  refine ⟨?_, hafter, fun location hnone ↦ ?_, fun other hother location entry hputs ↦ ?_⟩
  · rw [hresult, (SourceInput.outcome_spec definitions htree (hinput.ends outputDir)).1, hread,
      hrefusal]
  · obtain ⟨hnone, hnones⟩ := List.forall_mem_cons.1 hnone
    rw [hentries, SourceInput.puts_congr hread hobstacle hrefusal, hnone, Option.none_or,
      h.kept location hnones]
  · rw [hentries, SourceInput.puts_congr hread hobstacle hrefusal]
    rcases List.mem_cons.1 hother with rfl | hother
    · rw [hputs, Option.some_or]
    · obtain ⟨hfound, hapart⟩ := hdone other hother
      cases hputs' : input.puts definitions outputDir tree location with
      | none => rw [Option.none_or, h.put other hother location entry hputs]
      | some entry' => rw [Option.some_or, hapart.eq_of_puts htree hfound hinput hputs hputs']

/-- A document that could be written is found at its place. -/
theorem After.readText_output (h : After definitions outputDir tree done after)
    (hinput : input.Discovered tree) (hdone : input ∈ done) {document : String}
    (hdocument : input.document? definitions tree = some document)
    (hrefusal : tree.refusal? (input.outputPath outputDir) = none) :
    after.readText (input.outputPath outputDir) = .ok document := by
  obtain ⟨front, last, hends⟩ := hinput.ends outputDir
  have hputs : ∀ location, input.puts definitions outputDir tree location =
      tree.puts (input.outputPath outputDir) document location := by
    intro location
    rw [SourceInput.puts, hdocument, Option.bind_some]
  have hway : ∀ inner ∈ way (input.outputPath outputDir),
      after.entry? inner = some .directory := by
    intro inner hinner
    apply h.put input hdone
    rw [hputs, puts_of_mem_way (refusal?_eq_none_iff.1 hrefusal).1 hinner]
  have hplace : after.entry? (along (input.outputPath outputDir)) =
      some (.file document.toUTF8) := by
    apply h.put input hdone
    rw [hputs, puts_along hrefusal]
  refine readText_of_find (find_eq_ok_iff.2 ⟨?_, hplace⟩)
  rw [follow_eq hends.ne_empty]
  exact (h.wellFormed.foldlM_step_pieces hends hway).1

end After

/-! ## Whole runs -/

section Process

variable (definitions : DefinitionSource) (outputDir : String)

/-- What becomes of sources that are processed one after another, and the files afterwards. -/
def processAll (tree : Tree) :
    List SourceInput → List (SourceInput × Except RunError SourceResult) × Tree
  | [] => ([], tree)
  | input :: rest =>
    let outcome := generateFile definitions tree input.path (input.outputPath outputDir)
    let processed := processAll outcome.tree rest
    ((input, outcome.result) :: processed.1, processed.2)

/-- What became of sources, in the order in which they were found. -/
def RunResult.gather (inputs : List SourceInput)
    (outcomes : List (SourceInput × Except RunError SourceResult)) : RunResult :=
  inputs.foldl (fun result input ↦ (outcomes.lookup input).elim result (result.add input)) .empty

variable {definitions outputDir} {tree : Tree}

theorem foldl_processInput (inputs : List SourceInput) (state : RunState) :
    (inputs.foldl (processInput definitions outputDir) state).result =
        (processAll definitions outputDir state.tree inputs).1.foldl
          (fun result outcome ↦ result.add outcome.1 outcome.2) state.result ∧
      (inputs.foldl (processInput definitions outputDir) state).tree =
        (processAll definitions outputDir state.tree inputs).2 := by
  induction inputs generalizing state with
  | nil => exact ⟨rfl, rfl⟩
  | cons input inputs ih => exact ih (processInput definitions outputDir state input)

/-- Whatever is processed, the tree stays well-formed. -/
theorem wellFormed_processAll (definitions : DefinitionSource) {inputs : List SourceInput}
    (h : tree.WellFormed)
    (hinputs : ∀ input ∈ inputs, ∃ front last, Ends (input.outputPath outputDir) front last) :
    (processAll definitions outputDir tree inputs).2.WellFormed := by
  induction inputs generalizing tree with
  | nil => exact h
  | cons input inputs ih =>
    obtain ⟨hinput, hinputs⟩ := List.forall_mem_cons.1 hinputs
    exact ih (SourceInput.outcome_spec definitions h hinput).2.1 hinputs

/-- Sources that are apart give what each gives alone. -/
theorem After.of_processAll {done : List SourceInput} {after : Tree} {inputs : List SourceInput}
    (h : After definitions outputDir tree done after) (htree : tree.WellFormed)
    (hinputs : ∀ input ∈ inputs, input.Discovered tree)
    (hdone : ∀ earlier ∈ done, earlier.Discovered tree)
    (hbetween : ∀ earlier ∈ done, ∀ input ∈ inputs, earlier.Apart outputDir input)
    (hapart : inputs.Pairwise (SourceInput.Apart outputDir)) :
    (processAll definitions outputDir after inputs).1 =
        inputs.map (fun input ↦ (input, (input.outcome definitions outputDir tree).result)) ∧
      After definitions outputDir tree (inputs.reverse ++ done)
        (processAll definitions outputDir after inputs).2 := by
  induction inputs generalizing done after with
  | nil => exact ⟨rfl, h⟩
  | cons input inputs ih =>
    obtain ⟨hinput, hinputs⟩ := List.forall_mem_cons.1 hinputs
    obtain ⟨hfirst, hapart⟩ := List.pairwise_cons.1 hapart
    obtain ⟨hresult, hafter⟩ := h.step htree hinput fun earlier hearlier ↦
      ⟨hdone earlier hearlier, hbetween earlier hearlier input List.mem_cons_self⟩
    obtain ⟨hresults, hfinal⟩ := ih hafter hinputs (List.forall_mem_cons.2 ⟨hinput, hdone⟩)
      (List.forall_mem_cons.2 ⟨hfirst, fun earlier hearlier other hother ↦
        hbetween earlier hearlier other (List.mem_cons_of_mem _ hother)⟩) hapart
    constructor
    · rw [List.map_cons, ← hresult, ← hresults]
      rfl
    · rw [List.reverse_cons, List.append_assoc]
      exact hfinal

/-- Sources that are apart give what each gives alone, in whatever order they are processed. -/
theorem processAll_of_apart (definitions : DefinitionSource) {order : List SourceInput}
    (htree : tree.WellFormed) (horder : ∀ input ∈ order, input.Discovered tree)
    (hapart : order.Pairwise (SourceInput.Apart outputDir)) :
    (processAll definitions outputDir tree order).1 =
        order.map (fun input ↦ (input, (input.outcome definitions outputDir tree).result)) ∧
      After definitions outputDir tree order.reverse
        (processAll definitions outputDir tree order).2 := by
  have hnone : After definitions outputDir tree [] tree := .refl htree
  have hall := hnone.of_processAll htree horder (List.forall_mem_nil _) (List.forall_mem_nil _)
    hapart
  rwa [List.append_nil] at hall

/-- Gathering restores the order in which sources were found. -/
theorem RunResult.gather_map {inputs order : List SourceInput}
    (h : ∀ input ∈ inputs, input ∈ order) (outcome : SourceInput → Except RunError SourceResult) :
    RunResult.gather inputs (order.map fun input ↦ (input, outcome input)) =
      inputs.foldl (fun result input ↦ result.add input (outcome input)) .empty := by
  refine List.foldl_ext _ _ _ fun result input hinput ↦ ?_
  rw [List.lookup_graph outcome (h input hinput)]
  rfl

theorem RunResult.exists_of_mem_written {outcome : SourceInput → Except RunError SourceResult}
    {inputs : List SourceInput} {result : RunResult} {output : String}
    (h : output ∈ (inputs.foldl (fun result input ↦ result.add input (outcome input))
      result).written) :
    output ∈ result.written ∨
      ∃ input ∈ inputs, ∃ source, outcome input = .ok source ∧ source.written = some output := by
  induction inputs generalizing result with
  | nil => exact .inl h
  | cons input inputs ih =>
    rcases ih h with hmem | ⟨later, hlater, source, hsource⟩
    · change output ∈ (result.add input (outcome input)).written at hmem
      cases houtcome : outcome input with
      | error error =>
        rw [houtcome] at hmem
        exact .inl hmem
      | ok source =>
        rw [houtcome] at hmem
        rcases List.mem_append.1 hmem with hmem | hmem
        · exact .inl hmem
        · exact .inr ⟨input, List.mem_cons_self, source, houtcome, Option.mem_toList.1 hmem⟩
    · exact .inr ⟨later, List.mem_cons_of_mem _ hlater, source, hsource⟩

end Process

/-- A run processes the sources that were found, one after the other, and gathers what became of
them. -/
theorem run_eq (settings : Settings) {tree : Tree} {paths : List String}
    {inputs : List SourceInput} (h : discover tree paths = .ok inputs) :
    (run settings tree paths).result = .ok ((processAll
        (loadEnvironment tree settings).1.definition settings.outputDir tree inputs).1.foldl
          (fun result outcome ↦ result.add outcome.1 outcome.2) .empty) ∧
      (run settings tree paths).tree = (processAll
        (loadEnvironment tree settings).1.definition settings.outputDir tree inputs).2 := by
  simp only [run, h]
  obtain ⟨hresult, hfinal⟩ := foldl_processInput inputs _
  exact ⟨congrArg Except.ok hresult, hfinal⟩

/-- A run leaves a well-formed tree. -/
theorem wellFormed_run (settings : Settings) {tree : Tree} (h : tree.WellFormed)
    (paths : List String) : (run settings tree paths).tree.WellFormed := by
  cases hinputs : discover tree paths with
  | error error =>
    simp only [run, hinputs]
    exact h
  | ok inputs =>
    rw [(run_eq settings hinputs).2]
    exact wellFormed_processAll _ h fun input hinput ↦
      (discovered_of_discover h hinputs input hinput).ends settings.outputDir

/-- The sources of one input path have different output paths, and output paths of sources are the
same exactly if the relative paths differ in the extension at most. If the sources of a run are
apart, its result and the files afterwards do not depend on the order in which they are processed,
and every document that was written is the one of its source. -/
theorem outputs_of_discovered_sources {tree : Tree} (htree : tree.WellFormed) (settings : Settings)
    {paths : List String} {inputs : List SourceInput} (hinputs : discover tree paths = .ok inputs) :
    (∀ root ∈ paths, ∀ found, discoverPath tree root = .ok found → ∀ outputDir,
        (found.map fun input ↦ input.outputPath outputDir).Nodup) ∧
      (∀ first ∈ inputs, ∀ second ∈ inputs, ∀ outputDir,
        (first.outputPath outputDir = second.outputPath outputDir ↔
          SourceInput.stem? first.relative = SourceInput.stem? second.relative)) ∧
      (inputs.Pairwise (SourceInput.Apart settings.outputDir) →
        ∃ result, (run settings tree paths).result = .ok result ∧
          (∀ order, order.Perm inputs →
            let processed := processAll (loadEnvironment tree settings).1.definition
              settings.outputDir tree order
            RunResult.gather inputs processed.1 = result ∧
              ∀ location, entry? processed.2 location =
                entry? (run settings tree paths).tree location) ∧
          ∀ output ∈ result.written, ∃ input ∈ inputs,
            input.outputPath settings.outputDir = output ∧
              ∃ text document, tree.readText input.path = .ok text ∧
                (generateSource (loadEnvironment tree settings).1.definition (some input.path)
                  text).document = some document ∧
                (run settings tree paths).tree.readText output = .ok document) := by
  have hfound := discovered_of_discover htree hinputs
  refine ⟨fun root _ found hroot outputDir ↦ nodup_outputPath_of_discoverPath htree hroot outputDir,
    fun first hfirst second hsecond outputDir ↦
      SourceInput.outputPath_eq_iff (hfound first hfirst) (hfound second hsecond) outputDir,
    fun hapart ↦ ?_⟩
  obtain ⟨hresult, hfinal⟩ := run_eq settings hinputs
  generalize (loadEnvironment tree settings).1.definition = definitions at *
  obtain ⟨houtcomes, hafter⟩ := processAll_of_apart definitions htree hfound hapart
  rw [houtcomes, List.foldl_map] at hresult
  rw [hfinal]
  refine ⟨_, hresult, fun order horder ↦ ?_, fun output houtput ↦ ?_⟩
  · obtain ⟨houtcomes', hafter'⟩ := processAll_of_apart definitions htree
      (fun input hinput ↦ hfound input (horder.mem_iff.1 hinput))
      (horder.symm.pairwise hapart SourceInput.Apart.symm)
    constructor
    · rw [houtcomes', RunResult.gather_map fun input hinput ↦ horder.mem_iff.2 hinput]
    · intro location
      refine hafter'.entry?_eq hafter (fun input ↦ ?_) location
      rw [List.mem_reverse, List.mem_reverse, horder.mem_iff]
  · rcases RunResult.exists_of_mem_written houtput with
      hnone | ⟨input, hinput, source, hsource, hwritten⟩
    · cases hnone
    · have hdiscovered := hfound input hinput
      rw [(SourceInput.outcome_spec definitions htree (hdiscovered.ends _)).1] at hsource
      obtain ⟨rfl, hrefusal, text, document, htext, hdocument⟩ :=
        SourceInput.exists_of_written hsource hwritten
      refine ⟨input, hinput, rfl, text, document, htext, hdocument, ?_⟩
      refine hafter.readText_output hdiscovered (List.mem_reverse.2 hinput) ?_ hrefusal
      rw [SourceInput.document?, htext]
      exact hdocument

/-- Two sources in one directory are apart, and both outputs are written. -/
theorem outputs_of_two_sources_below_directory :
    ∃ (tree : Tree) (settings : Settings) (inputs : List SourceInput), tree.WellFormed ∧
      discover tree ["src"] = .ok inputs ∧
        inputs.Pairwise (SourceInput.Apart settings.outputDir) ∧
          ∃ result, (run settings tree ["src"]).result = .ok result ∧
            result.written = ["out/a.rbs", "out/b/c.rbs"] ∧
              ∀ order, order.Perm inputs → RunResult.gather inputs
                (processAll (loadEnvironment tree settings).1.definition settings.outputDir tree
                  order).1 = result := by
  obtain ⟨tree, settings, inputs, htree, hinputs, hapart, hrun⟩ :
      ∃ (tree : Tree) (settings : Settings) (inputs : List SourceInput), tree.WellFormed ∧
        discover tree ["src"] = .ok inputs ∧
          inputs.Pairwise (SourceInput.Apart settings.outputDir) ∧
            (run settings tree ["src"]).result.toOption.map RunResult.written =
              some ["out/a.rbs", "out/b/c.rbs"] :=
    ⟨⟨⟨[(["src"], .directory),
        (["src", "a.rb"], .file "class A\n  delegate :f, to: :b\nend\n".toUTF8),
        (["src", "b"], .directory),
        (["src", "b", "c.rb"], .file "class C\n  delegate :g, to: :d\nend\n".toUTF8)]⟩⟩,
      ⟨[], "out", none, false, false⟩, [⟨"src/a.rb", "a.rb"⟩, ⟨"src/b/c.rb", "b/c.rb"⟩],
      by decide, rfl, by decide, by decide +kernel⟩
  obtain ⟨result, hresult, horder, -⟩ :=
    (outputs_of_discovered_sources htree settings hinputs).2.2 hapart
  refine ⟨tree, settings, inputs, htree, hinputs, hapart, result, hresult, ?_,
    fun order hperm ↦ (horder order hperm).1⟩
  rw [hresult] at hrun
  exact Option.some.inj hrun

/-- Without being apart, sources can overwrite each other's documents: below two input paths the
documents may go to one path, and even documents with different paths may stand in each other's way
or on another source. -/
theorem order_matters_of_not_apart :
    ∃ settings : Settings,
      (∃ (tree : Tree) (inputs : List SourceInput), tree.WellFormed ∧
        discover tree ["a", "b"] = .ok inputs ∧
          ¬(inputs.map fun input ↦ input.outputPath settings.outputDir).Nodup ∧
            (run settings tree ["a", "b"]).tree.readText "out/x.rbs" ≠
              (processAll (loadEnvironment tree settings).1.definition settings.outputDir tree
                inputs.reverse).2.readText "out/x.rbs") ∧
      (∃ (tree : Tree) (inputs : List SourceInput), tree.WellFormed ∧
        discover tree ["src"] = .ok inputs ∧
          (inputs.map fun input ↦ input.outputPath settings.outputDir).Nodup ∧
            (run settings tree ["src"]).tree.readText "out/a.rbs" ≠
              (processAll (loadEnvironment tree settings).1.definition settings.outputDir tree
                inputs.reverse).2.readText "out/a.rbs") ∧
      ∃ (tree : Tree) (inputs : List SourceInput), tree.WellFormed ∧
        discover tree ["src", "out/x/a.rbs"] = .ok inputs ∧
          (inputs.map fun input ↦ input.outputPath settings.outputDir).Nodup ∧
            (run settings tree ["src", "out/x/a.rbs"]).tree.readText "out/a.rbs" ≠
              (processAll (loadEnvironment tree settings).1.definition settings.outputDir tree
                inputs.reverse).2.readText "out/a.rbs" := by
  refine ⟨⟨[], "out", none, false, false⟩, ?_, ?_, ?_⟩
  · exact ⟨⟨⟨[(["a"], .directory),
        (["a", "x.rb"], .file "class A\n  delegate :f, to: :b\nend\n".toUTF8),
        (["b"], .directory),
        (["b", "x.rb"], .file "class B\n  delegate :g, to: :c\nend\n".toUTF8)]⟩⟩,
      [⟨"a/x.rb", "x.rb"⟩, ⟨"b/x.rb", "x.rb"⟩], by decide, rfl, by decide, by decide +kernel⟩
  · exact ⟨⟨⟨[(["src"], .directory),
        (["src", "a.rb"], .file "class A\n  delegate :f, to: :b\nend\n".toUTF8),
        (["src", "a.rbs"], .directory),
        (["src", "a.rbs", "b.rb"], .file "class B\n  delegate :g, to: :c\nend\n".toUTF8)]⟩⟩,
      [⟨"src/a.rb", "a.rb"⟩, ⟨"src/a.rbs/b.rb", "a.rbs/b.rb"⟩], by decide, rfl, by decide,
      by decide +kernel⟩
  · exact ⟨⟨⟨[(["src"], .directory), (["src", "x"], .directory),
        (["src", "x", "a.rb"], .file "class A\n  delegate :f, to: :b\nend\n".toUTF8),
        (["out"], .directory), (["out", "x"], .directory),
        (["out", "x", "a.rbs"], .file "class B\n  delegate :g, to: :c\nend\n".toUTF8)]⟩⟩,
      [⟨"src/x/a.rb", "x/a.rb"⟩, ⟨"out/x/a.rbs", "a.rbs"⟩], by decide, rfl, by decide,
      by decide +kernel⟩

end DeclaredMethods
