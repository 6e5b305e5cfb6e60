import DeclaredMethods.Files.Tree
import DeclaredMethods.Proofs.Files.Paths
import DeclaredMethods.Proofs.OrderedMap.Keys

/-!
# Following paths in file trees

In a well-formed tree everything has a name and stands in a directory. Where a path leads to there
is a matter of the path alone, as long as the directories on the way exist. The files below a
directory are found once each, by the names that lead to them.
-/

namespace DeclaredMethods.Files

namespace Location

/-- The location that a piece of a path leads to from a directory. -/
def move (location : Location) (piece : String) : Location :=
  if isIdle piece then location else if piece == ".." then location.above else location ++ [piece]

/-- The location that a path leads to if all directories on the way exist. -/
def along (path : String) : Location :=
  (pieces path).foldl move (start path)

/-- The locations that pieces of a path lead to by name. -/
def entered (location : Location) : List String → List Location
  | [] => []
  | piece :: rest =>
    if isIdle piece then entered location rest
    else if piece == ".." then entered location.above rest
    else (location ++ [piece]) :: entered (location ++ [piece]) rest

/-- The way along a path can be taken in two parts. -/
theorem entered_append (location : Location) (first second : List String) :
    entered location (first ++ second) =
      entered location first ++ entered (first.foldl move location) second := by
  induction first generalizing location with
  | nil => rfl
  | cons piece first ih =>
    rw [List.cons_append, entered, entered, List.foldl_cons, move]
    split
    · rw [ih]
    · split
      · rw [ih]
      · rw [ih, List.cons_append]

theorem move_of_isName {name : String} (h : IsName name) (location : Location) :
    location.move name = location ++ [name] := by
  rw [move, h.not_idle, if_neg Bool.false_ne_true, if_neg (beq_iff_eq.not.2 h.not_above)]

/-- Names lead down one directory after the other. -/
theorem foldl_move_names {names : List String} (h : ∀ name ∈ names, IsName name)
    (location : Location) : names.foldl move location = location ++ names := by
  induction names generalizing location with
  | nil => rw [List.foldl_nil, List.append_nil]
  | cons name names ih =>
    obtain ⟨hname, hnames⟩ := List.forall_mem_cons.1 h
    rw [List.foldl_cons, move_of_isName hname, ih hnames, List.append_assoc, List.singleton_append]

theorem prefix_of_mem_entered {names : List String} (h : ∀ name ∈ names, IsName name)
    {location inner : Location} (hinner : inner ∈ entered location names) :
    inner <+: location ++ names := by
  induction names generalizing location with
  | nil => cases hinner
  | cons name names ih =>
    obtain ⟨hname, hnames⟩ := List.forall_mem_cons.1 h
    rw [entered, hname.not_idle, if_neg Bool.false_ne_true,
      if_neg (beq_iff_eq.not.2 hname.not_above)] at hinner
    rw [← List.singleton_append, ← List.append_assoc]
    rcases List.mem_cons.1 hinner with rfl | hinner
    · exact List.prefix_append _ _
    · exact ih hnames hinner

/-- Names and one more piece lead by name only to what the piece stands for or to a directory on the
way. -/
theorem prefix_of_move {location : Location} {names target : List String} {piece : String}
    (hpiece : isIdle piece = false) (htarget : ".." ∉ target)
    (h : (location ++ names).move piece = location ++ target) : target <+: names ++ [piece] := by
  rw [move, hpiece, if_neg Bool.false_ne_true] at h
  split at h
  · have hshorter : location ++ target <+: location ++ names := by
      rw [above] at h
      split at h
      · rw [h]
      · split at h
        · rw [List.append_assoc] at h
          rw [← List.append_cancel_left h] at htarget
          exact absurd (List.mem_append_right _ List.mem_cons_self) htarget
        · rw [← h]
          exact List.dropLast_prefix _
    exact ((List.prefix_append_right_inj location).1 hshorter).trans (List.prefix_append _ _)
  · rw [List.append_assoc] at h
    rw [← List.append_cancel_left h]

/-- A location that ends with a name is not given. -/
theorem not_isGiven_concat {name : String} (h : IsName name) (location : Location) :
    (location ++ [name]).isGiven = false := by
  rw [isGiven, Bool.or_eq_false_iff, List.all_append, beq_eq_false_iff_ne]
  constructor
  · simp [h.not_above]
  · intro heq
    cases location with
    | nil =>
      obtain rfl : name = "/" := List.singleton_inj.1 heq
      exact h.no_slash (by decide)
    | cons first rest =>
      have hlength := congrArg List.length heq
      simp at hlength

theorem isGiven_start (path : String) : (start path).isGiven = true := by
  rw [start]
  split <;> rfl

end Location

open Location

namespace Tree

/-! ## Well-formed trees -/

def isDirectory (tree : Tree) (location : Location) : Bool :=
  match tree.entry? location with
  | some .directory => true
  | _ => false

theorem isDirectory_iff {tree : Tree} {location : Location} :
    tree.isDirectory location = true ↔ tree.entry? location = some .directory := by
  rw [isDirectory]
  split
  next hentry => exact ⟨fun _ ↦ hentry, fun _ ↦ rfl⟩
  next hother =>
    constructor
    · intro h
      cases h
    · intro hentry
      exact absurd hentry hother

/-- A tree in which everything has a name, stands in a directory and stands there once. -/
structure WellFormed (tree : Tree) : Prop where
  nodup : tree.entries.keys.Nodup
  named : ∀ location ∈ tree.entries.keys, ∃ name ∈ location.getLast?, IsName name
  enclosed : ∀ location ∈ tree.entries.keys, tree.entry? location.dropLast = some .directory

instance (tree : Tree) : Decidable tree.WellFormed :=
  decidable_of_iff (tree.entries.keys.Nodup ∧
      (∀ location ∈ tree.entries.keys, ∃ name ∈ location.getLast?, IsName name) ∧
      ∀ location ∈ tree.entries.keys, tree.isDirectory location.dropLast = true)
    ⟨fun h ↦ ⟨h.1, h.2.1, fun location hmem ↦ isDirectory_iff.1 (h.2.2 location hmem)⟩,
      fun h ↦ ⟨h.nodup, h.named, fun location hmem ↦ isDirectory_iff.2 (h.enclosed location hmem)⟩⟩

theorem wellFormed_empty : Tree.empty.WellFormed :=
  ⟨List.nodup_nil, List.forall_mem_nil _, List.forall_mem_nil _⟩

theorem entry?_of_isGiven (tree : Tree) {location : Location} (h : location.isGiven = true) :
    tree.entry? location = some .directory :=
  if_pos h

/-- What is put at a location stands there, and everything else stays. -/
theorem entry?_put (tree : Tree) {location : Location} (h : location.isGiven = false)
    (entry : Entry) (other : Location) :
    entry? (tree.put location entry) other =
      if location = other then some entry else tree.entry? other := by
  rw [put, h, if_neg Bool.false_ne_true, entry?, entry?]
  split
  next hother =>
    rw [if_neg]
    rintro rfl
    rw [h] at hother
    cases hother
  next => exact OrderedMap.get?_insert ..

section Follow

variable {tree : Tree} {location : Location}

theorem step_of_directory (h : tree.entry? location = some .directory) (piece : String) :
    tree.step location piece = .ok (location.move piece) := by
  rw [step, h]
  dsimp only
  rw [move]
  split
  · rfl
  · split <;> rfl

/-- A step is taken from a directory only. -/
theorem step_eq_ok {piece : String} {next : Location} (h : tree.step location piece = .ok next) :
    tree.entry? location = some .directory ∧ next = location.move piece := by
  have hdirectory : tree.entry? location = some .directory := by
    rw [step] at h
    split at h
    · cases h
    · cases h
    next hentry => exact hentry
  rw [step_of_directory hdirectory] at h
  exact ⟨hdirectory, (Except.ok.inj h).symm⟩

/-- One more piece is followed from where it stands. -/
theorem foldlM_step_cons {piece : String} {rest : List String} {last : Location}
    (h : (piece :: rest).foldlM tree.step location = .ok last) :
    tree.entry? location = some .directory ∧
      rest.foldlM tree.step (location.move piece) = .ok last := by
  rw [List.foldlM_cons] at h
  cases hstep : tree.step location piece with
  | error error =>
    rw [hstep] at h
    cases h
  | ok next =>
    rw [hstep] at h
    obtain ⟨hdirectory, rfl⟩ := step_eq_ok hstep
    exact ⟨hdirectory, h⟩

/-- Where pieces lead to does not depend on the tree, only whether they lead anywhere. -/
theorem eq_foldl_move_of_foldlM_step {parts : List String} {last : Location}
    (h : parts.foldlM tree.step location = .ok last) : last = parts.foldl move location := by
  induction parts generalizing location with
  | nil => exact (Except.ok.inj h).symm
  | cons piece rest ih => exact ih (foldlM_step_cons h).2

/-- Pieces that lead somewhere still do when there are more directories. -/
theorem foldlM_step_of_directories {other : Tree} {parts : List String} {last : Location}
    (hdirectories : ∀ passed, tree.entry? passed = some .directory →
      other.entry? passed = some .directory)
    (h : parts.foldlM tree.step location = .ok last) :
    parts.foldlM other.step location = .ok last := by
  induction parts generalizing location with
  | nil => exact h
  | cons piece rest ih =>
    obtain ⟨hdirectory, hrest⟩ := foldlM_step_cons h
    rw [List.foldlM_cons, step_of_directory (hdirectories location hdirectory)]
    exact ih hrest

end Follow

namespace WellFormed

variable {tree : Tree}

/-- What stands at a location that is not given stands in a directory. -/
theorem directory_dropLast (h : tree.WellFormed) {location : Location} {entry : Entry}
    (hgiven : location.isGiven = false) (hentry : tree.entry? location = some entry) :
    tree.entry? location.dropLast = some .directory := by
  unfold entry? at hentry
  rw [hgiven, if_neg Bool.false_ne_true] at hentry
  exact h.enclosed location (OrderedMap.mem_keys_of_get? hentry)

/-- Above a directory there is a directory. -/
theorem directory_above (h : tree.WellFormed) {location : Location}
    (hdirectory : tree.entry? location = some .directory) :
    tree.entry? location.above = some .directory := by
  rw [above]
  split
  · exact hdirectory
  next hroot =>
    split
    next hgiven =>
      refine tree.entry?_of_isGiven ?_
      rw [isGiven, Bool.or_eq_true] at hgiven ⊢
      rw [List.all_append, hgiven.resolve_right hroot]
      exact .inl rfl
    next hgiven => exact h.directory_dropLast (Bool.eq_false_iff.2 hgiven) hdirectory

/-- Pieces that lead through directories by name lead to a directory. -/
theorem foldlM_step (h : tree.WellFormed) {location : Location} {parts : List String}
    (hdirectory : tree.entry? location = some .directory)
    (hentered : ∀ inner ∈ entered location parts, tree.entry? inner = some .directory) :
    parts.foldlM tree.step location = .ok (parts.foldl move location) ∧
      tree.entry? (parts.foldl move location) = some .directory := by
  induction parts generalizing location with
  | nil => exact ⟨rfl, hdirectory⟩
  | cons piece rest ih =>
    rw [List.foldlM_cons, step_of_directory hdirectory, List.foldl_cons]
    rw [entered] at hentered
    rw [move]
    split
    next hidle =>
      rw [if_pos hidle] at hentered
      exact ih hdirectory hentered
    next hidle =>
      rw [if_neg hidle] at hentered
      split
      next habove =>
        rw [if_pos habove] at hentered
        exact ih (h.directory_above hdirectory) hentered
      next habove =>
        rw [if_neg habove] at hentered
        obtain ⟨hinner, hentered⟩ := List.forall_mem_cons.1 hentered
        exact ih hinner hentered

/-- Names lead from a directory to whatever stands there. -/
theorem foldlM_step_names (h : tree.WellFormed) {location : Location} {names : List String}
    (hnames : ∀ name ∈ names, IsName name) {entry : Entry}
    (hentry : tree.entry? (location ++ names) = some entry) :
    names.foldlM tree.step location = .ok (location ++ names) := by
  induction names using List.reverseRecOn generalizing entry with
  | nil => rw [List.append_nil]; rfl
  | append_singleton names name ih =>
    obtain ⟨hnames, hname⟩ := List.forall_mem_append.1 hnames
    have hname := List.forall_mem_singleton.1 hname
    rw [← List.append_assoc] at hentry ⊢
    have hparent : tree.entry? (location ++ names) = some .directory := by
      have hdropped := h.directory_dropLast (not_isGiven_concat hname _) hentry
      rwa [List.dropLast_concat] at hdropped
    rw [List.foldlM_append, ih hnames hparent, ← move_of_isName hname]
    change tree.step (location ++ names) name >>= pure = _
    rw [step_of_directory hparent]
    rfl

end WellFormed

/-! ## Finding -/

section Find

variable {tree : Tree} {path : String} {location : Location} {entry : Entry}

/-- What a path finds is what stands where it leads to. -/
theorem find_eq_ok_iff :
    tree.find path = .ok (location, entry) ↔
      tree.follow path = .ok location ∧ tree.entry? location = some entry := by
  rw [find]
  cases hfollow : tree.follow path with
  | error error => exact ⟨fun h ↦ (by cases h), fun h ↦ (by cases h.1)⟩
  | ok found =>
    simp only [bind, Except.bind, Except.ok.injEq]
    cases hentry : tree.entry? found with
    | none =>
      constructor
      · intro h
        cases h
      · rintro ⟨rfl, h⟩
        rw [hentry] at h
        cases h
    | some there =>
      constructor
      · intro h
        cases h
        exact ⟨rfl, hentry⟩
      · rintro ⟨rfl, h⟩
        rw [hentry] at h
        cases h
        rfl

theorem isFile_iff : tree.isFile path = true ↔
    ∃ location content, tree.find path = .ok (location, .file content) := by
  rw [isFile]
  split
  next location content hfind => exact ⟨fun _ ↦ ⟨location, content, hfind⟩, fun _ ↦ rfl⟩
  next hother =>
    constructor
    · intro h
      cases h
    · rintro ⟨location, content, hfind⟩
      exact absurd hfind (hother location content)

theorem directory?_eq_some_iff : tree.directory? path = some location ↔
    tree.find path = .ok (location, .directory) := by
  rw [directory?]
  split
  next found hfind =>
    rw [hfind, Option.some.injEq, Except.ok.injEq, Prod.mk.injEq]
    exact (and_iff_left rfl).symm
  next hother =>
    constructor
    · intro h
      cases h
    · intro hfind
      exact absurd hfind (hother location)

theorem ne_empty_of_follow_eq_ok (h : tree.follow path = .ok location) : path ≠ "" := by
  rintro rfl
  cases h

/-- A path is followed piece by piece, from where it starts. -/
theorem follow_eq (h : path ≠ "") :
    tree.follow path = (pieces path).foldlM tree.step (start path) := by
  rw [follow, if_neg (String.isEmpty_iff.not.2 h)]

/-- A path that is followed to its end leads to the location that it describes. -/
theorem eq_along_of_follow_eq_ok (h : tree.follow path = .ok location) : location = along path := by
  rw [follow_eq (ne_empty_of_follow_eq_ok h)] at h
  exact eq_foldl_move_of_foldlM_step h

/-- Without the piece that counts for nothing a path leads to the same directory. -/
theorem foldlM_step_base (h : tree.follow path = .ok location) :
    (base path).foldlM tree.step (start path) = .ok location := by
  rw [follow_eq (ne_empty_of_follow_eq_ok h)] at h
  rw [base]
  split
  next hlast =>
    obtain ⟨front, hfront⟩ := List.getLast?_eq_some_iff.1 hlast
    rw [hfront, List.foldlM_append] at h
    rw [hfront, List.dropLast_concat]
    cases hreached : front.foldlM tree.step (start path) with
    | error error =>
      rw [hreached] at h
      cases h
    | ok reached =>
      rw [hreached] at h
      obtain ⟨-, hrest⟩ := foldlM_step_cons h
      exact hrest
  next => exact h

/-- A path leads to the same place in another tree that has all directories, and the same at that
place. -/
theorem find_of_directories (h : tree.find path = .ok (location, entry)) {other : Tree}
    (hdirectories : ∀ passed, tree.entry? passed = some .directory →
      other.entry? passed = some .directory)
    (hentry : other.entry? location = tree.entry? location) :
    other.find path = .ok (location, entry) := by
  obtain ⟨hfollow, hfound⟩ := find_eq_ok_iff.1 h
  have hpath := ne_empty_of_follow_eq_ok hfollow
  refine find_eq_ok_iff.2 ⟨?_, hentry.trans hfound⟩
  rw [follow_eq hpath] at hfollow ⊢
  exact foldlM_step_of_directories hdirectories hfollow

/-- A file that holds a text is read as this text. -/
theorem readText_of_find {text : String} (h : tree.find path = .ok (location, .file text.toUTF8)) :
    tree.readText path = .ok text := by
  have htext : String.fromUTF8? text.toUTF8 = some text := dif_pos text.isValidUTF8
  rw [readText, h]
  simp only [bind, Except.bind, htext]

end Find

theorem perm_insertSorted (name : String) (names : List String) :
    (insertSorted name names).Perm (name :: names) := by
  induction names with
  | nil => exact .refl _
  | cons other others ih =>
    rw [insertSorted]
    split
    · exact (ih.cons other).trans (.swap name other others)
    · exact .refl _

/-- Sorting names neither adds nor drops one. -/
theorem perm_foldr_insertSorted (names : List String) :
    (names.foldr insertSorted []).Perm names := by
  induction names with
  | nil => exact .refl _
  | cons name names ih => exact (perm_insertSorted name _).trans (ih.cons name)

theorem eq_concat_of_nameIn? {directory location : Location} {name : String}
    (h : nameIn? directory location = some name) : location = directory ++ [name] := by
  obtain ⟨hdirectory, hname⟩ := Option.ite_none_right_eq_some.1 h
  obtain ⟨front, rfl⟩ := List.getLast?_eq_some_iff.1 hname
  rw [List.dropLast_concat, beq_iff_eq] at hdirectory
  rw [hdirectory]

/-- The names in a directory are those of what was put there. -/
theorem mem_names {tree : Tree} {directory : Location} {name : String} :
    name ∈ tree.names directory ↔ directory ++ [name] ∈ tree.entries.keys := by
  rw [names, (perm_foldr_insertSorted _).mem_iff, List.mem_filterMap]
  constructor
  · rintro ⟨location, hlocation, hname⟩
    rwa [← eq_concat_of_nameIn? hname]
  · intro h
    refine ⟨_, h, ?_⟩
    rw [nameIn?, List.dropLast_concat, if_pos (beq_self_eq_true _), List.getLast?_concat]

namespace WellFormed

variable {tree : Tree}

theorem nodup_names (h : tree.WellFormed) (directory : Location) :
    (tree.names directory).Nodup := by
  rw [names, (perm_foldr_insertSorted _).nodup_iff]
  refine h.nodup.filterMap fun first second name hfirst hsecond ↦ ?_
  rw [eq_concat_of_nameIn? hfirst, eq_concat_of_nameIn? hsecond]

/-- In a well-formed tree nothing stands under a piece that names nothing. -/
theorem isName_of_mem_names (h : tree.WellFormed) {directory : Location} {name : String}
    (hname : name ∈ tree.names directory) : IsName name := by
  obtain ⟨last, hlast, hisName⟩ := h.named _ (mem_names.1 hname)
  rw [List.getLast?_concat, Option.mem_some_iff] at hlast
  rwa [hlast]

/-- The files below a directory are found by names that lead to them. -/
theorem file_of_mem_filesUpTo (h : tree.WellFormed) {depth : Nat} {directory : Location}
    {names : List String} (hnames : names ∈ tree.filesUpTo depth directory) :
    names ≠ [] ∧ (∀ name ∈ names, IsName name) ∧
      ∃ content, tree.entry? (directory ++ names) = some (.file content) := by
  induction depth generalizing directory names with
  | zero => cases hnames
  | succ depth ih =>
    obtain ⟨name, hname, hmem⟩ := List.mem_flatMap.1 hnames
    have hisName := h.isName_of_mem_names hname
    split at hmem
    next content hentry =>
      obtain rfl := List.mem_singleton.1 hmem
      exact ⟨List.cons_ne_nil _ _, List.forall_mem_singleton.2 hisName, content, hentry⟩
    next =>
      obtain ⟨rest, hrest, rfl⟩ := List.mem_map.1 hmem
      obtain ⟨-, hrests, content, hentry⟩ := ih hrest
      refine ⟨List.cons_ne_nil _ _, List.forall_mem_cons.2 ⟨hisName, hrests⟩, content, ?_⟩
      rwa [List.append_assoc, List.singleton_append] at hentry
    next => cases hmem

theorem head?_of_mem_files {entry : Option Entry} {name : String} {below : List (List String)}
    {names : List String}
    (h : names ∈ match entry with
      | some (.file _) => [[name]]
      | some .directory => below.map (name :: ·)
      | none => []) : names.head? = some name := by
  split at h
  · obtain rfl := List.mem_singleton.1 h
    rfl
  · obtain ⟨rest, -, rfl⟩ := List.mem_map.1 h
    rfl
  · cases h

/-- Every file below a directory is found once. -/
theorem nodup_filesUpTo (h : tree.WellFormed) (depth : Nat) (directory : Location) :
    (tree.filesUpTo depth directory).Nodup := by
  induction depth generalizing directory with
  | zero => exact List.nodup_nil
  | succ depth ih =>
    refine List.nodup_flatMap.2 ⟨fun name _ ↦ ?_, (h.nodup_names directory).imp ?_⟩
    · split
      · exact List.nodup_singleton _
      · exact (ih _).map (List.cons_injective)
      · exact List.nodup_nil
    · -- Files below different names differ in their first names.
      intro first second hne names hfirst hsecond
      have hhead := (head?_of_mem_files hfirst).symm.trans (head?_of_mem_files hsecond)
      exact hne (Option.some.inj hhead)

end WellFormed

end Tree

end DeclaredMethods.Files
