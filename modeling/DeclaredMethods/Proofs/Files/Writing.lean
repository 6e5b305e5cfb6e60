import DeclaredMethods.Proofs.Files.Trees

/-!
# What writing does to a file tree

Writing a file makes the directories on the way to it, unless a file is in the way, and then puts
the file at its place, unless a directory is there. So what writing does is told by which of these
locations are files and directories before. Of two paths below one directory, one can only be in the
way of the other if it is the other or stands above it.
-/

namespace DeclaredMethods.Files

open Location

namespace Tree

def blocks (tree : Tree) (location : Location) : Bool :=
  match tree.entry? location with
  | some (.file _) => true
  | _ => false

/-- The error that the first file in the way of pieces of a path gives. -/
def obstacle? (blocks : Location → Bool) (location : Location) : List String → Option FileError
  | [] => none
  | piece :: rest =>
    if isIdle piece then obstacle? blocks location rest
    else if piece == ".." then obstacle? blocks location.above rest
    else if blocks (location ++ [piece]) then
      some (if rest.all isIdle then .alreadyExists else .notADirectory)
    else obstacle? blocks (location ++ [piece]) rest

def makeDirectory (tree : Tree) (location : Location) : Tree :=
  match tree.entry? location with
  | none => tree.put location .directory
  | some _ => tree

theorem blocks_eq_true_iff {tree : Tree} {location : Location} :
    tree.blocks location = true ↔ ∃ content, tree.entry? location = some (.file content) := by
  rw [blocks]
  split
  next content hentry => exact ⟨fun _ ↦ ⟨content, hentry⟩, fun _ ↦ rfl⟩
  next hother =>
    constructor
    · intro h
      cases h
    · rintro ⟨content, hentry⟩
      exact absurd hentry (hother content)

/-- Where no file stands, there is a directory or nothing. -/
theorem entry?_of_blocks_eq_false {tree : Tree} {location : Location}
    (h : tree.blocks location = false) :
    tree.entry? location = none ∨ tree.entry? location = some .directory := by
  cases hentry : tree.entry? location with
  | none => exact .inl rfl
  | some entry =>
    cases entry with
    | directory => exact .inr rfl
    | file content =>
      rw [blocks_eq_true_iff.2 ⟨content, hentry⟩] at h
      cases h

/-- Nothing is in the way exactly if no file stands on it. -/
theorem obstacle?_eq_none_iff {blocks : Location → Bool} {location : Location}
    {parts : List String} :
    obstacle? blocks location parts = none ↔
      ∀ inner ∈ entered location parts, blocks inner = false := by
  induction parts generalizing location with
  | nil => exact ⟨fun _ ↦ List.forall_mem_nil _, fun _ ↦ rfl⟩
  | cons piece rest ih =>
    rw [obstacle?, entered]
    split
    · exact ih
    · split
      · exact ih
      · rw [List.forall_mem_cons, ← ih]
        cases blocks (location ++ [piece]) with
        | true => simp
        | false => simp

/-- Only what stands at the entered locations can be in the way. -/
theorem obstacle?_congr {blocks other : Location → Bool} {location : Location} {parts : List String}
    (h : ∀ inner ∈ entered location parts, blocks inner = other inner) :
    obstacle? blocks location parts = obstacle? other location parts := by
  induction parts generalizing location with
  | nil => rfl
  | cons piece rest ih =>
    rw [entered] at h
    rw [obstacle?, obstacle?]
    split
    next hidle =>
      rw [if_pos hidle] at h
      exact ih h
    next hidle =>
      rw [if_neg hidle] at h
      split
      next habove =>
        rw [if_pos habove] at h
        exact ih h
      next habove =>
        rw [if_neg habove, List.forall_mem_cons] at h
        rw [h.1, ih h.2]

section MakeDirectory

variable (tree : Tree)

theorem entry?_makeDirectory (location other : Location) :
    entry? (tree.makeDirectory location) other =
      (tree.entry? other).or (if location = other then some .directory else none) := by
  rw [makeDirectory]
  split
  next hentry =>
    have hgiven : location.isGiven = false := by
      rw [Bool.eq_false_iff]
      intro hgiven
      rw [tree.entry?_of_isGiven hgiven] at hentry
      cases hentry
    rw [tree.entry?_put hgiven]
    split
    next hother =>
      subst hother
      rw [hentry]
      rfl
    next => rw [Option.or_none]
  next entry hentry =>
    split
    next hother =>
      subst hother
      rw [hentry]
      rfl
    next => rw [Option.or_none]

/-- A directory is in nobody's way. -/
theorem blocks_makeDirectory (location : Location) :
    (tree.makeDirectory location).blocks = tree.blocks := by
  funext other
  rw [blocks, blocks, entry?_makeDirectory]
  cases tree.entry? other with
  | some entry => rfl
  | none => by_cases hother : location = other <;> simp [hother]

/-- Directories are made where nothing stands, and nothing else changes. -/
theorem entry?_foldl_makeDirectory (locations : List Location) (other : Location) :
    entry? (locations.foldl makeDirectory tree) other =
      (tree.entry? other).or (if other ∈ locations then some .directory else none) := by
  induction locations generalizing tree with
  | nil => rw [if_neg List.not_mem_nil, Option.or_none, List.foldl_nil]
  | cons location locations ih =>
    rw [List.foldl_cons, ih, entry?_makeDirectory, Option.or_assoc]
    congr 1
    by_cases hfirst : location = other
    · subst hfirst
      simp
    · simp [hfirst, Ne.symm hfirst]

/-- Directories are made on the way of a path, unless a file is in the way. -/
theorem makeDirectories_eq (location : Location) (parts : List String) :
    tree.makeDirectories location parts =
      match obstacle? tree.blocks location parts with
      | some error => .error error
      | none => .ok ((entered location parts).foldl makeDirectory tree) := by
  induction parts generalizing tree location with
  | nil => rfl
  | cons piece rest ih =>
    rw [makeDirectories, obstacle?, entered]
    split
    · exact ih tree location
    · split
      · exact ih tree location.above
      · dsimp only
        rw [List.foldl_cons]
        split
        next hentry =>
          have hfree : ¬tree.blocks (location ++ [piece]) = true := by
            rw [blocks, hentry]
            exact Bool.false_ne_true
          have hmade : tree.makeDirectory (location ++ [piece]) = tree := by
            rw [makeDirectory, hentry]
          rw [if_neg hfree, hmade]
          exact ih tree _
        next content hentry =>
          rw [if_pos (blocks_eq_true_iff.2 ⟨content, hentry⟩)]
        next hentry =>
          have hfree : ¬tree.blocks (location ++ [piece]) = true := by
            rw [blocks, hentry]
            exact Bool.false_ne_true
          have hmade : tree.makeDirectory (location ++ [piece]) =
              tree.put (location ++ [piece]) .directory := by
            rw [makeDirectory, hentry]
          rw [if_neg hfree, ← hmade, ih, blocks_makeDirectory]

end MakeDirectory

namespace WellFormed

variable {tree : Tree}

/-- What is put into a directory under a name keeps a tree well-formed, unless it takes the place of
a directory. -/
theorem put (h : tree.WellFormed) {location : Location} {name : String} (hname : IsName name)
    (hdirectory : tree.entry? location = some .directory) {entry : Entry}
    (hplace : tree.entry? (location ++ [name]) = some .directory → entry = .directory) :
    (tree.put (location ++ [name]) entry).WellFormed := by
  have hgiven := not_isGiven_concat hname location
  have hkeys : ∀ other ∈ (tree.put (location ++ [name]) entry).entries.keys,
      other = location ++ [name] ∨ other ∈ tree.entries.keys := by
    intro other hother
    rw [Tree.put, hgiven] at hother
    exact OrderedMap.mem_keys_alter.1 hother
  refine ⟨?_, fun other hother ↦ ?_, fun other hother ↦ ?_⟩
  · rw [Tree.put, hgiven]
    exact OrderedMap.nodup_keys_alter h.nodup _ _
  · rcases hkeys other hother with rfl | hother
    · exact ⟨name, List.getLast?_concat .., hname⟩
    · exact h.named other hother
  · have hkept : ∀ {passed : Location}, tree.entry? passed = some .directory →
        entry? (tree.put (location ++ [name]) entry) passed = some .directory := by
      intro passed hpassed
      rw [tree.entry?_put hgiven]
      split
      next heq =>
        subst heq
        rw [hplace hpassed]
      next => exact hpassed
    rcases hkeys other hother with rfl | hother
    · rw [List.dropLast_concat]
      exact hkept hdirectory
    · exact hkept (h.enclosed other hother)

/-- A directory inside another one keeps a tree well-formed. -/
theorem makeDirectory (h : tree.WellFormed) {location : Location} {name : String}
    (hname : IsName name) (hdirectory : tree.entry? location = some .directory) :
    (tree.makeDirectory (location ++ [name])).WellFormed := by
  rw [Tree.makeDirectory]
  split
  · exact h.put hname hdirectory fun _ ↦ rfl
  · exact h

/-- Making the directories on the way of a path keeps a tree well-formed. -/
theorem foldl_makeDirectory (h : tree.WellFormed) {location : Location} {parts : List String}
    (hparts : ∀ part ∈ parts, '/' ∉ part.toList)
    (hdirectory : tree.entry? location = some .directory)
    (hfree : ∀ inner ∈ entered location parts, tree.blocks inner = false) :
    ((entered location parts).foldl Tree.makeDirectory tree).WellFormed := by
  induction parts generalizing tree location with
  | nil => exact h
  | cons piece rest ih =>
    obtain ⟨hpiece, hrest⟩ := List.forall_mem_cons.1 hparts
    rw [entered] at hfree ⊢
    split
    next hidle =>
      rw [if_pos hidle] at hfree
      exact ih h hrest hdirectory hfree
    next hidle =>
      rw [if_neg hidle] at hfree
      split
      next habove =>
        rw [if_pos habove] at hfree
        exact ih h hrest (h.directory_above hdirectory) hfree
      next habove =>
        rw [if_neg habove, List.forall_mem_cons] at hfree
        have hname : IsName piece :=
          ⟨Bool.eq_false_iff.2 hidle, beq_iff_eq.not.1 habove, hpiece⟩
        refine ih (h.makeDirectory hname hdirectory) hrest ?_ ?_
        · rw [entry?_makeDirectory, if_pos rfl]
          rcases entry?_of_blocks_eq_false hfree.1 with hnone | hthere
          · rw [hnone]
            rfl
          · rw [hthere]
            rfl
        · rw [blocks_makeDirectory]
          exact hfree.2

end WellFormed

/-! ## Writing files -/

/-- The locations in front of the last piece of a path that it leads to by name. -/
def way (path : String) : List Location :=
  match splitLast? path with
  | none => []
  | some (front, _) => entered (start path) front

/-- The tree with the directories on the way of a path. -/
def prepared (tree : Tree) (path : String) : Tree :=
  (way path).foldl makeDirectory tree

/-- The error that a file on the way of a path gives. -/
def obstacleTo? (tree : Tree) (path : String) : Option FileError :=
  match splitLast? path with
  | none => none
  | some (front, _) => obstacle? tree.blocks (start path) front

/-- The error that writing to a path gives: a file is on its way, or a directory is at its place
once those on the way are made. -/
def refusal? (tree : Tree) (path : String) : Option FileError :=
  (tree.obstacleTo? path).or
    (if along path ∈ way path ∨ tree.isDirectory (along path) = true then some .isADirectory
    else none)

def puts (tree : Tree) (path text : String) (location : Location) : Option Entry :=
  if (tree.obstacleTo? path).isSome then none
  else if tree.refusal? path = none ∧ location = along path then some (.file text.toUTF8)
  else if location ∈ way path then some .directory
  else none

theorem obstacleTo?_eq_none_iff {tree : Tree} {path : String} :
    tree.obstacleTo? path = none ↔ ∀ inner ∈ way path, tree.blocks inner = false := by
  rw [obstacleTo?, way]
  cases splitLast? path with
  | none => exact ⟨fun _ ↦ List.forall_mem_nil _, fun _ ↦ rfl⟩
  | some split => exact obstacle?_eq_none_iff

/-- The directories on the way of a path are made unless a file is in the way. -/
theorem makeParents_eq (tree : Tree) (path : String) :
    tree.makeParents path =
      match tree.obstacleTo? path with
      | some error => .error error
      | none => .ok (tree.prepared path) := by
  rw [makeParents, obstacleTo?, prepared, way]
  cases splitLast? path with
  | none => rfl
  | some split => exact tree.makeDirectories_eq (start path) split.1

/-- Only the files on the way of a path and a directory at its place matter for writing to it. -/
theorem refusal?_congr {tree other : Tree} {path : String}
    (hway : ∀ inner ∈ way path, tree.blocks inner = other.blocks inner)
    (hplace : tree.obstacleTo? path = none → along path ∉ way path →
      tree.isDirectory (along path) = other.isDirectory (along path)) :
    tree.obstacleTo? path = other.obstacleTo? path ∧ tree.refusal? path = other.refusal? path := by
  have hobstacle : tree.obstacleTo? path = other.obstacleTo? path := by
    rw [way] at hway
    rw [obstacleTo?, obstacleTo?]
    cases hsplit : splitLast? path with
    | none => rfl
    | some split =>
      rw [hsplit] at hway
      exact obstacle?_congr hway
  refine ⟨hobstacle, ?_⟩
  rw [refusal?, refusal?, ← hobstacle]
  cases hfree : tree.obstacleTo? path with
  | some error => rfl
  | none =>
    by_cases hmem : along path ∈ way path
    · rw [if_pos (.inl hmem), if_pos (.inl hmem)]
    · rw [hplace hfree hmem]

structure Ends (path : String) (front : List String) (last : String) : Prop where
  pieces : Files.pieces path = front ++ [last]
  not_idle : isIdle last = false

namespace Ends

variable {path last : String} {front : List String}

theorem way_eq (h : Ends path front last) : way path = entered (start path) front := by
  rw [way, splitLast?_of_pieces h.pieces h.not_idle]

/-- A path leads to its last piece in the directory that the others lead to. -/
theorem along_eq (h : Ends path front last) :
    along path = (front.foldl move (start path)).move last := by
  rw [along, h.pieces, List.foldl_append, List.foldl_cons, List.foldl_nil]

theorem ne_empty (h : Ends path front last) : path ≠ "" := by
  rintro rfl
  have hsplit := splitLast?_of_pieces h.pieces h.not_idle
  cases hsplit

theorem no_slash (h : Ends path front last) : ∀ part ∈ front ++ [last], '/' ∉ part.toList := by
  rw [← h.pieces]
  exact fun part hpart ↦ not_mem_of_mem_pieces hpart

theorem trimmed (h : Ends path front last) :
    ((Files.pieces path).reverse.dropWhile (· == "")).reverse = Files.pieces path := by
  have hlast : ¬(last == "") = true := by
    rw [beq_iff_eq]
    rintro rfl
    exact absurd h.not_idle (by decide)
  rw [h.pieces, List.reverse_append, List.reverse_singleton, List.singleton_append,
    List.dropWhile_cons_of_neg (p := (· == "")) hlast, List.reverse_cons, List.reverse_reverse]

end Ends

namespace WellFormed

variable {tree : Tree} {path last : String} {front : List String}

/-- A path leads to its place if the directories on its way exist. -/
theorem foldlM_step_pieces (h : tree.WellFormed) (hends : Ends path front last)
    (hway : ∀ inner ∈ way path, tree.entry? inner = some .directory) :
    (pieces path).foldlM tree.step (start path) = .ok (along path) ∧
      tree.entry? (front.foldl move (start path)) = some .directory := by
  rw [hends.way_eq] at hway
  obtain ⟨hfront, hdirectory⟩ := h.foldlM_step (tree.entry?_of_isGiven (isGiven_start path)) hway
  refine ⟨?_, hdirectory⟩
  rw [hends.pieces, List.foldlM_append, hfront, hends.along_eq]
  change tree.step _ last >>= pure = _
  rw [step_of_directory hdirectory]
  rfl

/-- With the directories on the way in place, only a directory at the end of it stops a text from
being written. -/
theorem writeText_eq (h : tree.WellFormed) (hends : Ends path front last)
    (hway : ∀ inner ∈ way path, tree.entry? inner = some .directory) (text : String) :
    tree.writeText path text =
      if tree.isDirectory (along path) then .error .isADirectory
      else .ok (tree.put (along path) (.file text.toUTF8)) := by
  have hempty : path.isEmpty = false :=
    Bool.eq_false_iff.2 (String.isEmpty_iff.not.2 hends.ne_empty)
  have hfollow := (h.foldlM_step_pieces hends hway).1
  simp only [writeText, hends.trimmed, hempty, hfollow, Nat.lt_irrefl, if_false,
    Bool.false_eq_true, bind, Except.bind]
  split
  next hentry => rw [if_pos (isDirectory_iff.2 hentry)]
  next content hentry => rw [if_neg (by simp [isDirectory, hentry])]
  next hentry => rw [if_neg (by simp [isDirectory, hentry])]

/-- A path to a place where no directory stands ends with a name. -/
theorem isName_of_isDirectory_eq_false (h : tree.WellFormed) (hends : Ends path front last)
    (hway : ∀ inner ∈ way path, tree.entry? inner = some .directory)
    (hplace : tree.isDirectory (along path) = false) : IsName last := by
  refine ⟨hends.not_idle, ?_, hends.no_slash last (List.mem_append_right _ List.mem_cons_self)⟩
  rintro rfl
  rw [hends.along_eq, isDirectory_iff.2] at hplace
  · cases hplace
  · exact h.directory_above (h.foldlM_step_pieces hends hway).2

/-- A file that is written to a path keeps a tree well-formed. -/
theorem put_along (h : tree.WellFormed) (hends : Ends path front last)
    (hway : ∀ inner ∈ way path, tree.entry? inner = some .directory)
    (hplace : tree.isDirectory (along path) = false) (content : ByteArray) :
    (along path).isGiven = false ∧ (tree.put (along path) (.file content)).WellFormed := by
  have hname := h.isName_of_isDirectory_eq_false hends hway hplace
  have hdirectory := (h.foldlM_step_pieces hends hway).2
  have hfree : tree.entry? (along path) ≠ some .directory := fun hthere ↦ by
    rw [isDirectory_iff.2 hthere] at hplace
    cases hplace
  rw [hends.along_eq, move_of_isName hname] at hfree ⊢
  exact ⟨not_isGiven_concat hname _, h.put hname hdirectory fun hthere ↦ absurd hthere hfree⟩

end WellFormed

section Prepared

variable {tree : Tree} {path last : String} {front : List String}

/-- Preparing the way of a path puts directories there and nothing anywhere else. -/
theorem entry?_prepared (hobstacle : tree.obstacleTo? path = none) (location : Location) :
    entry? (tree.prepared path) location =
      if location ∈ way path then some .directory else tree.entry? location := by
  rw [prepared, entry?_foldl_makeDirectory]
  split
  next hmem =>
    rcases entry?_of_blocks_eq_false (obstacleTo?_eq_none_iff.1 hobstacle location hmem) with h | h
    · rw [h]
      rfl
    · rw [h]
      rfl
  next => exact Option.or_none

theorem entry?_prepared_of_mem_way (hobstacle : tree.obstacleTo? path = none) :
    ∀ inner ∈ way path, entry? (tree.prepared path) inner = some .directory := by
  intro inner hinner
  rw [entry?_prepared hobstacle, if_pos hinner]

theorem isDirectory_prepared_iff (hobstacle : tree.obstacleTo? path = none) (location : Location) :
    (tree.prepared path).isDirectory location = true ↔
      location ∈ way path ∨ tree.isDirectory location = true := by
  rw [isDirectory_iff, isDirectory_iff, entry?_prepared hobstacle]
  split
  next hmem => exact iff_of_true rfl (.inl hmem)
  next hmem => exact (or_iff_right hmem).symm

/-- Preparing the way of a path keeps a tree well-formed. -/
theorem WellFormed.prepared (h : tree.WellFormed) (hends : Ends path front last)
    (hobstacle : tree.obstacleTo? path = none) : (tree.prepared path).WellFormed := by
  have hfree := obstacleTo?_eq_none_iff.1 hobstacle
  rw [hends.way_eq] at hfree
  rw [Tree.prepared, hends.way_eq]
  exact h.foldl_makeDirectory
    (fun part hpart ↦ hends.no_slash part (List.mem_append_left _ hpart))
    (tree.entry?_of_isGiven (isGiven_start path)) hfree

/-- A text can be written unless a file is in the way, or a directory stands where it should go. -/
theorem refusal?_eq_none_iff : tree.refusal? path = none ↔
    tree.obstacleTo? path = none ∧ along path ∉ way path ∧
      tree.isDirectory (along path) = false := by
  rw [refusal?, Option.or_eq_none_iff]
  refine and_congr_right fun _ ↦ ?_
  split
  next h =>
    refine iff_of_false (Option.some_ne_none _) ?_
    rintro ⟨hway, hplace⟩
    rw [hplace] at h
    exact h.elim hway Bool.false_ne_true
  next h =>
    rw [not_or, Bool.not_eq_true] at h
    exact iff_of_true rfl h

/-- A path that a text can be written to ends with a name. -/
theorem WellFormed.isName_of_refusal?_eq_none (h : tree.WellFormed) (hends : Ends path front last)
    (hrefusal : tree.refusal? path = none) : IsName last := by
  obtain ⟨hobstacle, hway, hplace⟩ := refusal?_eq_none_iff.1 hrefusal
  refine (h.prepared hends hobstacle).isName_of_isDirectory_eq_false hends
    (entry?_prepared_of_mem_way hobstacle) ?_
  rw [Bool.eq_false_iff, Ne, isDirectory_prepared_iff hobstacle, hplace]
  exact not_or.2 ⟨hway, Bool.false_ne_true⟩

/-- Building a tree file by file keeps it well-formed, unless a file takes the place of a
directory. -/
theorem WellFormed.build (h : tree.WellFormed) (hends : Ends path front last) (hlast : IsName last)
    {entry : Entry}
    (hplace : along path ∈ way path ∨ tree.isDirectory (along path) = true → entry = .directory) :
    (tree.build path entry).WellFormed := by
  rw [Tree.build, makeParents_eq]
  cases hobstacle : tree.obstacleTo? path with
  | some error => exact h
  | none =>
    have hprepared := h.prepared hends hobstacle
    obtain ⟨hfollow, hdirectory⟩ :=
      hprepared.foldlM_step_pieces hends (entry?_prepared_of_mem_way hobstacle)
    dsimp only
    rw [follow_eq hends.ne_empty, hfollow]
    rw [hends.along_eq, move_of_isName hlast] at hplace ⊢
    refine hprepared.put hlast hdirectory fun hthere ↦ hplace ?_
    exact (isDirectory_prepared_iff hobstacle _).1 (isDirectory_iff.2 hthere)

end Prepared

/-! ## What is put where -/

section Puts

variable {tree : Tree} {path text : String} {location : Location} {entry : Entry}

/-- With what is put, a tree is the prepared one and the file at its place. -/
theorem or_puts (hobstacle : tree.obstacleTo? path = none) (text : String)
    (location : Location) :
    (tree.puts path text location).or (tree.entry? location) =
      if tree.refusal? path = none ∧ location = along path then some (.file text.toUTF8)
      else entry? (tree.prepared path) location := by
  rw [puts, hobstacle, if_neg (by simp), entry?_prepared hobstacle]
  split
  · rfl
  · split <;> rfl

/-- The text stands where its path leads to. -/
theorem puts_along (h : tree.refusal? path = none) :
    tree.puts path text (along path) = some (.file text.toUTF8) := by
  rw [puts, (refusal?_eq_none_iff.1 h).1, if_neg (by simp), if_pos ⟨h, rfl⟩]

theorem puts_of_mem_way (hobstacle : tree.obstacleTo? path = none) (h : location ∈ way path) :
    tree.puts path text location = some .directory := by
  rw [puts, hobstacle, if_neg (by simp), if_neg, if_pos h]
  rintro ⟨hrefusal, rfl⟩
  exact (refusal?_eq_none_iff.1 hrefusal).2.1 h

/-- What is put somewhere is the file at its place, or a directory on the way to it. -/
theorem puts_eq_some (h : tree.puts path text location = some entry) :
    (tree.refusal? path = none ∧ location = along path ∧ entry = .file text.toUTF8) ∨
      (tree.obstacleTo? path = none ∧ location ∈ way path ∧ entry = .directory) := by
  rw [puts] at h
  split at h
  · cases h
  next hobstacle =>
    split at h
    next hplace => exact .inl ⟨hplace.1, hplace.2, (Option.some.inj h).symm⟩
    next =>
      obtain ⟨hmem, hentry⟩ := Option.ite_none_right_eq_some.1 h
      exact .inr ⟨Option.not_isSome_iff_eq_none.1 hobstacle, hmem, (Option.some.inj hentry).symm⟩

end Puts

/-- A path that leads by names, and one more piece that counts, from a directory. -/
structure Below (directory path : String) (front : List String) (last : String) : Prop
    extends Ends path (base directory ++ front) last where
  start_eq : start path = start directory
  names : ∀ name ∈ front, IsName name

namespace Below

variable {directory path last : String} {front : List String}

/-- Of the paths below one directory, all ways start with the way to this directory. -/
theorem way_eq (h : Below directory path front last) :
    way path = entered (start directory) (base directory) ++
      entered ((base directory).foldl move (start directory)) front := by
  rw [h.toEnds.way_eq, h.start_eq, entered_append]

theorem along_eq (h : Below directory path front last) :
    along path = ((base directory).foldl move (start directory) ++ front).move last := by
  rw [h.toEnds.along_eq, h.start_eq, List.foldl_append, foldl_move_names h.names]

/-- A path that a text can be written to leads neither to the place of another path below the same
directory nor on the way to it, unless it is the other path or one above it. -/
theorem along_not_mem_way {tree : Tree} (htree : tree.WellFormed)
    (h : Below directory path front last) {other last' : String} {front' : List String}
    (hother : Below directory other front' last') (hrefusal : tree.refusal? path = none)
    (hpieces : ¬pieces path <+: pieces other) :
    along path ∉ way other ∧ along path ≠ along other := by
  have hlast := htree.isName_of_refusal?_eq_none h.toEnds hrefusal
  have hway := (refusal?_eq_none_iff.1 hrefusal).2.1
  have hplace := h.along_eq
  rw [move_of_isName hlast, List.append_assoc] at hplace
  have hnames : ".." ∉ front ++ [last] := fun hmem ↦
    (List.forall_mem_append.2 ⟨h.names, List.forall_mem_singleton.2 hlast⟩ _ hmem).not_above rfl
  have hlonger : ¬front ++ [last] <+: front' ++ [last'] := by
    rw [h.pieces, hother.pieces, List.append_assoc, List.append_assoc,
      List.prefix_append_right_inj] at hpieces
    exact hpieces
  constructor
  · rw [hother.way_eq, List.mem_append]
    rintro (hmem | hmem)
    · apply hway
      rw [h.way_eq]
      exact List.mem_append_left _ hmem
    · have hshorter := prefix_of_mem_entered hother.names hmem
      rw [hplace, List.prefix_append_right_inj] at hshorter
      exact hlonger (hshorter.trans (List.prefix_append _ _))
  · rw [hother.along_eq, hplace]
    exact fun heq ↦ hlonger (prefix_of_move hother.not_idle hnames heq.symm)

end Below

end Tree

end DeclaredMethods.Files
