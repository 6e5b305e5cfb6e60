import DeclaredMethods.Files.Path
import Mathlib.Data.List.Infix
import Mathlib.Data.List.TakeWhile

/-!
# The pieces of paths

A path is determined by the texts between its slashes, so what the operations on paths do is said by
what they do to the pieces. Joining puts the pieces of one path behind those of the other, and
replacing the extension changes the last piece only. The extension of `..rb` leaves a single point
behind, which together with the point of the new extension would be the directory above: such a path
gets no extension at all.
-/

namespace DeclaredMethods.Files

theorem splitSlash_append_slash (piece text rest : List Char) :
    splitSlash piece (text ++ '/' :: rest) = splitSlash piece text ++ splitSlash [] rest := by
  induction text generalizing piece with
  | nil => rfl
  | cons c text ih =>
    rw [List.cons_append, splitSlash, splitSlash]
    split
    · rw [ih, List.cons_append]
    · rw [ih]

theorem splitSlash_of_not_mem {text : List Char} (h : '/' ∉ text) (piece : List Char) :
    splitSlash piece text = [piece ++ text] := by
  induction text generalizing piece with
  | nil => rw [splitSlash, List.append_nil]
  | cons c text ih =>
    obtain ⟨hc, htext⟩ := not_or.1 (List.mem_cons.not.1 h)
    rw [splitSlash, if_neg (Ne.symm hc), ih htext, List.append_assoc, List.singleton_append]

theorem not_mem_splitSlash (text : List Char) {piece : List Char} (hpiece : '/' ∉ piece) :
    ∀ part ∈ splitSlash piece text, '/' ∉ part := by
  induction text generalizing piece with
  | nil => exact List.forall_mem_singleton.2 hpiece
  | cons c text ih =>
    rw [splitSlash]
    split
    · exact List.forall_mem_cons.2 ⟨hpiece, ih List.not_mem_nil⟩
    next hc =>
      apply ih
      rw [List.mem_append, List.mem_singleton]
      exact not_or.2 ⟨hpiece, Ne.symm hc⟩

theorem splitSlash_ne_nil (piece text : List Char) : splitSlash piece text ≠ [] := by
  induction text generalizing piece with
  | nil => exact List.cons_ne_nil _ _
  | cons c text ih =>
    rw [splitSlash]
    split
    · exact List.cons_ne_nil _ _
    · exact ih _

/-- Splitting at slashes loses nothing. -/
theorem intercalate_splitSlash (piece text : List Char) :
    ['/'].intercalate (splitSlash piece text) = piece ++ text := by
  induction text generalizing piece with
  | nil => rw [splitSlash, List.intercalate_singleton, List.append_nil]
  | cons c text ih =>
    rw [splitSlash]
    split
    next hc =>
      rw [List.intercalate_cons_of_ne_nil (splitSlash_ne_nil [] text), ih, hc, List.nil_append]
      simp
    · rw [ih, List.append_assoc, List.singleton_append]

/-- A text that can be the name of a file: it has no slash, and does not stand for a directory on
its own. -/
structure IsName (name : String) : Prop where
  not_idle : isIdle name = false
  not_above : name ≠ ".."
  no_slash : '/' ∉ name.toList

instance (name : String) : Decidable (IsName name) :=
  decidable_of_iff (isIdle name = false ∧ name ≠ ".." ∧ '/' ∉ name.toList)
    ⟨fun h ↦ ⟨h.1, h.2.1, h.2.2⟩, fun h ↦ ⟨h.not_idle, h.not_above, h.no_slash⟩⟩

theorem IsName.ne_empty {name : String} (h : IsName name) : name ≠ "" := by
  rintro rfl
  exact absurd h.not_idle (by decide)

theorem ofPieces_pieces (path : String) : ofPieces (pieces path) = path := by
  rw [ofPieces, ← String.toList_inj, String.toList_intercalate, pieces, List.map_map]
  have hid : String.toList ∘ String.ofList = id := funext fun _ ↦ String.toList_ofList
  rw [hid, List.map_id]
  exact intercalate_splitSlash [] path.toList

/-- A path is known by its pieces. -/
theorem pieces_injective {first second : String} (h : pieces first = pieces second) :
    first = second := by
  rw [← ofPieces_pieces first, h, ofPieces_pieces]

theorem pieces_ne_nil (path : String) : pieces path ≠ [] :=
  fun h ↦ splitSlash_ne_nil [] path.toList (List.map_eq_nil_iff.1 h)

theorem not_mem_of_mem_pieces {path piece : String} (h : piece ∈ pieces path) :
    '/' ∉ piece.toList := by
  obtain ⟨part, hpart, rfl⟩ := List.mem_map.1 h
  rw [String.toList_ofList]
  exact not_mem_splitSlash path.toList List.not_mem_nil part hpart

/-- A slash separates the pieces in front of it from those behind it. -/
theorem pieces_append_slash (first second : String) :
    pieces (first ++ "/" ++ second) = pieces first ++ pieces second := by
  have htext : (first ++ "/" ++ second).toList = first.toList ++ '/' :: second.toList := by
    simp only [String.toList_append, List.append_assoc]
    rfl
  rw [pieces, htext, splitSlash_append_slash, List.map_append, pieces, pieces]

theorem pieces_of_not_mem {name : String} (h : '/' ∉ name.toList) : pieces name = [name] := by
  rw [pieces, splitSlash_of_not_mem h, List.nil_append, List.map_singleton, String.ofList_toList]

/-- Texts without slashes are the pieces of the path they make. -/
theorem pieces_ofPieces {parts : List String} (hne : parts ≠ [])
    (h : ∀ part ∈ parts, '/' ∉ part.toList) : pieces (ofPieces parts) = parts := by
  induction parts with
  | nil => exact absurd rfl hne
  | cons part parts ih =>
    obtain ⟨hpart, hparts⟩ := List.forall_mem_cons.1 h
    cases parts with
    | nil => rw [ofPieces, String.intercalate_singleton, pieces_of_not_mem hpart]
    | cons next parts =>
      have hrest := ih (List.cons_ne_nil _ _) hparts
      rw [ofPieces] at hrest ⊢
      rw [String.intercalate_cons_cons, pieces_append_slash, pieces_of_not_mem hpart, hrest,
        List.singleton_append]

/-- What is appended to a path without a slash is appended to its last piece. -/
theorem ofPieces_append (front : List String) (last text : String) :
    ofPieces (front ++ [last ++ text]) = ofPieces (front ++ [last]) ++ text := by
  cases front with
  | nil => rw [List.nil_append, List.nil_append, ofPieces, ofPieces, String.intercalate_singleton,
      String.intercalate_singleton]
  | cons piece front =>
    rw [ofPieces, ofPieces, String.intercalate_append_of_ne_nil (List.cons_ne_nil _ _)
      (List.cons_ne_nil _ _), String.intercalate_append_of_ne_nil (List.cons_ne_nil _ _)
      (List.cons_ne_nil _ _), String.intercalate_singleton, String.intercalate_singleton,
      String.append_assoc, String.append_assoc, String.append_assoc]

/-- An absolute path has an empty piece in front of its other ones. -/
theorem isAbsolute_iff (path : String) :
    isAbsolute path = true ↔ ∃ piece rest, pieces path = "" :: piece :: rest := by
  constructor
  · intro h
    obtain ⟨rest, hrest⟩ : ∃ rest, path.toList = '/' :: rest := by
      rw [isAbsolute, beq_iff_eq] at h
      exact List.head?_eq_some_iff.1 h
    have hpieces : pieces path = "" :: pieces (String.ofList rest) := by
      rw [pieces, hrest, splitSlash, if_pos rfl, List.map_cons, pieces, String.toList_ofList]
    cases hrests : pieces (String.ofList rest) with
    | nil => exact absurd hrests (pieces_ne_nil _)
    | cons piece others => exact ⟨piece, others, by rw [hpieces, hrests]⟩
  · rintro ⟨piece, rest, hpieces⟩
    have hpath : path = "" ++ "/" ++ ofPieces (piece :: rest) := by
      rw [← ofPieces_pieces path, hpieces, ofPieces, String.intercalate_cons_cons, ofPieces]
    rw [hpath, isAbsolute, String.toList_append]
    rfl

/-- A path that starts with a name does not start from the root. -/
theorem isAbsolute_of_isName {path name : String} {rest : List String}
    (hpieces : pieces path = name :: rest) (hname : IsName name) : isAbsolute path = false := by
  rw [Bool.eq_false_iff]
  intro h
  obtain ⟨piece, others, habsolute⟩ := (isAbsolute_iff path).1 h
  rw [hpieces] at habsolute
  exact hname.ne_empty (List.cons.inj habsolute).1

/-! ## Joining -/

/-- The pieces of a directory that stand in front of what is joined to it: an empty piece at its end
counts for nothing. -/
def base (directory : String) : List String :=
  if (pieces directory).getLast? = some "" then (pieces directory).dropLast else pieces directory

/-- A path seen from a directory has the pieces of the directory in front. -/
theorem pieces_join {directory path : String} (h : isAbsolute path = false) :
    pieces (join directory path) = base directory ++ pieces path := by
  rw [join, if_neg (by rw [h]; exact Bool.false_ne_true)]
  by_cases hlast : (pieces directory).getLast? = some ""
  · -- Behind a final slash, or in the working directory, no slash is added.
    rw [base, if_pos hlast]
    obtain ⟨front, hfront⟩ := List.getLast?_eq_some_iff.1 hlast
    rw [hfront, List.dropLast_concat]
    cases front with
    | nil =>
      have hempty : directory = "" := by
        rw [← ofPieces_pieces directory, hfront, List.nil_append, ofPieces,
          String.intercalate_singleton]
      subst hempty
      rfl
    | cons piece front =>
      have hdirectory : directory = ofPieces (piece :: front) ++ "/" ++ "" := by
        rw [← ofPieces_pieces directory, hfront, ofPieces,
          String.intercalate_append_of_ne_nil (List.cons_ne_nil _ _) (List.cons_ne_nil _ _),
          String.intercalate_singleton, ofPieces]
      have hslash : directory.toList.getLast? = some '/' := by
        rw [hdirectory]
        simp
      rw [if_pos (by rw [hslash]; simp), hdirectory, String.append_empty, pieces_append_slash]
      congr 1
      refine pieces_ofPieces (List.cons_ne_nil _ _) fun part hpart ↦ ?_
      have hmem : part ∈ pieces directory := by
        rw [hfront]
        exact List.mem_append_left _ hpart
      exact not_mem_of_mem_pieces hmem
  · rw [base, if_neg hlast, ← pieces_append_slash]
    refine congrArg pieces (if_neg ?_)
    rw [Bool.or_eq_true, String.isEmpty_iff, beq_iff_eq]
    rintro (rfl | hslash)
    · exact hlast rfl
    · obtain ⟨text, htext⟩ := List.getLast?_eq_some_iff.1 hslash
      apply hlast
      have hdirectory : directory = String.ofList text ++ "/" ++ "" := by
        rw [← String.toList_inj, htext]
        simp
      rw [hdirectory, pieces_append_slash]
      exact List.getLast?_concat ..

theorem isAbsolute_join {directory path : String} (h : isAbsolute path = false) :
    isAbsolute (join directory path) = isAbsolute directory := by
  rw [join, if_neg (by rw [h]; exact Bool.false_ne_true)]
  by_cases hempty : directory = ""
  · subst hempty
    exact h
  · obtain ⟨c, rest, hrest⟩ := List.exists_cons_of_ne_nil
      fun hnil : directory.toList = [] ↦ hempty (String.toList_inj.1 hnil)
    split <;> simp [isAbsolute, hrest]

/-- Behind a name that was joined to a directory there is nothing to leave out. -/
theorem base_join {directory name : String} (h : IsName name) :
    base (join directory name) = base directory ++ [name] := by
  have hname := pieces_of_not_mem h.no_slash
  have hpieces : pieces (join directory name) = base directory ++ [name] := by
    rw [pieces_join (isAbsolute_of_isName hname h), hname]
  rw [base, hpieces, List.getLast?_concat, if_neg]
  rw [Option.some.injEq]
  exact h.ne_empty

section LastName

variable {path name : String} {front : List String}

theorem splitLast?_of_pieces (hpieces : pieces path = front ++ [name])
    (hname : isIdle name = false) : splitLast? path = some (front, name) := by
  rw [splitLast?, hpieces, List.reverse_append, List.reverse_singleton, List.singleton_append,
    List.dropWhile_cons_of_neg (by rw [hname]; exact Bool.false_ne_true)]
  dsimp only
  rw [List.reverse_reverse]

/-- The last piece of a path is its name unless it stands for a directory. -/
theorem splitName?_of_pieces (hpieces : pieces path = front ++ [name]) (hname : IsName name) :
    splitName? path = some (front, name) := by
  rw [splitName?, splitLast?_of_pieces hpieces hname.not_idle]
  exact Option.filter_some_pos (bne_iff_ne.2 hname.not_above)

theorem extension?_of_pieces (hpieces : pieces path = front ++ [name]) (hname : IsName name) :
    extension? path = (splitExtension name).2 := by
  rw [extension?, fileName?, splitName?_of_pieces hpieces hname]
  rfl

/-- The last name of a path is a name. -/
theorem isName_of_fileName? (h : fileName? path = some name) : IsName name := by
  obtain ⟨⟨front, last⟩, hsplit, rfl⟩ := Option.map_eq_some_iff.1 h
  obtain ⟨hlast, habove⟩ := Option.filter_eq_some_iff.1 hsplit
  rw [splitLast?] at hlast
  split at hlast
  · cases hlast
  next last rest hdrop =>
    cases hlast
    have hmem : last ∈ pieces path := by
      rw [← List.mem_reverse]
      apply (List.dropWhile_sublist isIdle).subset
      rw [hdrop]
      exact List.mem_cons_self
    refine ⟨?_, bne_iff_ne.1 habove, not_mem_of_mem_pieces hmem⟩
    have hhead := List.head?_dropWhile_not isIdle (pieces path).reverse
    rw [hdrop] at hhead
    exact hhead

end LastName

theorem drop_length_takeWhile {α : Type} (p : α → Bool) (items : List α) :
    items.drop (items.takeWhile p).length = items.dropWhile p := by
  have hsplit : items.takeWhile p ++ items.dropWhile p = items := List.takeWhile_append_dropWhile
  calc
    items.drop (items.takeWhile p).length =
        (items.takeWhile p ++ items.dropWhile p).drop (items.takeWhile p).length := by rw [hsplit]
    _ = items.dropWhile p := List.drop_left

/-- The extension starts at the last point. -/
theorem splitExtension_append {stem extension : String} (hstem : stem ≠ "")
    (hextension : '.' ∉ extension.toList) :
    splitExtension (stem ++ "." ++ extension) = (stem, some extension) := by
  have hreversed : (stem ++ "." ++ extension).toList.reverse =
      extension.toList.reverse ++ '.' :: stem.toList.reverse := by
    simp
  have htaken : (stem ++ "." ++ extension).toList.reverse.takeWhile (· != '.') =
      extension.toList.reverse := by
    rw [hreversed, List.takeWhile_append_of_pos, List.takeWhile_cons_of_neg, List.append_nil]
    · decide
    · intro c hc
      rw [bne_iff_ne]
      rintro rfl
      exact hextension (List.mem_reverse.1 hc)
  cases hrest : stem.toList.reverse with
  | nil => exact absurd (String.toList_inj.1 (List.reverse_eq_nil_iff.1 hrest)) hstem
  | cons c rest =>
    simp only [splitExtension, htaken]
    rw [hreversed, List.drop_left, hrest]
    dsimp only
    rw [← hrest, List.reverse_reverse, List.reverse_reverse, String.ofList_toList,
      String.ofList_toList]

/-- A name has no extension, or it is a text, a point and the extension. -/
theorem splitExtension_cases (name : String) :
    splitExtension name = (name, none) ∨
      ∃ stem extension, stem ≠ "" ∧ '.' ∉ extension.toList ∧ name = stem ++ "." ++ extension ∧
        splitExtension name = (stem, some extension) := by
  simp only [splitExtension, drop_length_takeWhile]
  have hsplit : name.toList.reverse.takeWhile (· != '.') ++
      name.toList.reverse.dropWhile (· != '.') = name.toList.reverse :=
    List.takeWhile_append_dropWhile
  have hpoint := List.head?_dropWhile_not (· != '.') name.toList.reverse
  have hshort : ∀ c ∈ name.toList.reverse.takeWhile (· != '.'), (c != '.') = true := fun _ ↦
    List.mem_takeWhile_imp
  generalize name.toList.reverse.takeWhile (· != '.') = extension at hsplit hshort ⊢
  generalize name.toList.reverse.dropWhile (· != '.') = tail at hsplit hpoint ⊢
  rcases tail with _ | ⟨point, _ | ⟨c, rest⟩⟩
  · exact .inl rfl
  · exact .inl rfl
  · refine .inr ⟨_, _, ?_, ?_, ?_, rfl⟩
    · intro hempty
      simpa using congrArg String.toList hempty
    · rw [String.toList_ofList, List.mem_reverse]
      exact fun h ↦ absurd (hshort '.' h) (by decide)
    · obtain rfl : point = '.' := by simpa using hpoint
      rw [← String.toList_inj, ← List.reverse_inj, ← hsplit]
      simp

/-- The last name of a path with an extension ends with it. -/
theorem eq_append_of_hasExtension {path name extension : String} {front : List String}
    (h : hasExtension path extension = true) (hpieces : pieces path = front ++ [name])
    (hname : IsName name) : name = (splitExtension name).1 ++ "." ++ extension := by
  rw [hasExtension, beq_iff_eq, extension?_of_pieces hpieces hname] at h
  rcases splitExtension_cases name with hsplit | ⟨stem, old, -, -, hold, hsplit⟩
  · rw [hsplit] at h
    cases h
  · rw [hsplit] at h ⊢
    cases h
    exact hold

/-- What the last name of a path becomes when it gets an extension in place of its own. -/
def renamed (extension name : String) : String :=
  if (splitExtension name).1 = "." then ".." else (splitExtension name).1 ++ "." ++ extension

section Replace

variable {path name extension : String} {front : List String}

/-- Setting the extension changes the last piece only. -/
theorem pieces_setExtension (hpieces : pieces path = front ++ [name]) (hname : IsName name)
    (hextension : '/' ∉ extension.toList) :
    pieces (setExtension path extension) =
      front ++ [(splitExtension name).1 ++ "." ++ extension] := by
  have hstem : '/' ∉ (splitExtension name).1.toList := by
    rcases splitExtension_cases name with hsplit | ⟨stem, old, -, -, rfl, hsplit⟩
    · rw [hsplit]
      exact hname.no_slash
    · rw [hsplit]
      exact fun h ↦ hname.no_slash (by simp [h])
  rw [setExtension, splitName?_of_pieces hpieces hname]
  dsimp only
  rw [String.append_assoc, ← ofPieces_append, pieces_ofPieces, String.append_assoc]
  · exact List.append_ne_nil_of_right_ne_nil _ (List.cons_ne_nil _ _)
  · refine List.forall_mem_append.2 ⟨fun part hpart ↦ ?_, List.forall_mem_singleton.2 ?_⟩
    · have hmem : part ∈ pieces path := by
        rw [hpieces]
        exact List.mem_append_left _ hpart
      exact not_mem_of_mem_pieces hmem
    · simp [hstem, hextension]

/-- Replacing the extension of a path changes its last name only. -/
theorem pieces_withExtension (hpieces : pieces path = front ++ [name]) (hname : IsName name)
    (hextension : '/' ∉ extension.toList) :
    pieces (withExtension path extension) = front ++ [renamed extension name] := by
  have hfound := extension?_of_pieces hpieces hname
  rcases splitExtension_cases name with hsplit | ⟨stem, old, hstem, hold, rfl, hsplit⟩
  · have hpoint : name ≠ "." := by
      rintro rfl
      exact absurd hname.not_idle (by decide)
    rw [hsplit] at hfound
    rw [withExtension, hfound]
    dsimp only
    rw [pieces_setExtension hpieces hname hextension, renamed, hsplit, if_neg hpoint]
  · rw [hsplit] at hfound
    -- Taking off the old extension leaves the point in front of it.
    have hpath : path = ofPieces (front ++ [stem ++ "."]) ++ old := by
      rw [← ofPieces_append, ← hpieces, ofPieces_pieces]
    have htaken : String.ofList (path.toList.take (path.toList.length - old.toList.length)) =
        ofPieces (front ++ [stem ++ "."]) := by
      rw [← String.toList_inj, String.toList_ofList, hpath, String.toList_append,
        List.length_append, Nat.add_sub_cancel, List.take_left]
    have hslash : ∀ part ∈ front ++ [stem ++ "."], '/' ∉ part.toList := by
      refine List.forall_mem_append.2 ⟨fun part hpart ↦ ?_, List.forall_mem_singleton.2 fun h ↦ ?_⟩
      · have hmem : part ∈ pieces path := by
          rw [hpieces]
          exact List.mem_append_left _ hpart
        exact not_mem_of_mem_pieces hmem
      · apply hname.no_slash
        rw [String.toList_append]
        exact List.mem_append_left _ h
    have hshorter : pieces (ofPieces (front ++ [stem ++ "."])) = front ++ [stem ++ "."] :=
      pieces_ofPieces (List.append_ne_nil_of_right_ne_nil _ (List.cons_ne_nil _ _)) hslash
    have hidle : isIdle (stem ++ ".") = false := by
      rw [isIdle, Bool.or_eq_false_iff, beq_eq_false_iff_ne, beq_eq_false_iff_ne]
      constructor <;> intro h <;> apply hstem <;> simpa using congrArg String.toList h
    rw [withExtension, hfound]
    dsimp only
    rw [htaken, renamed, hsplit]
    dsimp only
    split
    next habove =>
      subst habove
      rw [setExtension, splitName?, splitLast?_of_pieces hshorter hidle]
      exact hshorter
    next habove =>
      have hname' : IsName (stem ++ ".") := by
        refine ⟨hidle, fun h ↦ habove ?_, hslash _ (List.mem_append_right _ List.mem_cons_self)⟩
        rw [← String.toList_inj] at h ⊢
        rw [String.toList_append] at h
        exact List.append_cancel_right h
      have hsplit' : splitExtension (stem ++ ".") = (stem, some "") := by
        have hempty : splitExtension (stem ++ "." ++ "") = (stem, some "") :=
          splitExtension_append hstem List.not_mem_nil
        rwa [String.append_empty] at hempty
      rw [pieces_setExtension hshorter hname' hextension, hsplit']

/-- Replacing the extension of a path does not change where it starts. -/
theorem isAbsolute_withExtension (hpieces : pieces path = front ++ [name]) (hname : IsName name)
    (hextension : '/' ∉ extension.toList) :
    isAbsolute (withExtension path extension) = isAbsolute path := by
  rw [Bool.eq_iff_iff, isAbsolute_iff, isAbsolute_iff,
    pieces_withExtension hpieces hname hextension, hpieces]
  rcases front with _ | ⟨first, _ | ⟨second, rest⟩⟩ <;> simp

end Replace

/-- A name with an extension is never that of the directory above. -/
theorem append_extension_ne_above {stem extension : String} (hextension : extension ≠ "")
    (hpoint : '.' ∉ extension.toList) : stem ++ "." ++ extension ≠ ".." := by
  intro h
  have hne : extension.toList ≠ [] := fun hnil ↦ hextension (String.toList_inj.1 hnil)
  have hlast : extension.toList.getLast? = some '.' := by
    have hlast := congrArg (fun text ↦ text.toList.getLast?) h
    simp only [String.toList_append] at hlast
    rwa [List.getLast?_append_of_ne_nil _ hne] at hlast
  exact hpoint (List.mem_of_getLast? hlast)

theorem isIdle_renamed {extension : String} (hextension : extension ≠ "") (name : String) :
    isIdle (renamed extension name) = false := by
  rw [renamed]
  split
  · rfl
  · have hne : ∀ text : String, text.toList.length ≤ 1 →
        (splitExtension name).1 ++ "." ++ extension ≠ text := by
      rintro text htext rfl
      have hlength : extension.toList.length ≠ 0 := fun h ↦
        hextension (String.toList_inj.1 (List.length_eq_zero_iff.1 h))
      simp only [String.toList_append, List.length_append] at htext
      have hpoint : ".".toList.length = 1 := rfl
      omega
    rw [isIdle, Bool.or_eq_false_iff, beq_eq_false_iff_ne, beq_eq_false_iff_ne]
    exact ⟨hne "" (by decide), hne "." (by decide)⟩

/-- Names that become the same with another extension differ in their own extensions only. -/
theorem renamed_eq_renamed_iff {extension first second : String} (hextension : extension ≠ "")
    (hpoint : '.' ∉ extension.toList) :
    renamed extension first = renamed extension second ↔
      (splitExtension first).1 = (splitExtension second).1 := by
  constructor
  · intro h
    rw [renamed, renamed] at h
    split at h <;> split at h
    next hfirst hsecond => rw [hfirst, hsecond]
    next => exact absurd h.symm (append_extension_ne_above hextension hpoint)
    next => exact absurd h (append_extension_ne_above hextension hpoint)
    next =>
      rw [← String.toList_inj] at h ⊢
      simp only [String.append_assoc, String.toList_append] at h
      exact List.append_cancel_right h
  · intro h
    rw [renamed, renamed, h]

end DeclaredMethods.Files
