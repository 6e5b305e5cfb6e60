import DeclaredMethods.Proofs.Parsing.Discipline

/-!
# Where a cursor stands in its source

The tokens and lexical errors of a text stand in order and do not overlap, and the text ends behind
all of them. A cursor therefore stands between two places: the end of the last token it has read,
its back, and the start of the current one, its front. No token of the source stands in between.

Reading on moves both forward. Either the same token stays current, or it has been read and lies in
front of the back.
-/

namespace DeclaredMethods.Source

/-- Spans that stand in order from an offset on, none of them overlapping the next, in a text of the
given size. -/
def Ascending (size : Nat) : Nat → List Span → Prop
  | offset, [] => offset ≤ size
  | offset, span :: spans =>
    offset ≤ span.start ∧ span.start ≤ span.stop ∧ Ascending size span.stop spans

namespace Ascending

variable {size offset : Nat} {spans : List Span}

/-- Spans in order from an offset are in order from an earlier one. -/
theorem mono {offset' : Nat} (h : Ascending size offset spans) (hle : offset' ≤ offset) :
    Ascending size offset' spans := by
  cases spans with
  | nil => exact Nat.le_trans hle h
  | cons span spans => exact ⟨Nat.le_trans hle h.1, h.2⟩

theorem offset_le (h : Ascending size offset spans) : offset ≤ size := by
  induction spans generalizing offset with
  | nil => exact h
  | cons span spans ih => exact Nat.le_trans h.1 (Nat.le_trans h.2.1 (ih h.2.2))

theorem of_mem {span : Span} (h : Ascending size offset spans) (hspan : span ∈ spans) :
    offset ≤ span.start := by
  induction spans generalizing offset with
  | nil => cases hspan
  | cons first spans ih =>
    rcases List.mem_cons.1 hspan with rfl | hspan
    · exact h.1
    · exact Nat.le_trans h.1 (Nat.le_trans h.2.1 (ih h.2.2 hspan))

end Ascending

def itemSpan : Except LexError Token → Span
  | .ok token => token.span
  | .error error => error.span

def spansOf (stream : List (Except LexError Token)) : List Span :=
  stream.map itemSpan

theorem mem_spansOf {stream : List (Except LexError Token)} {token : Token}
    (h : token ∈ tokensOf stream) : token.span ∈ spansOf stream := by
  obtain ⟨item, hitem, htoken⟩ := List.mem_filterMap.1 h
  cases item with
  | ok found =>
    cases htoken
    exact List.mem_map_of_mem hitem
  | error error => cases htoken

/-- Each piece of a text stands behind the one before it. -/
theorem ascending_scanFrom (bound offset : Nat) (text : List Char) :
    Ascending (offset + Text.byteLength text) offset (spansOf (scanFrom bound offset text)) := by
  induction bound generalizing offset text with
  | zero =>
    cases text with
    | nil => exact ⟨Nat.le_refl _, Nat.le_refl _, Nat.le_refl _⟩
    | cons first text => exact Nat.le_add_right _ _
  | succ bound ih =>
    cases text with
    | nil => exact ⟨Nat.le_refl _, Nat.le_refl _, Nat.le_refl _⟩
    | cons first text =>
      let length := (lexemeAt first text).length
      let stop := offset + Text.byteLength ((first :: text).take length)
      have hsize : stop + Text.byteLength ((first :: text).drop length) =
          offset + Text.byteLength (first :: text) := by
        rw [Nat.add_assoc, ← Text.byteLength_append, List.take_append_drop]
      have hrest := ih stop ((first :: text).drop length)
      rw [hsize] at hrest
      have hle : offset ≤ stop := Nat.le_add_right _ _
      unfold scanFrom
      dsimp only
      cases (lexemeAt first text).reading with
      | skipped => exact hrest.mono hle
      | token kind => exact ⟨Nat.le_refl _, hle, hrest⟩
      | error kind => exact ⟨Nat.le_refl _, hle, hrest⟩

/-- Fetching keeps the order, also where it adds the end of the source. -/
theorem ascending_fetch {size offset : Nat} {stream : List (Except LexError Token)}
    (h : Ascending size offset (spansOf stream)) :
    Ascending size offset ((fetch size stream).2.1.span :: spansOf (fetch size stream).2.2) := by
  induction stream generalizing offset with
  | nil => exact ⟨h, Nat.le_refl _, Nat.le_refl _⟩
  | cons item rest ih =>
    cases item with
    | ok token => exact h
    | error error => exact (ih h.2.2).mono (Nat.le_trans h.1 h.2.1)

def ParseError.LiesIn (size : Nat) (error : ParseError) : Prop :=
  error.span.start ≤ error.span.stop ∧ error.span.stop ≤ size

/-- What is reported for skipped pieces lies in the source. -/
theorem liesIn_fetch {size offset : Nat} {stream : List (Except LexError Token)}
    (h : Ascending size offset (spansOf stream)) :
    ∀ error ∈ (fetch size stream).1, error.LiesIn size := by
  induction stream generalizing offset with
  | nil => exact fun _ herror ↦ absurd herror List.not_mem_nil
  | cons item rest ih =>
    cases item with
    | ok token => exact fun _ herror ↦ absurd herror List.not_mem_nil
    | error error =>
      intro found hfound
      rcases List.mem_cons.1 hfound with rfl | hfound
      · exact ⟨h.2.1, h.2.2.offset_le⟩
      · exact ih h.2.2 found hfound

/-- Fetching loses no token. -/
theorem mem_fetch (size : Nat) {stream : List (Except LexError Token)} {token : Token}
    (h : token ∈ tokensOf stream) :
    token ∈ (fetch size stream).2.1 :: tokensOf (fetch size stream).2.2 := by
  induction stream with
  | nil => cases h
  | cons item rest ih =>
    cases item with
    | ok found => exact h
    | error error => exact ih h

namespace Cursor

/-- Where the last token that was read ends. -/
abbrev back (cursor : Cursor) : Nat :=
  cursor.previous.span.stop

/-- Where the current token starts. -/
abbrev front (cursor : Cursor) : Nat :=
  cursor.current.span.start

/-- A cursor stands in a source: what it has read and what is still to come make up the source in
order, and everything it has reported lies in the source. What is skipped was reported. -/
structure Stands (source : String) (cursor : Cursor) : Prop where
  size_eq : cursor.size = Text.byteLength source.toList
  ascending : Ascending cursor.size cursor.back (spansOf cursor.upcoming)
  covers : ∀ token ∈ tokens source,
    token.span.stop ≤ cursor.back ∨ token ∈ tokensOf cursor.upcoming
  errors : ∀ error ∈ cursor.errors, error.LiesIn cursor.size
  tooDeep : cursor.tooDeep = true → cursor.errors ≠ []

namespace Stands

variable {source : String} {c c' : Cursor}

theorem back_le_front (h : c.Stands source) : c.back ≤ c.front :=
  h.ascending.1

theorem front_le_stop (h : c.Stands source) : c.front ≤ c.current.span.stop :=
  h.ascending.2.1

theorem stop_le_next (h : c.Stands source) : c.current.span.stop ≤ c.next.span.start :=
  h.ascending.2.2.1

theorem next_le (h : c.Stands source) : c.next.span.start ≤ c.next.span.stop :=
  h.ascending.2.2.2.1

/-- No token goes beyond the end of the source. -/
theorem stop_le_size (h : c.Stands source) :
    c.current.span.stop ≤ Text.byteLength source.toList :=
  h.size_eq ▸ h.ascending.2.2.offset_le

theorem back_le_size (h : c.Stands source) : c.back ≤ Text.byteLength source.toList :=
  h.size_eq ▸ h.ascending.offset_le

/-- No token of the source stands between what was read and the current token. -/
theorem gap (h : c.Stands source) {token : Token} (htoken : token ∈ tokens source) :
    token.span.stop ≤ c.back ∨ c.front ≤ token.span.start := by
  refine (h.covers token htoken).imp_right fun hupcoming ↦ ?_
  rcases List.mem_cons.1 hupcoming with rfl | hlater
  · exact Nat.le_refl _
  · exact Nat.le_trans h.front_le_stop (h.ascending.2.2.of_mem (mem_spansOf hlater))

theorem of_eq (h : c.Stands source) (hprevious : c'.previous = c.previous)
    (hupcoming : c'.upcoming = c.upcoming) (hsize : c'.size = c.size)
    (herrors : c'.errors = c.errors) (htooDeep : c'.tooDeep = c.tooDeep) : c'.Stands source where
  size_eq := hsize.trans h.size_eq
  ascending := by
    rw [hsize, back, hprevious, hupcoming]
    exact h.ascending
  covers := by
    rw [back, hprevious, hupcoming]
    exact h.covers
  errors := by
    rw [herrors, hsize]
    exact h.errors
  tooDeep := by
    rw [herrors, htooDeep]
    exact h.tooDeep

/-- Reading on keeps the order of the source, and what is skipped is reported. -/
theorem advance (h : c.Stands source) : c.advance.Stands source where
  size_eq := h.size_eq
  ascending := by
    have hnext : Ascending c.size c.next.span.stop (spansOf c.pending) := h.ascending.2.2.2.2
    exact ⟨h.stop_le_next, h.next_le, ascending_fetch hnext⟩
  covers token htoken := by
    rcases h.covers token htoken with hread | hupcoming
    · exact .inl (Nat.le_trans hread (Nat.le_trans h.back_le_front h.front_le_stop))
    · rcases List.mem_cons.1 hupcoming with rfl | hlater
      · exact .inl (Nat.le_refl _)
      · rcases List.mem_cons.1 hlater with rfl | hpending
        · exact .inr List.mem_cons_self
        · exact .inr (List.mem_cons_of_mem _ (mem_fetch _ hpending))
  errors error herror := by
    have hpending : Ascending c.size c.next.span.stop (spansOf c.pending) := h.ascending.2.2.2.2
    rcases List.mem_append.1 herror with herror | herror
    · exact h.errors error herror
    · exact liesIn_fetch hpending error herror
  tooDeep htooDeep := List.append_ne_nil_of_left_ne_nil (h.tooDeep htooDeep) _

/-- Errors are reported at the current token. -/
theorem report (h : c.Stands source) (kind : ParseErrorKind) :
    (c.report ⟨kind, c.current.span⟩).Stands source ∧
      (c.report ⟨kind, c.current.span⟩).errors ≠ [] := by
  unfold Cursor.report
  split
  · rename_i htooDeep
    exact ⟨h, h.tooDeep htooDeep⟩
  · refine ⟨⟨h.size_eq, h.ascending, h.covers, fun error herror ↦ ?_, fun _ ↦ ?_⟩, ?_⟩
    · rcases List.mem_append.1 herror with herror | herror
      · exact h.errors error herror
      · rw [List.mem_singleton.1 herror]
        exact ⟨h.front_le_stop, h.ascending.2.2.offset_le⟩
    · exact List.append_ne_nil_of_right_ne_nil _ (List.cons_ne_nil _ _)
    · exact List.append_ne_nil_of_right_ne_nil _ (List.cons_ne_nil _ _)

end Stands

/-- In front of a source a cursor stands in it. -/
theorem stands_start (source : String) : (start source).Stands source := by
  let size := Text.byteLength source.toList
  have hscan : Ascending size 0 (spansOf (scan source)) := by
    have h := ascending_scanFrom source.toList.length 0 source.toList
    rwa [Nat.zero_add] at h
  have hfirst := ascending_fetch hscan
  have hpending : Ascending size _ (spansOf (fetch size (scan source)).2.2) := hfirst.2.2
  refine ⟨rfl, ⟨hfirst.1, hfirst.2.1, ascending_fetch hpending⟩, fun token htoken ↦ ?_, ?_,
    fun h ↦ absurd h Bool.false_ne_true⟩
  · rcases List.mem_cons.1 (mem_fetch size htoken) with rfl | hlater
    · exact .inr List.mem_cons_self
    · exact .inr (List.mem_cons_of_mem _ (mem_fetch _ hlater))
  · intro error herror
    rcases List.mem_append.1 herror with herror | herror
    · exact liesIn_fetch hscan error herror
    · exact liesIn_fetch hpending error herror

/-- What was current for one cursor has been read by another. -/
def Passed (c c' : Cursor) : Prop :=
  c.front ≤ c'.back

/-- One cursor comes behind another in a source: places move forward, reported errors stay, and the
current token stays or has been read. -/
structure Moves (source : String) (c c' : Cursor) : Prop where
  origin : c.Stands source
  stands : c'.Stands source
  errors : c'.errors = [] → c.errors = []
  back_le : c.back ≤ c'.back
  front_le : c.front ≤ c'.front
  current : (c'.position = c.position ∧ c'.current = c.current) ∨
    c.Passed c' ∧ c.current.span.stop ≤ c'.back

namespace Moves

variable {source : String} {c c' c'' : Cursor}

theorem refl (h : c.Stands source) : Moves source c c :=
  ⟨h, h, id, Nat.le_refl _, Nat.le_refl _, .inl ⟨rfl, rfl⟩⟩

/-- Cursors come behind each other transitively. -/
theorem trans (h : Moves source c c') (h' : Moves source c' c'') : Moves source c c'' where
  origin := h.origin
  stands := h'.stands
  errors herrors := h.errors (h'.errors herrors)
  back_le := Nat.le_trans h.back_le h'.back_le
  front_le := Nat.le_trans h.front_le h'.front_le
  current := by
    rcases h.current with ⟨hposition, hcurrent⟩ | ⟨hpassed, hstop⟩
    · rw [Passed, front, ← hposition, ← hcurrent]
      exact h'.current
    · exact .inr ⟨Nat.le_trans hpassed h'.back_le, Nat.le_trans hstop h'.back_le⟩

/-- A change of scopes, blocks and nesting only. -/
theorem of_eq (h : c.Stands source) (hprevious : c'.previous = c.previous)
    (hupcoming : c'.upcoming = c.upcoming) (hsize : c'.size = c.size)
    (hposition : c'.position = c.position) (herrors : c'.errors = c.errors)
    (htooDeep : c'.tooDeep = c.tooDeep) : Moves source c c' where
  origin := h
  stands := h.of_eq hprevious hupcoming hsize herrors htooDeep
  errors h' := herrors ▸ h'
  back_le := Nat.le_of_eq (congrArg (·.span.stop) hprevious.symm)
  front_le := by
    have hcurrent : c'.current = c.current := Except.ok.inj (List.cons.inj hupcoming).1
    exact Nat.le_of_eq (congrArg (·.span.start) hcurrent.symm)
  current := .inl ⟨hposition, Except.ok.inj (List.cons.inj hupcoming).1⟩

theorem advance (h : c.Stands source) : Moves source c c.advance where
  origin := h
  stands := h.advance
  errors herrors := (List.append_eq_nil_iff.1 herrors).1
  back_le := Nat.le_trans h.back_le_front h.front_le_stop
  front_le := Nat.le_trans h.front_le_stop h.stop_le_next
  current := .inr ⟨h.front_le_stop, Nat.le_refl _⟩

theorem report (h : c.Stands source) (kind : ParseErrorKind) :
    Moves source c (c.report ⟨kind, c.current.span⟩) := by
  have hstands := (h.report kind).1
  rcases c.report_eq ⟨kind, c.current.span⟩ with hreport | hreport
  · rw [hreport]
    exact .refl h
  · rw [hreport] at hstands ⊢
    exact ⟨h, hstands, fun herrors ↦ (List.append_eq_nil_iff.1 herrors).1, Nat.le_refl _,
      Nat.le_refl _, .inl ⟨rfl, rfl⟩⟩

/-- As long as nothing has been read the same token is current. -/
theorem current_eq (h : Moves source c c') (hpassed : ¬c.Passed c') : c'.current = c.current :=
  h.current.elim And.right fun h' ↦ absurd h'.1 hpassed

/-- The span of what was read ends in the source. -/
theorem stop_spanFrom_le_size (h : Moves source c c') :
    (c'.spanFrom c.front).stop ≤ Text.byteLength source.toList :=
  Nat.max_le.2 ⟨h.stands.back_le_size,
    Nat.le_trans h.origin.front_le_stop h.origin.stop_le_size⟩

/-- A span from the current token on ends with what was read, or within the current token if nothing
was. -/
theorem stop_spanFrom_le (h : Moves source c c') :
    (c'.spanFrom c.front).stop ≤ max c'.back c.current.span.stop :=
  Nat.max_le.2 ⟨Nat.le_max_left _ _, Nat.le_trans h.origin.front_le_stop (Nat.le_max_right _ _)⟩

/-- As long as the current token has not been read, the same word is there. -/
theorem atWord_eq (h : Moves source c c') (hpassed : ¬c.Passed c') (word : Keyword) :
    c'.atWord word = c.atWord word := by
  rw [atWord, atWord, h.current_eq hpassed]

end Moves

end Cursor

end DeclaredMethods.Source
