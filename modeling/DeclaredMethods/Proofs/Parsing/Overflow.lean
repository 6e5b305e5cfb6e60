import DeclaredMethods.Proofs.Parsing.Context
import DeclaredMethods.Proofs.Places.Steps

/-!
# Expressions that are nested too deeply

Productions inside expressions are called by way of `nested`, which counts how deeply. A parser
whose inner productions refuse to run beyond the limit on the depth is the same parser, so none of
them is ever called there.

A parse comes from the start of its source to the end by operations on the cursor, one after
another. The cursors on the way are its history. That there is one for every production is once more
a discipline: the one that asks for nothing else. Where the limit is met the rest of the source is
skipped, and from then on the cursor stands at the end of the source. Nothing is read there and
nothing more is reported, whatever productions are still to be finished.
-/

namespace DeclaredMethods.Source

open Parse

/-- A step that gives nothing beyond the limit on the depth. -/
def Parse.guarded {α : Type} (step : Parse α) : Parse α := do
  if (← get).depth ≤ maxDepth then step else failure

/-- The limit is checked before a production is called, so the production need not check it. -/
theorem nested_guarded (inner : Parse Expr) : nested (guarded inner) = nested inner := by
  funext c
  by_cases hdepth : maxDepth ≤ c.depth
  · calc nested (guarded inner) c
        = abandon c := congrFun (if_pos hdepth) c
      _ = nested inner c := (congrFun (if_pos hdepth) c).symm
  · have hdeeper : guarded inner { c with depth := c.depth + 1 } =
        inner { c with depth := c.depth + 1 } :=
      congrFun (if_pos (Nat.lt_of_not_le hdepth)) _
    have hnested (step : Parse Expr) : nested step c =
        (step { c with depth := c.depth + 1 }).bind fun result ↦
          some (result.1, { result.2 with depth := result.2.depth - 1 }) :=
      congrFun (if_neg hdepth) c
    rw [hnested, hnested, hdeeper]

/-- The grammar whose productions give nothing if they are called beyond the limit on the depth. -/
def guardedGrammar : Nat → Grammar :=
  grammarBy fun inner ↦ nested (guarded inner)

/-- No production is called beyond the limit on the depth: one that fails there makes no
difference. -/
theorem guardedGrammar_eq (levels : Nat) : guardedGrammar levels = grammar levels :=
  congrArg (grammarBy · levels) (funext nested_guarded)

/-- What the productions do to a cursor, one change at a time. The limit on the depth is no part of
it. -/
inductive Cursor.Operation : Cursor → Cursor → Prop where
  | advance {c : Cursor} (h : c.atEnd = false) : Operation c c.advance
  | report (c : Cursor) {error : ParseError} (h : error.kind.isOrdinary = true) :
      Operation c (c.report error)
  | declare (c : Cursor) (name : String) : Operation c (c.declare name)
  | pushScope (c : Cursor) (inherits : Bool) : Operation c (c.pushScope inherits)
  | popScope (c : Cursor) : Operation c c.popScope
  | allowDo (c : Cursor) (allowed : Bool) : Operation c { c with allowDo := allowed }
  | enter (c : Cursor) : Operation c { c with depth := c.depth + 1 }
  | leave (c : Cursor) : Operation c { c with depth := c.depth - 1 }
  /-- The report that expressions are nested too deeply, and the skipping of what is left. -/
  | abandon {c c' : Cursor} {hole : Expr} (h : Parse.abandon c = some (hole, c'))
      (hend : c'.atEnd = true) : Operation c c'

/-- The cursors from one to another, each of them an operation behind the one before. -/
inductive Cursor.History : Cursor → List Cursor → Cursor → Prop where
  | here (c : Cursor) : History c [c] c
  | step {c c' last : Cursor} {cursors : List Cursor} (h : c.Operation c')
      (rest : History c' cursors last) : History c (c :: cursors) last

namespace Cursor.History

variable {c c' last : Cursor} {cursors later : List Cursor}

theorem single (h : c.Operation c') : History c [c, c'] c' :=
  .step h (.here c')

/-- Histories that meet in a cursor make one history. -/
theorem trans (h : History c cursors c') (h' : History c' later last) :
    ∃ all, History c all last := by
  induction h with
  | here c => exact ⟨later, h'⟩
  | step h _ ih =>
    obtain ⟨all, hall⟩ := ih h'
    exact ⟨_, .step h hall⟩

/-- What an operation keeps holds all along a history. -/
theorem forall_mem {holds : Cursor → Prop}
    (hstep : ∀ {c c' : Cursor}, c.Operation c' → holds c → holds c')
    (h : History c cursors last) (hc : holds c) : holds last ∧ ∀ x ∈ cursors, holds x := by
  induction h with
  | here c => exact ⟨hc, List.forall_mem_singleton.2 hc⟩
  | step h _ ih =>
    obtain ⟨hlast, hrest⟩ := ih (hstep h hc)
    exact ⟨hlast, List.forall_mem_cons.2 ⟨hc, hrest⟩⟩

/-- A history goes on from each of its cursors. -/
theorem from_mem (h : History c cursors last) {x : Cursor} (hx : x ∈ cursors) :
    ∃ rest, History x rest last := by
  induction h with
  | here c =>
    rw [List.mem_singleton.1 hx]
    exact ⟨_, .here c⟩
  | step h rest ih =>
    rcases List.mem_cons.1 hx with rfl | hx
    · exact ⟨_, .step h rest⟩
    · exact ih hx

end Cursor.History

/-- The discipline of having a history. -/
def recorded : Discipline where
  rel c c' := ∃ cursors, Cursor.History c cursors c'
  refl c := ⟨_, .here c⟩
  trans := by
    rintro _ _ _ ⟨_, h⟩ ⟨_, h'⟩
    exact h.trans h'
  advance h := ⟨_, .single (.advance h)⟩
  report c _ h := ⟨_, .single (.report c h)⟩
  declare c name := ⟨_, .single (.declare c name)⟩
  inScope {c c'} inherits := by
    rintro ⟨_, h⟩
    exact (Cursor.History.step (.pushScope c inherits) h).trans (.single (.popScope c'))
  withDo {c c'} allowed := by
    rintro ⟨_, h⟩
    exact (Cursor.History.step (.allowDo c allowed) h).trans (.single (.allowDo c' c.allowDo))
  nested {c c'} _ := by
    rintro ⟨_, h⟩
    exact (Cursor.History.step (.enter c) h).trans (.single (.leave c'))
  abandon hrun hend _ := ⟨_, .single (.abandon hrun hend)⟩

variable {c c' : Cursor} {hole : Expr}

/-- What holds in front of skipped tokens and is kept by reading them holds behind them. -/
theorem gives_skipWhile {motive : Cursor → Prop} {test : TokenKind → Bool}
    (hadvance : ∀ c : Cursor, test c.current.kind = true → motive c → motive c.advance)
    (hc : motive c) : Gives c (skipWhile test) fun _ c' ↦ motive c' := by
  refine gives_iterate (fun _ c' ↦ motive c') hc fun _ c' hc' ↦ .currentKind_bind ?_
  split
  · rename_i htest
    exact .advance_bind (.pure (hadvance c' htest hc'))
  · exact .pure hc'

/-- What holds behind the report and is kept by reading holds behind everything that is skipped. -/
theorem abandon_induction {motive : Cursor → Prop} (h : abandon c = some (hole, c'))
    (hc : motive c.giveUp)
    (hadvance : ∀ c : Cursor, c.atEnd = false → motive c → motive c.advance) : motive c' := by
  have hskip : Gives c.giveUp (skipWhile fun kind ↦ !kind.isEof) fun _ c' ↦ motive c' :=
    gives_skipWhile (fun c htest ↦ hadvance c ((Bool.not_eq_true' _).mp htest)) hc
  have hgives : Gives c abandon fun _ c' ↦ motive c' :=
    .currentSpan_bind (.modify_bind (.modify_bind (hskip.bind fun _ _ hmotive ↦ .pure hmotive)))
  exact hgives.of_run h

def ParseError.IsLexical (error : ParseError) : Prop :=
  ∃ kind, error.kind = .lex kind

theorem ParseError.IsLexical.ne_tooDeep {error : ParseError} (h : error.IsLexical) :
    error.kind ≠ .tooDeep := by
  obtain ⟨kind, hkind⟩ := h
  rw [hkind]
  exact ParseErrorKind.noConfusion

theorem ne_tooDeep_of_isOrdinary {kind : ParseErrorKind} (h : kind.isOrdinary = true) :
    kind ≠ .tooDeep := by
  rintro rfl
  cases h

/-- Fetching a token reports nothing but lexical errors. -/
theorem isLexical_fetch (size : Nat) (stream : List (Except LexError Token)) :
    ∀ error ∈ (fetch size stream).1, error.IsLexical := by
  induction stream with
  | nil => exact List.forall_mem_nil _
  | cons item rest ih =>
    cases item with
    | ok token => exact List.forall_mem_nil _
    | error error => exact List.forall_mem_cons.2 ⟨⟨_, rfl⟩, ih⟩

namespace Cursor

/-- Nothing but lexical errors is reported while tokens are skipped. -/
theorem errors_of_abandon (h : abandon c = some (hole, c')) :
    ∃ skipped, c'.errors = c.giveUp.errors ++ skipped ∧ ∀ error ∈ skipped, error.IsLexical := by
  refine abandon_induction
    (motive := fun x ↦ ∃ skipped, x.errors = c.giveUp.errors ++ skipped ∧
      ∀ error ∈ skipped, error.IsLexical) h ⟨[], (List.append_nil _).symm, List.forall_mem_nil _⟩ ?_
  rintro x - ⟨skipped, herrors, hskipped⟩
  refine ⟨skipped ++ (fetch x.size x.pending).1, ?_, ?_⟩
  · rw [← List.append_assoc, ← herrors]
    rfl
  · exact List.forall_mem_append.2 ⟨hskipped, isLexical_fetch _ _⟩

/-- Nothing takes back that nesting was too deep. -/
theorem tooDeep_of_abandon (h : abandon c = some (hole, c')) : c'.tooDeep = true :=
  abandon_induction (motive := fun x ↦ x.tooDeep = true) h rfl fun _ _ hx ↦ hx

/-- The rest of a source has been skipped. -/
structure Abandoned (c : Cursor) : Prop where
  tooDeep : c.tooDeep = true
  atEnd : c.atEnd = true

/-- Giving up once more changes nothing. -/
theorem Abandoned.eq_of_abandon (hc : c.Abandoned) (h : abandon c = some (hole, c')) : c' = c := by
  have hgiveUp : c.giveUp = c := by
    unfold giveUp report
    rw [if_pos hc.tooDeep]
    cases c
    cases hc.tooDeep
    rfl
  refine abandon_induction (motive := fun x ↦ x = c) h hgiveUp fun x hx heq ↦ ?_
  rw [heq, hc.atEnd] at hx
  cases hx

/-- Once nesting is too deep the rest of the source is skipped; the report comes once, and only
lexical errors come behind it. -/
structure Orderly (c : Cursor) : Prop where
  atEnd : c.tooDeep = true → c.atEnd = true
  quiet : c.tooDeep = false → ∀ error ∈ c.errors, error.kind ≠ .tooDeep
  lexical : c.errors.Pairwise fun earlier later ↦ earlier.kind = .tooDeep → later.IsLexical

namespace Orderly

theorem of_eq (h : c.Orderly) (hcurrent : c'.current = c.current)
    (htooDeep : c'.tooDeep = c.tooDeep) (herrors : c'.errors = c.errors) : c'.Orderly where
  atEnd hdeep := by
    rw [Cursor.atEnd, hcurrent]
    exact h.atEnd (htooDeep ▸ hdeep)
  quiet hquiet := herrors ▸ h.quiet (htooDeep ▸ hquiet)
  lexical := herrors ▸ h.lexical

/-- As long as nothing is skipped, errors can be added that are not about nesting. -/
theorem errors_append (h : c.Orderly) (hc : c.tooDeep = false) {added : List ParseError}
    (hadded : ∀ error ∈ added, error.kind ≠ .tooDeep) :
    (∀ error ∈ c.errors ++ added, error.kind ≠ .tooDeep) ∧
      (c.errors ++ added).Pairwise fun earlier later ↦
        earlier.kind = .tooDeep → later.IsLexical := by
  have hall : ∀ error ∈ c.errors ++ added, error.kind ≠ .tooDeep :=
    List.forall_mem_append.2 ⟨h.quiet hc, hadded⟩
  exact ⟨hall, List.pairwise_of_forall_mem_list fun earlier hearlier _ _ hdeep ↦
    absurd hdeep (hall earlier hearlier)⟩

theorem advance (h : c.Orderly) (hc : c.atEnd = false) : c.advance.Orderly := by
  have hquiet : c.tooDeep = false := by
    by_contra hdeep
    rw [h.atEnd (Bool.not_eq_false _ ▸ hdeep)] at hc
    cases hc
  obtain ⟨hall, hpairwise⟩ := h.errors_append hquiet fun error herror ↦
    (isLexical_fetch c.size c.pending error herror).ne_tooDeep
  exact ⟨fun hdeep ↦ absurd (hquiet.symm.trans hdeep) Bool.false_ne_true, fun _ ↦ hall,
    hpairwise⟩

/-- Reports are dropped once nesting is too deep, so an ordinary one never follows that report. -/
theorem report (h : c.Orderly) {error : ParseError} (herror : error.kind.isOrdinary = true) :
    (c.report error).Orderly := by
  unfold Cursor.report
  split
  · exact h
  · rename_i hdeep
    have hquiet : c.tooDeep = false := Bool.eq_false_iff.2 hdeep
    obtain ⟨hall, hpairwise⟩ := h.errors_append hquiet
      (List.forall_mem_singleton.2 (ne_tooDeep_of_isOrdinary herror))
    exact ⟨fun hdeep' ↦ absurd hdeep' hdeep, fun _ ↦ hall, hpairwise⟩

/-- Behind the report nothing but lexical errors follows. -/
theorem abandon (h : c.Orderly) (hrun : Parse.abandon c = some (hole, c'))
    (hend : c'.atEnd = true) : c'.Orderly := by
  cases hdeep : c.tooDeep with
  | true =>
    have habandoned : c.Abandoned := ⟨hdeep, h.atEnd hdeep⟩
    rwa [habandoned.eq_of_abandon hrun]
  | false =>
    have hafter := tooDeep_of_abandon hrun
    obtain ⟨skipped, herrors, hskipped⟩ := errors_of_abandon hrun
    have hgiveUp : c.giveUp.errors = c.errors ++ [⟨.tooDeep, c.current.span⟩] := by
      unfold giveUp Cursor.report
      rw [hdeep]
      rfl
    rw [hgiveUp, List.append_assoc] at herrors
    refine ⟨fun _ ↦ hend, fun hquiet ↦ ?_, ?_⟩
    · exact absurd (hquiet.symm.trans hafter) Bool.false_ne_true
    · rw [herrors, List.pairwise_append]
      refine ⟨h.lexical, List.pairwise_cons.2 ⟨fun later hlater _ ↦ hskipped later hlater, ?_⟩, ?_⟩
      · exact List.pairwise_of_forall_mem_list fun _ _ later hlater _ ↦ hskipped later hlater
      · exact fun earlier hearlier _ _ hkind ↦ absurd hkind (h.quiet hdeep earlier hearlier)

/-- By cases over the operations; only giving up reports that nesting is too deep, and it skips the
rest. -/
theorem operation (hoperation : c.Operation c') (h : c.Orderly) : c'.Orderly := by
  cases hoperation with
  | advance hc => exact h.advance hc
  | report herror => exact h.report herror
  | declare name =>
    obtain ⟨scopes, heq⟩ := c.declare_eq name
    rw [heq]
    exact h.of_eq rfl rfl rfl
  | popScope =>
    obtain ⟨scopes, heq⟩ := c.popScope_eq
    rw [heq]
    exact h.of_eq rfl rfl rfl
  | pushScope | allowDo | enter | leave => exact h.of_eq rfl rfl rfl
  | abandon hrun hend => exact h.abandon hrun hend

theorem start (source : String) : (Cursor.start source).Orderly := by
  let size := Text.byteLength source.toList
  have hlexical : ∀ error ∈ (Cursor.start source).errors, error.IsLexical :=
    List.forall_mem_append.2 ⟨isLexical_fetch size _, isLexical_fetch size _⟩
  have hall : ∀ error ∈ (Cursor.start source).errors, error.kind ≠ .tooDeep :=
    fun error herror ↦ (hlexical error herror).ne_tooDeep
  exact ⟨fun hdeep ↦ absurd hdeep Bool.false_ne_true, fun _ ↦ hall,
    List.pairwise_of_forall_mem_list fun _ _ later hlater _ ↦ hlexical later hlater⟩

end Orderly

/-- Nothing has been read or reported between a cursor and one behind it. -/
structure Stays (c c' : Cursor) : Prop where
  current_eq : c'.current = c.current
  position_eq : c'.position = c.position
  errors_eq : c'.errors = c.errors
  tooDeep_eq : c'.tooDeep = c.tooDeep

namespace Stays

theorem refl (c : Cursor) : c.Stays c :=
  ⟨rfl, rfl, rfl, rfl⟩

theorem trans {c'' : Cursor} (h : c.Stays c') (h' : c'.Stays c'') : c.Stays c'' where
  current_eq := h'.current_eq.trans h.current_eq
  position_eq := h'.position_eq.trans h.position_eq
  errors_eq := h'.errors_eq.trans h.errors_eq
  tooDeep_eq := h'.tooDeep_eq.trans h.tooDeep_eq

theorem abandoned (h : c.Stays c') (hc : c.Abandoned) : c'.Abandoned where
  tooDeep := h.tooDeep_eq.trans hc.tooDeep
  atEnd := by
    rw [Cursor.atEnd, h.current_eq]
    exact hc.atEnd

/-- At the end of an abandoned source nothing is read and nothing more is reported. -/
theorem operation (hoperation : c.Operation c') (hc : c.Abandoned) : c.Stays c' := by
  cases hoperation with
  | advance hinside =>
    rw [hc.atEnd] at hinside
    cases hinside
  | report =>
    rw [Cursor.report, if_pos hc.tooDeep]
    exact .refl c
  | declare name =>
    obtain ⟨scopes, heq⟩ := c.declare_eq name
    rw [heq]
    exact ⟨rfl, rfl, rfl, rfl⟩
  | popScope =>
    obtain ⟨scopes, heq⟩ := c.popScope_eq
    rw [heq]
    exact ⟨rfl, rfl, rfl, rfl⟩
  | abandon hrun =>
    rw [hc.eq_of_abandon hrun]
    exact .refl c
  | _ => exact ⟨rfl, rfl, rfl, rfl⟩

/-- Where the rest of the source has been skipped, no history goes on. -/
theorem history {cursors : List Cursor} {last : Cursor} (h : History c cursors last)
    (hc : c.Abandoned) : c.Stays last := by
  induction h with
  | here c => exact .refl c
  | step hoperation _ ih =>
    have hstays := operation hoperation hc
    exact hstays.trans (ih (hstays.abandoned hc))

end Stays

end Cursor

/-- Whether an error is the report that expressions are nested too deeply. -/
def ParseError.isTooDeep (error : ParseError) : Bool :=
  match error.kind with
  | .tooDeep => true
  | _ => false

theorem ParseError.kind_of_isTooDeep {error : ParseError} (h : error.isTooDeep = true) :
    error.kind = .tooDeep := by
  unfold isTooDeep at h
  split at h
  · assumption
  · cases h

/-- If nothing but lexical errors follows a report, there is at most one. -/
theorem countP_isTooDeep_le {errors : List ParseError}
    (h : errors.Pairwise fun earlier later ↦ earlier.kind = .tooDeep → later.IsLexical) :
    errors.countP ParseError.isTooDeep ≤ 1 := by
  induction errors with
  | nil => exact Nat.zero_le _
  | cons error errors ih =>
    obtain ⟨herror, hrest⟩ := List.pairwise_cons.1 h
    cases hdeep : error.isTooDeep with
    | false =>
      rw [List.countP_cons_of_neg (by rw [hdeep]; exact Bool.false_ne_true)]
      exact ih hrest
    | true =>
      have hnone : errors.countP ParseError.isTooDeep = 0 := by
        refine List.countP_eq_zero.2 fun later hlater hlater' ↦ ?_
        have hlexical := herror later hlater (ParseError.kind_of_isTooDeep hdeep)
        exact hlexical.ne_tooDeep (ParseError.kind_of_isTooDeep hlater')
      exact Nat.le_of_eq (by rw [List.countP_cons_of_pos hdeep, hnone])

-- The limit is met by parentheses.
example : (parse (String.ofList (List.replicate maxDepth '('))).errors.countP
    ParseError.isTooDeep = 1 := by
  decide +kernel

end DeclaredMethods.Source
