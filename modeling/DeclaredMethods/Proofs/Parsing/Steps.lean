import DeclaredMethods.Proofs.Parsing.Discipline
import DeclaredMethods.Proofs.Steps.Triples

/-!
# Steps that obey a discipline

A step obeys a discipline if from every cursor it gives a value and leads to another cursor in a
way that the discipline allows. Sequences, choices and loops of such steps obey it as well, and
so do the steps that all productions are made of.

Some productions begin by reading a token whatever it is; they obey a discipline from every
cursor that is not at the end of the source.
-/

namespace DeclaredMethods.Source

namespace Parse

variable {α β : Type} {d : Discipline} {c : Cursor}

section Context

variable {mayFail : Prop} {step : Parse α} {mid post : α → Cursor → Prop}

/-- A step in a scope of its own runs with the scope pushed and leaves with it popped. -/
theorem triple_inScope {inherits : Bool} (h : Triple mayFail (c.pushScope inherits) step mid)
    (hpost : ∀ value c', mid value c' → post value c'.popScope) :
    Triple mayFail c (inScope inherits step) post :=
  .modify_bind (h.bind fun value c' hmid ↦ .modify_bind (.pure (hpost value c' hmid)))

theorem triple_withDo {allowed : Bool} (h : Triple mayFail { c with allowDo := allowed } step mid)
    (hpost : ∀ value c', mid value c' → post value { c' with allowDo := c.allowDo }) :
    Triple mayFail c (withDo allowed step) post :=
  .get_bind (.modify_bind (h.bind fun value c' hmid ↦ .modify_bind (.pure (hpost value c' hmid))))

/-- A step one nesting level further in. Where expressions are nested too deeply, the rest of the
source is given up. -/
theorem triple_nested {inner : Parse Expr} {mid post : Expr → Cursor → Prop}
    (habandon : maxDepth ≤ c.depth → Triple mayFail c abandon post)
    (h : c.depth < maxDepth → Triple mayFail { c with depth := c.depth + 1 } inner mid)
    (hpost : c.depth < maxDepth → ∀ value c', mid value c' →
      post value { c' with depth := c'.depth - 1 }) :
    Triple mayFail c (nested inner) post := by
  refine .get_bind (.ite habandon fun hdepth ↦ .modify_bind ?_)
  have hless : c.depth < maxDepth := Nat.lt_of_not_le hdepth
  exact (h hless).bind fun value c' hmid ↦ .modify_bind (.pure (hpost hless value c' hmid))

end Context

/-- From the given cursor, a step gives a value and leads on to a cursor as the discipline
allows; value and cursor have the given property. -/
def ObeysAt (d : Discipline) (c : Cursor) (step : Parse α) (post : α → Cursor → Prop) : Prop :=
  Triple False c step fun value c' ↦ d.Leads c c' ∧ post value c'

/-- From every cursor, a step gives a value and moves the cursor as the discipline allows. -/
def Obeys (d : Discipline) (step : Parse α) : Prop :=
  ∀ c, ObeysAt d c step fun _ _ ↦ True

/-- A step that obeys a discipline except at the end of the source. -/
def ObeysInside (d : Discipline) (step : Parse α) : Prop :=
  ∀ c, c.atEnd = false → ObeysAt d c step fun _ _ ↦ True

/-- A step that leaves the cursor as it is. -/
def Looks (step : Parse α) : Prop :=
  ∀ c, ∃ value, step c = some (value, c)

section Sequences

variable {step other : Parse α} {next : α → Parse β} {mid post : α → Cursor → Prop}
  {last : β → Cursor → Prop}

theorem ObeysAt.pure {value : α} (h : post value c) : ObeysAt d c (Pure.pure value) post :=
  Triple.pure ⟨(onward.meet d).refl c, h⟩

/-- A step that obeys a discipline does give a value. -/
theorem ObeysAt.exists_run (h : ObeysAt d c step post) :
    ∃ value c', step c = some (value, c') ∧ d.Leads c c' ∧ post value c' :=
  triple_false_iff.1 h

theorem ObeysAt.mono (h : ObeysAt d c step mid)
    (himp : ∀ value c', d.Leads c c' → mid value c' → post value c') :
    ObeysAt d c step post :=
  Triple.mono h fun value c' hmid ↦ ⟨hmid.1, himp value c' hmid.1 hmid.2⟩

/-- Ways that a discipline allows are followed by others. -/
theorem ObeysAt.behind {c₀ : Cursor} (hleads : d.Leads c₀ c) (h : ObeysAt d c step post) :
    Triple False c step fun value c' ↦ d.Leads c₀ c' ∧ post value c' :=
  Triple.mono h fun _ _ hpost ↦ ⟨(onward.meet d).trans hleads hpost.1, hpost.2⟩

/-- Going on behind a step whose result is known. -/
theorem ObeysAt.bind_of_run {value : α} {c' : Cursor} (hrun : step c = some (value, c'))
    (hleads : d.Leads c c') (h : ObeysAt d c' (next value) last) :
    ObeysAt d c (step >>= next) last :=
  Triple.bind_of_run hrun (h.behind hleads)

/-- The second step starts where the first one has led, and may use what it has given. -/
theorem ObeysAt.bind (h : ObeysAt d c step mid)
    (hnext : ∀ value c', d.Leads c c' → mid value c' → ObeysAt d c' (next value) last) :
    ObeysAt d c (step >>= next) last :=
  Triple.bind h fun value c' hmid ↦ (hnext value c' hmid.1 hmid.2).behind hmid.1

/-- A step that looks at the whole cursor. -/
theorem ObeysAt.get_bind {next : Cursor → Parse β} (h : ObeysAt d c (next c) last) :
    ObeysAt d c (get >>= next) last :=
  Triple.get_bind h

theorem ObeysAt.currentKind_bind {next : TokenKind → Parse β}
    (h : ObeysAt d c (next c.current.kind) last) : ObeysAt d c (currentKind >>= next) last :=
  Triple.bind_of_run rfl h

/-- A step that only looks is followed by whatever the same cursor allows. -/
theorem ObeysAt.bind_of_looks (h : Looks step) (hnext : ∀ value, ObeysAt d c (next value) last) :
    ObeysAt d c (step >>= next) last := by
  obtain ⟨value, hrun⟩ := h c
  exact Triple.bind_of_run hrun (hnext value)

/-- Reading a token and going on behind it. -/
theorem ObeysAt.advance_bind {next : Unit → Parse β} (hc : c.atEnd = false)
    (h : ObeysAt d c.advance (next ()) last) : ObeysAt d c (advance >>= next) last :=
  .bind_of_run rfl ((onward.meet d).advance hc) h

theorem Obeys.pure (value : α) : Obeys d (Pure.pure value) :=
  fun _ ↦ .pure trivial

/-- Steps that obey from everywhere can be put one after another. -/
theorem Obeys.bind (h : Obeys d step) (hnext : ∀ value, Obeys d (next value)) :
    Obeys d (step >>= next) :=
  fun c ↦ (h c).bind fun value c' _ _ ↦ hnext value c'

theorem Obeys.ite {condition : Prop} [Decidable condition] (h : Obeys d step)
    (h' : Obeys d other) : Obeys d (if condition then step else other) := by
  split
  · exact h
  · exact h'

/-- A step that is only made on a condition, in front of others. -/
theorem ObeysAt.optional {condition : Prop} [Decidable condition] {first : Parse Unit}
    {next : Unit → Parse β} (h : Obeys d first)
    (hnext : ∀ c', d.Leads c c' → ObeysAt d c' (next ()) last) :
    ObeysAt d c (if condition then first >>= next else next ()) last := by
  split
  · exact (h c).bind fun _ c' hleads _ ↦ hnext c' hleads
  · exact hnext c ((onward.meet d).refl c)

theorem Obeys.optional {condition : Prop} [Decidable condition] {first : Parse Unit}
    {next : Unit → Parse β} (h : Obeys d first) (hnext : Obeys d (next ())) :
    Obeys d (if condition then first >>= next else next ()) :=
  fun _ ↦ .optional h fun c' _ ↦ hnext c'

/-- A step that needs a token to begin with, behind one that only looks. -/
theorem ObeysInside.bind_of_looks (h : Looks step) (hnext : ∀ value, ObeysInside d (next value)) :
    ObeysInside d (step >>= next) :=
  fun c hc ↦ .bind_of_looks h fun value ↦ hnext value c hc

/-- A token that is there may be read without looking at it. -/
theorem ObeysInside.advance {next : Unit → Parse β} (h : Obeys d (next ())) :
    ObeysInside d (advance >>= next) :=
  fun _ hc ↦ .advance_bind hc (h _)

/-- A step that leaves the cursor as it is obeys every discipline. -/
theorem Looks.obeys (h : Looks step) : Obeys d step := by
  intro c
  obtain ⟨value, hrun⟩ := h c
  exact .inl ⟨value, c, hrun, (onward.meet d).refl c, trivial⟩

end Sequences

theorem looks_currentKind : Looks currentKind :=
  fun c ↦ ⟨c.current.kind, rfl⟩

theorem looks_currentSpan : Looks currentSpan :=
  fun c ↦ ⟨c.current.span, rfl⟩

theorem looks_currentStart : Looks currentStart :=
  fun c ↦ ⟨c.current.span.start, rfl⟩

theorem looks_spanFrom (start : Nat) : Looks (spanFrom start) :=
  fun c ↦ ⟨c.spanFrom start, rfl⟩

theorem obeys_finish (start : Nat) (node : Node) : Obeys d (finish start node) :=
  (looks_spanFrom start).obeys.bind fun _ ↦ .pure _

/-- Any other kind of token shows that the end is not reached. -/
theorem atEnd_of_kind {kind : TokenKind} (h : c.current.kind = kind)
    (hkind : kind.isEof = false) : c.atEnd = false := by
  rw [Cursor.atEnd, h, hkind]

theorem atEnd_of_ne_eof (h : c.current.kind ≠ .eof) : c.atEnd = false := by
  cases hkind : c.current.kind with
  | eof => exact absurd hkind h
  | _ => exact atEnd_of_kind hkind rfl

theorem kind_of_atEnd (h : c.atEnd = true) : c.current.kind = .eof := by
  cases hkind : c.current.kind with
  | eof => rfl
  | _ =>
    rw [atEnd_of_kind hkind rfl] at h
    cases h

theorem atEnd_of_atMark {mark : Punct} (h : c.atMark mark = true) : c.atEnd = false :=
  atEnd_of_ne_eof fun hend ↦ by
    rw [Cursor.atMark, hend] at h
    cases h

theorem atEnd_of_atWord {word : Keyword} (h : c.atWord word = true) : c.atEnd = false :=
  atEnd_of_ne_eof fun hend ↦ by
    rw [Cursor.atWord, hend] at h
    cases h

/-- Errors that are neither passed on from the tokens nor about nesting may be reported. -/
theorem obeys_fail {kind : ParseErrorKind} (h : kind.isOrdinary = true) : Obeys d (fail kind) :=
  fun c ↦ .inl ⟨(), c.report ⟨kind, c.current.span⟩, rfl, (onward.meet d).report c h, trivial⟩

theorem obeys_unexpected (expected : String) : Obeys d (unexpected expected) :=
  looks_currentKind.obeys.bind fun _ ↦ obeys_fail rfl

theorem obeys_missing (expected : String) : Obeys d (missing expected) :=
  fun _ ↦ .get_bind (Obeys.ite (obeys_fail rfl) (obeys_unexpected expected) _)

/-- What an optional token leaves behind: it has been read, or nothing has changed. -/
def Eaten (c : Cursor) : Bool → Cursor → Prop
  | true, c' => c.atEnd = false ∧ c' = c.advance
  | false, c' => c' = c

/-- A token that is read if it passes a test, which the end of the source does not. -/
theorem obeysAt_eatIf {test : Cursor → Bool} (htest : ∀ {c}, test c = true → c.atEnd = false)
    (c : Cursor) :
    ObeysAt d c (do if test (← get) then advance; return true else return false) (Eaten c) := by
  refine .get_bind ?_
  split
  · rename_i hpasses
    exact .advance_bind (htest hpasses) (.pure ⟨htest hpasses, rfl⟩)
  · exact .pure rfl

/-- A mark that is not the end of the source is read if it is there. -/
theorem obeysAt_eat (mark : Punct) (c : Cursor) : ObeysAt d c (eat mark) (Eaten c) :=
  obeysAt_eatIf atEnd_of_atMark c

theorem obeysAt_eatWord (word : Keyword) (c : Cursor) : ObeysAt d c (eatWord word) (Eaten c) :=
  obeysAt_eatIf atEnd_of_atWord c

theorem obeys_eat (mark : Punct) : Obeys d (eat mark) :=
  fun c ↦ (obeysAt_eat mark c).mono fun _ _ _ _ ↦ trivial

theorem obeys_eatWord (word : Keyword) : Obeys d (eatWord word) :=
  fun c ↦ (obeysAt_eatWord word c).mono fun _ _ _ _ ↦ trivial

/-- A token that is missed if it fails a test, which the end of the source does. -/
theorem obeys_expectIf {test : Cursor → Bool} (htest : ∀ {c}, test c = true → c.atEnd = false)
    (expected : String) :
    Obeys d (do if test (← get) then advance else missing expected) := by
  refine fun c ↦ .get_bind ?_
  split
  · rename_i hpasses
    exact .inl ⟨(), c.advance, rfl, (onward.meet d).advance (htest hpasses), trivial⟩
  · exact obeys_missing expected c

theorem obeys_expect (mark : Punct) (expected : String) : Obeys d (expect mark expected) :=
  obeys_expectIf atEnd_of_atMark expected

theorem obeys_expectWord (word : Keyword) (expected : String) :
    Obeys d (expectWord word expected) :=
  obeys_expectIf atEnd_of_atWord expected

theorem obeys_declare (name : String) : Obeys d (declare name) :=
  fun c ↦ .inl ⟨(), c.declare name, rfl, (onward.meet d).declare c name, trivial⟩

theorem obeys_declareParams (params : List Param) : Obeys d (declareParams params) := by
  induction params with
  | nil => exact .pure ()
  | cons param params ih =>
    unfold declareParams
    split
    · exact (obeys_declare _).bind fun _ ↦ ih
    · exact ih

section Around

variable {step : Parse α}

/-- A discipline bears that a step runs in a scope of its own. -/
theorem obeys_inScope (inherits : Bool) (h : Obeys d step) : Obeys d (inScope inherits step) :=
  fun _ ↦ triple_inScope (h _) fun _ _ hstep ↦
    ⟨(onward.meet d).inScope inherits hstep.1, trivial⟩

theorem obeys_withDo (allowed : Bool) (h : Obeys d step) : Obeys d (withDo allowed step) :=
  fun _ ↦ triple_withDo (h _) fun _ _ hstep ↦ ⟨(onward.meet d).withDo allowed hstep.1, trivial⟩

end Around

section Loops

variable {step : α → Parse (Round α)} {post : α → Cursor → Prop}

/-- What a round of a loop does: it reads a token, or it is the last one. -/
def Proceeds (c : Cursor) (post : α → Cursor → Prop) : Round α → Cursor → Prop
  | .again _, c' => c'.unread.length < c.unread.length
  | .done value, c' => post value c'

/-- A round of a loop that obeys a discipline: from every cursor it reads a token, or it is the
last one. -/
def ObeysRound (d : Discipline) (round : Parse (Round α)) : Prop :=
  ∀ c, ObeysAt d c round (Proceeds c fun _ _ ↦ True)

/-- With more rounds than unread tokens, a loop comes to its end. -/
theorem obeysAt_iterate (value : α) (c : Cursor)
    (h : ∀ value c', c'.unread.length ≤ c.unread.length →
      ObeysAt d c' (step value) (Proceeds c' post)) :
    ObeysAt d c (iterate step value) post := by
  refine .get_bind (triple_iterateWithin_of_lt (fun _ c' ↦ d.Leads c c')
    (fun c' ↦ c'.unread.length) c.length_unread_lt_rounds ((onward.meet d).refl c) ?_)
  intro value c' hleads
  refine ((h value c' hleads.length_le).behind hleads).mono fun round c'' hround ↦ ?_
  cases round with
  | again value => exact hround
  | done value => exact hround

/-- A loop of rounds that each read a token ends. -/
theorem obeys_iterate (value : α) (h : ∀ value, ObeysRound d (step value)) :
    Obeys d (iterate step value) :=
  fun c ↦ obeysAt_iterate value c fun value c' _ ↦ h value c'

variable {round other : Parse (Round α)} {next : β → Parse (Round α)}

/-- The last round need not read anything. -/
theorem ObeysRound.done (value : α) : ObeysRound d (pure (.done value)) :=
  fun _ ↦ .pure trivial

theorem ObeysRound.ite {condition : Prop} [Decidable condition] (h : ObeysRound d round)
    (h' : ObeysRound d other) : ObeysRound d (if condition then round else other) := by
  split
  · exact h
  · exact h'

/-- The tokens that a later part of a round reads count for the whole round. -/
theorem ObeysAt.round_mono {c₀ : Cursor} (h : ObeysAt d c round (Proceeds c fun _ _ ↦ True))
    (hle : c.unread.length ≤ c₀.unread.length) :
    ObeysAt d c round (Proceeds c₀ fun _ _ ↦ True) := by
  refine h.mono fun result c' _ hlast ↦ ?_
  cases result with
  | again value => exact Nat.lt_of_lt_of_le hlast hle
  | done value => trivial

/-- What comes in front of a round need not read a token. -/
theorem ObeysRound.bind {first : Parse β} (h : Obeys d first)
    (hnext : ∀ value, ObeysRound d (next value)) : ObeysRound d (first >>= next) :=
  fun c ↦ (h c).bind fun value c' hleads _ ↦ (hnext value c').round_mono hleads.length_le

theorem ObeysRound.optional {condition : Prop} [Decidable condition] {first : Parse Unit}
    {next : Unit → Parse (Round α)} (h : Obeys d first) (hnext : ObeysRound d (next ())) :
    ObeysRound d (if condition then first >>= next else next ()) :=
  fun _ ↦ .optional h fun c' hleads ↦ (hnext c').round_mono hleads.length_le

/-- Once a token has been read, whatever follows may end the round. -/
theorem Obeys.round_behind {c₀ : Cursor} (h : Obeys d round)
    (hless : c.unread.length < c₀.unread.length) :
    ObeysAt d c round (Proceeds c₀ fun _ _ ↦ True) := by
  refine (h c).mono fun result c' hleads _ ↦ ?_
  cases result with
  | again value => exact Nat.lt_of_le_of_lt hleads.length_le hless
  | done value => trivial

/-- A round that begins by reading a token proceeds. -/
theorem ObeysAt.advance_round {next : Unit → Parse (Round α)} (hc : c.atEnd = false)
    (h : Obeys d (next ())) :
    ObeysAt d c (advance >>= next) (Proceeds c fun _ _ ↦ True) :=
  .advance_bind hc (h.round_behind (Cursor.length_advance_lt hc))

/-- A token that is only read on a condition, in front of a round. -/
theorem ObeysRound.advance_optional {condition : Prop} [Decidable condition]
    {next : Unit → Parse (Round α)} (hnext : ObeysRound d (next ()))
    (hc : condition → c.atEnd = false) :
    ObeysAt d c (if condition then advance >>= next else next ())
      (Proceeds c fun _ _ ↦ True) := by
  split
  · rename_i hcondition
    have hless := Cursor.length_advance_lt (hc hcondition)
    exact .advance_bind (hc hcondition) ((hnext _).round_mono (Nat.le_of_lt hless))
  · exact hnext c

/-- A round that goes on behind an optional token and is the last one without it. -/
theorem ObeysRound.eaten {optional : Parse Bool}
    (hoptional : ∀ c, ObeysAt d c optional (Eaten c)) (h : Obeys d round)
    (h' : ObeysRound d other) :
    ObeysRound d (optional >>= fun eaten ↦ if eaten = true then round else other) := by
  refine fun c ↦ (hoptional c).bind fun eaten c' _ heaten ↦ ?_
  cases eaten with
  | true =>
    obtain ⟨hc, rfl⟩ := heaten
    exact h.round_behind (Cursor.length_advance_lt hc)
  | false =>
    obtain rfl := heaten
    exact h' _

/-- A loop that skips tokens stops at one that fails its test. -/
theorem obeysAt_skipWhile (test : TokenKind → Bool) (htest : test .eof = false) (c : Cursor) :
    ObeysAt d c (skipWhile test) fun _ c' ↦ test c'.current.kind = false := by
  refine obeysAt_iterate () c fun _ c' _ ↦ .currentKind_bind ?_
  split
  · rename_i hkind
    have hc : c'.atEnd = false := atEnd_of_ne_eof fun hend ↦ by
      rw [hend, htest] at hkind
      cases hkind
    exact .advance_bind hc (.pure (Cursor.length_advance_lt hc))
  · rename_i hkind
    exact .pure (Bool.eq_false_iff.2 hkind)

/-- Skipping stops at the end of the source if the end is not to be skipped. -/
theorem obeys_skipWhile (test : TokenKind → Bool) (htest : test .eof = false) :
    Obeys d (skipWhile test) :=
  fun c ↦ (obeysAt_skipWhile test htest c).mono fun _ _ _ _ ↦ trivial

theorem obeys_skipNewlines : Obeys d skipNewlines :=
  obeys_skipWhile _ rfl

theorem obeys_skipTerminators : Obeys d skipTerminators :=
  obeys_skipWhile _ rfl

/-- Each further item stands behind a comma, so the list ends. -/
theorem obeys_whileComma {item : Parse α} (items : List α) (h : Obeys d item) :
    Obeys d (whileComma item items) :=
  obeys_iterate items fun items ↦
    .eaten (obeysAt_eat .comma) (h.bind fun _ ↦ .pure _) (.done items)

end Loops

/-- Giving up skips the rest of the source and does not fail. -/
theorem obeys_abandon : Obeys d abandon := by
  intro c
  obtain ⟨value, c', hrun, hleads, hkind⟩ :=
    (obeysAt_skipWhile (d := d) (fun kind ↦ !kind.isEof) rfl c.giveUp).exists_run
  have habandon : abandon c = some (⟨.error, c.current.span⟩, c') := by
    change (skipWhile (fun kind ↦ !kind.isEof) c.giveUp).bind _ = _
    rw [hrun]
    rfl
  have hend : c'.atEnd = true := (Bool.not_eq_false' _).mp hkind
  exact .inl ⟨_, c', habandon, (onward.meet d).abandon habandon hend hleads, trivial⟩

/-- Both ways of a nested expression obey: going down a level and giving up. -/
theorem obeys_nested {inner : Parse Expr} (h : Obeys d inner) : Obeys d (nested inner) :=
  fun c ↦ triple_nested (fun _ ↦ obeys_abandon c) (fun _ ↦ h _) fun hdepth _ _ hinner ↦
    ⟨(onward.meet d).nested hdepth hinner.1, trivial⟩

end Parse

end DeclaredMethods.Source
