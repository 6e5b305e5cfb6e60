import DeclaredMethods.Proofs.Parsing.Stream

/-!
# How a step of parsing may move the cursor

A discipline relates the cursor in front of a step to the one behind it. It allows the few ways
in which the operations of a cursor change it, and it can be composed along a sequence of steps.
A step obeys a discipline if it gives a value from every cursor and only moves the cursor as the
discipline allows.

Every discipline comes with a basic one: tokens are read one after another and counted. This is
what makes loops end. A loop that reads a token in every round but the last obeys a discipline as
soon as its rounds do.
-/

namespace DeclaredMethods.Source

/-- Whether an error is about the place where it is reported, neither passed on from the tokens
nor a consequence of nesting. -/
def ParseErrorKind.isOrdinary : ParseErrorKind → Bool
  | lex _ | tooDeep => false
  | _ => true

/-- The cursor behind the report that expressions are nested too deeply. -/
def Cursor.giveUp (c : Cursor) : Cursor :=
  { c.report ⟨.tooDeep, c.current.span⟩ with tooDeep := true }

/-- A way in which steps may move the cursor. -/
structure Discipline where
  rel : Cursor → Cursor → Prop
  refl (c : Cursor) : rel c c
  trans {c₁ c₂ c₃ : Cursor} : rel c₁ c₂ → rel c₂ c₃ → rel c₁ c₃
  /-- The end of the source is never read. -/
  advance {c : Cursor} : c.atEnd = false → rel c c.advance
  report (c : Cursor) {error : ParseError} : error.kind.isOrdinary = true → rel c (c.report error)
  declare (c : Cursor) (name : String) : rel c (c.declare name)
  inScope {c c' : Cursor} (inherits : Bool) : rel (c.pushScope inherits) c' → rel c c'.popScope
  withDo {c c' : Cursor} (allowed : Bool) :
    rel { c with allowDo := allowed } c' → rel c { c' with allowDo := c.allowDo }
  nested {c c' : Cursor} : c.depth < maxDepth →
    rel { c with depth := c.depth + 1 } c' → rel c { c' with depth := c'.depth - 1 }
  /-- Where expressions are nested too deeply, everything up to the end is skipped. -/
  abandon {c c' : Cursor} {hole : Expr} : Parse.abandon c = some (hole, c') → c'.atEnd = true →
    rel c.giveUp c' → rel c c'

/-- Two disciplines at once. -/
def Discipline.meet (d e : Discipline) : Discipline where
  rel c c' := d.rel c c' ∧ e.rel c c'
  refl c := ⟨d.refl c, e.refl c⟩
  trans h h' := ⟨d.trans h.1 h'.1, e.trans h.2 h'.2⟩
  advance h := ⟨d.advance h, e.advance h⟩
  report c _ h := ⟨d.report c h, e.report c h⟩
  declare c name := ⟨d.declare c name, e.declare c name⟩
  inScope inherits h := ⟨d.inScope inherits h.1, e.inScope inherits h.2⟩
  withDo allowed h := ⟨d.withDo allowed h.1, e.withDo allowed h.2⟩
  nested hdepth h := ⟨d.nested hdepth h.1, e.nested hdepth h.2⟩
  abandon hrun hend h := ⟨d.abandon hrun hend h.1, e.abandon hrun hend h.2⟩

namespace Cursor

/-- Once nesting is too deep, reports are dropped. -/
theorem report_eq (c : Cursor) (error : ParseError) :
    c.report error = c ∨ c.report error = { c with errors := c.errors ++ [error] } := by
  unfold report
  split
  · exact .inl rfl
  · exact .inr rfl

theorem declare_eq (c : Cursor) (name : String) :
    ∃ scopes, c.declare name = { c with scopes := scopes } := by
  unfold declare
  split
  · split
    · exact ⟨c.scopes, rfl⟩
    · exact ⟨_, rfl⟩
  · exact ⟨c.scopes, rfl⟩

theorem popScope_eq (c : Cursor) : ∃ scopes, c.popScope = { c with scopes := scopes } := by
  unfold popScope
  split
  · exact ⟨_, rfl⟩
  · exact ⟨c.scopes, rfl⟩

end Cursor

theorem ParseError.lexical_of_isOrdinary {error : ParseError}
    (h : error.kind.isOrdinary = true) : error.lexical? = none := by
  obtain ⟨kind, span⟩ := error
  cases kind <;> first | rfl | cases h

/-- A discipline that is not concerned with scopes, blocks and nesting: reading a token and adding
an error that is not lexical keep to it, and so does every change of anything but the stream, the
position and the errors. -/
def Discipline.ofStream (rel : Cursor → Cursor → Prop)
    (trans : ∀ {c₁ c₂ c₃}, rel c₁ c₂ → rel c₂ c₃ → rel c₁ c₃)
    (advance : ∀ {c : Cursor}, c.atEnd = false → rel c c.advance)
    (report : ∀ (c : Cursor) {error : ParseError}, error.lexical? = none →
      rel c { c with errors := c.errors ++ [error] })
    (stay : ∀ {c c' : Cursor}, c'.upcoming = c.upcoming → c'.position = c.position →
      c'.errors = c.errors → rel c c') : Discipline :=
  have hreport (c : Cursor) {error : ParseError} (herror : error.lexical? = none) :
      rel c (c.report error) := by
    rcases c.report_eq error with h | h
    · rw [h]
      exact stay rfl rfl rfl
    · rw [h]
      exact report c herror
  { rel := rel
    refl := fun _ ↦ stay rfl rfl rfl
    trans := trans
    advance := advance
    report := fun c _ h ↦ hreport c (ParseError.lexical_of_isOrdinary h)
    declare := fun c name ↦ by
      obtain ⟨scopes, h⟩ := c.declare_eq name
      rw [h]
      exact stay rfl rfl rfl
    inScope := fun {_ c'} _ hinner ↦ by
      obtain ⟨scopes, h⟩ := c'.popScope_eq
      rw [h]
      refine trans ?_ (trans hinner ?_)
      · exact stay rfl rfl rfl
      · exact stay rfl rfl rfl
    withDo := fun _ hinner ↦ by
      refine trans ?_ (trans hinner ?_)
      · exact stay rfl rfl rfl
      · exact stay rfl rfl rfl
    nested := fun _ hinner ↦ by
      refine trans ?_ (trans hinner ?_)
      · exact stay rfl rfl rfl
      · exact stay rfl rfl rfl
    abandon := fun {c _ _} _ _ hskip ↦ by
      have htooDeep : ParseError.lexical? ⟨.tooDeep, c.current.span⟩ = none := rfl
      have hgiveUp : rel c c.giveUp := trans (hreport c htooDeep) (stay rfl rfl rfl)
      exact trans hgiveUp hskip }

/-- Reading on: the position counts the tokens that were read, and as long as it stays the same
the same token is current. -/
structure Cursor.Onward (c c' : Cursor) : Prop where
  position_le : c.position ≤ c'.position
  count : c'.position + c'.unread.length = c.position + c.unread.length
  current_eq : c'.position = c.position → c'.current = c.current

namespace Cursor.Onward

variable {c c' c'' : Cursor}

theorem trans (h : Onward c c') (h' : Onward c' c'') : Onward c c'' where
  position_le := Nat.le_trans h.position_le h'.position_le
  count := h'.count.trans h.count
  current_eq hposition := by
    have hle := h.position_le
    have hle' := h'.position_le
    rw [h'.current_eq (by omega), h.current_eq (by omega)]

/-- Reading a token that is not the end moves the position by one. -/
theorem advance (h : c.atEnd = false) : Onward c c.advance where
  position_le := Nat.le_succ _
  count := by
    rw [unread_eq_cons h, List.length_cons, Nat.add_comm c.advance.unread.length, ← Nat.add_assoc]
    rfl
  current_eq hposition := absurd hposition (Nat.succ_ne_self _)

theorem stay (hupcoming : c'.upcoming = c.upcoming) (hposition : c'.position = c.position) :
    Onward c c' where
  position_le := Nat.le_of_eq hposition.symm
  count := by rw [hposition, unread, hupcoming, ← unread]
  current_eq _ := Except.ok.inj (List.cons.inj hupcoming).1

theorem length_le (h : Onward c c') : c'.unread.length ≤ c.unread.length := by
  have hle := h.position_le
  have hcount := h.count
  omega

/-- A position that has changed has grown, by tokens that were read. -/
theorem length_lt (h : Onward c c') (hposition : c'.position ≠ c.position) :
    c'.unread.length < c.unread.length := by
  have hle := h.position_le
  have hcount := h.count
  omega

end Cursor.Onward

/-- Every token that is read is one less to read. -/
theorem Cursor.length_advance_lt {c : Cursor} (h : c.atEnd = false) :
    c.advance.unread.length < c.unread.length := by
  rw [unread_eq_cons h]
  exact Nat.lt_succ_self _

/-- The basic discipline: tokens are read one after another. -/
def onward : Discipline :=
  .ofStream Cursor.Onward .trans .advance (fun _ _ _ ↦ .stay rfl rfl)
    fun hupcoming hposition _ ↦ .stay hupcoming hposition

/-- Whether a discipline allows to come from one cursor to another by reading on. -/
def Discipline.Leads (d : Discipline) : Cursor → Cursor → Prop :=
  (onward.meet d).rel

namespace Discipline.Leads

variable {d : Discipline} {c c' : Cursor}

theorem onward (h : d.Leads c c') : c.Onward c' :=
  And.left h

theorem rel (h : d.Leads c c') : d.rel c c' :=
  And.right h

theorem length_le (h : d.Leads c c') : c'.unread.length ≤ c.unread.length :=
  h.onward.length_le

end Discipline.Leads

end DeclaredMethods.Source
