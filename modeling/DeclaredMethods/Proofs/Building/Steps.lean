import DeclaredMethods.Proofs.Places.Steps
import DeclaredMethods.Source.Parser.Grammar

/-!
# What trees are built from

Most productions put the pieces they have read together and neither look at them nor bring in
anything of their own. So a condition on the pieces of a tree that concerns only operators, signs
and whole numbers holds in a whole tree if it holds where operators and signs are read and where
numbers are.

A step `Yields` a property of values if, in front of tokens of a source, all values it can give have
the property, and the tokens behind them are tokens of the source as well.
-/

namespace DeclaredMethods

namespace Source

def innerTokens (source : String) : List Token :=
  (tokens source).filter Token.isInner

/-- A cursor in front of the last tokens of a source. -/
def Cursor.DrawsFrom (source : String) (c : Cursor) : Prop :=
  c.unread <:+ innerTokens source

namespace Cursor.DrawsFrom

variable {source : String} {c c' : Cursor}

/-- In front of the end the current token is one of the source. -/
theorem current_mem (h : c.DrawsFrom source) (hc : c.atEnd = false) :
    c.current ∈ tokens source := by
  rw [DrawsFrom, unread_eq_cons hc] at h
  exact List.mem_of_mem_filter (h.subset List.mem_cons_self)

/-- Only the tokens still to come matter. -/
theorem of_upcoming_eq (h : c.DrawsFrom source) (heq : c'.upcoming = c.upcoming) :
    c'.DrawsFrom source := by
  rwa [DrawsFrom, unread, heq]

theorem advance (h : c.DrawsFrom source) : c.advance.DrawsFrom source := by
  rw [DrawsFrom, unread_advance]
  exact ((List.suffix_cons _ _).filter _).trans h

theorem start (source : String) : (Cursor.start source).DrawsFrom source := by
  rw [DrawsFrom, unread_start]
  exact List.suffix_refl _

end Cursor.DrawsFrom

namespace Parse

variable {α β : Type} {source : String}

/-- In front of tokens of a source, whatever a step gives has the given property, and it leaves such
a cursor. -/
abbrev Yields (source : String) (step : Parse α) (post : α → Prop) : Prop :=
  Preserves (Cursor.DrawsFrom source) step post

/-- A step of whose values nothing need be known. -/
class Keeps (source : String) (step : Parse α) : Prop where
  yields : Yields source step fun _ ↦ True

end Parse

end Source

section Rules

open Source Source.Parse

variable {α β : Type} {source : String} {step : Parse α} {next : α → Parse β} {post : α → Prop}
  {last : β → Prop}

/-- Going on behind a step whose value does not matter. -/
theorem Preserves.after [hstep : Keeps source step]
    (hnext : ∀ value, Yields source (next value) last) : Yields source (step >>= next) last :=
  hstep.yields.bind fun value _ ↦ hnext value

/-- A step that is only made on a condition, in front of others. -/
theorem Preserves.optional {condition : Prop} [Decidable condition] {first : Parse Unit}
    {next : Unit → Parse β} [Keeps source first] (hnext : Yields source (next ()) last) :
    Yields source (if condition then first >>= next else next ()) last :=
  .either (.after fun _ ↦ hnext) hnext

/-- A property of the value of a loop is kept by every round. -/
theorem Preserves.iterate (post : α → Prop) {round : α → Parse (Round α)} {init : α}
    (hinit : post init)
    (hround : ∀ value, post value → Yields source (round value) fun result ↦ post result.value) :
    Yields source (iterate round init) post :=
  Preserves.get.bind fun _ _ ↦ .iterateWithin hinit hround _

theorem Preserves.inScope (inherits : Bool) (h : Yields source step post) :
    Yields source (inScope inherits step) post := by
  refine fun c hc ↦ triple_inScope (h _ (hc.of_upcoming_eq rfl)) fun value c' hvalue ↦ ?_
  obtain ⟨scopes, heq⟩ := c'.popScope_eq
  rw [heq]
  exact ⟨hvalue.1, hvalue.2.of_upcoming_eq rfl⟩

theorem Preserves.withDo (allowed : Bool) (h : Yields source step post) :
    Yields source (withDo allowed step) post :=
  fun _ hc ↦ triple_withDo (h _ (hc.of_upcoming_eq rfl)) fun _ _ hvalue ↦
    ⟨hvalue.1, hvalue.2.of_upcoming_eq rfl⟩

end Rules

namespace Source

open Piece (ofExpr? ofExprs)

namespace Parse

variable {α : Type} {source : String}

theorem Keeps.of_modify {change : Cursor → Cursor}
    (h : ∀ c : Cursor, c.DrawsFrom source → (change c).DrawsFrom source) :
    Keeps source (modify change : Parse Unit) where
  yields := .of_modify h

instance keeps_get : Keeps source (get : Parse Cursor) where
  yields := Preserves.get.mono fun _ _ ↦ trivial

instance keeps_currentKind : Keeps source currentKind where
  yields := .after fun _ ↦ .pure trivial

instance keeps_currentSpan : Keeps source currentSpan where
  yields := .after fun _ ↦ .pure trivial

instance keeps_currentStart : Keeps source currentStart where
  yields := .after fun _ ↦ .pure trivial

instance keeps_spanFrom (start : Nat) : Keeps source (spanFrom start) where
  yields := .after fun _ ↦ .pure trivial

instance keeps_advance : Keeps source advance :=
  .of_modify fun _ hc ↦ hc.advance

instance keeps_fail (kind : ParseErrorKind) : Keeps source (fail kind) :=
  .of_modify fun c hc ↦ by
    unfold Cursor.report
    split
    · exact hc
    · exact hc.of_upcoming_eq rfl

instance keeps_unexpected (expected : String) : Keeps source (unexpected expected) where
  yields := .after fun _ ↦ Keeps.yields

instance keeps_eatWord (word : Keyword) : Keeps source (eatWord word) where
  yields := .after fun _ ↦ .either (.after fun _ ↦ .pure trivial) (.pure trivial)

instance keeps_eat (mark : Punct) : Keeps source (eat mark) where
  yields := .after fun _ ↦ .either (.after fun _ ↦ .pure trivial) (.pure trivial)

instance keeps_missing (expected : String) : Keeps source (missing expected) where
  yields := .after fun _ ↦ .either Keeps.yields Keeps.yields

instance keeps_expectWord (word : Keyword) (expected : String) :
    Keeps source (expectWord word expected) where
  yields := .after fun _ ↦ .either Keeps.yields Keeps.yields

instance keeps_expect (mark : Punct) (expected : String) : Keeps source (expect mark expected) where
  yields := .after fun _ ↦ .either Keeps.yields Keeps.yields

instance keeps_declare (name : String) : Keeps source (declare name) :=
  .of_modify fun c hc ↦ by
    obtain ⟨scopes, heq⟩ := c.declare_eq name
    rw [heq]
    exact hc.of_upcoming_eq rfl

instance keeps_declareParams (params : List Param) : Keeps source (declareParams params) := by
  induction params with
  | nil => exact ⟨.pure trivial⟩
  | cons param params ih =>
    constructor
    unfold declareParams
    split
    · exact .after fun _ ↦ ih.yields
    · exact ih.yields

instance keeps_skipWhile (test : TokenKind → Bool) : Keeps source (skipWhile test) where
  yields := .iterate (fun _ ↦ True) trivial fun _ _ ↦
    .after fun _ ↦ .either (.after fun _ ↦ .pure trivial) (.pure trivial)

instance keeps_skipNewlines : Keeps source skipNewlines :=
  inferInstanceAs (Keeps source (skipWhile _))

instance keeps_skipTerminators : Keeps source skipTerminators :=
  inferInstanceAs (Keeps source (skipWhile _))

end Parse

def Node.operator? : Node → Option (Spanned BinaryOp)
  | binary _ op _ => some op
  | _ => none

def Node.isNumber : Node → Bool
  | literal (.int _) => .true
  | _ => .false

/-- Whether a form of expressions is neither a binary operation nor a negation nor a whole
number. -/
def Node.isPlain : Node → Bool
  | binary .. | unary ⟨.neg, _⟩ _ | literal (.int _) => .false
  | _ => .true

theorem Node.operator?_of_isPlain {node : Node} (h : node.isPlain = .true) :
    node.operator? = none := by
  cases node with
  | binary => cases h
  | _ => rfl

theorem Node.isNumber_of_isPlain {node : Node} (h : node.isPlain = .true) :
    node.isNumber = .false := by
  cases node with
  | literal value =>
    cases value with
    | int value => cases h
    | _ => rfl
  | _ => rfl

/-- Whether a piece is neither a binary operation nor a negation nor a whole number. -/
def Piece.isPlain : Piece → Bool
  | expr value => value.node.isPlain
  | _ => true

/-- A condition on the pieces of a tree that plain pieces meet, and whole numbers as well if they
are written in the source or have a sign in front of them. A negation meets it unless it is that of
a whole number. -/
structure Condition (source : String) where
  holds : Piece → Prop
  plain : ∀ piece : Piece, piece.isPlain = true → holds piece
  number : ∀ token rest value, token :: rest <:+ innerTokens source → token.kind = .int value →
    holds (.expr ⟨.literal (.int value), token.span⟩)
  /-- The sign stands right in front of the first token of the number. -/
  negative : ∀ sign first rest value inner span, sign :: first :: rest <:+ innerTokens source →
    sign.kind = .punct .minus → inner.start = first.span.start → span.start = sign.span.start →
    holds (.expr ⟨.literal (.int value), inner⟩) → holds (.expr ⟨.literal (.int (-value)), span⟩)
  negation : ∀ opSpan operand span, operand.node.isNumber = false →
    holds (.expr ⟨.unary ⟨.neg, opSpan⟩ operand, span⟩)

namespace Condition

variable {source : String}

def On (condition : Condition source) (piece : Piece) : Prop :=
  piece.Everywhere condition.holds

def OnAll (condition : Condition source) (pieces : List Piece) : Prop :=
  ∀ piece ∈ pieces, condition.On piece

/-- An expression all of whose pieces meet a condition. -/
abbrev OnExpr (condition : Condition source) (value : Expr) : Prop :=
  condition.On (.expr value)

/-- A body all of whose pieces meet a condition. -/
abbrev OnBody (condition : Condition source) (body : Body) : Prop :=
  condition.On (.body body)

/-- A plain expression all of whose pieces meet a condition. -/
structure OnOperand (condition : Condition source) (value : Expr) : Prop where
  on : condition.OnExpr value
  plain : value.node.isPlain = true

/-- An expression that was read from a cursor on: all its pieces meet a condition, it is no binary
operation, and if it is a whole number it starts with the current token. -/
structure OnRead (condition : Condition source) (c : Cursor) (value : Expr) : Prop where
  on : condition.OnExpr value
  operator?_eq : value.node.operator? = none
  front : value.node.isNumber = true → c.atEnd = false ∧ value.span.start = c.front

/-- A plain form of expressions all of whose pieces meet a condition. -/
structure OnNode (condition : Condition source) (node : Node) : Prop where
  plain : node.isPlain = true
  pieces : condition.OnAll node.pieces

variable {condition : Condition source}

section Lists

variable {pieces others : List Piece} {piece : Piece} {value : Expr} {span : Span}

@[simp]
theorem onAll_nil : condition.OnAll [] :=
  List.forall_mem_nil _

@[simp]
theorem onAll_cons :
    condition.OnAll (piece :: pieces) ↔ condition.On piece ∧ condition.OnAll pieces :=
  List.forall_mem_cons

@[simp]
theorem onAll_append :
    condition.OnAll (pieces ++ others) ↔ condition.OnAll pieces ∧ condition.OnAll others :=
  List.forall_mem_append

theorem OnAll.subset (h : condition.OnAll others) (hsubset : pieces ⊆ others) :
    condition.OnAll pieces :=
  fun piece hpiece ↦ h piece (hsubset hpiece)

/-- Of a plain piece a condition only says what it says of its parts. -/
theorem on_iff (hplain : piece.isPlain = true) :
    condition.On piece ↔ condition.OnAll piece.parts := by
  rw [On, Piece.everywhere_iff]
  exact and_iff_right (condition.plain piece hplain)

@[simp]
theorem on_word : condition.On (.word span) :=
  (on_iff rfl).2 onAll_nil

@[simp]
theorem on_body {statements : List Expr} :
    condition.On (.body ⟨statements, span⟩) ↔ condition.OnAll (ofExprs statements) :=
  on_iff rfl

@[simp]
theorem on_block {params : List Param} {body : Body} :
    condition.On (.block ⟨params, body, span⟩) ↔
      condition.OnAll (params.map .param) ∧ condition.On (.body body) := by
  rw [on_iff rfl, Piece.parts, onAll_append, onAll_cons]
  exact and_congr_right fun _ ↦ and_iff_left onAll_nil

@[simp]
theorem on_param {name : Option String} {kind : ParamKind} {default : Option Expr} :
    condition.On (.param ⟨name, kind, default, span⟩) ↔ condition.OnAll (ofExpr? default) :=
  on_iff rfl

end Lists

/-- A plain form whose pieces meet a condition makes an operand at every place. -/
theorem OnNode.onOperand {node : Node} (h : condition.OnNode node) (span : Span) :
    condition.OnOperand ⟨node, span⟩ := by
  have hplain : (Piece.expr ⟨node, span⟩).isPlain = true := h.plain
  exact ⟨(on_iff hplain).2 h.pieces, h.plain⟩

/-- A plain expression is no whole number, wherever it was read. -/
theorem OnOperand.onRead {value : Expr} (h : condition.OnOperand value) (c : Cursor) :
    condition.OnRead c value where
  on := h.on
  operator?_eq := Node.operator?_of_isPlain h.plain
  front hnumber := by
    rw [Node.isNumber_of_isPlain h.plain] at hnumber
    cases hnumber

end Condition

open Parse

section Finish

variable {source : String} {condition : Condition source} {node : Node}

/-- A step that gives plain expressions gives no whole number. -/
theorem Parse.Yields.onRead {step : Parse Expr} (h : Yields source step condition.OnOperand)
    {c : Cursor} (hc : c.DrawsFrom source) :
    Gives c step fun value c' ↦ condition.OnRead c value ∧ c'.DrawsFrom source :=
  (h c hc).mono fun _ _ hvalue ↦ ⟨hvalue.1.onRead c, hvalue.2⟩

/-- The node of an operand gets its place at the end. -/
theorem yields_finish (h : condition.OnNode node) (start : Nat) :
    Yields source (finish start node) condition.OnOperand :=
  .after fun span ↦ .pure (h.onOperand span)

/-- The expression that a round of a loop leaves. -/
theorem yields_again_finish (h : condition.OnNode node) (start : Nat) :
    Yields source (do return Round.again (← finish start node)) fun round ↦
      condition.OnOperand round.value :=
  (yields_finish h start).bind fun _ hvalue ↦ .pure hvalue

end Finish

section Nesting

variable {source : String} {condition : Condition source}

theorem onOperand_error (span : Span) : condition.OnOperand ⟨.error, span⟩ :=
  Condition.OnNode.onOperand ⟨rfl, Condition.onAll_nil⟩ span

/-- What skips the rest of a source comes to its end. -/
theorem gives_abandon {c : Cursor} (hc : c.DrawsFrom source) :
    Gives c abandon fun value c' ↦
      value = ⟨.error, c.current.span⟩ ∧ c'.DrawsFrom source ∧ c'.atEnd = true := by
  refine .currentSpan_bind ((Keeps.yields c hc).bind fun _ c₁ hfail ↦ .modify_bind ?_)
  have hdeep : ({ c₁ with tooDeep := true } : Cursor).DrawsFrom source :=
    hfail.2.of_upcoming_eq rfl
  refine Triple.bind (?_ : Gives _ _ fun _ c' ↦ c'.DrawsFrom source ∧ c'.atEnd = true)
    fun _ c' hend ↦ .pure ⟨rfl, hend⟩
  refine gives_iterate (fun _ c' ↦ c'.DrawsFrom source) hdeep fun _ c₂ hdraws ↦
    .currentKind_bind ?_
  split
  · exact .advance_bind (.pure hdraws.advance)
  · rename_i hkind
    exact .pure ⟨hdraws, by simpa [Cursor.atEnd] using hkind⟩

/-- A step one nesting level further in gives what the step gives, or an error at the end of the
source. -/
theorem gives_nested {inner : Parse Expr} {post : Expr → Cursor → Prop} {c : Cursor}
    (hc : c.DrawsFrom source) (h : Gives { c with depth := c.depth + 1 } inner post)
    (hleave : ∀ value (c : Cursor) depth, post value c → post value { c with depth := depth })
    (herror : ∀ span (c : Cursor), c.DrawsFrom source → c.atEnd = true → post ⟨.error, span⟩ c) :
    Gives c (nested inner) post := by
  refine triple_nested (fun _ ↦ ?_) (fun _ ↦ h) fun _ value c' hpost ↦ hleave value c' _ hpost
  refine (gives_abandon hc).mono fun value c' habandon ↦ ?_
  obtain ⟨rfl, hdraws, hend⟩ := habandon
  exact herror _ c' hdraws hend

/-- Giving up gives an error node, whatever was to be read. -/
theorem yields_abandon {post : Expr → Prop} (herror : ∀ span, post ⟨.error, span⟩) :
    Yields source abandon post := by
  refine fun c hc ↦ (gives_abandon hc).mono fun value c' habandon ↦ ?_
  obtain ⟨rfl, hdraws, -⟩ := habandon
  exact ⟨herror _, hdraws⟩

/-- One nesting level further in the same is read, or the reading is given up. -/
theorem Parse.Yields.nested {inner : Parse Expr} {post : Expr → Prop}
    (h : Yields source inner post) (herror : ∀ span, post ⟨.error, span⟩) :
    Yields source (nested inner) post :=
  fun _ hc ↦ gives_nested hc (h _ (hc.of_upcoming_eq rfl))
    (fun _ _ _ hpost ↦ ⟨hpost.1, hpost.2.of_upcoming_eq rfl⟩)
    fun span _ hdraws _ ↦ ⟨herror span, hdraws⟩

/-- What is read one nesting level further in starts with the same token. -/
theorem gives_nested_onRead {inner : Parse Expr} {c : Cursor} (hc : c.DrawsFrom source)
    (h : ∀ c : Cursor, c.DrawsFrom source →
      Gives c inner fun value c' ↦ condition.OnRead c value ∧ c'.DrawsFrom source) :
    Gives c (nested inner) fun value c' ↦ condition.OnRead c value ∧ c'.DrawsFrom source := by
  let deeper : Cursor := { c with depth := c.depth + 1 }
  have hdeeper : Gives deeper inner fun value c' ↦
      condition.OnRead c value ∧ c'.DrawsFrom source :=
    (h deeper (hc.of_upcoming_eq rfl)).mono fun _ _ hvalue ↦
      ⟨⟨hvalue.1.on, hvalue.1.operator?_eq, hvalue.1.front⟩, hvalue.2⟩
  exact gives_nested hc hdeeper (fun _ _ _ hvalue ↦ ⟨hvalue.1, hvalue.2.of_upcoming_eq rfl⟩)
    fun span _ hdraws _ ↦ ⟨(onOperand_error span).onRead c, hdraws⟩

end Nesting

end Source

end DeclaredMethods
