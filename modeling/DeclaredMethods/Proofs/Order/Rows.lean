import DeclaredMethods.Proofs.Order.Writing
import DeclaredMethods.Proofs.Building.Steps

/-!
# Rows of children

Productions read the children of an expression one after another. Between two cursors children stand
in a row if they lie between the two, each of them in front of the next one, and if everything
inside them is written. A production that lists its children in the order in which it reads them
gives a written expression.

Nothing is promised where something was reported.
-/

namespace DeclaredMethods.Source

open Cursor (Moves)
open Parse

/-- A child, and what stands together in it, lies between two places. -/
structure Child.Within (lower : Nat) (child : Child) (upper : Nat) : Prop where
  start_le : lower ≤ child.span.start
  le_stop : child.span.stop ≤ upper
  opened : ∀ part ∈ child.opened, lower ≤ part.span.start ∧ part.span.stop ≤ upper

/-- Children between two places that are written one after another. -/
structure Lined (lower : Nat) (children : List Child) (upper : Nat) : Prop where
  within : ∀ child ∈ children, child.Within lower upper
  ordered : children.Pairwise fun first second ↦ ∀ part ∈ first.opened, part.InFront second
  written : ∀ child ∈ children, child.Throughout Expr.Written

section

variable {lower middle upper : Nat} {children later : List Child} {child : Child}

theorem Child.Within.mono {lower' upper' : Nat} (h : child.Within lower upper)
    (hlower : lower' ≤ lower) (hupper : upper ≤ upper') : child.Within lower' upper' where
  start_le := Nat.le_trans hlower h.start_le
  le_stop := Nat.le_trans h.le_stop hupper
  opened part hpart := ⟨Nat.le_trans hlower (h.opened part hpart).1,
    Nat.le_trans (h.opened part hpart).2 hupper⟩

/-- What lies in front of a place is written in front of what lies behind it. -/
theorem Child.Within.inFront {second : Child} (h : child.Within lower middle)
    (h' : middle ≤ second.span.start) : ∀ part ∈ child.opened, part.InFront second :=
  fun part hpart ↦ .inr (Nat.le_trans (h.opened part hpart).2 h')

/-- What ends in front of a child is listed in front of it without an exchange. -/
theorem Child.Within.lists {node : Node} {second : Child} (h : child.Within lower middle)
    (h' : middle ≤ second.span.start) : node.Lists child second :=
  fun part hpart ↦ .inl (h.inFront h' part hpart)

/-- What stands together in an expression is the expression itself or one of its children. -/
theorem Child.mem_opened {value : Expr} {part : Child} (h : part ∈ (Child.expr value).opened) :
    part = .expr value ∨ part ∈ value.node.children := by
  unfold Child.opened at h
  split at h
  · rename_i heq
    cases heq
    exact .inr h
  · exact .inl (List.mem_singleton.1 h)

namespace Lined

theorem nil : Lined lower [] upper :=
  ⟨List.forall_mem_nil _, .nil, List.forall_mem_nil _⟩

theorem mono {lower' upper' : Nat} (h : Lined lower children upper) (hlower : lower' ≤ lower)
    (hupper : upper ≤ upper') : Lined lower' children upper' :=
  ⟨fun child hchild ↦ (h.within child hchild).mono hlower hupper, h.ordered, h.written⟩

theorem sublist (h : Lined lower children upper) (hsublist : later.Sublist children) :
    Lined lower later upper where
  within child hchild := h.within child (hsublist.subset hchild)
  ordered := h.ordered.sublist hsublist
  written child hchild := h.written child (hsublist.subset hchild)

/-- Rows that meet in a place make one row. -/
theorem append (h : Lined lower children middle) (h' : Lined middle later upper)
    (hlower : lower ≤ middle) (hupper : middle ≤ upper) :
    Lined lower (children ++ later) upper where
  within := List.forall_mem_append.2 ⟨(h.mono (Nat.le_refl _) hupper).within,
    (h'.mono hlower (Nat.le_refl _)).within⟩
  ordered := List.pairwise_append.2 ⟨h.ordered, h'.ordered, fun first hfirst second hsecond ↦
    (h.within first hfirst).inFront (h'.within second hsecond).start_le⟩
  written := List.forall_mem_append.2 ⟨h.written, h'.written⟩

/-- A row is listed as it is written, with no exchange. -/
theorem lists {node : Node} (h : Lined lower children upper) : children.Pairwise node.Lists :=
  h.ordered.imp fun hfront part hpart ↦ .inl (hfront part hpart)

/-- A written expression, given that its children are. -/
theorem of_written {value : Expr} (hvalue : value.Written) (hlower : lower ≤ value.span.start)
    (hupper : value.span.stop ≤ upper)
    (hchildren : ∀ child ∈ value.node.children,
      child.Within lower upper ∧ child.Throughout Expr.Written) :
    Lined lower [.expr value] upper where
  within := by
    refine List.forall_mem_singleton.2 ⟨hlower, hupper, fun part hpart ↦ ?_⟩
    rcases Child.mem_opened hpart with rfl | hpart
    · exact ⟨hlower, hupper⟩
    · exact ⟨(hchildren part hpart).1.start_le, (hchildren part hpart).1.le_stop⟩
  ordered := List.pairwise_singleton _ _
  written := List.forall_mem_singleton.2 (Child.throughout_expr hvalue fun child hchild ↦
    (hchildren child hchild).2)

end Lined

def Node.isOwnCall : Node → Bool
  | call none .. => .true
  | _ => .false

/-- The children of an expression that is not a call are written as they are listed. -/
theorem Lined.written_of_sublist {value : Expr} (h : Lined lower children upper)
    (hsublist : value.node.children.Sublist children) (hnode : value.node.isOwnCall = false) :
    value.Written where
  ordered := (h.sublist hsublist).lists
  named heq := by
    rw [heq] at hnode
    cases hnode

/-- An expression with its children in a row may leave some of them out. -/
theorem Lined.expr {value : Expr} (h : Lined lower children upper)
    (hsublist : value.node.children.Sublist children) (hnode : value.node.isOwnCall = false)
    (hlower : lower ≤ value.span.start) (hupper : value.span.stop ≤ upper) :
    Lined lower [.expr value] upper :=
  .of_written (h.written_of_sublist hsublist hnode) hlower hupper fun child hchild ↦
    ⟨h.within child (hsublist.subset hchild), h.written child (hsublist.subset hchild)⟩

/-- Statements in a row make a body. -/
theorem Lined.body {value : Body} (h : Lined lower (value.statements.map .expr) upper)
    (hlower : lower ≤ value.span.start) (hupper : value.span.stop ≤ upper) :
    Lined lower [.body value] upper where
  within := by
    refine List.forall_mem_singleton.2 ⟨hlower, hupper, fun part hpart ↦ ?_⟩
    rw [List.mem_singleton.1 hpart]
    exact ⟨hlower, hupper⟩
  ordered := List.pairwise_singleton _ _
  written := List.forall_mem_singleton.2 (Child.throughout_body fun statement hstatement ↦
    h.written _ (List.mem_map_of_mem hstatement))

end

/-- Between two cursors of a source something holds of the places where they stand, unless something
was reported. -/
structure Between (source : String) (c c' : Cursor) (holds : Nat → Nat → Prop) : Prop where
  moves : Moves source c c'
  draws : c'.DrawsFrom source
  holds : c'.errors = [] → holds c.front c'.front

/-- Children that have been read one after another between two cursors of a source. -/
abbrev Row (source : String) (c c' : Cursor) (children : List Child) : Prop :=
  Between source c c' fun lower upper ↦ Lined lower children upper

abbrev RowExpr (source : String) (c : Cursor) (value : Expr) (c' : Cursor) : Prop :=
  Row source c c' [.expr value]

section

variable {source : String} {c c' c'' : Cursor} {children later : List Child}

/-- Where something was reported nothing is promised. -/
theorem Between.of_errors {holds : Nat → Nat → Prop} (h : Moves source c c')
    (hdraws : c'.DrawsFrom source) (herrors : c'.errors ≠ []) : Between source c c' holds :=
  ⟨h, hdraws, fun h' ↦ absurd h' herrors⟩

/-- What holds up to a place holds up to later ones. -/
theorem Between.keep {holds : Nat → Nat → Prop} (h : Between source c c' holds)
    (h' : Row source c' c'' [])
    (hmono : ∀ {lower middle upper}, middle ≤ upper → holds lower middle → holds lower upper) :
    Between source c c'' holds :=
  ⟨h.moves.trans h'.moves, h'.draws, fun herrors ↦
    hmono h'.moves.front_le (h.holds (h'.moves.errors herrors))⟩

namespace Row

theorem lined (h : Row source c c' children) (herrors : c'.errors = []) :
    Lined c.front children c'.front :=
  h.holds herrors

theorem nil (h : Moves source c c') (hdraws : c'.DrawsFrom source) : Row source c c' [] :=
  ⟨h, hdraws, fun _ ↦ .nil⟩

theorem refl (h : c.Stands source) (hdraws : c.DrawsFrom source) : Row source c c [] :=
  .nil (.refl h) hdraws

/-- What is read behind a row extends it. -/
theorem trans (h : Row source c c' children) (h' : Row source c' c'' later) :
    Row source c c'' (children ++ later) where
  moves := h.moves.trans h'.moves
  draws := h'.draws
  holds herrors := (h.lined (h'.moves.errors herrors)).append (h'.lined herrors) h.moves.front_le
    h'.moves.front_le

/-- What is read behind a row and listed nowhere leaves it as it is. -/
theorem keep (h : Row source c c' children) (hmoves : Moves source c' c'')
    (hdraws : c''.DrawsFrom source) : Row source c c'' children := by
  have hrow := h.trans (.nil hmoves hdraws)
  rwa [List.append_nil] at hrow

theorem sublist (h : Row source c c' children) (hsublist : later.Sublist children) :
    Row source c c' later :=
  ⟨h.moves, h.draws, fun herrors ↦ (h.lined herrors).sublist hsublist⟩

theorem advance (h : Row source c c' children) : Row source c c'.advance children :=
  h.keep (.advance h.moves.stands) h.draws.advance

/-- The span of what was read between two cursors ends in front of the second one. -/
theorem stop_le (h : Row source c c' children) : (c'.spanFrom c.front).stop ≤ c'.front :=
  Nat.max_le.2 ⟨h.moves.stands.back_le_front, h.moves.front_le⟩

/-- An expression that was read between two cursors. -/
theorem expr {node : Node} (h : Row source c c' children)
    (hsublist : node.children.Sublist children) (hnode : node.isOwnCall = false) :
    Row source c c' [.expr ⟨node, c'.spanFrom c.front⟩] :=
  ⟨h.moves, h.draws, fun herrors ↦ (h.lined herrors).expr hsublist hnode (Nat.le_refl _) h.stop_le⟩

/-- A body that was read between two cursors. -/
theorem body {statements : List Expr} (h : Row source c c' (statements.map .expr)) :
    Row source c c' [.body ⟨statements, c'.spanFrom c.front⟩] :=
  ⟨h.moves, h.draws, fun herrors ↦ (h.lined herrors).body (Nat.le_refl _) h.stop_le⟩

/-- An expression as a body of its own. -/
theorem single {value : Expr} (h : Row source c c' [.expr value]) :
    Row source c c' [.body (.single value)] where
  moves := h.moves
  draws := h.draws
  holds herrors := by
    have hlined := h.lined herrors
    have hwithin := hlined.within _ List.mem_cons_self
    exact hlined.body hwithin.start_le hwithin.le_stop

end Row

end

section Steps

variable {α β : Type} {source : String} {c₀ c : Cursor} {children : List Child}
  {last : β → Cursor → Prop}

/-- A step moves on in a source, and something holds of its value and of the places around it. -/
def Parse.Tracks (source : String) (step : Parse α) (holds : α → Nat → Nat → Prop) : Prop :=
  ∀ c : Cursor, c.Stands source → c.DrawsFrom source →
    Gives c step fun value c' ↦ Between source c c' (holds value)

abbrev Parse.Lines (source : String) (step : Parse α) (children : α → List Child) : Prop :=
  Tracks source step fun value lower upper ↦ Lined lower (children value) upper

abbrev Parse.LinesExpr (source : String) (step : Parse Expr) : Prop :=
  Lines source step fun value ↦ [.expr value]

theorem reads_expectIf {test : Cursor → Bool} (expected : String) :
    Reads source (do if test (← get) then advance else missing expected) fun _ ↦ [] :=
  fun _ hc ↦ (gives_expectIf hc expected).mono fun _ _ hword ↦ .nil hword.moves

namespace Row

/-- A production that lists its children extends the row by them. -/
theorem read {step : Parse α} {later : α → List Child} {next : α → Parse β}
    (h : Row source c₀ c children) (hstep : Lines source step later)
    (hnext : ∀ value c', Row source c₀ c' (children ++ later value) →
      Gives c' (next value) last) : Gives c (step >>= next) last :=
  (hstep c h.moves.stands h.draws).bind fun value c' hrow ↦ hnext value c' (h.trans hrow)

/-- The last step of a production. -/
theorem andThen {step : Parse α} {later : α → List Child} (h : Row source c₀ c children)
    (hstep : Lines source step later) :
    Gives c step fun value c' ↦ Row source c₀ c' (children ++ later value) :=
  (hstep c h.moves.stands h.draws).mono fun _ _ hrow ↦ h.trans hrow

/-- A step that moves on in a source and of whose values nothing need be known. -/
theorem skipped {step : Parse α} {pieces : α → List Piece} [hkeeps : Keeps source step]
    (h : Row source c₀ c children) (hstep : Reads source step pieces) :
    Gives c step fun _ c' ↦ Row source c₀ c' children := by
  refine ((hstep c h.moves.stands).and (hkeeps.yields c h.draws)).mono fun value c' hboth ↦ ?_
  exact h.keep hboth.1.moves hboth.2.2

/-- A step that keeps to the source extends the row by nothing. -/
theorem skip {step : Parse α} {pieces : α → List Piece} [Keeps source step] {next : α → Parse β}
    (h : Row source c₀ c children) (hstep : Reads source step pieces)
    (hnext : ∀ value c', Row source c₀ c' children → Gives c' (next value) last) :
    Gives c (step >>= next) last :=
  (h.skipped hstep).bind hnext

theorem skipIf {condition : Prop} [Decidable condition] {step : Parse Unit}
    {pieces : Unit → List Piece} [Keeps source step] {next : Unit → Parse β}
    (h : Row source c₀ c children) (hstep : Reads source step pieces)
    (hnext : ∀ c', Row source c₀ c' children → Gives c' (next ()) last) :
    Gives c (if condition then step >>= next else next ()) last :=
  .optional (h.skipped hstep) h hnext

/-- A mark that is there is behind the row; one that is not leaves the cursor where it is. -/
theorem eat {mark : Punct} {yes no : Parse β} (h : Row source c₀ c children)
    (hyes : Row source c₀ c.advance children → Gives c.advance yes last)
    (hno : Gives c no last) :
    Gives c (eat mark >>= fun eaten ↦ if eaten = true then yes else no) last :=
  .eatIf (fun _ ↦ hyes h.advance) fun _ ↦ hno

theorem eatWord {word : Keyword} {yes no : Parse β} (h : Row source c₀ c children)
    (hyes : Row source c₀ c.advance children → Gives c.advance yes last)
    (hno : Gives c no last) :
    Gives c (eatWord word >>= fun eaten ↦ if eaten = true then yes else no) last :=
  .eatIf (fun _ ↦ hyes h.advance) fun _ ↦ hno

/-- Going on behind a report, with nothing left to promise. -/
theorem report {step : Parse α} [hkeeps : Keeps source step] {next : α → Parse β}
    (h : Row source c₀ c children)
    (hstep : Gives c step fun _ c' ↦ Moves source c c' ∧ c'.errors ≠ [])
    (hnext : ∀ value c', Moves source c₀ c' → c'.DrawsFrom source → c'.errors ≠ [] →
      Gives c' (next value) last) : Gives c (step >>= next) last := by
  refine (hstep.and (hkeeps.yields c h.draws)).bind fun value c' hboth ↦ ?_
  exact hnext value c' (h.moves.trans hboth.1.1) hboth.2.2 hboth.1.2

theorem expect {mark : Punct} {expected : String} {next : Unit → Parse β}
    (h : Row source c₀ c children)
    (hnext : ∀ c', Row source c₀ c' children → Gives c' (next ()) last) :
    Gives c (Parse.expect mark expected >>= next) last :=
  h.skip (reads_expectIf expected) fun _ ↦ hnext

theorem expectWord {word : Keyword} {expected : String} {next : Unit → Parse β}
    (h : Row source c₀ c children)
    (hnext : ∀ c', Row source c₀ c' children → Gives c' (next ()) last) :
    Gives c (Parse.expectWord word expected >>= next) last :=
  h.skip (reads_expectIf expected) fun _ ↦ hnext

/-- The last step of a production whose children have been read in the order of their fields. -/
theorem finish {node : Node} (h : Row source c₀ c children)
    (hsublist : node.children.Sublist children) (hnode : node.isOwnCall = false) :
    Gives c (Parse.finish c₀.front node) (RowExpr source c₀) :=
  .spanFrom_bind (.pure (h.expr hsublist hnode))

end Row

/-- Changes of anything but the stream and the errors, in front of a step and behind it. -/
theorem Between.around {holds : Nat → Nat → Prop} {c c₁ c₂ c₃ : Cursor}
    (h : Between source c₁ c₂ holds) (henter : Moves source c c₁)
    (hupcoming : c₁.upcoming = c.upcoming) (hleave : Moves source c₂ c₃)
    (hupcoming' : c₃.upcoming = c₂.upcoming) : Between source c c₃ holds := by
  have hfront {d d' : Cursor} (heq : d'.upcoming = d.upcoming) : d'.front = d.front :=
    congrArg (·.span.start) (Except.ok.inj (List.cons.inj heq).1)
  refine ⟨(henter.trans h.moves).trans hleave, h.draws.of_upcoming_eq hupcoming', fun herrors ↦ ?_⟩
  rw [hfront hupcoming', ← hfront hupcoming]
  exact h.holds (hleave.errors herrors)

variable {step : Parse α} {holds : α → Nat → Nat → Prop}

theorem Parse.Tracks.inScope (inherits : Bool) (h : Tracks source step holds) :
    Tracks source (inScope inherits step) holds := by
  intro c hc hdraws
  have henter : Moves source c (c.pushScope inherits) := .of_eq hc rfl rfl rfl rfl rfl rfl
  refine triple_inScope (h _ henter.stands (hdraws.of_upcoming_eq rfl)) fun _ c' hbetween ↦
    hbetween.around henter rfl (moves_popScope hbetween.moves.stands) ?_
  obtain ⟨scopes, heq⟩ := c'.popScope_eq
  rw [heq]
  rfl

theorem Parse.Tracks.withDo (allowed : Bool) (h : Tracks source step holds) :
    Tracks source (withDo allowed step) holds := by
  intro c hc hdraws
  have henter : Moves source c { c with allowDo := allowed } := .of_eq hc rfl rfl rfl rfl rfl rfl
  exact triple_withDo (h _ henter.stands (hdraws.of_upcoming_eq rfl)) fun _ _ hbetween ↦
    hbetween.around henter rfl (.of_eq hbetween.moves.stands rfl rfl rfl rfl rfl rfl) rfl

/-- An expression without children at its place. -/
theorem ExprBetween.row {value : Expr} {c' : Cursor} (h : ExprBetween source c value c')
    (hdraws : c'.DrawsFrom source) (hchildren : value.node.children = [])
    (hnode : value.node.isOwnCall = false) : Row source c c' [.expr value] where
  moves := h.allEndBy.moves
  draws := hdraws
  holds herrors := by
    have hstop := Nat.le_trans (h.endsBy.stop_le herrors) h.allEndBy.moves.stands.back_le_front
    refine Lined.nil.expr ?_ hnode (Nat.le_of_eq h.start_eq.symm) hstop
    rw [hchildren]

theorem lines_abandon : LinesExpr source abandon := by
  intro c hc hdraws
  refine ((gives_abandon hdraws).and (readsExpr_abandon c hc)).mono fun value c' hboth ↦ ?_
  obtain ⟨⟨rfl, hdraws', -⟩, hbetween⟩ := hboth
  exact hbetween.row hdraws' rfl rfl

/-- An expression that is nested too deep is given up with a report. -/
theorem Parse.Tracks.nested {inner : Parse Expr} (h : LinesExpr source inner) :
    LinesExpr source (nested inner) := by
  intro c hc hdraws
  have henter : Moves source c { c with depth := c.depth + 1 } := .of_eq hc rfl rfl rfl rfl rfl rfl
  refine triple_nested (fun _ ↦ lines_abandon c hc hdraws)
    (fun _ ↦ h _ henter.stands (hdraws.of_upcoming_eq rfl)) fun _ _ _ hbetween ↦ ?_
  exact hbetween.around henter rfl (.of_eq hbetween.moves.stands rfl rfl rfl rfl rfl rfl) rfl

/-- Expressions separated by commas, behind others. -/
theorem Row.whileComma {item : Parse Expr} {items : List Expr}
    (h : Row source c₀ c (children ++ items.map .expr)) (hitem : LinesExpr source item) :
    Gives c (whileComma item items) fun items' c' ↦
      Row source c₀ c' (children ++ items'.map .expr) := by
  refine gives_iterate (fun items' c' ↦ Row source c₀ c' (children ++ List.map Child.expr items')) h
    fun items' c' hrow ↦ hrow.eat (fun hcomma ↦ ?_) (.pure hrow)
  refine hcomma.read hitem fun value c'' hrow ↦ .pure ?_
  rwa [List.append_assoc, ← List.map_singleton, ← List.map_append] at hrow

end Steps

end DeclaredMethods.Source
