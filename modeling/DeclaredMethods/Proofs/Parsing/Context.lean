import DeclaredMethods.Proofs.Parsing.Consumption

/-!
# Every production restores the context

Beside its place in the source a cursor carries a context: the scopes of local variables, whether a
`do` may start a block, and the nesting depth. Productions change it while they run, and give it
back: behind every production depth, `do` flag and the number of scopes are what they were, the
scopes below the top one are untouched, and the top one has at most more variables.

So the restored context is one more discipline. A scope that is opened for a body is the top one
when it is closed, there is always another one below it, and closing it leaves the scopes as they
were in front of the body.
-/

namespace DeclaredMethods.Source

open Parse

/-- The context of one cursor is that of another, but for new variables of the top scope. -/
structure Cursor.Restored (c c' : Cursor) : Prop where
  depth_eq : c'.depth = c.depth
  allowDo_eq : c'.allowDo = c.allowDo
  length_eq : c'.scopes.length = c.scopes.length
  below_eq : c'.scopes.tail = c.scopes.tail
  /-- The top scope keeps its kind and its variables. -/
  top_grows : ∀ top ∈ c.scopes.head?, ∃ top' ∈ c'.scopes.head?,
    top'.inherits = top.inherits ∧ top.locals ⊆ top'.locals

namespace Cursor.Restored

variable {c c' c'' : Cursor}

theorem of_eq (hdepth : c'.depth = c.depth) (hallow : c'.allowDo = c.allowDo)
    (hscopes : c'.scopes = c.scopes) : Restored c c' where
  depth_eq := hdepth
  allowDo_eq := hallow
  length_eq := by rw [hscopes]
  below_eq := by rw [hscopes]
  top_grows top htop := ⟨top, hscopes ▸ htop, rfl, fun _ h ↦ h⟩

theorem trans (h : Restored c c') (h' : Restored c' c'') : Restored c c'' where
  depth_eq := h'.depth_eq.trans h.depth_eq
  allowDo_eq := h'.allowDo_eq.trans h.allowDo_eq
  length_eq := h'.length_eq.trans h.length_eq
  below_eq := h'.below_eq.trans h.below_eq
  top_grows top htop := by
    obtain ⟨top', htop', hinherits, hlocals⟩ := h.top_grows top htop
    obtain ⟨top'', htop'', hinherits', hlocals'⟩ := h'.top_grows top' htop'
    exact ⟨top'', htop'', hinherits'.trans hinherits, fun _ hname ↦ hlocals' (hlocals hname)⟩

/-- There is always a scope to declare variables in. -/
theorem scopes_ne_nil (h : Restored c c') (hc : c.scopes ≠ []) : c'.scopes ≠ [] := by
  rw [← List.length_pos_iff] at hc ⊢
  rwa [h.length_eq]

/-- A new variable belongs to the top scope, and the ones below stay as they are. -/
theorem declare (c : Cursor) (name : String) : Restored c (c.declare name) := by
  unfold Cursor.declare
  split
  · rename_i scope rest hscopes
    split
    · exact .of_eq rfl rfl rfl
    · refine ⟨rfl, rfl, by rw [hscopes]; rfl, by rw [hscopes]; rfl, fun top htop ↦ ?_⟩
      rw [hscopes] at htop
      cases htop
      exact ⟨_, rfl, rfl, List.subset_cons_self _ _⟩
  · exact .of_eq rfl rfl rfl

theorem report (c : Cursor) (error : ParseError) : Restored c (c.report error) := by
  rcases c.report_eq error with h | h
  · rw [h]
    exact .of_eq rfl rfl rfl
  · rw [h]
    exact .of_eq rfl rfl rfl

/-- A scope that was opened is the top one when it is closed, and closing it leaves the scopes as
they were. -/
theorem scopes_popScope {inherits : Bool} (h : Restored (c.pushScope inherits) c')
    (hc : c.scopes ≠ []) : 1 < c'.scopes.length ∧ c'.popScope.scopes = c.scopes := by
  have hlength : c'.scopes.length = c.scopes.length + 1 := h.length_eq
  have htail : c'.scopes.tail = c.scopes := h.below_eq
  obtain ⟨outer, rest, houter⟩ := List.exists_cons_of_ne_nil hc
  obtain ⟨top, below, hscopes⟩ := List.exists_cons_of_length_pos (l := c'.scopes) (by omega)
  refine ⟨by rw [hlength, houter]; exact Nat.succ_lt_succ (Nat.succ_pos _), ?_⟩
  rw [hscopes, List.tail_cons, houter] at htail
  rw [popScope, hscopes, htail, houter]

/-- A scope is left with all that was declared in it. -/
theorem inScope {inherits : Bool} (h : Restored (c.pushScope inherits) c') (hc : c.scopes ≠ []) :
    Restored c c'.popScope := by
  have hscopes := (h.scopes_popScope hc).2
  obtain ⟨scopes, hpop⟩ := c'.popScope_eq
  rw [hpop] at hscopes ⊢
  exact .of_eq h.depth_eq h.allowDo_eq hscopes

end Cursor.Restored

/-- The discipline of restoring the context. There is always a scope. -/
def restoring : Discipline where
  rel c c' := c.scopes ≠ [] → c.Restored c'
  refl _ _ := .of_eq rfl rfl rfl
  trans h h' hc := (h hc).trans (h' ((h hc).scopes_ne_nil hc))
  advance _ _ := .of_eq rfl rfl rfl
  report c error _ _ := .report c error
  declare c name _ := .declare c name
  inScope _ h hc := (h (List.cons_ne_nil _ _)).inScope hc
  withDo _ h hc := by
    have hinner := h hc
    exact ⟨hinner.depth_eq, rfl, hinner.length_eq, hinner.below_eq, hinner.top_grows⟩
  nested _ h hc := by
    have hinner := h hc
    refine ⟨?_, hinner.allowDo_eq, hinner.length_eq, hinner.below_eq, hinner.top_grows⟩
    exact congrArg (· - 1) hinner.depth_eq
  abandon {c _ _} _ _ h hc := by
    have hreport := Cursor.Restored.report c ⟨.tooDeep, c.current.span⟩
    have hgiveUp : c.Restored c.giveUp :=
      ⟨hreport.depth_eq, hreport.allowDo_eq, hreport.length_eq, hreport.below_eq, hreport.top_grows⟩
    exact hgiveUp.trans (h (hgiveUp.scopes_ne_nil hc))

/-- A call of a parse function at a cursor, over the grammar one nesting level further in. A
function that begins by reading the token it was chosen for is called where a token stands, and one
with a bound on its recursion with a bound that the unread tokens do not reach. -/
inductive ParseCall (g : Grammar) (c : Cursor) : {α : Type} → Parse α → Prop where
  | sourceFile : ParseCall g c (sourceFile g)
  -- Statements
  | notOperand : ParseCall g c (notOperand g)
  | notExpr : ParseCall g c (notExpr g)
  | assignTarget (target) : ParseCall g c (assignTarget target)
  | multipleAssignment (start first) : ParseCall g c (multipleAssignment g start first)
  | modifier (start expr) : ParseCall g c (modifier g start expr)
  | statement : ParseCall g c (statement g)
  | resume (until_) : ParseCall g c (resume until_)
  | body (until_) : ParseCall g c (body g until_)
  | rescueBinding : ParseCall g c rescueBinding
  | rescueExceptions : ParseCall g c (rescueExceptions g)
  | bodyBehind (word until_) : ParseCall g c (bodyBehind? g word until_)
  | rescueClauses (main) : ParseCall g c (rescueClauses g main)
  | rescuedBody : ParseCall g c (rescuedBody g)
  -- Arguments
  | label : ParseCall g c label?
  | shorthandValue (label) : ParseCall g c (shorthandValue label)
  | hashEntry (closer) : ParseCall g c <| hashEntry? g closer
  | close (given : GivenArguments) (parenthesized) : ParseCall g c (given.close parenthesized)
  | argument (closer given) : ParseCall g c (argument g closer given)
  | argumentList (closer) : ParseCall g c (argumentList g closer)
  | commandArguments : ParseCall g c (commandArguments g)
  | enclosedArguments (closer expected) : ParseCall g c (enclosedArguments g closer expected)
  | literalEntry : ParseCall g c (literalEntry g)
  | hashLiteral : ParseCall g c (hashLiteral g)
  -- Parameters and blocks
  | paramName : ParseCall g c paramName?
  | keywordDefault (closer) : ParseCall g c (keywordDefault g closer)
  | namedParam (closer) (h : c.atEnd = false) : ParseCall g c (namedParam g closer)
  | param (closer) {bound} (h : c.unread.length ≤ bound) :
      ParseCall g c (param? g closer (paramListUpTo g bound (some .rightParen)))
  | paramListUpTo (closer) {bound} (h : c.unread.length < bound) :
      ParseCall g c (paramListUpTo g bound closer)
  | paramList (closer) : ParseCall g c (paramList g closer)
  | blockParams : ParseCall g c (blockParams g)
  | braceBlock (h : c.atEnd = false) : ParseCall g c (braceBlock g)
  | doBlock (h : c.atEnd = false) : ParseCall g c (doBlock g)
  | lambdaParams : ParseCall g c (lambdaParams g)
  | lambdaBody : ParseCall g c (lambdaBody g)
  | lambda (start) : ParseCall g c (lambda g start)
  -- Calls
  | methodName : ParseCall g c methodName?
  | callArguments : ParseCall g c (callArguments g)
  | callBlock : ParseCall g c (callBlock? g)
  | callTail (receiver name safeNavigation start) :
      ParseCall g c (callTail g receiver name safeNavigation start)
  -- Conditionals, loops and case distinctions
  | conditionalUpTo (negated) {bound} (h : c.unread.length < bound) :
      ParseCall g c (conditionalUpTo g bound negated)
  | conditional (negated) (h : c.atEnd = false) : ParseCall g c (conditional g negated)
  | loop (negated) (h : c.atEnd = false) : ParseCall g c (loop g negated)
  | whenClauses : ParseCall g c (whenClauses g)
  | caseSubject : ParseCall g c (caseSubject? g)
  | caseDistinction (h : c.atEnd = false) : ParseCall g c (caseDistinction g)
  -- Definitions
  | constSegments (first) : ParseCall g c (constSegments first)
  | constPath : ParseCall g c constPath?
  | skipDefinition (start) : ParseCall g c (skipDefinition g start)
  | singletonClass (start) : ParseCall g c (singletonClass g start)
  | superclass : ParseCall g c (superclass? g)
  | classDefinition (h : c.atEnd = false) : ParseCall g c (classDefinition g)
  | moduleDefinition (h : c.atEnd = false) : ParseCall g c (moduleDefinition g)
  | definitionReceiver : ParseCall g c definitionReceiver?
  | baseMethodName : ParseCall g c baseMethodName?
  | definitionName : ParseCall g c definitionName?
  | definitionParams : ParseCall g c (definitionParams g)
  | definitionBody : ParseCall g c (definitionBody g)
  | methodDefinition (h : c.atEnd = false) : ParseCall g c (methodDefinition g)
  -- Operands
  | tokenExpr (node) (h : c.atEnd = false) : ParseCall g c (tokenExpr node)
  | symbolLiteral (name) (h : c.atEnd = false) : ParseCall g c (symbolLiteral name)
  | wordList (words item) (h : c.atEnd = false) : ParseCall g c (wordList words item)
  | identifier (name) (h : c.atEnd = false) : ParseCall g c (identifier g name)
  | constant (name) (h : c.atEnd = false) : ParseCall g c (constant g name)
  | rootConstant (h : c.atEnd = false) : ParseCall g c rootConstant
  | arrayLiteral (h : c.atEnd = false) : ParseCall g c (arrayLiteral g)
  | hashExpr (h : c.atEnd = false) : ParseCall g c (hashExpr g)
  | parenthesized (h : c.atEnd = false) : ParseCall g c (parenthesized g)
  | lambdaExpr (h : c.atEnd = false) : ParseCall g c (lambdaExpr g)
  | beginExpr (h : c.atEnd = false) : ParseCall g c (beginExpr g)
  | returnExpr (h : c.atEnd = false) : ParseCall g c (returnExpr g)
  | yieldExpr (h : c.atEnd = false) : ParseCall g c (yieldExpr g)
  | noExpression : ParseCall g c noExpression
  | primary : ParseCall g c (primary g)
  -- Operators
  | dotCall (start receiver) (h : c.atEnd = false) : ParseCall g c (dotCall g start receiver)
  | scopedName (start outer) (h : c.atEnd = false) : ParseCall g c (scopedName g start outer)
  | indexCall (start receiver) (h : c.atEnd = false) : ParseCall g c (indexCall g start receiver)
  | trailer (start expr) : ParseCall g c (trailer g start expr)
  | trailed : ParseCall g c (trailed g)
  | operand : ParseCall g c (operand g)
  | chain (least) : ParseCall g c (chain g least)
  | ternary (start condition) : ParseCall g c (ternary g start condition)
  | assignment : ParseCall g c (assignment g)
  -- One level further in
  | nestedNot : ParseCall g c g.notOperand
  | expr : ParseCall g c g.expr
  | binary (least) : ParseCall g c (g.binary least)
  | unary : ParseCall g c g.unary

variable {d : Discipline} {g : Grammar} {c : Cursor}

theorem Parse.ObeysAt.forget {α : Type} {step : Parse α} {post : α → Cursor → Prop}
    (h : ObeysAt d c step post) : ObeysAt d c step fun _ _ ↦ True :=
  h.mono fun _ _ _ _ ↦ trivial

/-- Every call of a parse function obeys every discipline. -/
theorem ParseCall.obeysAt {α : Type} {step : Parse α} (hg : g.Obeys d)
    (h : ParseCall g c step) : ObeysAt d c step fun _ _ ↦ True := by
  cases h with
  | sourceFile =>
    exact (obeys_body hg .eof).bind (fun _ c' ↦ .get_bind (.pure trivial)) c
  | notOperand => exact obeys_notOperand hg c
  | notExpr => exact obeys_notExpr hg c
  | assignTarget target => exact obeys_assignTarget target c
  | multipleAssignment start first => exact obeys_multipleAssignment hg start first c
  | modifier start expr => exact (obeysRound_modifier hg start expr c).forget
  | statement => exact obeys_statement hg c
  | resume until_ => exact obeys_resume until_ c
  | body until_ => exact obeys_body hg until_ c
  | rescueBinding => exact obeys_rescueBinding c
  | rescueExceptions => exact obeys_rescueExceptions hg c
  | bodyBehind word until_ => exact obeys_bodyBehind hg word until_ c
  | rescueClauses main => exact obeys_rescueClauses hg main c
  | rescuedBody => exact obeys_rescuedBody hg c
  | label => exact obeys_label c
  | shorthandValue label => exact obeys_shorthandValue label c
  | hashEntry closer => exact obeys_hashEntry hg closer c
  | close given parenthesized => exact obeys_close given parenthesized c
  | argument closer given => exact obeys_argument hg closer given c
  | argumentList closer => exact obeys_argumentList hg closer c
  | commandArguments => exact obeys_commandArguments hg c
  | enclosedArguments closer expected => exact obeys_enclosedArguments hg closer expected c
  | literalEntry => exact obeys_literalEntry hg c
  | hashLiteral => exact obeys_hashLiteral hg c
  | paramName => exact obeys_paramName c
  | keywordDefault closer => exact obeys_keywordDefault hg closer c
  | namedParam closer h => exact obeysInside_namedParam hg closer c h
  | param closer h =>
    exact obeysAt_param hg closer c fun c' hless ↦
      obeysAt_paramListUpTo hg _ _ c' (Nat.lt_of_lt_of_le hless h)
  | paramListUpTo closer h => exact obeysAt_paramListUpTo hg _ closer c h
  | paramList closer => exact obeys_paramList hg closer c
  | blockParams => exact obeys_blockParams hg c
  | braceBlock h => exact obeysInside_braceBlock hg c h
  | doBlock h => exact obeysInside_doBlock hg c h
  | lambdaParams => exact obeys_lambdaParams hg c
  | lambdaBody => exact obeys_lambdaBody hg c
  | lambda start => exact obeys_lambda hg start c
  | methodName => exact obeys_methodName c
  | callArguments => exact obeys_callArguments hg c
  | callBlock => exact obeys_callBlock hg c
  | callTail receiver name safeNavigation start =>
    exact obeys_callTail hg receiver name safeNavigation start c
  | conditionalUpTo negated h => exact obeysAt_conditionalUpTo hg _ negated c h
  | conditional negated h => exact obeysInside_conditional hg negated c h
  | loop negated h => exact obeysInside_loop hg negated c h
  | whenClauses => exact obeys_whenClauses hg c
  | caseSubject => exact obeys_caseSubject hg c
  | caseDistinction h => exact obeysInside_caseDistinction hg c h
  | constSegments first => exact obeys_constSegments first c
  | constPath => exact obeys_constPath c
  | skipDefinition start => exact obeys_skipDefinition hg start c
  | singletonClass start => exact obeys_singletonClass hg start c
  | superclass => exact obeys_superclass hg c
  | classDefinition h => exact obeysInside_classDefinition hg c h
  | moduleDefinition h => exact obeysInside_moduleDefinition hg c h
  | definitionReceiver => exact obeys_definitionReceiver c
  | baseMethodName => exact obeys_baseMethodName c
  | definitionName => exact obeys_definitionName c
  | definitionParams => exact obeys_definitionParams hg c
  | definitionBody => exact obeys_definitionBody hg c
  | methodDefinition h => exact obeysInside_methodDefinition hg c h
  | tokenExpr node h => exact obeysInside_tokenExpr node c h
  | symbolLiteral name h => exact obeysInside_symbolLiteral name c h
  | wordList words item h => exact obeysInside_wordList words item c h
  | identifier name h => exact obeysInside_identifier hg name c h
  | constant name h => exact obeysInside_constant hg name c h
  | rootConstant h => exact obeysInside_rootConstant c h
  | arrayLiteral h => exact obeysInside_arrayLiteral hg c h
  | hashExpr h => exact obeysInside_hashExpr hg c h
  | parenthesized h => exact obeysInside_parenthesized hg c h
  | lambdaExpr h => exact obeysInside_lambdaExpr hg c h
  | beginExpr h => exact obeysInside_beginExpr hg c h
  | returnExpr h => exact obeysInside_returnExpr hg c h
  | yieldExpr h => exact obeysInside_yieldExpr hg c h
  | noExpression => exact obeys_noExpression c
  | primary => exact obeys_primary hg c
  | dotCall start receiver h => exact (obeysAt_dotCall hg start receiver h).forget
  | scopedName start outer h => exact (obeysAt_scopedName hg start outer h).forget
  | indexCall start receiver h => exact (obeysAt_indexCall hg start receiver h).forget
  | trailer start expr => exact (obeysRound_trailer hg start expr c).forget
  | trailed => exact obeys_trailed hg c
  | operand => exact obeys_operand hg c
  | chain least => exact obeys_chain hg least c
  | ternary start condition => exact obeys_ternary hg start condition c
  | assignment => exact obeys_assignment hg c
  | nestedNot => exact hg.notOperand c
  | expr => exact hg.expr c
  | binary least => exact hg.binary least c
  | unary => exact hg.unary c

/-- What a production reads in a scope of its own, and whether that scope inherits: the parameters
and bodies of blocks, lambdas and methods, and the bodies of classes, singleton classes, modules and
skipped definitions. -/
inductive ScopedBody (g : Grammar) : Bool → {α : Type} → Parse α → Prop where
  | braceBlock : ScopedBody g true (do
      let params ← blockParams g
      let inner ← withDo true (body g .brace)
      expect .rightBrace "'\x7d' to close block"
      return (params, inner))
  | doBlock : ScopedBody g true (do
      let params ← blockParams g
      let inner ← withDo true (rescuedBody g)
      expectWord .end_ "'end' to close block"
      return (params, inner))
  | lambda : ScopedBody g true (do
      let params ← lambdaParams g
      declareParams params
      let inner ← lambdaBody g
      return (params, inner))
  | methodDefinition : ScopedBody g false (do
      let params ← definitionParams g
      declareParams params
      let inner ← definitionBody g
      return (params, inner))
  | classDefinition : ScopedBody g false (rescuedBody g)
  /-- The body of a singleton class, of a module and of a skipped definition. -/
  | plain : ScopedBody g false (body g .end_)

/-- What is read in a scope of its own obeys the disciplines too. -/
theorem ScopedBody.obeys {inherits : Bool} {α : Type} {step : Parse α} (hg : g.Obeys d)
    (h : ScopedBody g inherits step) : Obeys d step := by
  cases h with
  | braceBlock =>
    refine (obeys_blockParams hg).bind fun _ ↦ (obeys_withDo true (obeys_body hg _)).bind fun _ ↦ ?_
    exact (obeys_expect _ _).bind fun _ ↦ .pure _
  | doBlock =>
    refine (obeys_blockParams hg).bind fun _ ↦ ?_
    refine (obeys_withDo true (obeys_rescuedBody hg)).bind fun _ ↦ ?_
    exact (obeys_expectWord _ _).bind fun _ ↦ .pure _
  | lambda =>
    refine (obeys_lambdaParams hg).bind fun params ↦ (obeys_declareParams params).bind fun _ ↦ ?_
    exact (obeys_lambdaBody hg).bind fun _ ↦ .pure _
  | methodDefinition =>
    refine (obeys_definitionParams hg).bind fun params ↦ ?_
    refine (obeys_declareParams params).bind fun _ ↦ ?_
    exact (obeys_definitionBody hg).bind fun _ ↦ .pure _
  | classDefinition => exact obeys_rescuedBody hg
  | plain => exact obeys_body hg _

/-- Running a step in a scope of its own, with what stands in front of the closing of the scope. -/
theorem inScope_of_run {inherits : Bool} {α : Type} {step : Parse α} {value : α} {inner : Cursor}
    (h : step (c.pushScope inherits) = some (value, inner)) :
    inScope inherits step c = some (value, inner.popScope) := by
  change (step (c.pushScope inherits)).bind _ = _
  rw [h]
  rfl

end DeclaredMethods.Source
