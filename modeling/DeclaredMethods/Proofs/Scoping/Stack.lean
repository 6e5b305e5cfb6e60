import DeclaredMethods.Proofs.Steps.Simulation
import DeclaredMethods.Signature.Parser

/-!
# One stack of type parameters

The type parameters in scope can be passed down to what is read in their scope, or they can be kept
on one stack for the whole reading: a type parameter is pushed when it is read, a name is a variable
if it is on the stack, and a declaration or method type notes the height of the stack at its start
and cuts the stack down to it at its end.

Both readings are the same. The one with the stack returns what the other one returns with the
contents of the stack in scope, fails with the same errors, and every declaration and method type
leaves the stack as it was.
-/

namespace DeclaredMethods.Signature

/-- A cursor, and the stack of the type parameters in scope. The last one is on top. -/
structure StackCursor where
  cursor : Cursor
  stack : List String

abbrev StackParse := StateT StackCursor (Except SyntaxError)

namespace StackParse

/-- What has no business with the stack leaves it as it is. -/
instance : MonadLift Parse StackParse where
  monadLift reading := fun state ↦
    (reading state.cursor).map fun result ↦ (result.1, ⟨result.2, state.stack⟩)

def push (name : String) : StackParse Unit :=
  modify fun state ↦ ⟨state.cursor, state.stack ++ [name]⟩

/-- Reads something and cuts the stack down to the height that it had before. -/
def cutBack {α : Type} (reading : StackParse α) : StackParse α := do
  let mark := (← get).stack.length
  let value ← reading
  modify fun state ↦ ⟨state.cursor, state.stack.take mark⟩
  return value

/-- Reads something that declares no type parameters, with those on the stack in scope. -/
def inScope {α : Type} (reading : List String → Parse α) : StackParse α := do
  reading (← get).stack

def iterate {α : Type} (step : α → StackParse (Round α)) (init : α) : StackParse α := do
  iterateUpTo (← get).cursor.rounds step init

/-- Reads the type parameters of a declaration, which stay on the stack. -/
def typeParams : StackParse (List TypeParam) := do
  if ← Parse.eat .leftBracket then
    let params ← iterate (fun params => do
      let _ ← Parse.eatWord "unchecked"
      if !(← Parse.eatWord "in") then
        let _ ← Parse.eatWord "out"
      let name ← Parse.ident "type parameter"
      push name
      let upperBound ← if ← Parse.eat .less then some <$> inScope Parse.type else pure none
      if ← Parse.eat .equals then
        let _ ← inScope Parse.type
      let params := params ++ [⟨name, upperBound⟩]
      if ← Parse.eat .comma then
        return .again params
      else
        return .done params) []
    Parse.expect .rightBracket "`]`"
    return params
  else
    return []

/-- Reads the type parameters of a method type, which stay on the stack. -/
def methodTypeParams : StackParse (List String) := do
  if ← Parse.eat .leftBracket then
    let names ← iterate (fun names => do
      let _ ← Parse.eatWord "unchecked"
      let name ← Parse.ident "type parameter"
      push name
      let names := names ++ [name]
      if ← Parse.eat .less then
        let _ ← inScope Parse.type
      if ← Parse.eat .comma then
        return .again names
      else
        return .done names) []
    Parse.expect .rightBracket "`]`"
    return names
  else
    return []

def methodType : StackParse MethodType :=
  cutBack do
    let typeParams ← methodTypeParams
    inScope fun scope ↦ Parse.function (Parse.primary scope) typeParams

def overloads : StackParse (List MethodType × Bool) :=
  iterate (fun (overloads, _) => do
    if ← Parse.eat .ellipsis then
      return .done (overloads, true)
    else
      let overloads := overloads ++ [← methodType]
      if ← Parse.eat .pipe then
        return .again (overloads, false)
      else
        return .done (overloads, false)) ([], false)

def methodMember : StackParse Member := do
  let belonging ← Parse.memberScope
  let name ← Parse.memberName
  Parse.expect .colon "`:`"
  let (overloads, overloading) ← overloads
  return .method name belonging overloads overloading

section Nested

variable (inner : StackParse (Option Declaration))

def wordMember (word : String) : StackParse (Option Member) := do
  if word == "def" then
    Parse.advance
    return some (← methodMember)
  else if word == "attr_reader" then
    Parse.advance
    return some (← inScope (Parse.attributeMember · .reader))
  else if word == "attr_writer" then
    Parse.advance
    return some (← inScope (Parse.attributeMember · .writer))
  else if word == "attr_accessor" then
    Parse.advance
    return some (← inScope (Parse.attributeMember · .accessor))
  else if word == "alias" then
    Parse.advance
    return some (← Parse.aliasMember)
  else if word == "include" then
    Parse.advance
    return some (.include_ (← inScope Parse.parent))
  else if word == "prepend" then
    Parse.advance
    return some (.prepend (← inScope Parse.parent))
  else if word == "extend" then
    Parse.advance
    return some (.extend (← inScope Parse.parent))
  else if word == "public" || word == "private" then
    Parse.advance
    return none
  else if word == "self" && (← get).cursor.nextIsMark .dot then
    Parse.advance
    Parse.advance
    inScope Parse.skipInstanceVariable
    return none
  else
    match ← inner with
    | some declaration => return some (.declaration declaration)
    | none =>
      if ← inScope Parse.skipValueDeclaration then return none else Parse.fail "member"

def member : StackParse (Option Member) := do
  match ← Parse.currentKind with
  | .ident word => wordMember inner word
  | .instanceVar _ =>
    inScope Parse.skipInstanceVariable
    return none
  | _ => Parse.fail "member"

def members : StackParse (List Member) :=
  iterate (fun members => do
    if ← Parse.eatWord "end" then
      return .done members
    else if (← Parse.currentKind).isEof then
      Parse.fail "`end`"
    else
      match ← member inner with
      | some member => return .again (members ++ [member])
      | none => return .again members) []

def classDeclaration : StackParse Declaration := do
  let name ← Parse.typeName
  if ← Parse.eat .equals then
    return .classAlias name (← Parse.typeName) false
  else
    cutBack do
      let params ← typeParams
      let superclass ← if ← Parse.eat .less then some <$> inScope Parse.parent else pure none
      return .class_ name params superclass (← members inner)

def moduleDeclaration : StackParse Declaration := do
  let name ← Parse.typeName
  if ← Parse.eat .equals then
    return .classAlias name (← Parse.typeName) true
  else
    cutBack do
      let params ← typeParams
      let selfTypes ← if ← Parse.eat .colon then
        inScope fun scope ↦ Parse.commaSeparated (Parse.parent scope) else pure []
      return .module_ name params selfTypes (← members inner)

def interfaceDeclaration : StackParse Declaration := do
  let name ← Parse.typeName
  cutBack do
    let params ← typeParams
    return .interface name params (← members inner)

def typeAliasDeclaration : StackParse Declaration := do
  let name ← Parse.typeName
  cutBack do
    let params ← typeParams
    Parse.expect .equals "`=`"
    return .typeAlias name params (← inScope Parse.type)

def declarationWith : StackParse (Option Declaration) := do
  if ← Parse.eatWord "class" then
    return some (← classDeclaration inner)
  else if ← Parse.eatWord "module" then
    return some (← moduleDeclaration inner)
  else if ← Parse.eatWord "interface" then
    return some (← interfaceDeclaration inner)
  else if ← Parse.eatWord "type" then
    return some (← typeAliasDeclaration)
  else
    return none

end Nested

def declarationUpTo : Nat → StackParse (Option Declaration)
  | 0 => Parse.fail "declaration"
  | depth + 1 => declarationWith (declarationUpTo depth)

def declaration? : StackParse (Option Declaration) := do
  declarationUpTo (← get).cursor.rounds

def declarations : StackParse (List Declaration) :=
  iterate (fun declarations => do
    if (← Parse.currentKind).isEof then
      return .done declarations
    else if ← Parse.eatWord "use" then
      let _ ← Parse.commaSeparated Parse.skipUseClause
      return .again declarations
    else
      match ← declaration? with
      | some declaration => return .again (declarations ++ [declaration])
      | none =>
        if ← inScope Parse.skipValueDeclaration then
          return .again declarations
        else
          Parse.fail "declaration") []

/-- Starts a reading with an empty stack, and drops what it leaves there. -/
def fromEmpty {α : Type} (reading : StackParse α) : Parse α := fun cursor ↦
  (reading ⟨cursor, []⟩).map fun result ↦ (result.1, result.2.cursor)

/-- With the given stack, a reading does what another one does without a stack, and what it leaves
on the stack has the given property. -/
def Agrees {α : Type} (stack : List String) (stacked : StackParse α) (plain : Parse α)
    (post : α → List String → Prop) : Prop :=
  ∀ cursor, Simulates (.exact fun _ ↦ True) ⟨cursor, stack⟩ cursor stacked plain
    fun value after after' ↦ after.cursor = after' ∧ post value after.stack

/-- A reading that does the same and leaves the stack as it was. -/
abbrev Keeps {α : Type} (stack : List String) (stacked : StackParse α) (plain : Parse α) : Prop :=
  Agrees stack stacked plain fun _ after ↦ after = stack

section Agrees

variable {α β : Type} {stack : List String} {stacked other : StackParse α} {plain other' : Parse α}
  {next : α → StackParse β} {next' : α → Parse β} {mid post : α → List String → Prop}
  {last : β → List String → Prop}

theorem Agrees.mono (h : Agrees stack stacked plain mid)
    (himp : ∀ value after, mid value after → post value after) :
    Agrees stack stacked plain post := fun cursor ↦
  (h cursor).mono fun value after _ hmid ↦ ⟨hmid.1, himp value after.stack hmid.2⟩

theorem Agrees.pure {value : α} (h : post value stack) :
    Agrees stack (pure value) (pure value) post := fun _ ↦ .pure ⟨rfl, h⟩

theorem Agrees.ite {condition : Prop} [Decidable condition] (h : Agrees stack stacked plain post)
    (h' : Agrees stack other other' post) :
    Agrees stack (if condition then stacked else other) (if condition then plain else other')
      post := fun cursor ↦ .ite (fun _ ↦ h cursor) fun _ ↦ h' cursor

/-- The second reading starts with the stack that the first one leaves. -/
theorem Agrees.bind (h : Agrees stack stacked plain mid)
    (hnext : ∀ value after, mid value after → Agrees after (next value) (next' value) last) :
    Agrees stack (stacked >>= next) (plain >>= next') last := fun cursor ↦ by
  refine (h cursor).bind fun value after after' hmid ↦ ?_
  obtain ⟨rfl, hmid⟩ := hmid
  exact hnext value after.stack hmid after.cursor

theorem Keeps.bind (h : Keeps stack stacked plain)
    (hnext : ∀ value, Agrees stack (next value) (next' value) last) :
    Agrees stack (stacked >>= next) (plain >>= next') last :=
  Agrees.bind h fun value _ hafter ↦ hafter ▸ hnext value

/-- A step that knows nothing of the stack does the same with one. -/
theorem keeps_lift (reading : Parse α) : Keeps stack (liftM reading) reading := by
  intro cursor
  have hlift : (liftM reading : StackParse α).run ⟨cursor, stack⟩ =
      (reading.run cursor).map fun result ↦ (result.1, ⟨result.2, stack⟩) := rfl
  cases hrun : reading.run cursor with
  | error error =>
    rw [hrun] at hlift
    exact simulates_exact_iff.2 (.inl ⟨error, hlift, hrun, trivial⟩)
  | ok result =>
    rw [hrun] at hlift
    exact simulates_exact_iff.2 (.inr ⟨_, _, _, hlift, hrun, rfl, rfl⟩)

theorem lift_bind (reading : Parse α)
    (h : ∀ value, Agrees stack (next value) (next' value) last) :
    Agrees stack (liftM reading >>= next) (reading >>= next') last :=
  (keeps_lift reading).bind h

/-- What only looks at the stack reads with the scope that the stack is. -/
theorem keeps_inScope (reading : List String → Parse α) :
    Keeps stack (inScope reading) (reading stack) := fun cursor ↦
  .step_bind rfl id (keeps_lift (reading stack) cursor)

theorem get_bind {next : StackCursor → StackParse α} {next' : Cursor → Parse α}
    (h : ∀ cursor, Agrees stack (next ⟨cursor, stack⟩) (next' cursor) post) :
    Agrees stack (get >>= next) (get >>= next') post := fun cursor ↦
  .get_bind (h cursor cursor)

theorem inScope_bind (reading : List String → Parse α)
    (h : ∀ value, Agrees stack (next value) (next' value) last) :
    Agrees stack (inScope reading >>= next) (reading stack >>= next') last :=
  (keeps_inScope reading).bind h

/-- Pushing is a step that only the reading with a stack takes. -/
theorem push_bind {reading : StackParse β} {plain : Parse β} (name : String)
    (h : Agrees (stack ++ [name]) reading plain last) :
    Agrees stack (push name >>= fun _ ↦ reading) plain last := fun cursor ↦ by
  have hpush : (push name).run ⟨cursor, stack⟩ = .ok ((), ⟨cursor, stack ++ [name]⟩) := rfl
  exact .step_bind hpush id (h cursor)

/-- A stack that only grows in between is as it was after the cut. -/
theorem Agrees.cutBack (h : Agrees stack stacked plain fun _ after ↦ stack <+: after) :
    Keeps stack (cutBack stacked) plain := by
  rw [← bind_pure plain]
  refine fun cursor ↦ .step_bind rfl id ((h cursor).bind fun value after after' hafter ↦ ?_)
  have hcut : after.stack.take stack.length = stack :=
    (List.prefix_iff_eq_take.1 hafter.2).symm
  have hrun : (modify fun state ↦ ⟨state.cursor, state.stack.take stack.length⟩ :
      StackParse Unit).run after =
        .ok ((), ⟨after.cursor, after.stack.take stack.length⟩) := rfl
  exact .step_bind hrun id (.pure ⟨hafter.1, hcut⟩)

/-- A loop does the same if its rounds do, where what is on the stack is known from the value of the
loop. -/
theorem agrees_iterate (stackOf : α → List String) {step : α → StackParse (Round α)}
    {step' : α → Parse (Round α)}
    (h : ∀ value, Agrees (stackOf value) (step value) (step' value)
      fun round after ↦ after = stackOf round.value) {init : α} (hinit : stackOf init = stack) :
    Agrees stack (iterate step init) (Parse.iterate step' init)
      fun value after ↦ after = stackOf value := by
  subst hinit
  have hloop : ∀ bound init, Agrees (stackOf init) (iterateUpTo bound step init)
      (iterateUpTo bound step' init) fun value after ↦ after = stackOf value := by
    intro bound init
    induction bound generalizing init with
    | zero => exact .pure rfl
    | succ bound ih =>
      refine (h init).bind fun round after hafter ↦ ?_
      subst hafter
      cases round with
      | again value => exact ih value
      | done value => exact .pure rfl
  exact fun cursor ↦ .get_bind (hloop cursor.rounds init cursor)

end Agrees

/-- Type parameters are pushed one by one and left on the stack, each in scope for the next. -/
theorem agrees_typeParams (stack : List String) :
    Agrees stack typeParams (Parse.typeParams stack)
      fun params after ↦ after = stack ++ params.map TypeParam.name := by
  refine lift_bind _ fun _ ↦ .ite ?_ (.pure (List.append_nil stack).symm)
  refine (agrees_iterate (fun params ↦ stack ++ params.map TypeParam.name) (fun params ↦ ?_)
    (List.append_nil stack)).bind fun params after hafter ↦ lift_bind _ fun _ ↦ .pure hafter
  refine lift_bind _ fun _ ↦ lift_bind _ fun _ ↦ ?_
  extract_lets behindVariance behindVariance'
  have hvariance : ∀ done, Agrees (stack ++ params.map TypeParam.name) (behindVariance done)
      (behindVariance' done)
      fun round after ↦ after = stack ++ round.value.map TypeParam.name := by
    refine fun _ ↦ lift_bind _ fun name ↦ push_bind name (lift_bind _ fun _ ↦ ?_)
    extract_lets behindBound behindBound'
    have hbound : ∀ upperBound, Agrees (stack ++ params.map TypeParam.name ++ [name])
        (behindBound upperBound) (behindBound' upperBound)
        fun round after ↦ after = stack ++ round.value.map TypeParam.name := by
      refine fun upperBound ↦ lift_bind _ fun _ ↦ ?_
      extract_lets params' behindDefault behindDefault'
      have hvariables : stack ++ params.map TypeParam.name ++ [name] =
          stack ++ params'.map TypeParam.name := by
        rw [List.map_append, List.append_assoc]
        rfl
      have hdefault : ∀ done, Agrees (stack ++ params.map TypeParam.name ++ [name])
          (behindDefault done) (behindDefault' done)
          fun round after ↦ after = stack ++ round.value.map TypeParam.name := fun _ ↦
        lift_bind _ fun _ ↦ .ite (.pure hvariables) (.pure hvariables)
      exact .ite (inScope_bind _ fun _ ↦ hdefault ()) (hdefault ())
    refine .ite ?_ (hbound none)
    rw [bind_map_left, bind_map_left]
    exact inScope_bind _ fun type ↦ hbound (some type)
  exact .ite (lift_bind _ fun _ ↦ hvariance ()) (hvariance ())

/-- What is read behind type parameters, with these in scope, may leave them on the stack. -/
theorem keeps_cutBack_typeParams {α : Type} {stack : List String}
    {next : List TypeParam → StackParse α} {next' : List TypeParam → Parse α}
    (h : ∀ params, Keeps (stack ++ params.map TypeParam.name) (next params) (next' params)) :
    Keeps stack (cutBack (typeParams >>= next)) (Parse.typeParams stack >>= next') := by
  refine .cutBack ((agrees_typeParams stack).bind fun params after hafter ↦ ?_)
  subst hafter
  exact (h params).mono fun _ _ hafter ↦ hafter ▸ List.prefix_append stack _

/-- The parameters of a method are pushed on those of its class. -/
theorem agrees_methodTypeParams (stack : List String) :
    Agrees stack methodTypeParams (Parse.methodTypeParams stack)
      fun names after ↦ after = stack ++ names := by
  refine lift_bind _ fun _ ↦ .ite ?_ (.pure (List.append_nil stack).symm)
  refine (agrees_iterate (stack ++ ·) (fun names ↦ ?_) (List.append_nil stack)).bind
    fun names after hafter ↦ lift_bind _ fun _ ↦ .pure hafter
  refine lift_bind _ fun _ ↦ lift_bind _ fun name ↦ push_bind name ?_
  rw [List.append_assoc]
  refine lift_bind _ fun _ ↦ ?_
  extract_lets behindBound behindBound'
  have hbound : ∀ done, Agrees (stack ++ (names ++ [name])) (behindBound done) (behindBound' done)
      fun round after ↦ after = stack ++ round.value := fun _ ↦
    lift_bind _ fun _ ↦ .ite (.pure rfl) (.pure rfl)
  exact .ite (inScope_bind _ fun _ ↦ hbound ()) (hbound ())

/-- The mark is taken before the parameters are pushed, so cutting back to it drops just them. -/
theorem keeps_methodType (stack : List String) :
    Keeps stack methodType (Parse.methodType stack) := by
  refine .cutBack ((agrees_methodTypeParams stack).bind fun names after hafter ↦ ?_)
  subst hafter
  exact (keeps_inScope _).mono fun _ _ hafter ↦ hafter ▸ List.prefix_append stack names

theorem keeps_overloads (stack : List String) :
    Keeps stack overloads (Parse.overloads stack) := by
  refine agrees_iterate (fun _ ↦ stack) (fun (overloads, _) ↦ ?_) rfl
  refine lift_bind _ fun _ ↦ .ite (.pure rfl) ?_
  exact (keeps_methodType stack).bind fun _ ↦ lift_bind _ fun _ ↦ .ite (.pure rfl) (.pure rfl)

theorem keeps_methodMember (stack : List String) :
    Keeps stack methodMember (Parse.methodMember stack) :=
  lift_bind _ fun _ ↦ lift_bind _ fun _ ↦ lift_bind _ fun _ ↦
    (keeps_overloads stack).bind fun _ ↦ .pure rfl

section Nested

variable {inner : StackParse (Option Declaration)} {inner' : Parse.DeclarationReader}
  (h : ∀ stack, Keeps stack inner (inner' stack))
include h

theorem keeps_wordMember (stack : List String) (word : String) :
    Keeps stack (wordMember inner word) (Parse.wordMember inner' stack word) := by
  refine .ite (lift_bind _ fun _ ↦ (keeps_methodMember stack).bind fun _ ↦ .pure rfl) ?_
  refine .ite (lift_bind _ fun _ ↦ inScope_bind _ fun _ ↦ .pure rfl) ?_
  refine .ite (lift_bind _ fun _ ↦ inScope_bind _ fun _ ↦ .pure rfl) ?_
  refine .ite (lift_bind _ fun _ ↦ inScope_bind _ fun _ ↦ .pure rfl) ?_
  refine .ite (lift_bind _ fun _ ↦ lift_bind _ fun _ ↦ .pure rfl) ?_
  refine .ite (lift_bind _ fun _ ↦ inScope_bind _ fun _ ↦ .pure rfl) ?_
  refine .ite (lift_bind _ fun _ ↦ inScope_bind _ fun _ ↦ .pure rfl) ?_
  refine .ite (lift_bind _ fun _ ↦ inScope_bind _ fun _ ↦ .pure rfl) ?_
  refine .ite (lift_bind _ fun _ ↦ .pure rfl) ?_
  refine get_bind fun _ ↦ .ite ?_ ((h stack).bind fun found ↦ ?_)
  · exact lift_bind _ fun _ ↦ lift_bind _ fun _ ↦ inScope_bind _ fun _ ↦ .pure rfl
  · cases found with
    | some declaration => exact .pure rfl
    | none => exact inScope_bind _ fun _ ↦ .ite (.pure rfl) (keeps_lift _)

theorem keeps_member (stack : List String) :
    Keeps stack (member inner) (Parse.member inner' stack) := by
  refine lift_bind _ fun kind ↦ ?_
  cases kind with
  | ident word => exact keeps_wordMember h stack word
  | instanceVar name => exact inScope_bind _ fun _ ↦ .pure rfl
  | _ => exact keeps_lift _

theorem keeps_members (stack : List String) :
    Keeps stack (members inner) (Parse.members inner' stack) := by
  refine agrees_iterate (fun _ ↦ stack) (fun members ↦ ?_) rfl
  refine lift_bind _ fun _ ↦ .ite (.pure rfl) (lift_bind _ fun _ ↦ .ite (keeps_lift _) ?_)
  refine (keeps_member h stack).bind fun found ↦ ?_
  cases found with
  | some member => exact .pure rfl
  | none => exact .pure rfl

theorem keeps_classDeclaration (stack : List String) :
    Keeps stack (classDeclaration inner) (Parse.classDeclaration inner' stack) := by
  refine lift_bind _ fun name ↦ lift_bind _ fun _ ↦ .ite (lift_bind _ fun _ ↦ .pure rfl) ?_
  refine keeps_cutBack_typeParams fun params ↦ lift_bind _ fun _ ↦ ?_
  extract_lets behindParent behindParent'
  have hmembers : ∀ superclass, Keeps (stack ++ params.map TypeParam.name)
      (behindParent superclass) (behindParent' superclass) := fun _ ↦
    (keeps_members h _).bind fun _ ↦ .pure rfl
  refine .ite ?_ (hmembers none)
  rw [bind_map_left, bind_map_left]
  exact inScope_bind _ fun superclass ↦ hmembers (some superclass)

theorem keeps_moduleDeclaration (stack : List String) :
    Keeps stack (moduleDeclaration inner) (Parse.moduleDeclaration inner' stack) := by
  refine lift_bind _ fun name ↦ lift_bind _ fun _ ↦ .ite (lift_bind _ fun _ ↦ .pure rfl) ?_
  refine keeps_cutBack_typeParams fun params ↦ lift_bind _ fun _ ↦ ?_
  extract_lets behindSelfTypes behindSelfTypes'
  have hmembers : ∀ selfTypes, Keeps (stack ++ params.map TypeParam.name)
      (behindSelfTypes selfTypes) (behindSelfTypes' selfTypes) := fun _ ↦
    (keeps_members h _).bind fun _ ↦ .pure rfl
  exact .ite (inScope_bind _ hmembers) (hmembers [])

theorem keeps_interfaceDeclaration (stack : List String) :
    Keeps stack (interfaceDeclaration inner) (Parse.interfaceDeclaration inner' stack) :=
  lift_bind _ fun _ ↦ keeps_cutBack_typeParams fun _ ↦
    (keeps_members h _).bind fun _ ↦ .pure rfl

omit h in
theorem keeps_typeAliasDeclaration (stack : List String) :
    Keeps stack typeAliasDeclaration (Parse.typeAliasDeclaration stack) :=
  lift_bind _ fun _ ↦ keeps_cutBack_typeParams fun _ ↦
    lift_bind _ fun _ ↦ inScope_bind _ fun _ ↦ .pure rfl

theorem keeps_declarationWith (stack : List String) :
    Keeps stack (declarationWith inner) (Parse.declarationWith inner' stack) := by
  refine lift_bind _ fun _ ↦ .ite ((keeps_classDeclaration h stack).bind fun _ ↦ .pure rfl) ?_
  refine lift_bind _ fun _ ↦ .ite ((keeps_moduleDeclaration h stack).bind fun _ ↦ .pure rfl) ?_
  refine lift_bind _ fun _ ↦ .ite ((keeps_interfaceDeclaration h stack).bind fun _ ↦ .pure rfl) ?_
  exact lift_bind _ fun _ ↦ .ite ((keeps_typeAliasDeclaration stack).bind fun _ ↦ .pure rfl)
    (.pure rfl)

end Nested

/-- However deeply declarations are nested, each leaves the stack as it was. -/
theorem keeps_declarationUpTo (depth : Nat) (stack : List String) :
    Keeps stack (declarationUpTo depth) (Parse.declarationUpTo depth stack) := by
  induction depth generalizing stack with
  | zero => exact keeps_lift _
  | succ depth ih => exact keeps_declarationWith ih stack

theorem keeps_declaration : Keeps [] declaration? Parse.declaration? :=
  get_bind fun cursor ↦ keeps_declarationUpTo cursor.rounds []

theorem keeps_declarations : Keeps [] declarations Parse.declarations := by
  refine agrees_iterate (fun _ ↦ []) (fun declarations ↦ ?_) rfl
  refine lift_bind _ fun _ ↦ .ite (.pure rfl) (lift_bind _ fun _ ↦ .ite ?_ ?_)
  · exact lift_bind _ fun _ ↦ .pure rfl
  · refine keeps_declaration.bind fun found ↦ ?_
    cases found with
    | some declaration => exact .pure rfl
    | none => exact inScope_bind _ fun _ ↦ .ite (.pure rfl) (keeps_lift _)

/-- From its stack, a reading that keeps it fails alike and gives the same value. -/
theorem Keeps.run_eq {α : Type} {stack : List String} {stacked : StackParse α} {plain : Parse α}
    (h : Keeps stack stacked plain) (cursor : Cursor) :
    stacked.run ⟨cursor, stack⟩ =
      (plain.run cursor).map fun result ↦ (result.1, ⟨result.2, stack⟩) := by
  rcases simulates_exact_iff.1 (h cursor) with
    ⟨error, hfirst, hsecond, -⟩ | ⟨value, ⟨after, stack⟩, _, hfirst, hsecond, rfl, rfl⟩
  · rw [hfirst, hsecond]
    rfl
  · rw [hfirst, hsecond]
    rfl

/-- Started with an empty stack, the reading is the one with an empty scope. -/
theorem Keeps.fromEmpty_eq {α : Type} {stacked : StackParse α} {plain : Parse α}
    (h : Keeps [] stacked plain) : fromEmpty stacked = plain := by
  funext cursor
  change (stacked.run ⟨cursor, []⟩).map _ = plain.run cursor
  rw [h.run_eq cursor]
  cases plain.run cursor <;> rfl

end StackParse

/-- A signature file is read in the same way with one stack of type parameters. -/
theorem parseAll_declarations_fromEmpty (source : String) :
    parseAll StackParse.declarations.fromEmpty source = parseSignature source := by
  rw [StackParse.keeps_declarations.fromEmpty_eq]
  rfl

/-- So is a method type. -/
theorem parseAll_methodType_fromEmpty (source : String) :
    parseAll (do
      let method ← StackParse.methodType.fromEmpty
      Parse.expectEnd "end of method type"
      return method) source = parseMethodType source := by
  rw [(StackParse.keeps_methodType []).fromEmpty_eq]
  rfl

end DeclaredMethods.Signature
