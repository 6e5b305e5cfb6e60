import DeclaredMethods.Declaration.Call
import DeclaredMethods.Declaration.Evaluate

/-!
# Declarations in normal form

A declaration call is brought into normal form: one declaration for every name it gives, with its
options spelled out. Only the options named here have an effect.
-/

namespace DeclaredMethods

/-- The methods that one name of a `class_attribute` call generates. The reader and the writer of
the class itself are always among them. -/
structure AttributeDeclaration where
  name : String
  instanceReader : Bool
  instanceWriter : Bool
  instancePredicate : Bool
deriving DecidableEq

/-- A forwarded method: in the class of the namespace, calls of `method` go to what `target`
returns. -/
structure Delegation where
  path : Namespace
  target : String
  method : String
deriving DecidableEq

structure DelegateDeclaration where
  request : Delegation
  /-- The name of the generated method. -/
  methodName : String
  isPrivate : Bool
deriving DecidableEq

inductive Declaration where
  | attribute (declaration : AttributeDeclaration)
  | delegate (declaration : DelegateDeclaration)
deriving DecidableEq

inductive DeclarationError where
  | eval (error : EvalError)
  | invalidName (kind : DeclarationKind) (found : Value)
  | noNames (kind : DeclarationKind)
  | missingTarget
  | invalidOption (option : String) (found : Value)

def DeclarationError.message : DeclarationError → String
  | eval error => error.kind.message
  | invalidName kind found => kind.methodName ++ " expects symbol names, found " ++ found.text
  | noNames kind => kind.methodName ++ " called without names"
  | missingTarget => "delegate requires a `to:` option"
  | invalidOption option found => "invalid value for `" ++ option ++ "`: " ++ found.text

abbrev Options := OrderedMap HashKey Value

namespace Options

def value? (options : Options) (name : String) : Option Value :=
  options.get? (.symbol name)

/-- Whether an option is set to a true value, if it is given. -/
def flag? (options : Options) (name : String) : Option Bool :=
  (options.value? name).map Value.isTruthy

end Options

/-- The names and the options among the values of the positional arguments: the options are the
hash at the end. -/
def splitOptions (values : List Value) : List Value × Options :=
  match values.getLast? with
  | some (.hash options) => (values.dropLast, options)
  | _ => (values, .empty)

def declaredName (kind : DeclarationKind) (value : Value) : Except DeclarationError String :=
  match value.symbol? with
  | some name => .ok name
  | none => .error (.invalidName kind value)

/-- The names that the positional values give, of which there is at least one. -/
def declaredNames (kind : DeclarationKind) (values : List Value) :
    Except DeclarationError (List String) :=
  if values.isEmpty then .error (.noNames kind) else values.mapM (declaredName kind)

def attributeDeclaration (options : Options) (name : String) : AttributeDeclaration :=
  let accessor := (options.flag? "instance_accessor").getD true
  { name := name
    instanceReader := (options.flag? "instance_reader").getD accessor
    instanceWriter := (options.flag? "instance_writer").getD accessor
    instancePredicate := (options.flag? "instance_predicate").getD true }

/-- What the methods of a `delegate` call are forwarded to. -/
def delegateTarget (options : Options) : Except DeclarationError String :=
  match options.value? "to" with
  | none => .error .missingTarget
  | some value =>
    match value.name? with
    | some target => .ok target
    | none => .error (.invalidOption "to" value)

/-- What stands in front of the names of the generated methods: the target without its sigils, or
a text of its own. -/
def delegatePrefix (options : Options) (target : String) : Except DeclarationError String :=
  match options.value? "prefix" with
  | none => .ok ""
  | some (.bool true) => .ok (String.ofList (target.toList.dropWhile (· == '@')) ++ "_")
  | some value =>
    if value.isTruthy then
      match value.name? with
      | some text => .ok (text ++ "_")
      | none => .error (.invalidOption "prefix" value)
    else .ok ""

def delegateDeclarations (path : Namespace) (names : List String) (options : Options)
    (privateCall : Bool) : Except DeclarationError (List DelegateDeclaration) := do
  let target ← delegateTarget options
  let front ← delegatePrefix options target
  let isPrivate := privateCall || (options.flag? "private").getD false
  return names.map fun name =>
    { request := ⟨path, target, name⟩, methodName := front ++ name, isPrivate := isPrivate }

/-- The declarations that a call makes whose positional arguments have the given values. -/
def normalizeValues (path : Namespace) (kind : DeclarationKind) (privateCall : Bool)
    (values : List Value) : Except DeclarationError (List Declaration) := do
  let (positional, options) := splitOptions values
  let names ← declaredNames kind positional
  match kind with
  | .classAttribute => return names.map fun name => .attribute (attributeDeclaration options name)
  | .delegate => return (← delegateDeclarations path names options privateCall).map .delegate

/-- The declarations that a call in the given namespace makes. The block argument plays no part
but must be a literal. -/
def normalize (path : Namespace) (call : MethodCall) :
    Except DeclarationError (List Declaration) := do
  let values ← (evalArguments call.args).mapError .eval
  normalizeValues path call.kind call.isPrivate values.dropLast

end DeclaredMethods
