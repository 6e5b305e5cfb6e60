import DeclaredMethods.Declaration.Normal
import DeclaredMethods.Proofs.Evaluation.Hashes

/-!
# What a normal form depends on

Of the arguments of a declaration call only the names and the options that its kind knows are read.
The options are the pairs of the hash literal at the end of the positional arguments; of several
values for an option the last one counts, wherever it is written. So two calls that give the same
names and the same last values have the same normal form, whatever else they are given.

In a normal form there is one declaration for each name, and all of them have everything else in
common.
-/

namespace DeclaredMethods

open Source

def DeclarationKind.optionNames : DeclarationKind → List String
  | classAttribute =>
    ["instance_accessor", "instance_reader", "instance_writer", "instance_predicate"]
  | delegate => ["to", "prefix", "private"]

namespace Source.Arguments

/-- The entries of the hash literal at the end of the positional arguments, if there is one. -/
def trailingEntries? (args : Arguments) : Option (List HashEntry) :=
  args.positional.getLast?.bind Expr.hashLiteral?

/-- The positional arguments in front of the options. -/
def nameExprs (args : Arguments) : List Expr :=
  if args.trailingEntries?.isSome then args.positional.dropLast else args.positional

/-- The value that the options bind to a name last. -/
def lastValue? (args : Arguments) (name : String) : Option Value := do
  let pairs ← addedPairs? (args.trailingEntries?.getD [])
  ((pairs.filter fun pair ↦ pair.1 = .symbol name).map Prod.snd).getLast?

end Source.Arguments

/-- A way to declare names in which nothing differs between them but the name. -/
inductive DeclaresAlike (path : Namespace) : DeclarationKind → (String → Declaration) → Prop where
  | attributes (reader writer predicate : Bool) :
      DeclaresAlike path .classAttribute fun name ↦ .attribute ⟨name, reader, writer, predicate⟩
  | delegates (target front : String) (isPrivate : Bool) :
      DeclaresAlike path .delegate fun name ↦
        .delegate ⟨⟨path, target, name⟩, front ++ name, isPrivate⟩

theorem evalExprs_eq_mapM (exprs : List Expr) : evalExprs exprs = exprs.mapM evalExpr := by
  induction exprs with
  | nil => rw [evalExprs]; rfl
  | cons expr exprs ih => rw [evalExprs, ih, List.mapM_cons]

/-- Expressions are evaluated from the left, and the first that has no value decides. -/
theorem evalExprs_append (exprs later : List Expr) :
    evalExprs (exprs ++ later) = do
      let values ← evalExprs exprs
      let laterValues ← evalExprs later
      return values ++ laterValues := by
  simp only [evalExprs_eq_mapM, List.mapM_append]

/-- All arguments have values if the positional ones and the block argument have, and the value of
the block argument is the last one. -/
theorem evalArguments_eq_ok {args : Arguments} {values : List Value}
    (h : evalArguments args = .ok values) : evalExprs args.positional = .ok values.dropLast := by
  have hslots : args.slots.mapM evalSlot = (do
      let positional ← evalExprs args.positional
      let block ← evalSlot args.blockArg
      return positional ++ [block]) := by
    rw [Arguments.slots, List.mapM_append, List.mapM_map, evalExprs_eq_mapM]
    simp [evalSlot, Function.comp_def]
  rw [evalArguments, hslots] at h
  obtain ⟨positional, hpositional, h⟩ := bind_eq_ok_iff.1 h
  obtain ⟨block, -, h⟩ := bind_eq_ok_iff.1 h
  cases h
  rw [List.dropLast_concat, hpositional]

/-- The last value is that of the last expression. -/
theorem evalExprs_concat_eq_ok {exprs : List Expr} {expr : Expr} {values : List Value}
    (h : evalExprs (exprs ++ [expr]) = .ok values) :
    ∃ front last, evalExprs exprs = .ok front ∧ evalExpr expr = .ok last ∧
      values = front ++ [last] := by
  rw [evalExprs_append] at h
  obtain ⟨front, hfront, h⟩ := bind_eq_ok_iff.1 h
  obtain ⟨others, hothers, h⟩ := bind_eq_ok_iff.1 h
  rw [evalExprs] at hothers
  obtain ⟨last, hlast, hothers⟩ := bind_eq_ok_iff.1 hothers
  rw [evalExprs] at hothers
  cases hothers
  cases h
  exact ⟨front, last, hfront, hlast, rfl⟩

/-- Nothing but a hash literal has a hash as its value. -/
theorem entries?_eq_none_of_hashLiteral? {expr : Expr} {value : Value}
    (h : expr.hashLiteral? = none) (hvalue : evalExpr expr = .ok value) :
    value.entries? = none := by
  fun_induction Expr.hashLiteral? expr with
  | case1 => cases h
  | case2 inner place place' ih =>
    rw [evalExpr, evalNode, evalBody] at hvalue
    exact ih h hvalue
  | case3 expr hhash hparen =>
    obtain ⟨node, span⟩ := expr
    rw [evalExpr] at hvalue
    cases node with
    | hash entries => exact (hhash entries span rfl).elim
    | paren body =>
      obtain ⟨statements, place⟩ := body
      rw [evalNode] at hvalue
      rcases statements with _ | ⟨inner, _ | ⟨second, rest⟩⟩
      · cases hvalue
      · exact (hparen inner place span rfl).elim
      · cases hvalue
    | literal literal =>
      rw [evalNode] at hvalue
      cases literal with
      | str text interpolated =>
        cases interpolated <;> cases hvalue
        rfl
      | _ =>
        cases hvalue
        rfl
    | array items =>
      rw [evalNode] at hvalue
      cases hitems : evalExprs items with
      | error error =>
        rw [hitems] at hvalue
        cases hvalue
      | ok values =>
        rw [hitems] at hvalue
        cases hvalue
        rfl
    | nil | true | false =>
      rw [evalNode] at hvalue
      cases hvalue
      rfl
    | _ =>
      rw [evalNode] at hvalue
      · cases hvalue
      all_goals simp

/-- Only a hash at the end is taken for the options. -/
theorem splitOptions_concat_of_entries? {front : List Value} {last : Value}
    (h : last.entries? = none) :
    splitOptions (front ++ [last]) = (front ++ [last], .empty) := by
  unfold splitOptions
  rw [List.getLast?_concat]
  cases last with
  | hash entries => cases h
  | _ => rfl

/-- The names and the options among the values of the positional arguments are the values of the
names and the map of the options as they are written. -/
theorem splitOptions_of_evalExprs {args : Arguments} {values : List Value}
    (h : evalExprs args.positional = .ok values) :
    ∃ names pairs, evalExprs args.nameExprs = .ok names ∧
      addedPairs? (args.trailingEntries?.getD []) = some pairs ∧
      splitOptions values = (names, OrderedMap.empty.insertAll pairs) := by
  unfold Arguments.nameExprs Arguments.trailingEntries?
  induction hpositional : args.positional using List.reverseRecOn with
  | nil =>
    rw [hpositional, evalExprs] at h
    cases h
    exact ⟨[], [], rfl, rfl, rfl⟩
  | append_singleton exprs expr =>
    rw [hpositional] at h
    obtain ⟨front, last, hfront, hlast, rfl⟩ := evalExprs_concat_eq_ok h
    rw [List.getLast?_concat, Option.bind_some]
    cases hliteral : expr.hashLiteral? with
    | some entries =>
      have hvalue := toOption_evalExpr_of_hashLiteral? hliteral
      rw [hlast] at hvalue
      obtain ⟨pairs, hpairs, rfl⟩ := Option.map_eq_some_iff.1 hvalue.symm
      refine ⟨front, pairs, ?_, hpairs, ?_⟩
      · rw [Option.isSome_some, if_pos rfl, List.dropLast_concat, hfront]
      · rw [splitOptions, List.getLast?_concat, List.dropLast_concat]
    | none =>
      have hnone := entries?_eq_none_of_hashLiteral? hliteral hlast
      refine ⟨front ++ [last], [], ?_, by rw [Option.getD_none, addedPairs?], ?_⟩
      · rw [Option.isSome_none, if_neg Bool.false_ne_true, h]
      · exact splitOptions_concat_of_entries? hnone

section Reading

variable {path : Namespace} {kind : DeclarationKind} {privateCall : Bool}
  {options options' : Options} {names : List String}

/-- An attribute depends on nothing but the options it reads. -/
theorem attributeDeclaration_congr
    (h : ∀ name ∈ DeclarationKind.classAttribute.optionNames,
      options.value? name = options'.value? name) :
    attributeDeclaration options = attributeDeclaration options' := by
  funext name
  unfold attributeDeclaration Options.flag?
  simp only [h _ (by decide : "instance_accessor" ∈ _), h _ (by decide : "instance_reader" ∈ _),
    h _ (by decide : "instance_writer" ∈ _), h _ (by decide : "instance_predicate" ∈ _)]

theorem delegateDeclarations_congr
    (h : ∀ name ∈ DeclarationKind.delegate.optionNames,
      options.value? name = options'.value? name) :
    delegateDeclarations path names options privateCall =
      delegateDeclarations path names options' privateCall := by
  unfold delegateDeclarations delegateTarget delegatePrefix Options.flag?
  rw [h "to" (by decide), h "prefix" (by decide), h "private" (by decide)]

/-- The normal form depends on the positional values and on the options that the kind of declaration
reads. -/
theorem normalizeValues_congr {values values' positional : List Value}
    (hvalues : splitOptions values = (positional, options))
    (hvalues' : splitOptions values' = (positional, options'))
    (h : ∀ name ∈ kind.optionNames, options.value? name = options'.value? name) :
    normalizeValues path kind privateCall values =
      normalizeValues path kind privateCall values' := by
  rw [normalizeValues, normalizeValues, hvalues, hvalues']
  cases kind with
  | classAttribute => simp only [attributeDeclaration_congr h]
  | delegate => simp only [delegateDeclarations_congr h]

/-- Only a symbol declares a name. -/
theorem declaredName_eq_ok_iff {value : Value} {name : String} :
    declaredName kind value = .ok name ↔ value = .symbol name := by
  cases value <;> simp [declaredName, Value.symbol?]

theorem mapM_declaredName_eq_ok {values : List Value}
    (h : values.mapM (declaredName kind) = .ok names) : values = names.map .symbol := by
  induction values generalizing names with
  | nil =>
    cases h
    rfl
  | cons value values ih =>
    rw [List.mapM_cons] at h
    obtain ⟨name, hvalue, h⟩ := bind_eq_ok_iff.1 h
    obtain ⟨others, hvalues, h⟩ := bind_eq_ok_iff.1 h
    cases h
    rw [declaredName_eq_ok_iff.1 hvalue, ih hvalues, List.map_cons]

/-- The names are those of symbols, in the order in which they are given. -/
theorem declaredNames_eq_ok {values : List Value} (h : declaredNames kind values = .ok names) :
    values = names.map .symbol := by
  unfold declaredNames at h
  split at h
  · cases h
  · exact mapM_declaredName_eq_ok h

/-- All methods of one call are forwarded alike. -/
theorem delegateDeclarations_eq_ok {declarations : List DelegateDeclaration}
    (h : delegateDeclarations path names options privateCall = .ok declarations) :
    ∃ target front isPrivate, declarations = names.map fun name ↦
      ⟨⟨path, target, name⟩, front ++ name, isPrivate⟩ := by
  obtain ⟨target, -, h⟩ := bind_eq_ok_iff.1 h
  obtain ⟨front, -, h⟩ := bind_eq_ok_iff.1 h
  cases h
  exact ⟨target, front, _, rfl⟩

/-- The declarations of a normal form differ in nothing but their names. -/
theorem normalizeValues_eq_ok {values positional : List Value} {declarations : List Declaration}
    (hvalues : splitOptions values = (positional, options))
    (h : normalizeValues path kind privateCall values = .ok declarations) :
    ∃ (names : List String) (declare : String → Declaration), positional = names.map .symbol ∧
      DeclaresAlike path kind declare ∧ declarations = names.map declare := by
  rw [normalizeValues, hvalues] at h
  obtain ⟨names, hnames, h⟩ := bind_eq_ok_iff.1 h
  refine ⟨names, ?_⟩
  cases kind with
  | classAttribute =>
    cases h
    exact ⟨_, declaredNames_eq_ok hnames, .attributes _ _ _, rfl⟩
  | delegate =>
    obtain ⟨delegates, hdelegates, h⟩ := bind_eq_ok_iff.1 h
    cases h
    obtain ⟨target, front, isPrivate, rfl⟩ := delegateDeclarations_eq_ok hdelegates
    exact ⟨_, declaredNames_eq_ok hnames, .delegates target front isPrivate, List.map_map⟩

end Reading

/-- The value behind the positional ones is the block argument, which no declaration reads. -/
theorem normalize_of_evalArguments {path : Namespace} {call : MethodCall} {values : List Value}
    (h : evalArguments call.args = .ok values) :
    normalize path call = normalizeValues path call.kind call.isPrivate values.dropLast := by
  rw [normalize, h]
  rfl

/-- The last value of an option as it is written is its value in the map of the options. -/
theorem lastValue?_eq_value? {args : Arguments} {pairs : List (HashKey × Value)}
    (h : addedPairs? (args.trailingEntries?.getD []) = some pairs) (name : String) :
    args.lastValue? name = Options.value? (OrderedMap.empty.insertAll pairs) name := by
  rw [Arguments.lastValue?, h, Options.value?, OrderedMap.get?_insertAll_eq_getLast?,
    OrderedMap.get?_empty, Option.or_none]
  rfl

/-- A normal form depends on the names and the last values of the options that its kind reads, and
on nothing else in the arguments. In a normal form there is one declaration for each name, in order,
and nothing but the name differs between them. -/
theorem normalize_reads_names_and_options (path : Namespace) :
    (∀ first second : MethodCall, first.kind = second.kind → first.isPrivate = second.isPrivate →
      (∃ values, evalArguments first.args = .ok values) →
      (∃ values, evalArguments second.args = .ok values) →
      evalExprs first.args.nameExprs = evalExprs second.args.nameExprs →
      (∀ name ∈ first.kind.optionNames,
        first.args.lastValue? name = second.args.lastValue? name) →
      normalize path first = normalize path second) ∧
    ∀ (call : MethodCall) (declarations : List Declaration),
      normalize path call = .ok declarations →
      ∃ (names : List String) (declare : String → Declaration),
        evalExprs call.args.nameExprs = .ok (names.map .symbol) ∧
        DeclaresAlike path call.kind declare ∧ declarations = names.map declare := by
  refine ⟨?_, fun call declarations h ↦ ?_⟩
  · rintro first second hkind hprivate ⟨values, hvalues⟩ ⟨values', hvalues'⟩ hnames hoptions
    obtain ⟨names, pairs, heval, hpairs, hsplit⟩ :=
      splitOptions_of_evalExprs (evalArguments_eq_ok hvalues)
    obtain ⟨names', pairs', heval', hpairs', hsplit'⟩ :=
      splitOptions_of_evalExprs (evalArguments_eq_ok hvalues')
    obtain rfl : names = names' := by
      rw [heval, heval'] at hnames
      exact Except.ok.inj hnames
    rw [normalize_of_evalArguments hvalues, normalize_of_evalArguments hvalues', ← hkind,
      ← hprivate]
    refine normalizeValues_congr hsplit hsplit' fun name hname ↦ ?_
    rw [← lastValue?_eq_value? hpairs, ← lastValue?_eq_value? hpairs', hoptions name hname]
  · cases hvalues : evalArguments call.args with
    | error error =>
      rw [normalize, hvalues] at h
      cases h
    | ok values =>
      rw [normalize_of_evalArguments hvalues] at h
      obtain ⟨names, pairs, heval, -, hsplit⟩ :=
        splitOptions_of_evalExprs (evalArguments_eq_ok hvalues)
      obtain ⟨symbols, declare, rfl, halike, rfl⟩ := normalizeValues_eq_ok hsplit h
      exact ⟨symbols, declare, heval, halike, rfl⟩

/-- Two names with a target that is given twice beside an unknown option, against a hash in
parentheses that gives it once, in another order and by a splat, with another key and a block
argument. Both calls have a normal form, with one declaration for each name. -/
theorem normalize_reads_names_and_options_of_reordered :
    ∃ (first second : MethodCall) (declarations : List Declaration)
      (declare : String → Declaration), second.args.blockArg.isSome ∧
      first.args.lastValue? "to" = some (.symbol "client") ∧
      normalize .root first = .ok declarations ∧ normalize .root second = .ok declarations ∧
      DeclaresAlike .root .delegate declare ∧ declarations = ["name", "size"].map declare := by
  let symbol (name : String) : Expr := ⟨.literal (.symbol name), ⟨0, 0⟩⟩
  let yes : Expr := ⟨.true, ⟨0, 0⟩⟩
  let options : Expr := ⟨.hash [.pair (symbol "to") (symbol "other"), .pair (symbol "on") yes,
    .pair (symbol "to") (symbol "client"), .pair (symbol "prefix") yes], ⟨0, 0⟩⟩
  let splatted : Expr := ⟨.hash [.pair (symbol "to") (symbol "client")], ⟨0, 0⟩⟩
  let options' : Expr := ⟨.paren ⟨[⟨.hash [.pair (symbol "prefix") yes, .pair yes yes,
    .doubleSplat splatted], ⟨0, 0⟩⟩], ⟨0, 0⟩⟩, ⟨0, 0⟩⟩
  let names := [symbol "name", symbol "size"]
  let first : MethodCall := ⟨.delegate, ⟨names ++ [options], none, false⟩, false, ⟨0, 0⟩⟩
  let second : MethodCall :=
    ⟨.delegate, ⟨names ++ [options'], some (symbol "each"), true⟩, false, ⟨0, 0⟩⟩
  let delegate (name : String) : Declaration :=
    .delegate ⟨⟨.root, "client", name⟩, "client_" ++ name, false⟩
  have hoptions : ∀ name ∈ first.kind.optionNames,
      first.args.lastValue? name = second.args.lastValue? name := by
    intro name hname
    rcases List.mem_cons.1 hname with rfl | hname
    · rfl
    rcases List.mem_cons.1 hname with rfl | hname
    · rfl
    rw [List.mem_singleton.1 hname]
    rfl
  have hfirst : normalize .root first = .ok [delegate "name", delegate "size"] := rfl
  have hsecond : normalize .root second = .ok [delegate "name", delegate "size"] := by
    rw [← hfirst]
    exact ((normalize_reads_names_and_options .root).1 first second rfl rfl ⟨_, rfl⟩ ⟨_, rfl⟩ rfl
      hoptions).symm
  obtain ⟨found, declare, hnames, halike, hdeclarations⟩ :=
    (normalize_reads_names_and_options .root).2 second _ hsecond
  have hfound : found = ["name", "size"] :=
    (List.map_injective_iff.2 fun _ _ ↦ Value.symbol.inj) (Except.ok.inj hnames).symm
  rw [hfound] at hdeclarations
  exact ⟨first, second, _, declare, rfl, rfl, hfirst, hsecond, halike, hdeclarations⟩

end DeclaredMethods
