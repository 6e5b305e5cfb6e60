import DeclaredMethods.Declaration.Collect
import DeclaredMethods.Proofs.Tree.Position
import Mathlib.Data.List.Basic
import Mathlib.Data.List.Induction
import Mathlib.Data.List.Nodup

/-!
# What is collected

The walk over a source files the declaration calls of the whole tree, each of them once, in the
order in which they are written. Where a call stands is said by the bodies around it: the names of
the classes and modules among them give its namespace, and the bare visibility statements in front
of the way to it give its visibility.
-/

namespace DeclaredMethods

open Source

/-- The visibility that the last bare visibility statement among some statements puts in force. -/
def lastVisibility? (statements : List Expr) : Option Visibility :=
  (statements.filterMap fun statement ↦ visibilityChange? statement.node).getLast?

namespace Source.Opening

/-- The name that a body adds to the namespace. -/
def name? : Opening → Option ConstPath
  | named name => some name
  | file | singleton | inner => none

/-- Whether what is in force around a body does not reach into it. -/
def isolates : Opening → Bool
  | file | named _ | singleton => true
  | inner => false

end Source.Opening

/-- The namespace inside some bodies, the outermost first. -/
def namespaceWithin (enclosures : List Enclosure) : Namespace :=
  (enclosures.filterMap fun enclosure ↦ enclosure.opening.name?).foldl Namespace.nested .root

/-- The visibility that is in force inside some bodies, the innermost first: the first body on the
way outward with a bare visibility statement in front of the way decides, up to the first body that
nothing reaches into. -/
def visibilityWithin? : List Enclosure → Option Visibility
  | [] => none
  | enclosure :: outer =>
    match lastVisibility? enclosure.before with
    | some visibility => some visibility
    | none => if enclosure.opening.isolates then none else visibilityWithin? outer

/-- A declaration call stands at a position of a source. -/
def Source.SourceFile.Declares (file : SourceFile) (position : Position) (path : Namespace)
    (call : MethodCall) : Prop :=
  ∃ enclosures name block safe,
    Leads .file (.body file.body) enclosures position
      ⟨.call none name call.args block safe, call.span⟩ ∧
    name.node = call.kind.methodName ∧
    path = namespaceWithin enclosures ∧
    (call.isPrivate = true ↔ visibilityWithin? enclosures.reverse = some .private_)

abbrev Entry := Namespace × MethodCall

def fileEntry (calls : OrderedMap Namespace (List MethodCall)) (entry : Entry) :
    OrderedMap Namespace (List MethodCall) :=
  calls.alter entry.1 fun present ↦ present.getD [] ++ [entry.2]

/-- The calls of a log by namespace, the namespaces in the order of their first calls. -/
def grouped (log : List Entry) : List (Namespace × List MethodCall) :=
  (log.map Prod.fst).eraseDups.map fun path ↦
    (path, (log.filter fun entry ↦ entry.1 = path).map Prod.snd)

theorem nodup_eraseDups {κ : Type} [DecidableEq κ] (keys : List κ) : keys.eraseDups.Nodup := by
  match keys with
  | [] => exact List.nodup_nil
  | key :: keys =>
    rw [List.eraseDups_cons, List.nodup_cons]
    exact ⟨by simp [List.mem_eraseDups], nodup_eraseDups _⟩
termination_by keys.length
decreasing_by exact Nat.lt_succ_of_le (List.length_filter_le _ _)

theorem alterEntries_map {κ ν : Type} [DecidableEq κ] (key : κ) (f : Option ν → ν) (g : κ → ν)
    {keys : List κ} (hkeys : keys.Nodup) :
    OrderedMap.alterEntries key f (keys.map fun k ↦ (k, g k)) =
      if key ∈ keys then keys.map fun k ↦ (k, if k = key then f (some (g k)) else g k)
      else (keys.map fun k ↦ (k, g k)) ++ [(key, f none)] := by
  induction keys with
  | nil => rfl
  | cons first keys ih =>
    obtain ⟨hfirst, hkeys⟩ := List.nodup_cons.1 hkeys
    by_cases hkey : first = key
    · subst hkey
      have hrest : (keys.map fun k ↦ (k, if k = first then f (some (g k)) else g k)) =
          keys.map fun k ↦ (k, g k) := by
        refine List.map_congr_left fun k hk ↦ ?_
        rw [if_neg (ne_of_mem_of_not_mem hk hfirst)]
      simp [OrderedMap.alterEntries, hrest]
    · have hne : ¬key = first := fun heq ↦ hkey heq.symm
      rw [List.map_cons, OrderedMap.alterEntries, if_neg hkey, ih hkeys]
      by_cases hmem : key ∈ keys <;> simp [hmem, hne, hkey]

/-- Filing one more call gives the log with the call behind it. -/
theorem alterEntries_grouped (log : List Entry) (entry : Entry) :
    OrderedMap.alterEntries entry.1 (fun present ↦ present.getD [] ++ [entry.2]) (grouped log) =
      grouped (log ++ [entry]) := by
  rw [grouped, alterEntries_map _ _ _ (nodup_eraseDups _), grouped]
  simp only [List.map_append, List.filter_append, List.map_cons, List.map_nil,
    List.eraseDups_append, List.mem_eraseDups]
  split
  next hmem =>
    have hremoved : [entry.1].removeAll (log.map Prod.fst) = [] := by
      simp only [List.removeAll, List.filter_cons, List.filter_nil]
      simpa using hmem
    rw [hremoved, List.eraseDups_nil, List.map_nil, List.append_nil]
    refine List.map_congr_left fun path _ ↦ ?_
    by_cases hpath : path = entry.1
    · simp [hpath]
    · have hne : ¬entry.1 = path := fun heq ↦ hpath heq.symm
      simp [hpath, hne]
  next hmem =>
    have hkept : [entry.1].removeAll (log.map Prod.fst) = [entry.1] := by
      simp only [List.removeAll, List.filter_cons, List.filter_nil]
      simpa using hmem
    have hnew : log.filter (fun other ↦ other.1 = entry.1) = [] := by
      rw [List.filter_eq_nil_iff]
      intro other hother
      have hne : other.1 ≠ entry.1 := fun heq ↦ hmem (heq ▸ List.mem_map_of_mem hother)
      simpa using hne
    rw [hkept]
    congr 1
    · refine List.map_congr_left fun path hpath ↦ ?_
      have hne : ¬entry.1 = path := fun heq ↦ hmem (heq ▸ List.mem_eraseDups.1 hpath)
      simp [hne]
    · simp [List.eraseDups_cons, hnew]

/-- Filing all calls of a log groups them. -/
theorem entries_foldl_fileEntry (log : List Entry) :
    (log.foldl fileEntry .empty).entries = grouped log := by
  induction log using List.reverseRecOn with
  | nil => rfl
  | append_singleton log entry ih =>
    rw [List.foldl_append, List.foldl_cons, List.foldl_nil, fileEntry, OrderedMap.alter, ih]
    exact alterEntries_grouped log entry

namespace Place

/-- The place inside a body. -/
def opened (place : Place) : Opening → Place
  | .named name => place.enter name
  | .file | .singleton => place.withVisibility .public_
  | .inner => place

def behind (place : Place) (statements : List Expr) : Place :=
  place.withVisibility ((lastVisibility? statements).getD place.visibility)

/-- The place that a way into a body leads to. -/
def into (place : Place) (enclosure : Enclosure) : Place :=
  (place.opened enclosure.opening).behind enclosure.before

/-- The place that a part of an expression stands at. -/
def ofChild (place : Place) (opening : Opening) : Child → Place
  | .expr _ => place
  | .body _ => place.opened opening

/-- What is filed for an expression that stands at a place. -/
def entryFor? (place : Place) (e : Expr) : Option Entry :=
  (declarationOf? e.node).map fun declaration ↦
    (place.path, ⟨declaration.1, declaration.2, place.visibility = .private_, e.span⟩)

/-- Entering a body changes the namespace and the visibility as its opening says. -/
theorem bodyPlace_fst (place : Place) (node : Node) :
    (bodyPlace place node).1 = place.opened node.opening := by
  cases node <;> rfl

/-- A bare call of a visibility puts it in force for the statements behind it. -/
theorem behind_append_singleton (place : Place) (statements : List Expr) (statement : Expr) :
    place.behind (statements ++ [statement]) =
      match visibilityChange? statement.node with
      | some visibility => (place.behind statements).withVisibility visibility
      | none => place.behind statements := by
  cases h : visibilityChange? statement.node <;> simp [behind, lastVisibility?, h, withVisibility]

/-- The namespace inside bodies is made up of the names they add, from the outside in. -/
theorem path_foldl_into (place : Place) (enclosures : List Enclosure) :
    (enclosures.foldl into place).path =
      (enclosures.filterMap fun enclosure ↦ enclosure.opening.name?).foldl Namespace.nested
        place.path := by
  induction enclosures generalizing place with
  | nil => rfl
  | cons enclosure enclosures ih =>
    rw [List.foldl_cons, ih]
    obtain ⟨opening, before⟩ := enclosure
    cases opening <;> rfl

/-- The visibility in force is that of the innermost body that sets one. -/
theorem visibility_foldl_into (enclosures : List Enclosure) :
    (enclosures.foldl into top).visibility =
      (visibilityWithin? enclosures.reverse).getD .public_ := by
  induction enclosures using List.reverseRecOn with
  | nil => rfl
  | append_singleton enclosures enclosure ih =>
    rw [List.foldl_append, List.foldl_cons, List.foldl_nil, List.reverse_concat,
      visibilityWithin?]
    obtain ⟨opening, before⟩ := enclosure
    cases hlast : lastVisibility? before with
    | some visibility => simp [into, behind, withVisibility, hlast]
    | none =>
      cases opening <;>
        simp [into, behind, withVisibility, opened, enter, Opening.isolates, hlast, ih]

end Place

/-! ## The log of a walk -/

/-- An expression files at most one entry, behind those of its namespace. -/
theorem calls_record (found : Declarations) (place : Place) (e : Expr) :
    (found.record place e).calls = (place.entryFor? e).toList.foldl fileEntry found.calls := by
  rw [Declarations.record, Place.entryFor?]
  cases declarationOf? e.node <;> rfl

theorem calls_enter (found : Declarations) (inner : Place × Option NamespaceKind) :
    (found.enter inner).calls = found.calls := by
  rw [Declarations.enter]
  cases inner.2 <;> rfl

/-- What is declared at a position below an expression or body that stands at a place. -/
def DeclaredBelow (place : Place) (opening : Opening) (child : Child) (position : Position)
    (entry : Entry) : Prop :=
  ∃ enclosures target, Leads opening child enclosures position target ∧
    (enclosures.foldl Place.into place).entryFor? target = some entry

/-- A list of positions with entries is the log of a step of the walk. -/
structure IsLog (walk : Declarations → Declarations) (declared : Position → Entry → Prop)
    (log : List (Position × Entry)) : Prop where
  filed : ∀ found, (walk found).calls = (log.map Prod.snd).foldl fileEntry found.calls
  ordered : (log.map Prod.fst).Pairwise Position.Before
  exact : ∀ position entry, (position, entry) ∈ log ↔ declared position entry

namespace IsLog

theorem nil {walk : Declarations → Declarations} {declared : Position → Entry → Prop}
    (hwalk : ∀ found, (walk found).calls = found.calls)
    (hdeclared : ∀ position entry, ¬declared position entry) : IsLog walk declared [] where
  filed := hwalk
  ordered := .nil
  exact position entry := by simp [hdeclared position entry]

/-- The log of one step behind another, if the second one stays behind the first in the tree. -/
theorem append {first second : Declarations → Declarations}
    {declared declared' both : Position → Entry → Prop} {log log' : List (Position × Entry)}
    (h : IsLog first declared log) (h' : IsLog second declared' log')
    (hboth : ∀ position entry,
      both position entry ↔ declared position entry ∨ declared' position entry)
    (hbefore : ∀ position entry, declared position entry → ∀ position' entry',
      declared' position' entry' → Position.Before position position') :
    IsLog (second ∘ first) both (log ++ log') where
  filed found := by
    rw [Function.comp_apply, h'.filed, h.filed, List.map_append, List.foldl_append]
  ordered := by
    rw [List.map_append, List.pairwise_append]
    refine ⟨h.ordered, h'.ordered, fun position hposition position' hposition' ↦ ?_⟩
    obtain ⟨item, hitem, rfl⟩ := List.mem_map.1 hposition
    obtain ⟨item', hitem', rfl⟩ := List.mem_map.1 hposition'
    exact hbefore _ _ ((h.exact _ _).1 hitem) _ _ ((h'.exact _ _).1 hitem')
  exact position entry := by
    rw [List.mem_append, h.exact, h'.exact, hboth]

theorem before_cons (step : Step) {left right : Position} (h : Position.Before left right) :
    Position.Before (step :: left) (step :: right) :=
  List.cons_lt_cons_iff.2 (.inr ⟨rfl, h⟩)

theorem congr {walk walk' : Declarations → Declarations} {declared : Position → Entry → Prop}
    {log : List (Position × Entry)} (h : IsLog walk declared log)
    (hwalk : ∀ found, walk' found = walk found) : IsLog walk' declared log where
  filed found := by rw [hwalk, h.filed]
  ordered := h.ordered
  exact := h.exact

/-- The log of what stands one step further down. -/
theorem below {walk : Declarations → Declarations} {declared : Position → Entry → Prop}
    {log : List (Position × Entry)} (h : IsLog walk declared log) (step : Step) :
    IsLog walk (fun position entry ↦ ∃ rest, position = step :: rest ∧ declared rest entry)
      (log.map fun item ↦ (step :: item.1, item.2)) where
  filed found := by
    rw [h.filed, List.map_map]
    rfl
  ordered := by
    have hordered := h.ordered
    rw [List.pairwise_map] at hordered
    rw [List.map_map, List.pairwise_map]
    exact hordered.imp fun hbefore ↦ before_cons step hbefore
  exact position entry := by
    rw [List.mem_map]
    constructor
    · rintro ⟨item, hitem, heq⟩
      cases heq
      exact ⟨item.1, rfl, (h.exact _ _).1 hitem⟩
    · rintro ⟨rest, rfl, hdeclared⟩
      exact ⟨(rest, entry), (h.exact _ _).2 hdeclared, rfl⟩

end IsLog

/-- Bodies are walked as sequences and expressions are not, so a visibility stays in force among the
statements of one body. -/
theorem isSequence_ofChild_expr (e : Expr) : (Outline.ofChild (.expr e)).isSequence = false := by
  rw [Outline.ofChild_expr, Outline.ofExpr_eq]
  rfl

theorem isSequence_ofChild_body (b : Body) : (Outline.ofChild (.body b)).isSequence = true := by
  rw [Outline.ofChild_body, Outline.ofBody_eq]
  rfl

/-- Whether every visit of an expression or body has a log. -/
def HasLogs (child : Child) : Prop :=
  ∀ (place : Place) (opening : Opening), ∃ log,
    IsLog (visit (place.ofChild opening child) (.ofChild child))
      (DeclaredBelow place opening child) log

/-- The visit of one part of an expression. -/
theorem exists_isLog_part {child : Child} (h : HasLogs child) (place : Place) (node : Node) :
    ∃ log, IsLog
      (fun found ↦
        if (Outline.ofChild child).isSequence then
          visit (bodyPlace place node).1 (.ofChild child) (found.enter (bodyPlace place node))
        else visit place (.ofChild child) found)
      (DeclaredBelow place node.opening child) log := by
  obtain ⟨log, hlog⟩ := h place node.opening
  refine ⟨log, ?_, hlog.ordered, hlog.exact⟩
  intro found
  cases child with
  | expr e =>
    rw [isSequence_ofChild_expr, if_neg Bool.false_ne_true]
    exact hlog.filed found
  | body b =>
    rw [isSequence_ofChild_body, if_pos rfl, Place.bodyPlace_fst]
    exact (hlog.filed _).trans (by rw [calls_enter])

/-- The visit of some parts of an expression. -/
theorem exists_isLog_parts (place : Place) (node : Node) {parts : List (Slot × Child)}
    (hparts : ∀ part ∈ parts, HasLogs part.2) (hranked : Ranked parts) :
    ∃ log, IsLog
      (visitParts place (bodyPlace place node) (parts.map fun part ↦ .ofChild part.2))
      (fun position entry ↦ ∃ part ∈ parts, ∃ rest, position = .part part.1 :: rest ∧
        DeclaredBelow place node.opening part.2 rest entry) log := by
  induction parts with
  | nil => exact ⟨[], .nil (fun found ↦ (by rw [List.map_nil, visitParts])) (by simp)⟩
  | cons part parts ih =>
    obtain ⟨hfirst, hrest⟩ := List.pairwise_cons.1 hranked
    obtain ⟨log, hlog⟩ := exists_isLog_part (hparts part List.mem_cons_self) place node
    obtain ⟨log', hlog'⟩ := ih (fun other hmem ↦ hparts other (List.mem_cons_of_mem _ hmem)) hrest
    refine ⟨_, ((hlog.below (.part part.1)).append hlog' ?_ ?_).congr ?_⟩
    · intro position entry
      simp only [List.mem_cons, exists_eq_or_imp]
    · rintro position entry ⟨rest, rfl, -⟩ position' entry' ⟨other, hother, rest', rfl, -⟩
      exact List.cons_lt_cons_iff.2 (.inl (hfirst other hother))
    · intro found
      rw [List.map_cons, visitParts]
      rfl

/-- What is declared below an expression is what the expression declares itself and what its parts
declare. -/
theorem declaredBelow_expr_iff (place : Place) (opening : Opening) (e : Expr) (position : Position)
    (entry : Entry) :
    DeclaredBelow place opening (.expr e) position entry ↔
      (position = [] ∧ place.entryFor? e = some entry) ∨
      ∃ part ∈ e.node.parts, ∃ rest, position = .part part.1 :: rest ∧
        DeclaredBelow place e.node.opening part.2 rest entry := by
  constructor
  · rintro ⟨enclosures, target, hleads, hentry⟩
    cases hleads with
    | here => exact .inl ⟨rfl, hentry⟩
    | part hpart hleads =>
      exact .inr ⟨_, Node.hasPart_iff_mem_parts.1 hpart, _, rfl, enclosures, target, hleads, hentry⟩
  · rintro (⟨rfl, hentry⟩ | ⟨part, hpart, rest, rfl, enclosures, target, hleads, hentry⟩)
    · exact ⟨[], e, .here, hentry⟩
    · exact ⟨enclosures, target, .part (Node.hasPart_iff_mem_parts.2 hpart) hleads, hentry⟩

/-- The visit of an expression files the expression itself, then what is inside its parts. -/
theorem hasLogs_expr (e : Expr) (h : ∀ child ∈ e.node.children, HasLogs child) :
    HasLogs (.expr e) := by
  intro place opening
  have hparts : ∀ part ∈ e.node.parts, HasLogs part.2 := by
    intro part hpart
    apply h
    rw [← e.node.map_snd_parts]
    exact List.mem_map_of_mem hpart
  obtain ⟨log, hlog⟩ := exists_isLog_parts place e.node hparts e.node.ranked_parts
  have hself : IsLog (fun found ↦ found.record place e)
      (fun position entry ↦ position = [] ∧ place.entryFor? e = some entry)
      ((place.entryFor? e).toList.map fun entry ↦ ([], entry)) := by
    refine ⟨fun found ↦ ?_, ?_, fun position entry ↦ ?_⟩
    · rw [calls_record, List.map_map]
      simp [Function.comp_def]
    · cases place.entryFor? e <;> simp
    · cases place.entryFor? e <;> simp [eq_comm]
  refine ⟨_, (hself.append hlog (declaredBelow_expr_iff place opening e) ?_).congr ?_⟩
  · rintro position entry ⟨rfl, -⟩ position' entry' ⟨part, -, rest, rfl, -⟩
    exact List.nil_lt_cons _ _
  · intro found
    rw [Place.ofChild, Outline.ofChild_expr, Outline.ofExpr_eq, visit, ← e.node.map_snd_parts,
      List.map_map]
    rfl

/-! ## Statements -/

/-- Only a bare call without arguments, receiver and block changes the visibility. -/
theorem visibilityChange?_eq_some {node : Node} {visibility : Visibility}
    (h : visibilityChange? node = some visibility) :
    ∃ name args safe, node = .call none name args none safe ∧ args.isEmpty = true ∧
      Visibility.ofMethodName? name.node = some visibility := by
  unfold visibilityChange? at h
  split at h
  next name args safe =>
    split at h
    next hempty => exact ⟨name, args, safe, rfl, hempty, h⟩
    next => cases h
  next => cases h

/-- No word is both a visibility and a declaration. -/
theorem ofMethodName?_eq_none_of_visibility {name : String} {visibility : Visibility}
    (h : Visibility.ofMethodName? name = some visibility) :
    DeclarationKind.ofMethodName? name = none := by
  unfold Visibility.ofMethodName? at h
  split at h
  all_goals first | rfl | cases h

/-- A bare visibility statement has no parts and declares nothing. -/
theorem not_declaredBelow_of_visibilityChange? {statement : Expr} {visibility : Visibility}
    (h : visibilityChange? statement.node = some visibility) (place : Place) (opening : Opening)
    (position : Position) (entry : Entry) :
    ¬DeclaredBelow place opening (.expr statement) position entry := by
  obtain ⟨name, args, safe, hnode, hempty, hname⟩ := visibilityChange?_eq_some h
  obtain ⟨hpositional, hblockArg⟩ : args.positional = [] ∧ args.blockArg = none := by
    simpa [Arguments.isEmpty] using hempty
  have hparts : statement.node.parts = [] := by
    rw [hnode]
    simp [Node.parts, exprPart, exprParts, indexed, hpositional, hblockArg]
  have hentry : place.entryFor? statement = none := by
    rw [Place.entryFor?, hnode, declarationOf?, ofMethodName?_eq_none_of_visibility hname]
    rfl
  rw [declaredBelow_expr_iff, hparts, hentry]
  simp

/-- What is declared inside the statements of a body from an index on. -/
def DeclaredFrom (place : Place) (b : Body) (start : Nat) (position : Position) (entry : Entry) :
    Prop :=
  ∃ index statement rest, start ≤ index ∧ b.statements[index]? = some statement ∧
    position = .statement index :: rest ∧
    DeclaredBelow (place.behind (b.statements.take index)) .inner (.expr statement) rest entry

/-- What the statements from one on declare is what this statement declares, and what those behind
it do. -/
theorem declaredFrom_iff {place : Place} {b : Body} {start : Nat} {statement : Expr}
    (hget : b.statements[start]? = some statement) {position : Position} {entry : Entry} :
    DeclaredFrom place b start position entry ↔
      (∃ rest, position = .statement start :: rest ∧
        DeclaredBelow (place.behind (b.statements.take start)) .inner (.expr statement) rest
          entry) ∨
      DeclaredFrom place b (start + 1) position entry := by
  constructor
  · rintro ⟨index, other, rest, hle, hother, rfl, hdeclared⟩
    rcases Nat.eq_or_lt_of_le hle with rfl | hlt
    · rw [hget] at hother
      cases hother
      exact .inl ⟨rest, rfl, hdeclared⟩
    · exact .inr ⟨index, other, rest, hlt, hother, rfl, hdeclared⟩
  · rintro (⟨rest, rfl, hdeclared⟩ | ⟨index, other, rest, hlt, hother, rfl, hdeclared⟩)
    · exact ⟨start, statement, rest, Nat.le_refl _, hget, rfl, hdeclared⟩
    · exact ⟨index, other, rest, Nat.le_of_lt hlt, hother, rfl, hdeclared⟩

theorem visibility?_ofExpr (e : Expr) :
    (Outline.ofExpr e).visibility? = visibilityChange? e.node := by
  rw [Outline.ofExpr_eq]
  rfl

/-- The visit of the statements of a body behind the first ones. -/
theorem exists_isLog_statements (place : Place) (b : Body) {before statements : List Expr}
    (hstatements : b.statements = before ++ statements)
    (h : ∀ statement ∈ statements, HasLogs (.expr statement)) :
    ∃ log, IsLog (visitStatements (place.behind before) (statements.map Outline.ofExpr))
      (DeclaredFrom place b before.length) log := by
  induction statements generalizing before with
  | nil =>
    refine ⟨[], .nil (fun found ↦ (by rw [List.map_nil, visitStatements])) ?_⟩
    rintro position entry ⟨index, statement, rest, hle, hget, -⟩
    rw [hstatements, List.append_nil, List.getElem?_eq_none hle] at hget
    cases hget
  | cons statement statements ih =>
    have hget : b.statements[before.length]? = some statement := by
      rw [hstatements, List.getElem?_append_right (Nat.le_refl _), Nat.sub_self,
        List.getElem?_cons_zero]
    have htake : b.statements.take before.length = before := by
      rw [hstatements, List.take_left]
    have hsplit : b.statements = (before ++ [statement]) ++ statements := by
      rw [hstatements, List.append_assoc, List.singleton_append]
    obtain ⟨log', hlog'⟩ := ih hsplit fun other hmem ↦ h other (List.mem_cons_of_mem _ hmem)
    rw [Place.behind_append_singleton, List.length_append, List.length_singleton] at hlog'
    cases hchange : visibilityChange? statement.node with
    | some visibility =>
      rw [hchange] at hlog'
      refine ⟨log', fun found ↦ ?_, hlog'.ordered, fun position entry ↦ ?_⟩
      · rw [List.map_cons, visitStatements, visibility?_ofExpr, hchange]
        exact hlog'.filed found
      · rw [hlog'.exact, declaredFrom_iff hget, or_iff_right]
        rintro ⟨rest, -, hdeclared⟩
        exact not_declaredBelow_of_visibilityChange? hchange _ _ _ _ hdeclared
    | none =>
      rw [hchange] at hlog'
      obtain ⟨log, hlog⟩ := h statement List.mem_cons_self (place.behind before) .inner
      refine ⟨_, ((hlog.below (.statement before.length)).append hlog' ?_ ?_).congr ?_⟩
      · intro position entry
        rw [declaredFrom_iff hget, htake]
      · rintro position entry ⟨rest, rfl, -⟩ position' entry' ⟨index, _, rest', hlt, -, rfl, -⟩
        refine List.cons_lt_cons_iff.2 (.inl (List.cons_lt_cons_iff.2 (.inl ?_)))
        exact hlt
      · intro found
        rw [List.map_cons, visitStatements, visibility?_ofExpr, hchange]
        rfl

/-- The visit of a body files what is inside its statements. -/
theorem hasLogs_body (b : Body) (h : ∀ statement ∈ b.statements, HasLogs (.expr statement)) :
    HasLogs (.body b) := by
  intro place opening
  obtain ⟨log, hlog⟩ := exists_isLog_statements (place.opened opening) b
    (List.nil_append b.statements).symm h
  refine ⟨log, fun found ↦ ?_, hlog.ordered, fun position entry ↦ ?_⟩
  · rw [Place.ofChild, Outline.ofChild_body, Outline.ofBody_eq, visit]
    exact hlog.filed found
  · rw [hlog.exact]
    constructor
    · rintro ⟨index, statement, rest, -, hget, rfl, enclosures, target, hleads, hentry⟩
      exact ⟨_, target, .statement hget hleads, hentry⟩
    · rintro ⟨enclosures, target, hleads, hentry⟩
      cases hleads with
      | statement hget hleads =>
        exact ⟨_, _, _, Nat.zero_le _, hget, rfl, _, target, hleads, hentry⟩

/-- The walk files what is declared below a part, in the order of the positions. -/
theorem hasLogs (child : Child) : HasLogs child :=
  Child.induction hasLogs_expr hasLogs_body child

theorem ofMethodName?_eq_some_iff {name : String} {kind : DeclarationKind} :
    DeclarationKind.ofMethodName? name = some kind ↔ name = kind.methodName := by
  constructor
  · intro h
    unfold DeclarationKind.ofMethodName? at h
    split at h
    all_goals cases h
    all_goals rfl
  · rintro rfl
    cases kind <;> rfl

/-- The walk files a call for an expression exactly if it is a call without a receiver whose name
is that of a declaration. -/
theorem entryFor?_eq_some_iff {place : Place} {e : Expr} {path : Namespace} {call : MethodCall} :
    place.entryFor? e = some (path, call) ↔
      ∃ name block safe, e = ⟨.call none name call.args block safe, call.span⟩ ∧
        name.node = call.kind.methodName ∧ path = place.path ∧
        call.isPrivate = decide (place.visibility = .private_) := by
  obtain ⟨node, span⟩ := e
  obtain ⟨kind, args, isPrivate, span'⟩ := call
  constructor
  · intro h
    obtain ⟨⟨kind', args'⟩, hdeclaration, heq⟩ := Option.map_eq_some_iff.1 h
    cases heq
    unfold declarationOf? at hdeclaration
    split at hdeclaration
    next hnode =>
      obtain ⟨kind', hkind, heq⟩ := Option.map_eq_some_iff.1 hdeclaration
      cases heq
      dsimp only at hnode
      subst hnode
      exact ⟨_, _, _, rfl, ofMethodName?_eq_some_iff.1 hkind, rfl, rfl⟩
    next => cases hdeclaration
  · rintro ⟨name, block, safe, heq, hname, rfl, rfl⟩
    cases heq
    simp [Place.entryFor?, declarationOf?, ofMethodName?_eq_some_iff.2 hname]

/-- A declaration of a source is one that is declared below its top. -/
theorem declares_iff {file : SourceFile} {position : Position} {path : Namespace}
    {call : MethodCall} :
    file.Declares position path call ↔
      DeclaredBelow .top .file (.body file.body) position (path, call) := by
  have hprivate : ∀ enclosures : List Enclosure,
      (call.isPrivate = true ↔ visibilityWithin? enclosures.reverse = some .private_) ↔
        call.isPrivate =
          decide ((enclosures.foldl Place.into .top).visibility = .private_) := by
    intro enclosures
    rw [Place.visibility_foldl_into]
    cases visibilityWithin? enclosures.reverse with
    | none => simp
    | some visibility => cases call.isPrivate <;> cases visibility <;> decide
  unfold SourceFile.Declares DeclaredBelow
  constructor
  · rintro ⟨enclosures, name, block, safe, hleads, hname, hpath, hvisibility⟩
    refine ⟨enclosures, _, hleads, entryFor?_eq_some_iff.2 ⟨name, block, safe, rfl, hname, ?_, ?_⟩⟩
    · rw [hpath, Place.path_foldl_into]
      rfl
    · exact (hprivate enclosures).1 hvisibility
  · rintro ⟨enclosures, target, hleads, hentry⟩
    obtain ⟨name, block, safe, rfl, hname, hpath, hvisibility⟩ := entryFor?_eq_some_iff.1 hentry
    refine ⟨enclosures, name, block, safe, hleads, hname, ?_, (hprivate enclosures).2 hvisibility⟩
    rw [hpath, Place.path_foldl_into]
    rfl

end DeclaredMethods
