import DeclaredMethods.Proofs.Collection.Exactness
import DeclaredMethods.Proofs.Order.Expressions
import DeclaredMethods.Proofs.Places.Soundness

/-!
# The order of declaration calls

The walk over a source lists declaration calls in the order of the tree. Where nothing is reported,
this is the order in which the calls are written, but for calls in two children of an expression
that are exchanged: those are listed in the opposite order. The same holds of the first calls of two
namespaces.
-/

namespace DeclaredMethods

open Source

namespace Source

open Parse

/-- What is known of the tree of a source without errors. -/
structure SourceFile.WellWritten (source : String) (file : SourceFile) : Prop where
  sound : (Piece.body file.body).Everywhere (Piece.Sound source)
  wellNested : (Piece.body file.body).WellNested source
  written : (Child.body file.body).Throughout Expr.Written

/-- A file that is read without a report is written in order. -/
theorem wellWritten_parse {source : String} (h : (parse source).errors = []) :
    (parse source).file.WellWritten source := by
  have hplaced := wellPlaced_parse source
  refine ⟨hplaced.sound, hplaced.wellNested h, ?_⟩
  obtain ⟨file, cursor, hrun, -, -⟩ := exists_run onward source
  rw [parse_of_run hrun] at h ⊢
  have hgives : Gives (.start source) (sourceFile fullGrammar) fun file cursor ↦
      Row source (.start source) cursor [.body file.body] :=
    (lines_body (lines_grammar source maxDepth) .eof _ (Cursor.stands_start source)
      (Cursor.DrawsFrom.start source)).bind fun body cursor hrow ↦ .get_bind (.pure hrow)
  exact ((hgives.of_run hrun).lined h).written _ List.mem_cons_self

namespace Piece.WellNested

variable {source : String} {root whole : Piece}

/-- A piece covers its parts, but for empty bodies. -/
theorem covers_of_occursIn (h : root.WellNested source) (hwhole : whole.OccursIn root) :
    ∀ part ∈ whole.parts, whole.span.Encloses part.span ∨ ∃ place, part = .emptyAt place := by
  rcases hwhole.eq_or_part with rfl | ⟨outer, houter, hinner⟩
  · exact fun part hpart ↦ .inl (h.covers part hpart)
  · rcases (h.everywhere outer houter).parts whole hinner with
      hcovers | ⟨value, -, rfl, -, hdangling⟩
    · exact fun part hpart ↦ .inl (hcovers part hpart)
    · exact fun part hpart ↦ (hdangling part hpart).imp_right fun ⟨place, hplace, _⟩ ↦
        ⟨place, hplace⟩

/-- A piece covers every expression inside it: there is none in an empty body. -/
theorem encloses {value : Expr} (h : root.WellNested source) (hwhole : whole.OccursIn root)
    (hvalue : (Piece.expr value).OccursIn whole) : whole.span.Encloses value.span := by
  induction hvalue with
  | self => exact .refl _
  | part hpart hinner ih =>
    rcases h.covers_of_occursIn hwhole _ hpart with hencloses | ⟨place, rfl⟩
    · obtain ⟨hstart, hstop⟩ := ih ((Piece.occursIn_of_mem_parts hpart).trans hwhole)
      exact ⟨Nat.le_trans hencloses.1 hstart, Nat.le_trans hstop hencloses.2⟩
    · cases hinner with
      | part hmem _ => cases hmem

end Piece.WellNested

/-- Of two parts the one in the earlier field is listed first. -/
theorem Ranked.pair_sublist {parts : List (Slot × Child)} {first second : Slot × Child}
    (h : Ranked parts) (hfirst : first ∈ parts) (hsecond : second ∈ parts)
    (hlt : first.1.rank < second.1.rank) : [first, second].Sublist parts := by
  induction parts with
  | nil => cases hfirst
  | cons part parts ih =>
    obtain ⟨hpart, hparts⟩ := List.pairwise_cons.1 h
    rcases List.mem_cons.1 hsecond with rfl | hbehind
    · rcases List.mem_cons.1 hfirst with rfl | hfirst
      · exact absurd hlt (List.lt_irrefl _)
      · exact absurd (List.lt_trans hlt (hpart first hfirst)) (List.lt_irrefl _)
    · rcases List.mem_cons.1 hfirst with rfl | hfirst
      · exact (List.singleton_sublist.2 hbehind).cons_cons _
      · exact (ih hparts hfirst hbehind).cons _

/-- A slot holds one child at most. -/
theorem Ranked.eq_of_rank_eq {parts : List (Slot × Child)} {first second : Slot × Child}
    (h : Ranked parts) (hfirst : first ∈ parts) (hsecond : second ∈ parts)
    (heq : first.1.rank = second.1.rank) : first = second := by
  have hnodup : (parts.map fun part ↦ part.1.rank).Nodup := by
    refine List.pairwise_map.2 (h.imp fun {part part'} hlt heq ↦ ?_)
    rw [heq] at hlt
    exact List.lt_irrefl _ hlt
  exact List.inj_on_of_nodup_map hnodup hfirst hsecond heq

theorem Node.HasPart.mem_children {node : Node} {slot : Slot} {child : Child}
    (h : node.HasPart slot child) : child ∈ node.children := by
  rw [← Node.map_snd_parts]
  exact List.mem_map_of_mem h.mem_parts

/-- Parts are listed in the order of their slots. -/
theorem Node.HasPart.pair_sublist {node : Node} {slot slot' : Slot} {first second : Child}
    (hfirst : node.HasPart slot first) (hsecond : node.HasPart slot' second)
    (hlt : slot.rank < slot'.rank) : [first, second].Sublist node.children := by
  have hsublist := node.ranked_parts.pair_sublist hfirst.mem_parts hsecond.mem_parts hlt
  rw [← Node.map_snd_parts]
  exact hsublist.map Prod.snd

/-! ## Ways to calls -/

theorem Child.span_piece (child : Child) : child.piece.span = child.span := by
  cases child <;> rfl

/-- What stands together in a child is part of the child. -/
theorem Child.occursIn_of_mem_opened {child part : Child} (h : part ∈ child.opened) :
    part.piece.OccursIn child.piece := by
  cases child with
  | body value =>
    rw [List.mem_singleton.1 h]
    exact .self
  | expr value =>
    rcases Child.mem_opened h with rfl | hpart
    · exact .self
    · exact Node.occursIn_of_mem_children hpart

theorem exists_of_isOwnCall {node : Node} (h : node.isOwnCall = true) :
    ∃ name args block safe, node = .call none name args block safe := by
  unfold Node.isOwnCall at h
  split at h
  · exact ⟨_, _, _, _, rfl⟩
  · cases h

section Leads

variable {opening opening' : Opening} {child : Child} {enclosures enclosures' : List Enclosure}
  {position position' : Position} {first second : Expr}

/-- No call stands inside a literal. -/
theorem Leads.isLiteral_eq_false (h : Leads opening child enclosures position first)
    (hcall : first.node.isOwnCall = true) : child.isLiteral = false := by
  unfold Child.isLiteral
  split
  · cases h with
    | here => cases hcall
    | part hpart _ => cases hpart
  · rfl

/-- A call inside a child stands in one of the parts that stand together in it. -/
theorem Leads.exists_opened (h : Leads opening child enclosures position first)
    (hcall : first.node.isOwnCall = true) :
    ∃ part ∈ child.opened, part.isLiteral = false ∧ (Piece.expr first).OccursIn part.piece := by
  unfold Child.opened
  split
  · cases h with
    | here => cases hcall
    | part hpart hleads =>
      exact ⟨_, hpart.mem_children, hleads.isLiteral_eq_false hcall, hleads.occursIn⟩
  · exact ⟨child, List.mem_cons_self, h.isLiteral_eq_false hcall, h.occursIn⟩

end Leads

/-- Two places of a source, the first one listed in front of the second one, are exchanged if they
stand in two exchanged children of an expression: the second child ends in front of the part of the
first child that the first place stands in. -/
def SourceFile.Exchanges (file : SourceFile) (first second : Span) : Prop :=
  ∃ (value : Expr) (former latter part : Child),
    (Piece.expr value).OccursIn (.body file.body) ∧ value.node.Exchanges former latter ∧
    part ∈ former.opened ∧ latter.span.stop ≤ part.span.start ∧
    part.span.Encloses first ∧ latter.span.Encloses second

/-- Two places that are listed one after the other are written in the opposite order exactly if they
are exchanged. -/
def SourceFile.Lists (file : SourceFile) (first second : Span) : Prop :=
  (¬file.Exchanges first second → first.start < second.start) ∧
    (file.Exchanges first second → second.start < first.start)

namespace SourceFile.WellWritten

variable {source : String} {file : SourceFile} {child : Child} {opening opening' : Opening}
  {enclosures enclosures' : List Enclosure} {position position' : Position}
  {value first second : Expr}

/-- A call without a receiver has the width of its name at least. -/
theorem start_lt_stop (h : file.WellWritten source)
    (hvalue : (Piece.expr value).OccursIn (.body file.body)) (hwritten : value.Written)
    (hcall : value.node.isOwnCall = true) : value.span.start < value.span.stop := by
  obtain ⟨name, args, block, safe, hnode⟩ := exists_of_isOwnCall hcall
  have hname : .word name.span ∈ (Piece.expr value).parts := by
    rw [Piece.parts, hnode]
    simp [Node.pieces]
  rcases h.wellNested.covers_of_occursIn hvalue _ hname with hencloses | ⟨place, heq⟩
  · exact Nat.lt_of_lt_of_le (hwritten.named hnode).1 hencloses.2
  · cases heq

/-- A call without a receiver starts in front of everything inside its children. -/
theorem start_lt_of_mem_children (h : file.WellWritten source)
    (hvalue : (Piece.expr value).OccursIn (.body file.body)) (hwritten : value.Written)
    (hcall : value.node.isOwnCall = true) (hchild : child ∈ value.node.children)
    (hsecond : (Piece.expr second).OccursIn child.piece) :
    value.span.start < second.span.start := by
  obtain ⟨name, args, block, safe, hnode⟩ := exists_of_isOwnCall hcall
  obtain ⟨hwidth, hbehind⟩ := hwritten.named hnode
  have hencloses := h.wellNested.encloses ((Node.occursIn_of_mem_children hchild).trans hvalue)
    hsecond
  rw [Child.span_piece] at hencloses
  calc
    value.span.start < name.span.stop := hwidth
    _ ≤ child.span.start := hbehind child hchild
    _ ≤ second.span.start := hencloses.1

/-- Calls in two children of an expression. -/
theorem start_lt_or_exchanges_of_children {former latter : Child} (h : file.WellWritten source)
    (hvalue : (Piece.expr value).OccursIn (.body file.body)) (hwritten : value.Written)
    (hchildren : [former, latter].Sublist value.node.children)
    (hfirst : Leads opening former enclosures position first)
    (hcall : first.node.isOwnCall = true) (hwidth : first.span.start < first.span.stop)
    (hsecond : (Piece.expr second).OccursIn latter.piece) :
    first.span.start < second.span.start ∨ file.Exchanges first.span second.span := by
  obtain ⟨part, hpart, hliteral, hinner⟩ := hfirst.exists_opened hcall
  have hformer := Node.occursIn_of_mem_children (hchildren.subset List.mem_cons_self)
  have hlatter := Node.occursIn_of_mem_children
    (hchildren.subset (List.mem_cons_of_mem _ List.mem_cons_self))
  have hencloses := h.wellNested.encloses
    (((Child.occursIn_of_mem_opened hpart).trans hformer).trans hvalue) hinner
  have hencloses' := h.wellNested.encloses (hlatter.trans hvalue) hsecond
  rw [Child.span_piece] at hencloses hencloses'
  rcases List.pairwise_iff_forall_sublist.1 hwritten.ordered hchildren part hpart with
    hfront | ⟨hexchanges, hstop⟩
  · refine .inl ?_
    calc
      first.span.start < first.span.stop := hwidth
      _ ≤ part.span.stop := hencloses.2
      _ ≤ latter.span.start := hfront.resolve_left (by simp [hliteral])
      _ ≤ second.span.start := hencloses'.1
  · exact .inr ⟨value, former, latter, part, hvalue, hexchanges, hpart, hstop, hencloses,
      hencloses'⟩

theorem occursIn_of_statement {body : Body} {index : Nat}
    (hbody : (Piece.body body).OccursIn (.body file.body))
    (hget : body.statements[index]? = some value) :
    (Piece.expr value).OccursIn (.body file.body) :=
  (Piece.occursIn_of_mem_parts (List.mem_map_of_mem (List.mem_of_getElem? hget))).trans hbody

/-- Calls in two statements of a body. -/
theorem start_lt_of_statements {body : Body} {index index' : Nat} {former latter : Expr}
    (h : file.WellWritten source) (hbody : (Piece.body body).OccursIn (.body file.body))
    (hget : body.statements[index]? = some former) (hget' : body.statements[index']? = some latter)
    (hlt : index < index') (hfirst : (Piece.expr first).OccursIn (.expr former))
    (hwidth : first.span.start < first.span.stop)
    (hsecond : (Piece.expr second).OccursIn (.expr latter)) :
    first.span.start < second.span.start := by
  have hencloses := h.wellNested.encloses (occursIn_of_statement hbody hget) hfirst
  have hencloses' := h.wellNested.encloses (occursIn_of_statement hbody hget') hsecond
  obtain ⟨hindex, rfl⟩ := List.getElem?_eq_some_iff.1 hget
  obtain ⟨hindex', rfl⟩ := List.getElem?_eq_some_iff.1 hget'
  calc
    first.span.start < first.span.stop := hwidth
    _ ≤ body.statements[index].span.stop := hencloses.2
    _ ≤ body.statements[index'].span.start :=
      List.pairwise_iff_getElem.1 (h.sound _ hbody).ordered _ _ hindex hindex' hlt
    _ ≤ second.span.start := hencloses'.1

/-- Of two calls below a child, the one that the tree has first is written first, unless they are
exchanged. The induction follows the way to the first call down to the place where the way to the
second one parts from it. -/
theorem start_lt_or_exchanges (h : file.WellWritten source)
    (hchild : child.piece.OccursIn (.body file.body)) (hwritten : child.Throughout Expr.Written)
    (hfirst : Leads opening child enclosures position first)
    (hsecond : Leads opening' child enclosures' position' second)
    (hbefore : Position.Before position position') (hcall : first.node.isOwnCall = true) :
    first.span.start < second.span.start ∨ file.Exchanges first.span second.span := by
  induction hfirst generalizing opening' enclosures' position' with
  | here =>
    cases hsecond with
    | here => exact absurd hbefore (List.lt_irrefl _)
    | part hpart hleads =>
      exact .inl (h.start_lt_of_mem_children hchild hwritten.self hcall hpart.mem_children
        hleads.occursIn)
  | @part opening value first slot former enclosures position hpart hleads ih =>
    have hformer := (Node.occursIn_of_mem_children hpart.mem_children).trans hchild
    cases hsecond with
    | here => exact absurd hbefore (List.not_lt_nil _)
    | part hpart' hleads' =>
      rcases List.cons_lt_cons_iff.1 hbefore with hlt | ⟨heq, hrest⟩
      · have hwidth := h.start_lt_stop (hleads.occursIn.trans hformer)
          (hwritten.part hpart hleads) hcall
        exact h.start_lt_or_exchanges_of_children hchild hwritten.self
          (hpart.pair_sublist hpart' hlt) hleads hcall hwidth hleads'.occursIn
      · cases value.node.ranked_parts.eq_of_rank_eq hpart.mem_parts hpart'.mem_parts heq
        exact ih hformer (hwritten.part hpart) hleads' hrest hcall
  | statement hget hleads ih =>
    have hstatement := occursIn_of_statement hchild hget
    cases hsecond with
    | statement hget' hleads' =>
      rcases List.cons_lt_cons_iff.1 hbefore with hlt | ⟨heq, hrest⟩
      · have hlt := (List.cons_lt_cons_iff.1 hlt).resolve_right fun h ↦ List.lt_irrefl _ h.2
        have hwidth := h.start_lt_stop (hleads.occursIn.trans hstatement)
          (hwritten.statement hget hleads) hcall
        exact .inl (h.start_lt_of_statements hchild hget hget' hlt hleads.occursIn hwidth
          hleads'.occursIn)
      · cases heq
        cases hget.symm.trans hget'
        exact ih hstatement (hwritten.statement hget) hleads' hrest hcall

/-- Exchanged calls are written in the opposite order. -/
theorem stop_le_of_exchanges {first second : Span} (h : file.Exchanges first second) :
    second.stop ≤ first.start := by
  obtain ⟨value, former, latter, part, -, -, -, hstop, hfirst, hsecond⟩ := h
  calc
    second.stop ≤ latter.span.stop := hsecond.2
    _ ≤ part.span.start := hstop
    _ ≤ first.start := hfirst.1

/-- Of two calls on the object itself, the one that comes first starts first, unless the ways to
them part where children are exchanged. -/
theorem lists (h : file.WellWritten source)
    (hfirst : Leads opening (.body file.body) enclosures position first)
    (hsecond : Leads opening' (.body file.body) enclosures' position' second)
    (hbefore : Position.Before position position') (hcall : first.node.isOwnCall = true)
    (hcall' : second.node.isOwnCall = true) : file.Lists first.span second.span := by
  refine ⟨fun hnot ↦ ?_, fun hexchanges ↦ ?_⟩
  · exact (h.start_lt_or_exchanges .self h.written hfirst hsecond hbefore hcall).resolve_right hnot
  · have hwidth := h.start_lt_stop hsecond.occursIn (h.written hsecond) hcall'
    exact Nat.lt_of_lt_of_le hwidth (stop_le_of_exchanges hexchanges)

end SourceFile.WellWritten

end Source

/-! ## Calls by namespace -/

section Grouped

variable {log : List Entry} {related : MethodCall → MethodCall → Prop}

/-- The first call of a log starts the first group. -/
theorem grouped_cons (entry : Entry) (log : List Entry) :
    grouped (entry :: log) =
      (entry.1, entry.2 :: (log.filter fun other ↦ other.1 = entry.1).map Prod.snd) ::
        grouped (log.filter fun other ↦ other.1 ≠ entry.1) := by
  have hkeys : (log.map Prod.fst).filter (fun path ↦ !path == entry.1) =
      (log.filter fun other ↦ other.1 ≠ entry.1).map Prod.fst := by
    rw [List.filter_map]
    congr 1
    refine List.filter_congr fun other _ ↦ ?_
    by_cases heq : other.1 = entry.1
    · simp [heq]
    · simp [heq]
  rw [grouped, List.map_cons, List.eraseDups_cons, hkeys, List.map_cons, grouped]
  congr 1
  · simp
  · refine List.map_congr_left fun path hpath ↦ ?_
    obtain ⟨other, hother, rfl⟩ := List.mem_map.1 (List.mem_eraseDups.1 hpath)
    have hne : other.1 ≠ entry.1 := of_decide_eq_true (List.mem_filter.1 hother).2
    rw [List.filter_cons_of_neg (by simpa using hne.symm), List.filter_filter]
    congr 2
    refine List.filter_congr fun third _ ↦ ?_
    by_cases heq : third.1 = other.1
    · simp [heq, hne]
    · simp [heq]

/-- Grouping makes up no calls. -/
theorem exists_of_mem_grouped {group : Namespace × List MethodCall} (h : group ∈ grouped log)
    {call : MethodCall} (hcall : call ∈ group.2) : ∃ entry ∈ log, entry.2 = call := by
  obtain ⟨path, -, rfl⟩ := List.mem_map.1 h
  obtain ⟨entry, hentry, rfl⟩ := List.mem_map.1 hcall
  exact ⟨entry, List.mem_of_mem_filter hentry, rfl⟩

/-- Every group starts with a call of the log. -/
theorem exists_head_of_mem_grouped {group : Namespace × List MethodCall}
    (h : group ∈ grouped log) : ∃ entry ∈ log, group.2.head? = some entry.2 := by
  obtain ⟨path, hpath, rfl⟩ := List.mem_map.1 h
  obtain ⟨entry, hentry, rfl⟩ := List.mem_map.1 (List.mem_eraseDups.1 hpath)
  have hmem : entry ∈ log.filter fun other ↦ other.1 = entry.1 :=
    List.mem_filter.2 ⟨hentry, decide_eq_true rfl⟩
  obtain ⟨first, hfirst⟩ := Option.isSome_iff_exists.1
    (List.isSome_head?.2 (List.ne_nil_of_mem hmem))
  refine ⟨first, List.mem_of_mem_filter (List.mem_of_head? hfirst), ?_⟩
  rw [List.head?_map, hfirst]
  rfl

/-- Grouping by namespace keeps the order inside each group. -/
theorem pairwise_of_mem_grouped (h : log.Pairwise fun first second ↦ related first.2 second.2)
    {group : Namespace × List MethodCall} (hgroup : group ∈ grouped log) :
    group.2.Pairwise related := by
  obtain ⟨path, -, rfl⟩ := List.mem_map.1 hgroup
  exact List.pairwise_map.2 (h.sublist List.filter_sublist)

/-- Groups are in the order of their first calls. -/
theorem pairwise_grouped {log : List Entry}
    (h : log.Pairwise fun first second ↦ related first.2 second.2) :
    (grouped log).Pairwise fun former latter ↦
      ∃ first ∈ former.2.head?, ∃ second ∈ latter.2.head?, related first second := by
  match log, h with
  | [], _ => exact .nil
  | entry :: log, h =>
    obtain ⟨hentry, hlog⟩ := List.pairwise_cons.1 h
    rw [grouped_cons, List.pairwise_cons]
    refine ⟨fun group hgroup ↦ ?_, pairwise_grouped (hlog.sublist List.filter_sublist)⟩
    obtain ⟨other, hother, hhead⟩ := exists_head_of_mem_grouped hgroup
    exact ⟨entry.2, rfl, other.2, hhead, hentry other (List.mem_of_mem_filter hother)⟩
termination_by log.length
decreasing_by exact Nat.lt_succ_of_le (List.length_filter_le _ _)

end Grouped

/-- What is declared below a child stands where a call without a receiver does. -/
theorem DeclaredBelow.exists_call {place : Place} {opening : Opening} {child : Child}
    {position : Position} {entry : Entry} (h : DeclaredBelow place opening child position entry) :
    ∃ enclosures target, Leads opening child enclosures position target ∧
      target.node.isOwnCall = true ∧ target.span = entry.2.span := by
  obtain ⟨enclosures, target, hleads, hentry⟩ := h
  obtain ⟨name, block, safe, rfl, -⟩ := entryFor?_eq_some_iff.1 hentry
  exact ⟨enclosures, _, hleads, rfl, rfl⟩

/-- The calls of a source are filed from a log of calls of the tree that are in the order of the
source, but for those that are exchanged. -/
theorem exists_log_of_wellWritten {source : String} {file : SourceFile}
    (h : file.WellWritten source) :
    ∃ log : List Entry, (Declarations.collect file).calls.entries = grouped log ∧
      (∀ entry ∈ log, ∃ value : Expr, (Piece.expr value).OccursIn (.body file.body) ∧
        value.span = entry.2.span) ∧
      log.Pairwise fun first second ↦ file.Lists first.2.span second.2.span := by
  obtain ⟨log, hlog⟩ := hasLogs (.body file.body) .top .file
  refine ⟨log.map Prod.snd, ?_, List.forall_mem_map.2 fun item hitem ↦ ?_, List.pairwise_map.2 ?_⟩
  · rw [← entries_foldl_fileEntry]
    exact congrArg OrderedMap.entries (hlog.filed .empty)
  · obtain ⟨_, target, hleads, -, hspan⟩ := ((hlog.exact _ _).1 hitem).exists_call
    exact ⟨target, hleads.occursIn, hspan⟩
  · refine (List.pairwise_map.1 hlog.ordered).imp_of_mem fun {item item'} hitem hitem' hbefore ↦ ?_
    obtain ⟨_, first, hfirst, hcall, hspan⟩ := ((hlog.exact _ _).1 hitem).exists_call
    obtain ⟨_, second, hsecond, hcall', hspan'⟩ := ((hlog.exact _ _).1 hitem').exists_call
    rw [← hspan, ← hspan']
    exact h.lists hfirst hsecond hbefore hcall hcall'

/-- Where nothing is reported, the calls of a namespace are listed in the order in which they start
in the source, and the namespaces in the order in which their first calls start, but for calls that
are exchanged: those start in the opposite order. The source is one whose offsets fit into 32 bits,
so that this is also the order of what 32 bits hold of them. -/
theorem Declarations.collect_in_written_order (source : String)
    (hsize : Text.byteLength source.toList < Span.capacity) (h : (parse source).errors = []) :
    (∀ entry ∈ (collect (parse source).file).calls.entries,
      (∀ call ∈ entry.2, call.span.narrow = call.span) ∧
      entry.2.Pairwise fun first second ↦
        (parse source).file.Lists first.span second.span) ∧
      (collect (parse source).file).calls.entries.Pairwise fun former latter ↦
        ∃ first ∈ former.2.head?, ∃ second ∈ latter.2.head?,
          (parse source).file.Lists first.span second.span := by
  have hwritten := wellWritten_parse h
  obtain ⟨log, hentries, hoccurs, hlog⟩ := exists_log_of_wellWritten hwritten
  rw [hentries]
  refine ⟨fun group hgroup ↦ ⟨fun call hcall ↦ ?_, pairwise_of_mem_grouped hlog hgroup⟩,
    pairwise_grouped hlog⟩
  obtain ⟨entry, hentry, rfl⟩ := exists_of_mem_grouped hgroup hcall
  obtain ⟨value, hvalue, hspan⟩ := hoccurs entry hentry
  have hsound := hwritten.sound _ hvalue
  rw [← hspan]
  exact Span.narrow_eq_self hsound.start_le hsound.stop_le hsize

/-- A modifier exchanges the call in front of it with the call behind it, and with no other call. -/
theorem Declarations.collect_in_written_order_of_modifier :
    ∃ source first second third, Text.byteLength source.toList < Span.capacity ∧
      (parse source).errors = [] ∧
      (collect (parse source).file).calls.entries.map Prod.snd = [[first, second, third]] ∧
      (parse source).file.Exchanges first.span second.span ∧
      ¬(parse source).file.Exchanges second.span third.span := by
  let source :=
    "class Foo\n  delegate :a, to: :b if delegate(:c, to: :d)\n  delegate :e, to: :f\nend\n"
  have herrors : (parse source).errors.isEmpty = true := by decide +kernel
  have hstarts : ((collect (parse source).file).calls.entries.map Prod.snd).map
      (·.map (·.span.start)) = [[35, 12, 58]] := by decide +kernel
  have herrors := List.isEmpty_iff.1 herrors
  obtain ⟨calls, hcalls, hstarts⟩ := List.map_eq_singleton_iff.1 hstarts
  obtain ⟨first, rest, rfl, hfirst, hstarts⟩ := List.map_eq_cons_iff.1 hstarts
  obtain ⟨second, rest, rfl, hsecond, hstarts⟩ := List.map_eq_cons_iff.1 hstarts
  obtain ⟨third, rfl, hthird⟩ := List.map_eq_singleton_iff.1 hstarts
  obtain ⟨entry, hentry, hcalls'⟩ := List.map_eq_singleton_iff.1 hcalls
  have hsize : Text.byteLength source.toList < Span.capacity := by decide
  have hlists := ((collect_in_written_order source hsize herrors).1 entry (by simp [hentry])).2
  rw [hcalls'] at hlists
  obtain ⟨hbehind, hlists⟩ := List.pairwise_cons.1 hlists
  refine ⟨source, first, second, third, hsize, herrors, hcalls, ?_, fun hexchanges ↦ ?_⟩
  · by_contra hnot
    have hlt := (hbehind second List.mem_cons_self).1 hnot
    omega
  · have hlt := ((List.pairwise_cons.1 hlists).1 third List.mem_cons_self).2 hexchanges
    omega

/-- A call in the condition of a modifier is listed first although it starts behind the call that
the modifier is about. -/
theorem Declarations.collect_condition_first :
    ∃ source, (parse source).errors = [] ∧
      ∃ entry ∈ (collect (parse source).file).calls.entries,
        ¬entry.2.Pairwise fun first second ↦ first.span.start < second.span.start := by
  let source := "class Foo\n  delegate :a, to: :b if delegate(:c, to: :d)\nend\n"
  have herrors : (parse source).errors.isEmpty = true := by decide +kernel
  have hstarts : ((collect (parse source).file).calls.entries.map fun entry ↦
      entry.2.map (·.span.start)) = [[35, 12]] := by decide +kernel
  obtain ⟨entry, hentry, hstarts⟩ := List.map_eq_singleton_iff.1 hstarts
  refine ⟨source, List.isEmpty_iff.1 herrors, entry, by simp [hentry], fun hpairwise ↦ ?_⟩
  have hsorted : (entry.2.map (·.span.start)).Pairwise (· < ·) := List.pairwise_map.2 hpairwise
  rw [hstarts] at hsorted
  exact absurd hsorted (by decide)

end DeclaredMethods
