import DeclaredMethods.Proofs.Order.Statements
import DeclaredMethods.Proofs.Building.Operands
import DeclaredMethods.Proofs.Lexing.Partition
import DeclaredMethods.Proofs.Parsing.Bodies
import DeclaredMethods.Proofs.Places.Arguments

/-!
# The order of arguments, parameters and blocks

Arguments are read one after another, but they are not listed like that: the pairs become one hash
where the first of them stands, and the block argument comes last. Two arguments that are listed in
the opposite order are therefore a pair and an argument behind the hash, or any argument and the
block argument.

The parameters and the body of a block are read in the order in which they are listed.
-/

namespace DeclaredMethods.Source

open Cursor (Moves)
open Parse

variable {source : String} {g : Grammar} {c₀ c : Cursor} (hg : g.Lines source)

section Pairs

/-- Every token but the end of the source has a width. -/
theorem Cursor.DrawsFrom.front_lt_stop (h : c.DrawsFrom source) (hc : c.atEnd = false) :
    c.front < c.current.span.stop := by
  obtain ⟨item, hitem, htoken⟩ := List.mem_filterMap.1 (h.current_mem hc)
  cases item with
  | error error => cases htoken
  | ok token =>
    have heq : token = c.current := Option.some.inj htoken
    obtain ⟨inner, hscan, hwide⟩ := (cut_scan source).eq_append
    rw [hscan] at hitem
    rcases List.mem_append.1 hitem with hitem | hitem
    · rw [Cursor.front, ← heq]
      exact (hwide _ hitem).2
    · have hend : c.current.kind.isEof = true := by
        rw [← heq, Except.ok.inj (List.mem_singleton.1 hitem)]
        rfl
      exact absurd (hc.symm.trans hend) Bool.false_ne_true

/-- A label lies in what was read, and it has a width. -/
theorem gives_rowLabel (hc : c.Stands source) (hdraws : c.DrawsFrom source) :
    Gives c label? fun label c' ↦ Row source c c' [] ∧ ∀ found ∈ label,
      c.front ≤ found.span.start ∧ found.span.start < found.span.stop ∧
        found.span.stop ≤ c'.front := by
  have hrow := Row.refl hc hdraws
  refine .get_bind ?_
  split
  · rename_i name hname
    refine .advance_bind (.advance_bind (.pure ⟨hrow.advance.advance, ?_⟩))
    intro found hfound
    cases hfound
    have hwidth := hdraws.front_lt_stop (atEnd_of_labelName hname).1
    have hnext := Nat.le_trans hc.stop_le_next hc.next_le
    exact ⟨Nat.le_refl _, Nat.lt_of_lt_of_le hwidth hnext, hc.advance.stop_le_next⟩
  · exact .pure ⟨hrow, fun _ h ↦ absurd h (Option.not_mem_none _)⟩

/-- A label as the key of a pair. -/
theorem lined_key {lower upper : Nat} {label : Spanned String} (hlower : lower ≤ label.span.start)
    (hupper : label.span.stop ≤ upper) :
    Lined lower [.expr ⟨.literal (.symbol label.node), label.span⟩] upper :=
  Lined.nil.expr (.refl _) rfl hlower hupper

/-- A label without a value stands for its value as well. -/
theorem lined_shorthand {lower upper : Nat} {label : Spanned String} {value : Expr}
    (hlower : lower ≤ label.span.start) (hwidth : label.span.start < label.span.stop)
    (hupper : label.span.stop ≤ upper)
    (hvalue : value = ⟨.ident label.node, label.span⟩ ∨
      value = ⟨.call none label .none none false, label.span⟩) :
    Lined lower [.expr ⟨.literal (.symbol label.node), label.span⟩, .expr value] upper := by
  have hkey := lined_key hlower hupper
  have hwritten : Lined lower [.expr value] upper := by
    rcases hvalue with rfl | rfl
    · exact Lined.nil.expr (.refl _) rfl hlower hupper
    · refine .of_written (.of_children_eq_nil rfl fun heq ↦ ?_) hlower hupper
        (List.forall_mem_nil _)
      cases heq
      exact hwidth
  refine ⟨List.forall_mem_cons.2 ⟨hkey.within _ List.mem_cons_self, hwritten.within⟩, ?_,
    List.forall_mem_cons.2 ⟨hkey.written _ List.mem_cons_self, hwritten.written⟩⟩
  refine List.pairwise_pair.2 fun part hpart ↦ .inl ?_
  rw [List.mem_singleton.1 hpart]
  rfl

/-- The value of a label without one is a local variable or a call, at the place of the label. -/
theorem gives_shorthand (label : Spanned String) :
    Gives c (shorthandValue label) fun value c' ↦ c' = c ∧
      (value = ⟨.ident label.node, label.span⟩ ∨
        value = ⟨.call none label .none none false, label.span⟩) := by
  refine .get_bind ?_
  split
  · exact .pure ⟨rfl, .inl rfl⟩
  · exact .pure ⟨rfl, .inr rfl⟩

include hg

/-- Keys are written in front of their values, and a label without a value is both. -/
theorem lines_hashEntry (closer : Option Punct) :
    Parse.Lines source ( hashEntry? g closer) fun entry ↦
      entry.toList.flatMap HashEntry.children := by
  intro c hc hdraws
  refine (Row.refl hc hdraws).eat (fun hstars ↦ ?_) ?_
  · exact hstars.read hg.expr fun value c' hrow ↦ .pure hrow
  · refine (gives_rowLabel hc hdraws).bind fun label c₁ hlabel ↦ ?_
    obtain ⟨hrow, hlabel⟩ := hlabel
    split
    · exact .pure hrow
    · rename_i label
      obtain ⟨hlower, hwidth, hupper⟩ := hlabel label rfl
      refine (Row.refl hrow.moves.stands hrow.draws).skipIf reads_skipNewlines fun c₂ hskip ↦
        .get_bind ?_
      have hupper := Nat.le_trans hupper hskip.moves.front_le
      have hmoves := hrow.moves.trans hskip.moves
      split
      · refine (gives_shorthand label).bind fun value c₃ hvalue ↦ ?_
        obtain ⟨rfl, hvalue⟩ := hvalue
        exact .pure ⟨hmoves, hskip.draws, fun _ ↦ lined_shorthand hlower hwidth hupper hvalue⟩
      · have hkey : Row source c c₂ [.expr ⟨.literal (.symbol label.node), label.span⟩] :=
          ⟨hmoves, hskip.draws, fun _ ↦ lined_key hlower hupper⟩
        exact hkey.read hg.expr fun value c₃ hrow ↦ .pure hrow

end Pairs

/-! ## Arguments -/

section Arguments

variable {lower middle upper : Nat} {given : GivenArguments}

/-- The pairs read so far, the first of them at `start` with `index` arguments in front of it. -/
structure PairsLined (lower : Nat) (positional : List Expr) (index start : Nat)
    (entries : List HashEntry) (upper : Nat) : Prop where
  lined : Lined lower (entries.flatMap HashEntry.children) upper
  index_le : index ≤ positional.length
  lower_le : lower ≤ start
  le_upper : start ≤ upper
  before : ∀ item ∈ positional.take index, ∀ part ∈ (Child.expr item).opened,
    part.span.stop ≤ start
  behind : ∀ item ∈ positional.drop index, ∀ part ∈ entries.flatMap HashEntry.children,
    part.InFront (.expr item) ∨ item.span.stop ≤ part.span.start

namespace GivenArguments

/-- What stands together in the arguments read so far, but for the block argument. -/
def opened (given : GivenArguments) : List Child :=
  given.positional.flatMap (fun item ↦ (Child.expr item).opened) ++
    given.pairs.elim [] fun pairs ↦ pairs.2.2.flatMap HashEntry.children

theorem blockArg_addEntry (given : GivenArguments) (start : Nat) (entry : HashEntry) :
    (given.addEntry start entry).blockArg = given.blockArg := by
  unfold addEntry
  split <;> rfl

theorem positional_addEntry (given : GivenArguments) (start : Nat) (entry : HashEntry) :
    (given.addEntry start entry).positional = given.positional := by
  unfold addEntry
  split <;> rfl

/-- A pair adds its key and value to what was read, wherever its hash stands. -/
theorem mem_opened_addEntry {start : Nat} {entry : HashEntry} {part : Child}
    (h : part ∈ (given.addEntry start entry).opened) :
    part ∈ given.opened ∨ part ∈ entry.children := by
  unfold addEntry at h
  split at h <;> grind [opened]

/-- The arguments read so far. The positional ones and the pairs are each in order. -/
structure Lined (lower : Nat) (given : GivenArguments) (upper : Nat) : Prop where
  positional : Source.Lined lower (given.positional.map .expr) upper
  pairs : ∀ {index start entries}, given.pairs = some (index, start, entries) →
    PairsLined lower given.positional index start entries upper
  block : ∀ {value}, given.blockArg = some value → Source.Lined lower [.expr value] upper ∧
    ∀ part ∈ given.opened, part.InFront (.expr value) ∨ value.span.stop ≤ part.span.start

namespace Lined

theorem nil : Lined lower {} upper where
  positional := .nil
  pairs h := by cases h
  block h := by cases h

theorem within (h : given.Lined lower upper) {item : Expr} (hitem : item ∈ given.positional) :
    (Child.expr item).Within lower upper :=
  h.positional.within _ (List.mem_map_of_mem hitem)

/-- Everything read so far ends in front of the cursor. -/
theorem stop_le (h : given.Lined lower upper) : ∀ part ∈ given.opened, part.span.stop ≤ upper := by
  refine List.forall_mem_append.2 ⟨fun part hpart ↦ ?_, fun part hpart ↦ ?_⟩
  · obtain ⟨item, hitem, hpart⟩ := List.mem_flatMap.1 hpart
    exact ((h.within hitem).opened part hpart).2
  · cases hpairs : given.pairs with
    | none =>
      rw [hpairs] at hpart
      cases hpart
    | some pairs =>
      rw [hpairs] at hpart
      exact ((h.pairs hpairs).lined.within part hpart).le_stop

theorem mono (h : given.Lined lower middle) (hupper : middle ≤ upper) :
    given.Lined lower upper where
  positional := h.positional.mono (Nat.le_refl _) hupper
  pairs hpairs := by
    obtain ⟨hlined, hindex, hlower, hstart, hbefore, hbehind⟩ := h.pairs hpairs
    exact ⟨hlined.mono (Nat.le_refl _) hupper, hindex, hlower, Nat.le_trans hstart hupper, hbefore,
      hbehind⟩
  block hvalue := ⟨(h.block hvalue).1.mono (Nat.le_refl _) hupper, (h.block hvalue).2⟩

/-- A positional argument is written behind everything read so far. -/
theorem addPositional {value : Expr} (h : given.Lined lower middle)
    (h' : Source.Lined middle [.expr value] upper) (hlower : lower ≤ middle)
    (hupper : middle ≤ upper) : (given.addPositional value).Lined lower upper where
  positional := by
    have happend := h.positional.append h' hlower hupper
    rwa [← List.map_singleton, ← List.map_append] at happend
  pairs hpairs := by
    obtain ⟨hlined, hindex, hstart, hstart', hbefore, hbehind⟩ := (h.mono hupper).pairs hpairs
    refine ⟨hlined, ?_, hstart, hstart', ?_, ?_⟩
    · exact Nat.le_trans hindex (by simp [GivenArguments.addPositional])
    · rwa [GivenArguments.addPositional, List.take_append_of_le_length hindex]
    · rw [GivenArguments.addPositional, List.drop_append_of_le_length hindex]
      refine List.forall_mem_append.2 ⟨hbehind, List.forall_mem_singleton.2 fun part hpart ↦ ?_⟩
      have hstop := ((h.pairs hpairs).lined.within part hpart).le_stop
      have hstart := (h'.within _ List.mem_cons_self).start_le
      exact .inl (.inr (Nat.le_trans hstop hstart))
  block hblock := by
    obtain ⟨hlined, hparts⟩ := (h.mono hupper).block hblock
    refine ⟨hlined, fun part hpart ↦ ?_⟩
    have hcases : part ∈ given.opened ∨ part ∈ (Child.expr value).opened := by
      grind [GivenArguments.addPositional, GivenArguments.opened]
    rcases hcases with hpart | hpart
    · exact hparts part hpart
    · have hstop := ((h.block hblock).1.within _ List.mem_cons_self).le_stop
      have hstart := ((h'.within _ List.mem_cons_self).opened part hpart).1
      exact .inr (Nat.le_trans hstop hstart)

/-- A block argument is written behind everything read so far. What is read later may be listed in
front of it. -/
theorem setBlockArg {value : Expr} (h : given.Lined lower middle)
    (h' : Source.Lined middle [.expr value] upper) (hlower : lower ≤ middle)
    (hupper : middle ≤ upper) :
    GivenArguments.Lined lower { given with blockArg := some value } upper where
  positional := (h.mono hupper).positional
  pairs := (h.mono hupper).pairs
  block hblock := by
    cases hblock
    refine ⟨h'.mono hlower (Nat.le_refl _), fun part hpart ↦ .inl (.inr ?_)⟩
    exact Nat.le_trans (h.stop_le part hpart) (h'.within _ List.mem_cons_self).start_le

/-- The first pair fixes the place of the hash; later ones join it and may leave arguments between
them. -/
theorem addEntry {entry : HashEntry} (h : given.Lined lower middle)
    (h' : Source.Lined middle entry.children upper) (hlower : lower ≤ middle)
    (hupper : middle ≤ upper) : (given.addEntry middle entry).Lined lower upper where
  positional := by
    rw [positional_addEntry]
    exact (h.mono hupper).positional
  pairs hpairs := by
    unfold GivenArguments.addEntry at hpairs ⊢
    split at hpairs
    · rename_i hold
      cases hpairs
      have hmono := (h.mono hupper).pairs hold
      refine ⟨?_, hmono.index_le, hmono.lower_le, hmono.le_upper, hmono.before,
        fun item hitem part hpart ↦ ?_⟩
      · rw [List.flatMap_append, List.flatMap_singleton]
        exact (h.pairs hold).lined.append h' hlower hupper
      · rw [List.flatMap_append, List.flatMap_singleton] at hpart
        rcases List.mem_append.1 hpart with hpart | hpart
        · exact hmono.behind item hitem part hpart
        · have hstop := (h.within (List.mem_of_mem_drop hitem)).le_stop
          exact .inr (Nat.le_trans hstop (h'.within part hpart).start_le)
    · cases hpairs
      refine ⟨?_, Nat.le_refl _, hlower, hupper, fun item hitem part hpart ↦ ?_,
        fun item hitem ↦ ?_⟩
      · rw [List.flatMap_singleton]
        exact h'.mono hlower (Nat.le_refl _)
      · exact ((h.within (List.mem_of_mem_take hitem)).opened part hpart).2
      · rw [List.drop_length] at hitem
        cases hitem
  block hblock := by
    rw [blockArg_addEntry] at hblock
    obtain ⟨hlined, hparts⟩ := (h.mono hupper).block hblock
    refine ⟨hlined, fun part hpart ↦ ?_⟩
    rcases mem_opened_addEntry hpart with hpart | hpart
    · exact hparts part hpart
    · have hstop := ((h.block hblock).1.within _ List.mem_cons_self).le_stop
      exact .inr (Nat.le_trans hstop (h'.within part hpart).start_le)

end Lined

end GivenArguments

def Arguments.children (args : Arguments) : List Child :=
  args.positional.map .expr ++ Child.ofOption args.blockArg

/-- Arguments between two places. They are written in the order in which they are listed, but for
what stands behind the hash of the pairs and for the block argument. -/
structure Arguments.Lined (lower : Nat) (args : Arguments) (upper : Nat) : Prop where
  children : ∀ child ∈ args.children, child.Within lower upper ∧ child.Throughout Expr.Written
  positional : args.positional.Pairwise fun first second ↦
    ∀ part ∈ (Child.expr first).opened, part.InFront (.expr second) ∨
      (∃ entries span, first = ⟨.hash entries, span⟩) ∧ second.span.stop ≤ part.span.start
  block : ∀ {value}, args.blockArg = some value → ∀ item ∈ args.positional,
    ∀ part ∈ (Child.expr item).opened,
      part.InFront (.expr value) ∨ value.span.stop ≤ part.span.start

theorem Arguments.Lined.none : Arguments.none.Lined lower upper :=
  ⟨List.forall_mem_nil _, .nil, fun h ↦ by cases h⟩

theorem Arguments.Lined.mono {args : Arguments} {lower' : Nat} (h : args.Lined lower middle)
    (hlower : lower' ≤ lower) (hupper : middle ≤ upper) : args.Lined lower' upper :=
  ⟨fun child hchild ↦ ⟨(h.children child hchild).1.mono hlower hupper, (h.children child hchild).2⟩,
    h.positional, h.block⟩

namespace GivenArguments.Lined

theorem mem_opened {item : Expr} (hitem : item ∈ given.positional) {part : Child}
    (hpart : part ∈ (Child.expr item).opened) : part ∈ given.opened :=
  List.mem_append_left _ (List.mem_flatMap.2 ⟨item, hitem, hpart⟩)

theorem children (h : given.Lined lower upper) :
    ∀ child ∈ given.positional.map .expr ++ Child.ofOption given.blockArg,
      child.Within lower upper ∧ child.Throughout Expr.Written := by
  refine List.forall_mem_append.2 ⟨fun child hchild ↦ ?_, fun child hchild ↦ ?_⟩
  · exact ⟨h.positional.within child hchild, h.positional.written child hchild⟩
  · obtain ⟨value, hvalue, rfl⟩ := List.mem_map.1 hchild
    have hlined := (h.block (Option.mem_toList.1 hvalue)).1
    exact ⟨hlined.within _ List.mem_cons_self, hlined.written _ List.mem_cons_self⟩

/-- Positional arguments are written in the order in which they are listed. -/
theorem ordered (h : given.Lined lower upper) :
    given.positional.Pairwise fun first second ↦ ∀ part ∈ (Child.expr first).opened,
      part.InFront (.expr second) ∨
        (∃ entries span, first = ⟨.hash entries, span⟩) ∧ second.span.stop ≤ part.span.start :=
  (List.pairwise_map.1 h.positional.ordered).imp fun hfront part hpart ↦ .inl (hfront part hpart)

/-- Without pairs the arguments are listed as they were read. -/
theorem ungathered (h : given.Lined lower upper) (parenthesized : Bool) :
    Arguments.Lined lower ⟨given.positional, given.blockArg, parenthesized⟩ upper where
  children := h.children
  positional := h.ordered
  block hvalue _ hitem part hpart := (h.block hvalue).2 part (mem_opened hitem hpart)

/-- The hash of the pairs stands behind the arguments in front of the first pair. -/
theorem gathered (h : given.Lined lower upper) {index start stop : Nat} {entries : List HashEntry}
    (hpairs : given.pairs = some (index, start, entries)) (hstop : stop ≤ upper)
    (parenthesized : Bool) :
    Arguments.Lined lower ⟨given.positional.take index ++
      ⟨.hash entries, ⟨start, stop⟩⟩ :: given.positional.drop index, given.blockArg,
      parenthesized⟩ upper := by
  obtain ⟨hlined, -, hlower, -, hbefore, hbehind⟩ := h.pairs hpairs
  have hhash : Source.Lined lower [.expr ⟨.hash entries, ⟨start, stop⟩⟩] upper :=
    hlined.expr (.refl _) rfl hlower hstop
  have hsplit := h.ordered
  rw [← List.take_append_drop index given.positional, List.pairwise_append] at hsplit
  obtain ⟨htake, hdrop, hacross⟩ := hsplit
  refine ⟨fun child hchild ↦ ?_, ?_, fun hvalue item hitem part hpart ↦ ?_⟩
  · have hcases : child ∈ given.positional.map .expr ++ Child.ofOption given.blockArg ∨
        child = .expr ⟨.hash entries, ⟨start, stop⟩⟩ := by
      grind [Arguments.children, List.mem_of_mem_take, List.mem_of_mem_drop]
    rcases hcases with hchild | rfl
    · exact h.children child hchild
    · exact ⟨hhash.within _ List.mem_cons_self, hhash.written _ List.mem_cons_self⟩
  · refine List.pairwise_append.2 ⟨htake, List.pairwise_cons.2 ⟨fun item hitem part hpart ↦ ?_,
      hdrop⟩, fun first hfirst ↦ List.forall_mem_cons.2 ⟨fun part hpart ↦ ?_, hacross first hfirst⟩⟩
    · exact (hbehind item hitem part hpart).imp_right fun hstop ↦ ⟨⟨_, _, rfl⟩, hstop⟩
    · exact .inl (.inr (hbefore first hfirst part hpart))
  · refine (h.block hvalue).2 part ?_
    rcases List.mem_append.1 hitem with hitem | hitem
    · exact mem_opened (List.mem_of_mem_take hitem) hpart
    · rcases List.mem_cons.1 hitem with rfl | hitem
      · refine List.mem_append_right _ ?_
        rw [hpairs]
        exact hpart
      · exact mem_opened (List.mem_of_mem_drop hitem) hpart

end GivenArguments.Lined

abbrev Parse.LinesArguments (source : String) (step : Parse Arguments) : Prop :=
  Tracks source step fun args lower upper ↦ args.Lined lower upper

/-- Closing the list puts the hash where its first pair was read. -/
theorem gives_rowClose
    (h : Between source c₀ c fun lower upper ↦ given.Lined lower upper) (parenthesized : Bool) :
    Gives c (given.close parenthesized) fun args c' ↦
      Between source c₀ c' fun lower upper ↦ args.Lined lower upper := by
  unfold GivenArguments.close
  split
  · rename_i index start entries hpairs
    refine .finish_bind (.pure ⟨h.moves, h.draws, fun herrors ↦ ?_⟩)
    have hlined := h.holds herrors
    have hstop := Nat.max_le.2 ⟨h.moves.stands.back_le_front, (hlined.pairs hpairs).le_upper⟩
    exact hlined.gathered hpairs hstop parenthesized
  · exact .pure ⟨h.moves, h.draws, fun herrors ↦ (h.holds herrors).ungathered parenthesized⟩

include hg

/-- One argument behind those read so far. -/
theorem gives_rowArgument (closer : Option Punct)
    (h : Between source c₀ c fun lower upper ↦ given.Lined lower upper) :
    Gives c (argument g closer given) fun given' c' ↦
      Between source c₀ c' fun lower upper ↦ given'.Lined lower upper := by
  have hrow := Row.refl h.moves.stands h.draws
  -- Whatever is read next stands behind everything read so far.
  have hadd {children : List Child} {given' : GivenArguments} {c' : Cursor}
      (hrow : Row source c c' children)
      (hlined : given.Lined c₀.front c.front → Lined c.front children c'.front →
        c₀.front ≤ c.front → c.front ≤ c'.front → given'.Lined c₀.front c'.front) :
      Between source c₀ c' fun lower upper ↦ given'.Lined lower upper :=
    ⟨h.moves.trans hrow.moves, hrow.draws, fun herrors ↦
      hlined (h.holds (hrow.moves.errors herrors)) (hrow.lined herrors) h.moves.front_le
        hrow.moves.front_le⟩
  refine .currentStart_bind (hrow.eat (fun hamp ↦ ?_) ?_)
  · exact hamp.read hg.unary fun value c' hrow ↦ .pure (hadd hrow .setBlockArg)
  · refine hrow.read (lines_hashEntry hg closer) fun entry c₁ hrow ↦ ?_
    split
    · rename_i entry
      have hentry : Row source c c₁ entry.children := by simpa using hrow
      exact .pure (hadd hentry .addEntry)
    · refine hrow.read hg.expr fun value c₂ hrow ↦ hrow.eat (fun harrow ↦ ?_) ?_
      · refine harrow.skip reads_skipNewlines fun _ c₃ hrow ↦ ?_
        refine hrow.read hg.expr fun second c₄ hrow ↦ .pure ?_
        have hentry : Row source c c₄ (HashEntry.pair value second).children := hrow
        exact hadd hentry .addEntry
      · exact .pure (hadd hrow .addPositional)

/-- By induction over the rounds of the list: each argument stands behind those read so far. -/
theorem lines_argumentList (closer : Option Punct) :
    LinesArguments source (argumentList g closer) := by
  intro c hc hdraws
  refine (gives_iterate (fun given c' ↦ Between source c c' fun lower upper ↦
    GivenArguments.Lined lower given upper) ⟨.refl hc, hdraws, fun _ ↦ .nil⟩
    fun given c₁ hgiven ↦ ?_).bind fun given c' hgiven ↦ gives_rowClose hgiven _
  refine (Row.refl hgiven.moves.stands hgiven.draws).skipIf reads_skipNewlines fun c₂ hskip ↦
    .get_bind ?_
  have hgiven := hgiven.keep hskip fun hupper hlined ↦ hlined.mono hupper
  split
  · exact .pure hgiven
  · refine (gives_rowArgument hg closer hgiven).bind fun given' c₃ hgiven ↦ ?_
    refine (Row.refl hgiven.moves.stands hgiven.draws).eat (fun hcomma ↦ ?_) (.pure hgiven)
    exact hcomma.skip reads_skipNewlines fun _ c₄ hskip ↦ .pure (hgiven.keep hskip
      fun hupper hlined ↦ hlined.mono hupper)

theorem lines_commandArguments : LinesArguments source (commandArguments g) :=
  (lines_argumentList hg none).withDo false

theorem lines_enclosedArguments (closer : Punct) (expected : String) :
    LinesArguments source (enclosedArguments g closer expected) := by
  intro c hc hdraws
  refine ((lines_argumentList hg (some closer)).withDo true c hc hdraws).bind
    fun args c₁ hargs ↦ ?_
  have hrow := Row.refl hargs.moves.stands hargs.draws
  refine hrow.skip reads_skipNewlines fun _ c₂ hrow ↦ hrow.expect fun c₃ hrow ↦ .pure ?_
  exact hargs.keep hrow fun hupper hlined ↦ hlined.mono (Nat.le_refl _) hupper

theorem lines_literalEntry : Lines source (literalEntry g) HashEntry.children := by
  intro c hc hdraws
  refine (Row.refl hc hdraws).read (lines_hashEntry hg _) fun entry c₁ hrow ↦ ?_
  split
  · exact .pure (by simpa using hrow)
  · refine hrow.read hg.expr fun key c₂ hrow ↦ ?_
    refine hrow.skip reads_skipNewlines fun _ c₃ hrow ↦ hrow.expect fun c₄ hrow ↦ ?_
    refine hrow.skip reads_skipNewlines fun _ c₅ hrow ↦ ?_
    exact hrow.read hg.expr fun value c₆ hrow ↦ .pure hrow

theorem lines_hashLiteral : Lines source (hashLiteral g) (·.flatMap HashEntry.children) := by
  intro c hc hdraws
  refine (Row.refl hc hdraws).read (Parse.Tracks.withDo true fun c hc hdraws ↦ ?_)
    fun entries c₁ (hrow : Row source c c₁ ([] ++ entries.flatMap HashEntry.children)) ↦ ?_
  · refine gives_iterate (fun entries c' ↦
      Row source c c' (List.flatMap HashEntry.children entries)) (.refl hc hdraws)
      fun entries c₁ hrow ↦ ?_
    refine hrow.skip reads_skipNewlines fun _ c₂ hrow ↦ .get_bind ?_
    dsimp only
    split
    · exact .pure hrow
    · refine hrow.read (lines_literalEntry hg) fun entry c₃ hrow ↦ ?_
      rw [← List.flatMap_singleton HashEntry.children entry, ← List.flatMap_append] at hrow
      refine hrow.skip reads_skipNewlines fun _ c₄ hrow ↦ ?_
      exact hrow.eat (fun hcomma ↦ .pure hcomma) (.pure hrow)
  · exact hrow.skip reads_skipNewlines fun _ c₂ hrow ↦ hrow.expect fun c₃ hrow ↦ .pure hrow

end Arguments

section Calls

variable {lower middle upper : Nat} {args : Arguments} {node : Node}

/-- Arguments among the children of an expression. -/
theorem Arguments.Lined.lists (h : args.Lined lower upper) (hitems : node.items = args.positional) :
    (args.positional.map .expr).Pairwise node.Lists := by
  refine List.pairwise_map.2 (List.pairwise_iff_forall_sublist.2 fun hsublist part hpart ↦ ?_)
  rcases List.pairwise_iff_forall_sublist.1 h.positional hsublist part hpart with
    hfront | ⟨⟨entries, span, rfl⟩, hstop⟩
  · exact .inl hfront
  · exact .inr ⟨.pairs (hitems ▸ hsublist), hstop⟩

/-- An expression whose children are the positional arguments. -/
theorem Arguments.Lined.expr {value : Expr} (h : args.Lined lower upper)
    (hchildren : value.node.children = args.positional.map .expr)
    (hitems : value.node.items = args.positional) (hnode : value.node.isOwnCall = false)
    (hlower : lower ≤ value.span.start) (hupper : value.span.stop ≤ upper) :
    Source.Lined lower [.expr value] upper := by
  refine .of_written ⟨hchildren ▸ h.lists hitems, fun heq ↦ ?_⟩ hlower hupper fun child hchild ↦ ?_
  · rw [heq] at hnode
    cases hnode
  · rw [hchildren] at hchild
    exact h.children child (List.mem_append_left _ hchild)

/-- The arguments of a call among its children. -/
theorem Arguments.Lined.lists_children {receiver : Option Expr} {name : Spanned String}
    {block : Option Block} {safe : Bool} (h : args.Lined lower upper) :
    args.children.Pairwise (Node.call receiver name args block safe).Lists := by
  refine List.pairwise_append.2 ⟨h.lists rfl, ?_, fun child hchild child' hchild' ↦ ?_⟩
  · cases args.blockArg with
    | none => exact .nil
    | some value => exact List.pairwise_singleton _ _
  · obtain ⟨item, hitem, rfl⟩ := List.mem_map.1 hchild
    obtain ⟨value, hvalue, rfl⟩ := List.mem_map.1 hchild'
    have hvalue := Option.mem_toList.1 hvalue
    exact fun part hpart ↦ (h.block hvalue item hitem part hpart).imp_right
      fun hstop ↦ ⟨.blockArgument hitem hvalue, hstop⟩

theorem children_call (receiver : Option Expr) (name : Spanned String) (args : Arguments)
    (block : Option Block) (safe : Bool) :
    (Node.call receiver name args block safe).children =
      Child.ofOption receiver ++ args.children ++ block.toList.flatMap Child.ofBlock := by
  simp [Node.children, Arguments.children]

/-- A call lists its receiver, its arguments and its block in the order they are written in. -/
theorem lined_call {receiver : Option Expr} {name : Spanned String} {block : Option Block}
    {safe : Bool} {span : Span} {first last : Nat}
    (hreceiver : Lined first (Child.ofOption receiver) lower) (hargs : args.Lined lower upper)
    (hblock : Lined upper (block.toList.flatMap Child.ofBlock) last)
    (hname : receiver = none → span.start < name.span.stop ∧ name.span.stop ≤ lower)
    (hfirst : first ≤ lower) (hmiddle : lower ≤ upper) (hlast : upper ≤ last)
    (hstart : first ≤ span.start) (hstop : span.stop ≤ last) :
    Lined first [.expr ⟨.call receiver name args block safe, span⟩] last := by
  refine .of_written ⟨?_, fun heq ↦ ?_⟩ hstart hstop ?_
  · dsimp only
    rw [children_call]
    refine List.pairwise_append.2 ⟨List.pairwise_append.2 ⟨hreceiver.lists, hargs.lists_children,
      fun child hchild child' hchild' ↦ ?_⟩, hblock.lists, fun child hchild child' hchild' ↦ ?_⟩
    · exact (hreceiver.within child hchild).lists (hargs.children child' hchild').1.start_le
    · have hbehind := (hblock.within child' hchild').start_le
      rcases List.mem_append.1 hchild with hchild | hchild
      · exact ((hreceiver.within child hchild).mono (Nat.le_refl _) hmiddle).lists hbehind
      · exact (hargs.children child hchild).1.lists hbehind
  · cases heq
    obtain ⟨hwidth, hname⟩ := hname rfl
    refine ⟨hwidth, ?_⟩
    rw [children_call]
    refine List.forall_mem_append.2 ⟨fun child hchild ↦ ?_, fun child hchild ↦ ?_⟩
    · exact Nat.le_trans hname (hargs.children child hchild).1.start_le
    · exact Nat.le_trans (Nat.le_trans hname hmiddle) (hblock.within child hchild).start_le
  · have hreceiver := hreceiver.mono (Nat.le_refl _) (Nat.le_trans hmiddle hlast)
    have hblock := hblock.mono (Nat.le_trans hfirst hmiddle) (Nat.le_refl _)
    rw [children_call]
    refine List.forall_mem_append.2 ⟨List.forall_mem_append.2 ⟨fun child hchild ↦ ?_,
      (hargs.mono hfirst hlast).children⟩, fun child hchild ↦ ?_⟩
    · exact ⟨hreceiver.within child hchild, hreceiver.written child hchild⟩
    · exact ⟨hblock.within child hchild, hblock.written child hchild⟩

/-- A call whose receiver, arguments and block have been read one after another. -/
theorem Row.call {receiver : Option Expr} {name : Spanned String} {block : Option Block}
    {c₁ c₂ : Cursor} (safe : Bool) (h : Row source c₀ c (Child.ofOption receiver))
    (hname : receiver = none → c₀.front < name.span.stop ∧ name.span.stop ≤ c.front)
    (hargs : Between source c c₁ fun lower upper ↦ args.Lined lower upper)
    (hblock : Row source c₁ c₂ (block.toList.flatMap Child.ofBlock)) :
    Row source c₀ c₂ [.expr ⟨.call receiver name args block safe, c₂.spanFrom c₀.front⟩] where
  moves := (h.moves.trans hargs.moves).trans hblock.moves
  draws := hblock.draws
  holds herrors := by
    have hargsErrors := hblock.moves.errors herrors
    have hfront := ((h.moves.trans hargs.moves).trans hblock.moves).front_le
    exact lined_call (h.lined (hargs.moves.errors hargsErrors)) (hargs.holds hargsErrors)
      (hblock.lined herrors) hname h.moves.front_le hargs.moves.front_le hblock.moves.front_le
      (Nat.le_refl _) (Nat.max_le.2 ⟨hblock.moves.stands.back_le_front, hfront⟩)

end Calls

/-! ## Parameters -/

section Parameters

include hg

theorem lines_keywordDefault (closer : Option Punct) :
    Lines source (keywordDefault g closer) Child.ofOption := by
  refine fun c hc hdraws ↦ .get_bind ?_
  have hrow := Row.refl hc hdraws
  split
  · exact .pure hrow
  · exact hrow.read (hg.binary _) fun value c' hrow ↦ .pure hrow

theorem lines_namedParam (closer : Option Punct) :
    Lines source (namedParam g closer) fun value ↦ Child.ofOption value.2 := by
  refine fun c hc hdraws ↦ .get_bind ?_
  have hname := (Row.refl hc hdraws).advance
  split
  · refine .advance_bind (.advance_bind ?_)
    exact hname.advance.read (lines_keywordDefault hg closer) fun default c' hrow ↦ .pure hrow
  · refine .advance_bind (hname.eat (fun hassign ↦ ?_) (.pure hname))
    exact hassign.read (hg.binary _) fun value c' hrow ↦ .pure hrow

/-- A parameter that is taken apart brings the defaults of its parts. -/
theorem lines_param (closer : Option Punct)
    {destructured : Parse (List Param)} (h : Lines source destructured Child.ofParams) :
    Parse.Lines source ( param? g closer destructured) fun param ↦
      Child.ofParams param.toList := by
  refine fun c hc hdraws ↦ .currentStart_bind ?_
  have hfirst := (Row.refl hc hdraws).advance
  refine Triple.bind (.currentKind_bind ?_) fun parts c' (hparts : Row source c c'
    (parts.elim [] fun parts ↦ Child.ofOption parts.2.2)) ↦ ?_
  · split
    case h_4 => exact .advance_bind (.pure hfirst)
    case h_5 name hkind =>
      exact (lines_namedParam hg closer c hc hdraws).bind fun _ _ hrow ↦ .pure hrow
    case h_6 =>
      refine .advance_bind (hfirst.read h fun inner c' hrow ↦ hrow.expect fun c'' hrow ↦ ?_)
      refine hrow.skip (reads_declareParams inner) fun _ c₃ hrow ↦ .pure ?_
      exact hrow.sublist (List.nil_sublist _)
    case h_7 =>
      exact (Row.refl hc hdraws).skip (reads_unexpected _) fun _ _ hrow ↦ .pure hrow
    -- A mark and the name behind it.
    all_goals
      exact .advance_bind (hfirst.skip reads_paramName fun _ _ hrow ↦ .pure hrow)
  · split
    · refine .spanFrom_bind (.pure ?_)
      simpa [Child.ofParams] using hparts
    · exact .pure hparts

theorem lines_paramListUpTo (bound : Nat) (closer : Option Punct) :
    Lines source (paramListUpTo g bound closer) Child.ofParams := by
  induction bound generalizing closer with
  | zero => exact fun c hc hdraws ↦ triple_failure
  | succ bound ih =>
    intro c hc hdraws
    refine gives_iterate (fun params c' ↦ Row source c c' (Child.ofParams params))
      (.refl hc hdraws) fun params c₁ hrow ↦ ?_
    refine hrow.skipIf reads_skipNewlines fun c₂ hrow ↦ .get_bind ?_
    split
    · exact .pure hrow
    · refine hrow.read (lines_param hg closer (ih _)) fun param c₃ hrow ↦ ?_
      rw [Child.ofParams, Child.ofParams, ← List.flatMap_append] at hrow
      split
      · rw [Option.toList_none, List.append_nil] at hrow
        exact .pure hrow
      · exact hrow.eat (fun hcomma ↦ .pure hcomma) (.pure hrow)

/-- Of parameters only the defaults are children; they are written in the order of the
parameters. -/
theorem lines_paramList (closer : Option Punct) :
    Lines source (paramList g closer) Child.ofParams :=
  fun c hc hdraws ↦ .get_bind (lines_paramListUpTo hg _ closer c hc hdraws)

/-- Parameters in front of a closing mark. -/
theorem Row.enclosedParams {mark : Punct} {expected : String} (h : Row source c₀ c []) :
    Gives c (do
      let params ← paramList g (some mark)
      Parse.expect mark expected
      return params) fun params c' ↦ Row source c₀ c' (Child.ofParams params) :=
  h.read (lines_paramList hg _) fun _ _ hrow ↦ hrow.expect fun _ hrow ↦ .pure hrow

end Parameters

section Blocks

include hg

theorem lines_blockParams : Lines source (blockParams g) Child.ofParams := by
  intro c hc hdraws
  have hrow := Row.refl hc hdraws
  refine hrow.eat (fun hbars ↦ .pure hbars) (hrow.eat (fun hbar ↦ ?_) (.pure hrow))
  refine hbar.read (lines_paramList hg _) fun params c₁ hrow ↦ hrow.expect fun c₂ hrow ↦ ?_
  exact hrow.skip (reads_declareParams params) fun _ c₃ hrow ↦ .pure hrow

/-- A block between an opening token and whatever closes it. -/
theorem lines_block {inner : Parse Body} {close : Parse Unit}
    (hinner : Lines source inner fun value ↦ [.body value])
    (hclose : Lines source close fun _ ↦ []) :
    Lines source (do
      let start ← currentStart
      advance
      let (params, inner) ← inScope true (do
        let params ← blockParams g
        let inner ← withDo true inner
        close
        return (params, inner))
      return (⟨params, inner, ← spanFrom start⟩ : Block)) Child.ofBlock := by
  refine fun c hc hdraws ↦ .currentStart_bind (.advance_bind ?_)
  refine (Row.refl hc hdraws).advance.read (Parse.Tracks.inScope true fun c hc hdraws ↦ ?_)
    fun value c₁ (hrow : Row source c c₁ ([] ++ (Child.ofParams value.1 ++ [.body value.2]))) ↦
      .spanFrom_bind (.pure hrow)
  refine (Row.refl hc hdraws).read (lines_blockParams hg) fun params c₁ hrow ↦ ?_
  refine hrow.read (hinner.withDo true) fun inner c₂ hrow ↦ ?_
  refine hrow.read hclose fun _ c₃ hrow ↦ .pure ?_
  simpa using hrow

theorem lines_braceBlock : Lines source (braceBlock g) Child.ofBlock :=
  lines_block hg (lines_body hg _) fun _ hc hdraws ↦
    (Row.refl hc hdraws).skipped (reads_expectIf _)

/-- The parameters of a block are written in front of its body. -/
theorem lines_doBlock : Lines source (doBlock g) Child.ofBlock :=
  lines_block hg (lines_rescuedBody hg) fun _ hc hdraws ↦
    (Row.refl hc hdraws).skipped (reads_expectIf _)

theorem lines_lambdaParams : Lines source (lambdaParams g) Child.ofParams := by
  intro c hc hdraws
  have hrow := Row.refl hc hdraws
  refine hrow.eat (fun hparen ↦ hparen.enclosedParams hg) (.currentKind_bind ?_)
  split
  · exact lines_paramList hg none c hc hdraws
  · exact .pure hrow

theorem lines_lambdaBody : Lines source (lambdaBody g) fun value ↦ [.body value] := by
  intro c hc hdraws
  have hrow := Row.refl hc hdraws
  refine hrow.eat (fun hbrace ↦ ?_) (hrow.eatWord (fun hdo ↦ ?_) ?_)
  · refine hbrace.read ((lines_body hg _).withDo true) fun inner c₁ hrow ↦ ?_
    exact hrow.expect fun c₂ hrow ↦ .pure hrow
  · refine hdo.read ((lines_rescuedBody hg).withDo true) fun inner c₁ hrow ↦ ?_
    exact hrow.expectWord fun c₂ hrow ↦ .pure hrow
  · exact hrow.report (gives_unexpected hc _) fun _ c₁ hmoves hdraws herrors ↦
      .currentSpan_bind (.pure (.of_errors hmoves hdraws herrors))

/-- The parameters of a lambda are written in front of its body. -/
theorem gives_rowLambda {start : Nat} (h : Row source c₀ c []) :
    Gives c (lambda g start) fun value c' ↦ Row source c₀ c' (Child.ofBlock value) := by
  refine h.read (Parse.Tracks.inScope true fun c hc hdraws ↦ ?_) fun value c₁
    (hrow : Row source c₀ c₁ ([] ++ (Child.ofParams value.1 ++ [.body value.2]))) ↦
      .spanFrom_bind (.pure hrow)
  refine (Row.refl hc hdraws).read (lines_lambdaParams hg) fun params c₁ hrow ↦ ?_
  refine hrow.skip (reads_declareParams params) fun _ c₂ hrow ↦ ?_
  exact hrow.read (lines_lambdaBody hg) fun inner c₃ hrow ↦ .pure hrow

end Blocks

end DeclaredMethods.Source
