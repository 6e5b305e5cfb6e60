import DeclaredMethods.Declaration.Call
import DeclaredMethods.Proofs.Document.Locality
import DeclaredMethods.Proofs.RoundTrip.Forms
import DeclaredMethods.Signature.Parser.Declaration

/-!
# Reading classes and modules

The tokens of a class or module with methods are read as the declaration of it. Here the tokens
themselves count and not only their kinds, since the mark at the end of a method name must touch the
name. A reading `Takes` known tokens: it returns a known value and leaves the cursor right behind
them.
-/

namespace DeclaredMethods.Signature

def kindsOf (tokens : List Token) : List TokenKind :=
  tokens.map Token.kind

/-- In front of the tokens, with the rest behind them, a reading returns the value and reads
them. -/
abbrev Takes {α : Type} (reading : Parse α) (tokens rest : List Token) (value : α) : Prop :=
  Returns Cursor.upcoming reading (tokens ++ rest) value rest

section Steps

variable {α β : Type} {rest : List Token}

theorem kind_current_of_upcoming {cursor : Cursor} {tokens : List Token}
    (h : cursor.upcoming = tokens) : cursor.current.kind = headKind (kindsOf tokens) := by
  rw [cursor.kind_current, Cursor.kinds, h, kindsOf]

theorem current_of_upcoming {cursor : Cursor} {token : Token}
    (h : cursor.upcoming = token :: rest) : cursor.current = token := by
  rw [Cursor.current, h]
  rfl

theorem next_of_upcoming {cursor : Cursor} {token token' : Token}
    (h : cursor.upcoming = token :: token' :: rest) : cursor.next = token' := by
  rw [Cursor.next, h]
  rfl

/-- What two steps take one after the other is taken by the sequence. -/
theorem Takes.append {reading : Parse α} {next : α → Parse β} {tokens tokens' : List Token}
    {value : α} {result : β} (h : Takes reading tokens (tokens' ++ rest) value)
    (h' : Takes (next value) tokens' rest result) :
    Takes (reading >>= next) (tokens ++ tokens') rest result := by
  rw [Takes, List.append_assoc]
  exact h.bind h'

theorem headKind_of_kind {token : Token} {kind : TokenKind} (h : token.kind = kind)
    (tail : List Token) : headKind (kindsOf (token :: tail)) = kind :=
  h

theorem takes_currentKind : Takes Parse.currentKind [] rest (headKind (kindsOf rest)) := by
  refine .of_run fun cursor hcursor ↦ ⟨cursor, ?_, hcursor⟩
  have hkind : cursor.current.kind = headKind (kindsOf rest) := kind_current_of_upcoming hcursor
  rw [← hkind]
  rfl

theorem takes_currentKind_bind {next : TokenKind → Parse β} {tokens : List Token}
    {kind : TokenKind} {result : β} (hkind : headKind (kindsOf (tokens ++ rest)) = kind)
    (h : Takes (next kind) tokens rest result) :
    Takes (Parse.currentKind >>= next) tokens rest result := by
  subst hkind
  exact Returns.bind takes_currentKind h

theorem takes_advance (token : Token) : Takes Parse.advance [token] rest () := by
  refine .of_run fun cursor hcursor ↦ ⟨cursor.advance, rfl, ?_⟩
  rw [Cursor.advance, hcursor]
  rfl

/-- A token that is read if it passes a test. -/
theorem takes_eatIf {test : Cursor → Bool} {token : Token}
    (h : ∀ cursor : Cursor, cursor.current = token → test cursor = true) :
    Takes (do if test (← get) then Parse.advance; return true else return false) [token] rest
      true := by
  refine .get_bind fun cursor hcursor ↦ ?_
  rw [h cursor (current_of_upcoming hcursor), if_pos rfl]
  exact Returns.bind (takes_advance token) (.pure _ _)

theorem takes_eatIf_none {test : Cursor → Bool}
    (h : ∀ cursor : Cursor, cursor.current.kind = headKind (kindsOf rest) → test cursor = false) :
    Takes (do if test (← get) then Parse.advance; return true else return false) [] rest false := by
  refine .get_bind fun cursor hcursor ↦ ?_
  rw [h cursor (kind_current_of_upcoming hcursor), if_neg Bool.false_ne_true]
  exact .pure _ _

theorem takes_eat {token : Token} {mark : Mark} (h : token.kind = .mark mark) :
    Takes (Parse.eat mark) [token] rest true :=
  takes_eatIf fun cursor hcurrent ↦ by
    rw [Cursor.atMark, hcurrent, h]
    exact beq_self_eq_true mark

theorem takes_eat_none {mark : Mark} (h : (headKind (kindsOf rest)).isMark mark = false) :
    Takes (Parse.eat mark) [] rest false :=
  takes_eatIf_none fun cursor hkind ↦ by rw [Cursor.atMark, hkind, h]

theorem takes_eatWord {token : Token} {word : String} (h : token.kind = .ident word) :
    Takes (Parse.eatWord word) [token] rest true :=
  takes_eatIf fun cursor hcurrent ↦ by
    rw [Cursor.atWord, hcurrent, h]
    exact beq_self_eq_true word

theorem takes_eatWord_none {word : String} (h : (headKind (kindsOf rest)).isWord word = false) :
    Takes (Parse.eatWord word) [] rest false :=
  takes_eatIf_none fun cursor hkind ↦ by rw [Cursor.atWord, hkind, h]

theorem takes_expect {token : Token} {mark : Mark} (h : token.kind = .mark mark)
    (expected : String) : Takes (Parse.expect mark expected) [token] rest () := by
  refine .get_bind fun cursor hcursor ↦ ?_
  have hmark : cursor.atMark mark = true := by
    rw [Cursor.atMark, current_of_upcoming hcursor, h]
    exact beq_self_eq_true mark
  rw [hmark, if_pos rfl]
  exact takes_advance token

/-- A reading that is known by the kinds of its tokens, and reads tokens one by one. -/
theorem takes_of_reads {reading : Parse α} {tokens : List Token} {value : α}
    (hfollows : Follows [] false reading reading)
    (h : Reads reading (kindsOf tokens ++ kindsOf rest) value (kindsOf rest)) :
    Takes reading tokens rest value := by
  refine .of_run fun cursor hcursor ↦ ?_
  have hkinds : cursor.kinds = kindsOf tokens ++ kindsOf rest := by
    rw [Cursor.kinds, hcursor, List.map_append, kindsOf, kindsOf]
  obtain ⟨next, hrun, hnext⟩ := h.exists_run hkinds
  have hbeside : Beside [] cursor cursor := (List.append_nil _).symm
  obtain ⟨count, -, hcount, rfl, -, -⟩ := (hfollows cursor cursor hbeside).exists_count hrun
  have hlength := congrArg List.length hnext
  rw [Cursor.kinds_skip, List.length_drop, hkinds, List.length_append] at hlength
  rw [hkinds, List.length_append] at hcount
  have htokens : (kindsOf tokens).length = tokens.length := List.length_map _
  refine ⟨_, hrun, ?_⟩
  rw [Cursor.upcoming_skip, hcursor, show count = tokens.length by omega, List.drop_left]

end Steps

section Loops

variable {α : Type} {step : α → Parse (Round α)}

/-- A loop that reads a token in every round but the last. -/
abbrev Rounds (step : α → Parse (Round α)) (value : α) (tokens rest : List Token) (result : α) :
    Prop :=
  Iterates Cursor.upcoming List.length step value (tokens ++ rest) result rest

theorem rounds_again {value next result : α} {token : Token} {tokens tokens' rest : List Token}
    (hstep : Takes (step value) (token :: tokens) (tokens' ++ rest) (.again next))
    (hrest : Rounds step next tokens' rest result) :
    Rounds step value (token :: tokens ++ tokens') rest result := by
  rw [Rounds, List.append_assoc]
  refine .again hstep ?_ hrest
  simp only [List.cons_append, List.length_cons, List.length_append]
  omega

/-- Rounds that each take a token make up a loop. -/
theorem takes_iterate {value result : α} {tokens rest : List Token}
    (h : Rounds step value tokens rest result) :
    Takes (Parse.iterate step value) tokens rest result :=
  returns_iterate (fun _ ↦ rfl) h

end Loops

/-- Tokens that are read as a method type wherever one may end. -/
structure Signs (tokens : List Token) (method : MethodType) : Prop where
  takes : ∀ rest, (headKind (kindsOf rest)).mayFollow = true →
    Takes (Parse.methodType []) tokens rest method
  opens : ∃ first tail, tokens = first :: tail ∧ first.kind ≠ .mark .ellipsis

inductive SignAll : List Token → List MethodType → Prop
  | single {tokens : List Token} {method : MethodType} (h : Signs tokens method) :
      SignAll tokens [method]
  | cons {tokens tokens' : List Token} {method : MethodType} {methods : List MethodType}
      {bar : Token} (h : Signs tokens method) (hbar : bar.kind = .mark .pipe)
      (h' : SignAll tokens' methods) : SignAll (tokens ++ bar :: tokens') (method :: methods)

def memberWords : List String := ["def", "private", "end"]

/-- Tokens that start with a word in front of which a member has ended. -/
def StartsMember (tokens : List Token) : Prop :=
  ∃ token tail word, tokens = token :: tail ∧ token.kind = .ident word ∧ word ∈ memberWords

theorem StartsMember.headKind {tokens : List Token} (h : StartsMember tokens) :
    ∃ word ∈ memberWords, headKind (kindsOf tokens) = .ident word := by
  obtain ⟨token, tail, word, rfl, hkind, hword⟩ := h
  exact ⟨word, hword, hkind⟩

/-- A method type ends in front of the next member. -/
theorem StartsMember.mayFollow {tokens : List Token} (h : StartsMember tokens) :
    (Signature.headKind (kindsOf tokens)).mayFollow = true := by
  obtain ⟨word, hword, hkind⟩ := h.headKind
  rw [hkind]
  simp only [memberWords, List.mem_cons, List.not_mem_nil, or_false] at hword
  rcases hword with rfl | rfl | rfl <;> decide

theorem StartsMember.isMark {tokens : List Token} (h : StartsMember tokens) (mark : Mark) :
    (Signature.headKind (kindsOf tokens)).isMark mark = false := by
  obtain ⟨word, -, hkind⟩ := h.headKind
  rw [hkind]
  rfl

theorem StartsMember.append {tokens : List Token} (h : StartsMember tokens) (rest : List Token) :
    StartsMember (tokens ++ rest) := by
  obtain ⟨token, tail, word, rfl, hkind, hword⟩ := h
  exact ⟨token, tail ++ rest, word, rfl, hkind, hword⟩

theorem isMark_eq_false {kind : TokenKind} {mark : Mark} (h : kind ≠ .mark mark) :
    kind.isMark mark = false := by
  cases hkind : kind.isMark mark with
  | false => rfl
  | true => exact absurd (eq_of_isMark hkind) h

/-- Overloads are read up to the next member, none of them adding to earlier ones. -/
theorem SignAll.takes_overloads {tokens rest : List Token} {methods : List MethodType}
    (h : SignAll tokens methods) (hrest : StartsMember rest) :
    Takes (Parse.overloads []) tokens rest (methods, false) := by
  have hellipsis : ∀ {first : Token} (tail : List Token), first.kind ≠ .mark .ellipsis →
      Takes (Parse.eat .ellipsis) [] (first :: tail) false :=
    fun _ hfirst ↦ takes_eat_none (isMark_eq_false hfirst)
  apply takes_iterate
  suffices hrounds : ∀ before, Rounds _ (before, false) tokens rest (before ++ methods, false) from
    hrounds []
  induction h with
  | single h =>
    obtain ⟨first, tail, rfl, hfirst⟩ := h.opens
    intro before
    refine .done ((hellipsis _ hfirst).bind ((h.takes rest hrest.mayFollow).bind ?_))
    exact (takes_eat_none (hrest.isMark .pipe)).bind (.pure _ _)
  | @cons tokens tokens' method methods bar h hbar _ ih =>
    obtain ⟨first, tail, rfl, hfirst⟩ := h.opens
    intro before
    have hbehind : (headKind (kindsOf (bar :: (tokens' ++ rest)))).mayFollow = true := by
      rw [headKind_of_kind hbar]
      rfl
    have hsplit : first :: tail ++ bar :: tokens' = first :: (tail ++ [bar]) ++ tokens' := by simp
    rw [hsplit, List.append_cons before]
    refine rounds_again ((hellipsis _ hfirst).bind ?_) (ih _)
    exact Takes.append (h.takes _ hbehind) ((takes_eat hbar).bind (.pure _ _))

/-! ## Members -/

/-- Tokens that spell the name of a method: a word, or a word and a mark that touches it. -/
inductive Spells : List Token → String → Prop
  | word {token : Token} {name : String} (hkind : token.kind = .ident name) : Spells [token] name
  | suffixed {token suffix : Token} {word name : String} {mark : Mark}
      (hkind : token.kind = .ident word) (hmark : suffix.kind = .mark mark)
      (hsuffix : mark.isNameSuffix = true) (htouch : suffix.span.start = token.span.stop)
      (hname : token.text ++ suffix.text = name) : Spells [token, suffix] name

/-- A mark that touches an identifier can end the name of a method. -/
theorem run_memberName {cursor : Cursor} {name : String} (h : cursor.current.kind = .ident name) :
    Parse.memberName.run cursor =
      if cursor.advance.isAdjacent && cursor.advance.current.kind.isNameSuffix then
        .ok (cursor.current.text ++ cursor.advance.current.text, cursor.advance.advance)
      else .ok (name, cursor.advance) := by
  have hadvance : Parse.advance.run cursor = .ok ((), cursor.advance) := rfl
  simp only [Parse.memberName, StateT.run_bind, StateT.run_get, pure_bind, h]
  rw [hadvance]
  simp only [bind, Except.bind]
  split <;> rfl

/-- A name that is spelled by its tokens is read whole. -/
theorem Spells.takes_memberName {tokens rest : List Token} {name : String} (h : Spells tokens name)
    (hrest : (headKind (kindsOf rest)).isNameSuffix = false) :
    Takes Parse.memberName tokens rest name := by
  refine .of_run fun cursor hcursor ↦ ?_
  have hbehind : cursor.advance.upcoming = tokens.tail ++ rest := by
    cases h <;> simp [Cursor.advance, hcursor]
  cases h with
  | @word token _ hkind =>
    have hsuffix : cursor.advance.current.kind.isNameSuffix = false := by
      rw [kind_current_of_upcoming hbehind]
      exact hrest
    refine ⟨cursor.advance, ?_, hbehind⟩
    rw [run_memberName (current_of_upcoming hcursor ▸ hkind), hsuffix, Bool.and_false]
    rfl
  | @suffixed token suffix word _ mark hkind hmark hsuffix htouch hname =>
    have hcurrent := current_of_upcoming hcursor
    have hnext := current_of_upcoming hbehind
    have hadjacent : cursor.advance.isAdjacent = true := by
      have hstop : cursor.advance.previousStop = cursor.current.span.stop := rfl
      rw [Cursor.isAdjacent, hnext, hstop, hcurrent, htouch]
      exact beq_self_eq_true _
    have hkind' : cursor.advance.current.kind.isNameSuffix = true := by
      rw [hnext, hmark]
      exact hsuffix
    refine ⟨cursor.advance.advance, ?_, congrArg List.tail hbehind⟩
    rw [run_memberName (hcurrent ▸ hkind), hadjacent, hkind', hcurrent, hnext, hname]
    rfl

theorem takes_memberScope_self {token dot : Token} {rest : List Token}
    (hself : token.kind = .ident "self") (hdot : dot.kind = .mark .dot) :
    Takes Parse.memberScope [token, dot] rest .singleton := by
  refine .get_bind fun cursor hcursor ↦ ?_
  have hword : cursor.atWord "self" = true := by
    rw [Cursor.atWord, current_of_upcoming hcursor, hself]
    rfl
  have hmark : cursor.nextIsMark .dot = true := by
    rw [Cursor.nextIsMark, next_of_upcoming hcursor, hdot]
    rfl
  rw [hword, hmark, Bool.and_self, if_pos rfl]
  exact Returns.bind (takes_advance token) (Returns.bind (takes_advance dot) (.pure _ _))

theorem takes_memberScope {rest : List Token}
    (h : (headKind (kindsOf rest)).isWord "self" = false) :
    Takes Parse.memberScope [] rest .instance_ := by
  refine .get_bind fun cursor hcursor ↦ ?_
  have hword : cursor.atWord "self" = false := by
    rw [Cursor.atWord, kind_current_of_upcoming hcursor]
    exact h
  rw [hword, Bool.false_and, Bool.false_and, if_neg Bool.false_ne_true, if_neg Bool.false_ne_true]
  exact .pure _ _

/-- Tokens that say that a member belongs to the class itself, or to the instances. -/
inductive SpellsScope : List Token → MemberScope → Prop
  | instance_ : SpellsScope [] .instance_
  | singleton {token dot : Token} (hself : token.kind = .ident "self")
      (hdot : dot.kind = .mark .dot) : SpellsScope [token, dot] .singleton

inductive SpellsMethod : List Token → Member → Prop
  | intro {keyword colon : Token} {scopeTokens nameTokens signTokens : List Token}
      {scope : MemberScope} {name : String} {overloads : List MethodType}
      (hkeyword : keyword.kind = .ident "def") (hscope : SpellsScope scopeTokens scope)
      (hname : Spells nameTokens name)
      (hself : (headKind (kindsOf nameTokens)).isWord "self" = false)
      (hcolon : colon.kind = .mark .colon) (hsigns : SignAll signTokens overloads) :
      SpellsMethod (keyword :: (scopeTokens ++ (nameTokens ++ colon :: signTokens)))
        (.method name scope overloads false)

theorem SpellsMethod.startsMember {tokens : List Token} {member : Member}
    (h : SpellsMethod tokens member) : StartsMember tokens := by
  cases h with
  | intro hkeyword => exact ⟨_, _, "def", rfl, hkeyword, by decide⟩

/-- A method is read from its keyword up to the next member. -/
theorem SpellsMethod.takes_member {tokens rest : List Token} {member : Member}
    (h : SpellsMethod tokens member) (hrest : StartsMember rest)
    (inner : Parse.DeclarationReader) :
    Takes (Parse.member inner []) tokens rest (some member) := by
  cases h with
  | @intro keyword colon scopeTokens nameTokens signTokens scope name overloads hkeyword hscope
      hname hself hcolon hsigns =>
    have hmemberScope : Takes Parse.memberScope scopeTokens
        (nameTokens ++ colon :: signTokens ++ rest) scope := by
      cases hscope with
      | instance_ =>
        apply takes_memberScope
        cases hname <;> exact hself
      | singleton hself' hdot => exact takes_memberScope_self hself' hdot
    have hmemberName : Takes Parse.memberName nameTokens (colon :: signTokens ++ rest) name := by
      apply hname.takes_memberName
      rw [List.cons_append, headKind_of_kind hcolon]
      rfl
    have hmethod : Takes (Parse.methodMember [])
        (scopeTokens ++ (nameTokens ++ colon :: signTokens)) rest
        (.method name scope overloads false) := by
      refine hmemberScope.append (Takes.append hmemberName ((takes_expect hcolon _).bind ?_))
      exact (hsigns.takes_overloads hrest).bind (.pure _ _)
    refine takes_currentKind_bind hkeyword ?_
    exact (takes_advance keyword).bind (hmethod.bind (.pure _ _))

/-- A visibility is read and gives no member. -/
theorem takes_member_private {token : Token} {rest : List Token}
    (hkind : token.kind = .ident "private") (inner : Parse.DeclarationReader) :
    Takes (Parse.member inner []) [token] rest none := by
  refine takes_currentKind_bind hkind ?_
  exact (takes_advance token).bind (.pure _ _)

/-- Tokens of methods, with a visibility in front of some of them. -/
inductive SpellsMembers : List Token → List Member → Prop
  | nil : SpellsMembers [] []
  | method {tokens tokens' : List Token} {member : Member} {members : List Member}
      (h : SpellsMethod tokens member) (h' : SpellsMembers tokens' members) :
      SpellsMembers (tokens ++ tokens') (member :: members)
  | visibility {token : Token} {tokens : List Token} {members : List Member}
      (h : token.kind = .ident "private") (h' : SpellsMembers tokens members) :
      SpellsMembers (token :: tokens) members

theorem SpellsMembers.append {tokens tokens' : List Token} {members members' : List Member}
    (h : SpellsMembers tokens members) (h' : SpellsMembers tokens' members') :
    SpellsMembers (tokens ++ tokens') (members ++ members') := by
  induction h with
  | nil => exact h'
  | method hmethod _ ih =>
    rw [List.append_assoc]
    exact .method hmethod ih
  | visibility hkind _ ih => exact .visibility hkind ih

theorem SpellsMembers.startsMember {tokens rest : List Token} {members : List Member}
    (h : SpellsMembers tokens members) {last : Token} (hlast : last.kind = .ident "end") :
    StartsMember (tokens ++ last :: rest) := by
  cases h with
  | nil => exact ⟨last, rest, "end", rfl, hlast, by decide⟩
  | method h _ =>
    rw [List.append_assoc]
    exact h.startsMember.append _
  | visibility h _ => exact ⟨_, _, "private", rfl, h, by decide⟩

def memberRound (inner : Parse.DeclarationReader) (before : List Member) :
    Parse (Round (List Member)) := do
  if ← Parse.eatWord "end" then
    return .done before
  else if (← Parse.currentKind).isEof then
    Parse.fail "`end`"
  else
    match ← Parse.member inner [] with
    | some member => return .again (before ++ [member])
    | none => return .again before

theorem members_eq_iterate (inner : Parse.DeclarationReader) :
    Parse.members inner [] = Parse.iterate (memberRound inner) [] :=
  rfl

theorem takes_memberRound {token : Token} {tokens rest : List Token} {word : String}
    {item : Option Member} {inner : Parse.DeclarationReader} (hkind : token.kind = .ident word)
    (hword : (word == "end") = false)
    (h : Takes (Parse.member inner []) (token :: tokens) rest item) (before : List Member) :
    Takes (memberRound inner before) (token :: tokens) rest (.again (before ++ item.toList)) := by
  have hhead : headKind (kindsOf (token :: tokens ++ rest)) = .ident word := hkind
  have hend : (headKind (kindsOf (token :: tokens ++ rest))).isWord "end" = false := by
    rw [hhead]
    exact hword
  refine (takes_eatWord_none hend).bind (takes_currentKind_bind hhead (h.bind ?_))
  cases item with
  | some member => exact .pure _ _
  | none =>
    rw [Option.toList_none, List.append_nil]
    exact .pure _ _

/-- The members of a block are read up to its `end`. -/
theorem SpellsMembers.takes_members {tokens rest : List Token} {members : List Member}
    (h : SpellsMembers tokens members) {last : Token} (hlast : last.kind = .ident "end")
    (inner : Parse.DeclarationReader) :
    Takes (Parse.members inner []) (tokens ++ [last]) rest members := by
  rw [members_eq_iterate]
  apply takes_iterate
  suffices hrounds : ∀ before,
      Rounds (memberRound inner) before (tokens ++ [last]) rest (before ++ members) from hrounds []
  induction h with
  | nil =>
    intro before
    rw [List.append_nil]
    exact .done ((takes_eatWord hlast).bind (.pure _ _))
  | @method tokens tokens' member members h h' ih =>
    intro before
    have hbehind : StartsMember (tokens' ++ [last] ++ rest) := by
      rw [List.append_assoc]
      exact h'.startsMember hlast
    have htakes := h.takes_member hbehind inner
    rw [List.append_cons before, List.append_assoc]
    cases h with
    | intro hkeyword =>
      exact rounds_again (takes_memberRound hkeyword (by decide) htakes before) (ih _)
  | @visibility token tokens members h _ ih =>
    intro before
    have hround : Takes (memberRound inner before) [token] (tokens ++ [last] ++ rest)
        (.again (before ++ [])) :=
      takes_memberRound h (by decide) (takes_member_private h inner) before
    rw [List.append_nil] at hround
    have hrounds : Rounds (memberRound inner) before ([token] ++ (tokens ++ [last])) rest
        (before ++ members) := rounds_again hround (ih before)
    exact hrounds

/-- The class or module with the name and members, and with nothing else. -/
def plainDeclaration (kind : NamespaceKind) (name : TypeName) (members : List Member) :
    Declaration :=
  match kind with
  | .class_ => .class_ name [] none members
  | .module_ => .module_ name [] [] members

inductive SpellsBlock : List Token → Declaration → Prop
  | intro {keyword last : Token} {nameTokens memberTokens : List Token} {kind : NamespaceKind}
      {name : TypeName} {members : List Member} (hkeyword : keyword.kind = .ident kind.keyword)
      (hname : kindsOf nameTokens = name.kinds) (hmembers : SpellsMembers memberTokens members)
      (hlast : last.kind = .ident "end") :
      SpellsBlock (keyword :: (nameTokens ++ (memberTokens ++ [last])))
        (plainDeclaration kind name members)

/-- A name in front of a member goes on no further. -/
theorem takes_typeName {tokens rest : List Token} {name : TypeName}
    (hname : kindsOf tokens = name.kinds) (hrest : StartsMember rest) :
    Takes Parse.typeName tokens rest name := by
  apply takes_of_reads (Parse.follows_typeName rfl)
  rw [hname]
  exact reads_typeName name (kindsOf rest) (hrest.isMark .doubleColon)

theorem takes_typeParams_none {rest : List Token} (hrest : StartsMember rest) :
    Takes (Parse.typeParams []) [] rest [] :=
  (takes_eat_none (hrest.isMark .leftBracket)).bind (.pure _ _)

/-- A class or module is read without a look at the declarations inside it: there are none. -/
theorem SpellsBlock.takes_declarationWith {tokens : List Token} {declaration : Declaration}
    (h : SpellsBlock tokens declaration) (inner : Parse.DeclarationReader) (rest : List Token) :
    Takes (Parse.declarationWith inner []) tokens rest (some declaration) := by
  cases h with
  | @intro keyword last nameTokens memberTokens kind name members hkeyword hname hmembers hlast =>
    have hbody : StartsMember (memberTokens ++ [last] ++ rest) := by
      rw [List.append_assoc]
      exact hmembers.startsMember hlast
    have hname' : Takes Parse.typeName nameTokens (memberTokens ++ [last] ++ rest) name :=
      takes_typeName hname hbody
    have hnone : ∀ mark, Takes (Parse.eat mark) [] (memberTokens ++ [last] ++ rest) false :=
      fun mark ↦ takes_eat_none (hbody.isMark mark)
    have hparams := takes_typeParams_none hbody
    have hmembers' : Takes (Parse.members inner []) (memberTokens ++ [last]) rest members :=
      hmembers.takes_members hlast inner
    cases kind with
    | class_ =>
      have hclass : Takes (Parse.classDeclaration inner []) (nameTokens ++ (memberTokens ++ [last]))
          rest (.class_ name [] none members) := by
        refine hname'.append ((hnone .equals).bind (hparams.bind ((hnone .less).bind ?_)))
        exact (Returns.pure none _).bind (hmembers'.bind (.pure _ _))
      exact (takes_eatWord hkeyword).bind (hclass.bind (.pure _ _))
    | module_ =>
      have hmodule : Takes (Parse.moduleDeclaration inner [])
          (nameTokens ++ (memberTokens ++ [last])) rest (.module_ name [] [] members) := by
        refine hname'.append ((hnone .equals).bind (hparams.bind ((hnone .colon).bind ?_)))
        exact (Returns.pure [] _).bind (hmembers'.bind (.pure _ _))
      have hclass : ∀ tail, (headKind (kindsOf (keyword :: tail))).isWord "class" = false := by
        intro tail
        rw [headKind_of_kind hkeyword tail]
        rfl
      refine (takes_eatWord_none (hclass _)).bind ((takes_eatWord hkeyword).bind ?_)
      exact hmodule.bind (.pure _ _)

/-! ## Documents -/

inductive SpellsBlocks : List Token → List Declaration → Prop
  | nil : SpellsBlocks [] []
  | cons {tokens tokens' : List Token} {declaration : Declaration} {declarations : List Declaration}
      (h : SpellsBlock tokens declaration) (h' : SpellsBlocks tokens' declarations) :
      SpellsBlocks (tokens ++ tokens') (declaration :: declarations)

theorem SpellsBlock.takes_declaration? {tokens : List Token} {declaration : Declaration}
    (h : SpellsBlock tokens declaration) (rest : List Token) :
    Takes Parse.declaration? tokens rest (some declaration) := by
  exact .get_bind fun _ _ ↦ h.takes_declarationWith _ rest

/-- The tokens of classes and modules are read as their declarations, and nothing is left. -/
theorem SpellsBlocks.takes_declarations {tokens : List Token} {declarations : List Declaration}
    (h : SpellsBlocks tokens declarations) :
    Takes Parse.declarations tokens [] declarations := by
  apply takes_iterate
  suffices hrounds : ∀ before, Rounds _ before tokens [] (before ++ declarations) from hrounds []
  induction h with
  | nil =>
    intro before
    rw [List.append_nil]
    exact .done (takes_currentKind_bind rfl (.pure _ _))
  | @cons tokens tokens' declaration declarations h _ ih =>
    intro before
    have htakes := h.takes_declaration? (tokens' ++ [])
    rw [List.append_cons before]
    cases h with
    | @intro keyword _ _ _ kind _ _ hkeyword _ _ _ =>
      have hword : ∀ tail, (headKind (kindsOf (keyword :: tail))).isWord "use" = false := by
        intro tail
        rw [headKind_of_kind hkeyword tail]
        cases kind <;> rfl
      refine rounds_again (takes_currentKind_bind hkeyword ?_) (ih _)
      refine (takes_eatWord_none (hword _)).bind ?_
      exact htakes.bind (.pure _ _)

end DeclaredMethods.Signature
