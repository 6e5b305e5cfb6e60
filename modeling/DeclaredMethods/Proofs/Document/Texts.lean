import DeclaredMethods.Namespace
import DeclaredMethods.Proofs.Document.Declarations
import DeclaredMethods.Proofs.Document.Scanning
import DeclaredMethods.Signature.Parser

/-!
# The tokens of methods and names

The texts that documents are made of, and the tokens they are cut into. Each text is followed by
something that ends it: a signature by a blank, a method name by a colon, a word by what is no part
of a word. A signature that is accepted on its own has the tokens of a method type there too.
-/

namespace DeclaredMethods.Signature

open Text (isNameStart isNameChar byteLength)

/-- Neither the end nor `...` starts a method type. -/
theorem run_methodType_ne_ok {cursor : Cursor}
    (h : ∀ mark, mark ≠ .ellipsis → cursor.atMark mark = false) (result : MethodType × Cursor) :
    (Parse.methodType []).run cursor ≠ .ok result := by
  have hnone : ∀ mark, mark ≠ .ellipsis → (Parse.eat mark).run cursor = .ok (false, cursor) :=
    fun mark hmark ↦ run_eat_of_not_atMark (h mark hmark)
  have htypeParams : (Parse.methodTypeParams []).run cursor = .ok ([], cursor) := by
    rw [Parse.methodTypeParams, run_bind_of_ok (hnone .leftBracket (by decide))]
    rfl
  have hparams : ∀ inner, (Parse.params inner).run cursor = .ok (.none, cursor) := by
    intro inner
    rw [Parse.params, run_bind_of_ok (hnone .leftParen (by decide))]
    rfl
  have hself : ∀ inner, (Parse.skipSelfBinding inner).run cursor = .ok ((), cursor) := by
    intro inner
    simp only [Parse.skipSelfBinding, StateT.run_bind, StateT.run_get, pure_bind,
      h .leftBracket (by decide)]
    rfl
  have hblock : ∀ inner, (Parse.block? inner).run cursor = .ok (none, cursor) := by
    intro inner
    simp only [Parse.block?, StateT.run_bind, StateT.run_get, pure_bind, h .question (by decide),
      h .leftBrace (by decide)]
    rfl
  have harrow : ∀ expected, ∃ error,
      (Parse.expect .arrow expected).run cursor = .error error := by
    intro expected
    simp only [Parse.expect, StateT.run_bind, StateT.run_get, pure_bind, h .arrow (by decide)]
    exact ⟨_, rfl⟩
  rw [Parse.methodType, run_bind_of_ok htypeParams, Parse.function, run_bind_of_ok (hparams _),
    run_bind_of_ok (hself _), run_bind_of_ok (hblock _), StateT.run_bind]
  obtain ⟨error, herror⟩ := harrow "`->`"
  rw [herror]
  rintro ⟨⟩

theorem map_pieceKind?_of_firstInvalid? {scanned : List (Except Span Token)}
    (h : firstInvalid? scanned = none) :
    scanned.map pieceKind? = ((validTokens scanned).map Token.kind).map some := by
  induction scanned with
  | nil => rfl
  | cons piece scanned ih =>
    cases piece with
    | error span => cases h
    | ok token => exact congrArg (some token.kind :: ·) (ih h)

/-- A reading that has come to its end stands in front of no token. -/
theorem run_expectEnd {cursor after : Cursor} {expected : String}
    (h : (Parse.expectEnd expected).run cursor = .ok ((), after)) :
    cursor.current.kind.isEof = true := by
  cases hend : cursor.current.kind.isEof with
  | true => rfl
  | false =>
    have hfail : (Parse.expectEnd expected).run cursor = (Parse.fail expected).run cursor := by
      rw [Parse.expectEnd, Parse.currentKind]
      simp [hend]
    rw [hfail] at h
    cases h

/-- At the end of a text there is no token left. -/
theorem kinds_eq_nil_of_isEof {text : String} {kinds : List TokenKind}
    (hpieces : pieces text.toList = kinds.map some) {count : Nat}
    (h : (headKind (kinds.drop count)).isEof = true) : kinds.drop count = [] := by
  cases hdrop : kinds.drop count with
  | nil => rfl
  | cons first rest =>
    rw [hdrop] at h
    have hfirst : first = .eof := by
      cases first <;> first | rfl | cases h
    have hmem : first ∈ kinds := List.mem_of_mem_drop (hdrop ▸ List.mem_cons_self)
    exact absurd (hpieces ▸ List.mem_map_of_mem (hfirst ▸ hmem)) (eof_not_mem_pieces text.toList)

/-- An accepted signature has a method type as its tokens, wherever a method type may stand. -/
theorem scans_signature {text : String} {method : MethodType} (hcomment : '#' ∉ text.toList)
    (h : parseMethodType text = .ok method) :
    Scans startsBlank text.toList fun _ tokens ↦ Signs tokens method := by
  obtain ⟨hvalid, after, hrun⟩ := parseAll_eq_ok_iff.1 h
  obtain ⟨method', middle, hmethod, hrest⟩ := run_bind_eq_ok hrun
  obtain ⟨⟨⟩, middle', hend, hpure⟩ := run_bind_eq_ok hrest
  cases hpure
  have hpieces : pieces text.toList = (Cursor.start text).kinds.map some :=
    map_pieceKind?_of_firstInvalid? hvalid
  have hread : middle.kinds = [] := by
    have hself : Beside [] (.start text) (.start text) := (List.append_nil _).symm
    obtain ⟨count, -, -, rfl, -⟩ :=
      (Parse.follows_methodType rfl [] (.start text) _ hself).exists_count hmethod
    have hkind := run_expectEnd hend
    rw [Cursor.kind_current, Cursor.kinds_skip] at hkind
    rw [Cursor.kinds_skip]
    exact kinds_eq_nil_of_isEof hpieces hkind
  refine (scans_of_pieces hcomment hpieces).mono (fun _ ↦ id) fun _ tokens htokens ↦ ⟨?_, ?_⟩
  · refine fun rest hfollow ↦ .of_run fun cursor hcursor ↦ ?_
    have hbeside : Beside (kindsOf rest) (.start text) cursor := by
      rw [Beside, ← htokens, Cursor.kinds, hcursor, List.map_append, kindsOf]
    have hlong := (Parse.follows_methodType hfollow []).run_eq_ok hbeside hmethod hread
    refine ⟨_, hlong, ?_⟩
    rw [← htokens, List.length_map, Cursor.upcoming_skip, hcursor, List.drop_left]
  · have hmark : ∀ mark, (Cursor.start text).atMark mark =
        (headKind (kindsOf tokens)).isMark mark := by
      intro mark
      rw [Cursor.atMark, Cursor.kind_current, ← htokens, kindsOf]
    cases tokens with
    | nil => exact absurd hmethod (run_methodType_ne_ok (fun mark _ ↦ hmark mark) _)
    | cons first tail =>
      refine ⟨first, tail, rfl, fun hellipsis ↦ run_methodType_ne_ok (fun mark hne ↦ ?_) _ hmethod⟩
      rw [hmark, headKind_of_kind hellipsis]
      exact isMark_eq_false fun heq ↦ hne (TokenKind.mark.inj heq).symm

/-- A word with a blank behind it. -/
theorem scans_word_blank {word : String} {blank : Char} (hword : isWord word.toList = true)
    (hblank : isGap blank = true) :
    Scans (fun _ ↦ true) (word.toList ++ [blank]) fun _ tokens ↦
      ∃ token, tokens = [token] ∧ token.kind = .ident word := by
  refine (scans_word hword).append (scans_blank hblank) (fun rest _ ↦ ?_) ?_
  · exact avoids_isNameChar hblank
  · rintro offset tokens tokens' rfl rfl
    exact ⟨_, rfl, rfl⟩

/-- A blank in front of a text shows in the places only. -/
theorem Scans.afterBlank {follows : List Char → Bool} {text : List Char} {blank : Char}
    {spec : List Token → Prop} (h : Scans follows text fun _ ↦ spec) (hblank : isGap blank = true) :
    Scans follows (blank :: text) fun _ ↦ spec := by
  refine (scans_blank hblank).append h (fun _ _ ↦ rfl) ?_
  rintro _ tokens tokens' rfl htokens'
  exact htokens'

/-- A text that ends in front of a blank, with the blank. -/
theorem Scans.beforeBlank {text : List Char} {blank : Char} {spec : List Token → Prop}
    (h : Scans startsBlank text fun _ ↦ spec) (hblank : isGap blank = true) :
    Scans (fun _ ↦ true) (text ++ [blank]) fun _ ↦ spec := by
  refine h.append (scans_blank hblank) (fun _ _ ↦ hblank) ?_
  rintro _ tokens tokens' htokens rfl
  rwa [List.append_nil]

/-- A mark of one character with a blank behind it. -/
theorem scans_mark_blank {first : Char} {mark : Mark}
    (h : ∀ rest, lexemeAt first (' ' :: rest) = ⟨1, .token (.mark mark)⟩) :
    Scans (fun _ ↦ true) [first, ' '] fun _ tokens ↦
      ∃ token, tokens = [token] ∧ token.kind = .mark mark := by
  have hmark : Scans (fun rest ↦ rest.head? == some ' ') [first] fun offset tokens ↦
      tokens = [tokenAt offset (.mark mark) [first]] := by
    refine scans_lexeme fun rest hrest ↦ ?_
    cases rest with
    | nil => cases hrest
    | cons c rest =>
      obtain rfl : c = ' ' := Option.some.inj (eq_of_beq hrest)
      exact h rest
  have hblank : isGap ' ' = true := by decide
  refine hmark.append (scans_blank hblank) (fun _ _ ↦ rfl) ?_
  rintro offset tokens tokens' rfl rfl
  exact ⟨_, rfl, rfl⟩

/-- A name that a method can be declared under: a word other than `self`, and the mark that may end
it. -/
def isMethodName (name : String) : Prop :=
  ∃ word suffix : String, name = word ++ suffix ∧ isWord word.toList = true ∧ word ≠ "self" ∧
    suffix ∈ ["", "?", "!", "="]

/-- Whether a text goes on with a colon, as behind a method name. -/
def startsColon (text : List Char) : Bool :=
  text.head? == some ':'

theorem exists_of_startsColon {text : List Char} (h : startsColon text = true) :
    ∃ rest, text = ':' :: rest := by
  cases text with
  | nil => cases h
  | cons c rest =>
    obtain rfl : c = ':' := Option.some.inj (eq_of_beq h)
    exact ⟨rest, rfl⟩

/-- A word in front of a colon is the name of a method. -/
theorem scans_plainName {word : String} (hword : isWord word.toList = true) :
    Scans startsColon word.toList fun _ tokens ↦
      Spells tokens word ∧ headKind (kindsOf tokens) = .ident word := by
  refine (scans_word hword).mono (fun rest hrest ↦ ?_) ?_
  · obtain ⟨rest, rfl⟩ := exists_of_startsColon hrest
    rfl
  · rintro offset tokens rfl
    exact ⟨.word rfl, rfl⟩

/-- A word and the mark that touches it make up the name of a method. -/
theorem scans_suffixedName {word : String} {suffix : Char} {mark : Mark}
    (hword : isWord word.toList = true) (hmark : mark.isNameSuffix = true)
    (hsuffix : isNameChar suffix = false)
    (hlexeme : ∀ rest, lexemeAt suffix (':' :: rest) = ⟨1, .token (.mark mark)⟩) :
    Scans startsColon (word.toList ++ [suffix]) fun _ tokens ↦
      Spells tokens (word ++ String.ofList [suffix]) ∧
        headKind (kindsOf tokens) = .ident word := by
  have hscans : Scans startsColon [suffix] fun offset tokens ↦
      tokens = [tokenAt offset (.mark mark) [suffix]] := by
    refine scans_lexeme fun rest hrest ↦ ?_
    obtain ⟨rest, rfl⟩ := exists_of_startsColon hrest
    exact hlexeme rest
  refine (scans_word hword).append hscans (fun rest _ ↦ ?_) ?_
  · rw [avoids, List.cons_append, List.head?_cons, Option.any_some, hsuffix]
    rfl
  · rintro offset tokens tokens' rfl rfl
    exact ⟨.suffixed rfl rfl hmark rfl (by simp [tokenAt]), rfl⟩

/-- The tokens of a method name, which touch. -/
theorem scans_methodName {name : String} (hname : isMethodName name) :
    Scans startsColon name.toList fun _ tokens ↦
      Spells tokens name ∧ (headKind (kindsOf tokens)).isWord "self" = false := by
  obtain ⟨word, suffix, rfl, hword, hself, hsuffix⟩ := hname
  suffices hscans : Scans startsColon (word ++ suffix).toList fun _ tokens ↦
      Spells tokens (word ++ suffix) ∧ headKind (kindsOf tokens) = .ident word by
    refine hscans.mono (fun _ ↦ id) ?_
    rintro _ tokens ⟨hspells, hhead⟩
    rw [hhead]
    exact ⟨hspells, beq_eq_false_iff_ne.2 hself⟩
  rw [String.toList_append]
  simp only [List.mem_cons, List.not_mem_nil, or_false] at hsuffix
  rcases hsuffix with rfl | rfl | rfl | rfl
  · rw [String.append_empty, String.toList_empty, List.append_nil]
    exact scans_plainName hword
  · exact scans_suffixedName hword rfl rfl fun _ ↦ rfl
  · exact scans_suffixedName hword rfl rfl fun _ ↦ rfl
  · exact scans_suffixedName hword rfl rfl fun _ ↦ rfl

/-- How it is written that a method belongs to the class itself, or to its instances. -/
def scopeText (onClass : Bool) : String :=
  if onClass then "self." else ""

/-- What a method belongs to. -/
def memberScopeOf (onClass : Bool) : MemberScope :=
  if onClass then .singleton else .instance_

theorem lexemeAt_dot {rest : List Char} (hrest : avoids (· == '.') rest = true) :
    lexemeAt '.' rest = ⟨1, .token (.mark .dot)⟩ := by
  have hmark : markLexeme ('.' :: rest) = ⟨1, .token (.mark .dot)⟩ := by
    cases rest with
    | nil => rfl
    | cons c rest =>
      have hc : ('.' == c) = false := by
        rw [beq_eq_false_iff_ne]
        rintro rfl
        cases hrest
      simp [markLexeme, Mark.byLength, Mark.spelling, List.isPrefixOf, hc]
  exact hmark

/-- What says that a method belongs to the class itself is read as such. -/
theorem scans_scope (onClass : Bool) :
    Scans (avoids (· == '.')) (scopeText onClass).toList fun _ tokens ↦
      SpellsScope tokens (memberScopeOf onClass) := by
  cases onClass with
  | false =>
    refine (scans_nil _).mono (fun _ ↦ id) ?_
    rintro _ tokens rfl
    exact .instance_
  | true =>
    have hself : isWord "self".toList = true := by decide
    have hdot : Scans (avoids (· == '.')) ['.'] fun offset tokens ↦
        tokens = [tokenAt offset (.mark .dot) ['.']] :=
      scans_lexeme fun _ hrest ↦ lexemeAt_dot hrest
    refine (scans_word hself).append hdot (fun _ _ ↦ rfl) ?_
    rintro offset tokens tokens' rfl rfl
    exact .singleton rfl rfl

/-- A signature without a comment that is read as a method type. -/
def Accepted (signature : String) (method : MethodType) : Prop :=
  '#' ∉ signature.toList ∧ parseMethodType signature = .ok method

theorem scans_bar : Scans (fun _ ↦ true) " | ".toList fun _ tokens ↦
    ∃ token, tokens = [token] ∧ token.kind = .mark .pipe := by
  have hblank : isGap ' ' = true := by decide
  refine (scans_blank hblank).append (scans_mark_blank fun _ ↦ rfl) (fun _ ↦ id) ?_
  rintro offset tokens tokens' rfl htokens'
  exact htokens'

/-- The tokens of several signatures with bars between them. -/
theorem scans_signatures {signatures : List String} {methods : List MethodType}
    (h : List.Forall₂ Accepted signatures methods) (hne : signatures ≠ []) :
    Scans startsBlank (" | ".intercalate signatures).toList fun _ tokens ↦
      SignAll tokens methods := by
  rw [String.toList_intercalate]
  induction h with
  | nil => exact absurd rfl hne
  | @cons signature method signatures methods hfirst hrest ih =>
    have hscans := scans_signature hfirst.1 hfirst.2
    rw [List.map_cons]
    cases signatures with
    | nil =>
      cases hrest
      rw [List.map_nil, List.intercalate_singleton]
      exact hscans.mono (fun _ ↦ id) fun _ _ ↦ SignAll.single
    | cons second signatures =>
      have hbehind : Scans startsBlank (" | ".toList ++ " | ".toList.intercalate
          ((second :: signatures).map String.toList)) fun _ tokens ↦ ∃ bar tokens',
            tokens = bar :: tokens' ∧ bar.kind = .mark .pipe ∧ SignAll tokens' methods := by
        refine scans_bar.append (ih (List.cons_ne_nil _ _)) (fun _ _ ↦ rfl) ?_
        rintro _ tokens tokens' ⟨bar, rfl, hbar⟩ htokens'
        exact ⟨bar, tokens', rfl, hbar, htokens'⟩
      rw [List.map_cons, List.intercalate_cons_cons, List.append_assoc, ← List.map_cons]
      refine hscans.append hbehind (fun _ _ ↦ rfl) ?_
      rintro _ tokens _ htokens ⟨bar, tokens', rfl, hbar, htokens'⟩
      exact .cons htokens hbar htokens'

/-- A method name does not start with a dot, so the one in front of it stands alone. -/
theorem isMethodName.avoids_dot {name : String} (hname : isMethodName name) (rest : List Char) :
    avoids (· == '.') (name.toList ++ rest) = true := by
  obtain ⟨word, suffix, rfl, hword, -, -⟩ := hname
  obtain ⟨first, text, hchars, hfirst, -⟩ := exists_cons_of_isWord hword
  have hdot : (first == '.') = false := by
    rw [beq_eq_false_iff_ne]
    rintro rfl
    cases hfirst
  rw [String.toList_append, List.append_assoc, hchars, avoids, List.cons_append, List.head?_cons,
    Option.any_some, hdot]
  rfl

/-- The tokens of a method behind its visibility. -/
theorem scans_method {name : String} {signatures : List String} {overloads : List MethodType}
    (hname : isMethodName name) (hsigns : List.Forall₂ Accepted signatures overloads)
    (hne : signatures ≠ []) (onClass : Bool) :
    Scans startsBlank ("def ".toList ++ ((scopeText onClass).toList ++ (name.toList ++
        (": ".toList ++ (" | ".intercalate signatures).toList)))) fun _ tokens ↦
      SpellsMethod tokens (.method name (memberScopeOf onClass) overloads false) := by
  have hcolon : Scans (fun _ ↦ true) ": ".toList fun _ tokens ↦
      ∃ colon, tokens = [colon] ∧ colon.kind = .mark .colon := scans_mark_blank fun _ ↦ rfl
  have hword : isWord "def".toList = true := by decide
  have hdef : Scans (fun _ ↦ true) "def ".toList fun _ tokens ↦
      ∃ keyword, tokens = [keyword] ∧ keyword.kind = .ident "def" :=
    scans_word_blank hword rfl
  have hnamed := (scans_methodName hname).join (hcolon.join (scans_signatures hsigns hne)
    fun _ _ ↦ rfl) fun _ _ ↦ rfl
  have hscoped := (scans_scope onClass).join hnamed fun rest _ ↦ by
    rw [List.append_assoc]
    exact hname.avoids_dot _
  refine (hdef.join hscoped fun _ _ ↦ rfl).mono (fun _ ↦ id) ?_
  rintro _ _ ⟨_, _, rfl, ⟨keyword, rfl, hkeyword⟩, _, _, rfl, hscope, _, _, rfl, ⟨hspells, hself⟩,
    _, _, rfl, ⟨colon, rfl, hcolon⟩, hsigns⟩
  exact .intro hkeyword hscope hspells hself hcolon hsigns

/-- The tokens of the visibility of a method. -/
theorem scans_visibility (isPrivate : Bool) :
    Scans (fun _ ↦ true) (if isPrivate then "private " else "").toList fun _ tokens ↦
      ∀ behind members, SpellsMembers behind members →
        SpellsMembers (tokens ++ behind) members := by
  cases isPrivate with
  | false =>
    refine (scans_nil _).mono (fun _ ↦ id) ?_
    rintro _ tokens rfl behind members hbehind
    exact hbehind
  | true =>
    have hword : isWord "private".toList = true := by decide
    have hblank : isGap ' ' = true := by decide
    refine (scans_word_blank hword hblank).mono (fun _ ↦ id) ?_
    rintro _ tokens ⟨token, rfl, hkind⟩ behind members hbehind
    exact .visibility hkind hbehind

theorem hash_not_mem_of_isWord {word : List Char} (hword : isWord word = true) : '#' ∉ word := by
  obtain ⟨first, text, rfl, hfirst, htext⟩ := exists_cons_of_isWord hword
  intro hmem
  rcases List.mem_cons.1 hmem with rfl | hmem
  · cases hfirst
  · cases List.all_eq_true.1 htext '#' hmem

/-- The name of a namespace starts no comment. -/
theorem hash_not_mem_joinSegments {segments : List String}
    (h : ∀ segment ∈ segments, isWord segment.toList = true) :
    '#' ∉ (joinSegments segments).toList := by
  rw [joinSegments, String.toList_intercalate]
  induction segments with
  | nil => exact List.not_mem_nil
  | cons segment segments ih =>
    have hsegment := hash_not_mem_of_isWord (h segment List.mem_cons_self)
    have hrest := ih fun segment hsegment ↦ h segment (List.mem_cons_of_mem _ hsegment)
    cases segments with
    | nil => simpa using hsegment
    | cons second segments =>
      rw [List.map_cons, List.map_cons, List.intercalate_cons_cons, ← List.map_cons]
      simpa [hsegment] using hrest

/-- The tokens of the name of a namespace. -/
theorem scans_namespace {path : Namespace} {name : TypeName}
    (hname : TypeName.ofSegments? false path.segments = some name)
    (hwords : ∀ segment ∈ path.segments, isWord segment.toList = true) :
    Scans startsBlank path.text.toList fun _ tokens ↦ kindsOf tokens = name.kinds := by
  obtain ⟨last, hlast, rfl⟩ := Option.map_eq_some_iff.1 hname
  have hsegments : path.segments.dropLast ++ [last] = path.segments :=
    List.dropLast_append_getLast? last hlast
  have hpieces : pieces path.text.toList =
      (TypeName.kinds ⟨path.segments.dropLast, last, false⟩).map some := by
    have hhasWords : TypeName.hasWords ⟨path.segments.dropLast, last, false⟩ = true := by
      rw [TypeName.hasWords, TypeName.segments, hsegments]
      exact List.all_eq_true.2 hwords
    have hlexes := TypeName.lexes ⟨path.segments.dropLast, last, false⟩ hhasWords [] rfl
    have htext : TypeName.text ⟨path.segments.dropLast, last, false⟩ = path.text := by
      rw [TypeName.text, TypeName.segments, hsegments]
      exact String.empty_append
    rwa [List.append_nil, pieces_nil, List.append_nil, htext] at hlexes
  exact scans_of_pieces (hash_not_mem_joinSegments hwords) hpieces

end DeclaredMethods.Signature
