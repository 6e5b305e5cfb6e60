import DeclaredMethods.Proofs.RoundTrip.Canonical

/-!
# The tokens of canonical types

The text of a canonical type is cut into the tokens of its parts and the marks between them,
whatever text follows, as long as what follows does not go on the last word. So the tokens of a
type are known from those of its components, one equation for each form of type.
-/

namespace DeclaredMethods.Signature

open Text (isNameStart isNameChar)

/-- Whether a text can follow any type. -/
def separates (rest : List Char) : Bool :=
  avoids (fun c ↦ isNameChar c || endsSymbol c) rest

theorem avoids_isNameChar_of_separates (rest : List Char) (hrest : separates rest = true) :
    avoids isNameChar rest = true :=
  avoids_mono _ _ rest (fun _ hc ↦ Bool.or_eq_true _ _ ▸ .inl hc) hrest

/-- A text has the given tokens in front of every text that `follows` allows. -/
def Lexes (follows : List Char → Bool) (text : List Char) (kinds : List TokenKind) : Prop :=
  ∀ rest, follows rest = true → pieces (text ++ rest) = kinds.map some ++ pieces rest

theorem Lexes.mono {follows follows' : List Char → Bool} {text : List Char}
    {kinds : List TokenKind} (h : Lexes follows text kinds)
    (hfollows : ∀ rest, follows' rest = true → follows rest = true) :
    Lexes follows' text kinds :=
  fun rest hrest ↦ h rest (hfollows rest hrest)

/-- Texts are split one after the other if what follows the first one allows it. -/
theorem Lexes.append {follows follows' : List Char → Bool} {text text' : List Char}
    {kinds kinds' : List TokenKind} (h : Lexes follows text kinds)
    (h' : Lexes follows' text' kinds')
    (hfollows : ∀ rest, follows' rest = true → follows (text' ++ rest) = true) :
    Lexes follows' (text ++ text') (kinds ++ kinds') := by
  intro rest hrest
  rw [List.append_assoc, h _ (hfollows rest hrest), h' rest hrest, List.map_append,
    List.append_assoc]

theorem lexes_nil (follows : List Char → Bool) : Lexes follows [] [] :=
  fun _ _ ↦ rfl

/-- A text that may be followed by anything. -/
def anything (_ : List Char) : Bool := true

theorem lexes_token {text : List Char} {kind : TokenKind}
    (h : ∀ rest, pieces (text ++ rest) = some kind :: pieces rest) : Lexes anything text [kind] :=
  fun rest _ ↦ h rest

theorem lexes_mark (mark : Mark) (halone : mark.standsAlone = true) :
    Lexes anything mark.spelling [.mark mark] :=
  lexes_token fun rest ↦ pieces_standsAlone mark rest halone

/-- A word may stand in front of anything that does not make it longer. -/
theorem lexes_word (word : String) (hword : isWord word.toList = true) :
    Lexes (avoids isNameChar) word.toList [.ident word] := by
  intro rest hrest
  rw [pieces_word word.toList rest hword hrest, String.ofList_toList]
  rfl

/-- Items with a separator between them have the tokens of the items with a mark between them. -/
theorem lexes_intercalate {α : Type} (follows : List Char → Bool) (separator : List Char)
    (mark : Mark) (text : α → List Char) (kinds : α → List TokenKind)
    (hseparator : ∀ rest, pieces (separator ++ rest) = some (.mark mark) :: pieces rest)
    (hfollows : ∀ rest, follows (separator ++ rest) = true)
    (items : List α) (hitems : ∀ item ∈ items, Lexes follows (text item) (kinds item)) :
    Lexes follows (separator.intercalate (items.map text))
      ([TokenKind.mark mark].intercalate (items.map kinds)) := by
  induction items with
  | nil => exact lexes_nil follows
  | cons first items ih =>
    have hfirst := hitems first List.mem_cons_self
    have hrest := ih fun item hitem ↦ hitems item (List.mem_cons_of_mem _ hitem)
    cases items with
    | nil => simpa using hfirst
    | cons second items =>
      rw [List.map_cons, List.map_cons, List.map_cons, List.map_cons,
        List.intercalate_cons_cons, List.intercalate_cons_cons]
      have hlead := hfirst.append (lexes_token hseparator) (fun rest _ ↦ hfollows rest)
      exact hlead.append hrest fun _ _ ↦ rfl

def TypeName.kinds (name : TypeName) : List TokenKind :=
  (if name.absolute then [.mark .doubleColon] else []) ++
    [TokenKind.mark .doubleColon].intercalate (name.segments.map fun segment ↦ [.ident segment])

theorem TypeName.lexes (name : TypeName) (hwords : name.hasWords = true) :
    Lexes (avoids isNameChar) name.text.toList name.kinds := by
  have hsegments := lexes_intercalate (avoids isNameChar) [':', ':'] .doubleColon String.toList
    (fun segment ↦ [.ident segment]) pieces_doubleColon (fun _ ↦ rfl) name.segments
    (fun segment hsegment ↦ lexes_word segment (List.all_eq_true.1 hwords segment hsegment))
  have hroot : Lexes anything (if name.absolute then "::" else "").toList
      (if name.absolute then [.mark .doubleColon] else []) := by
    split
    · exact lexes_token pieces_doubleColon
    · exact lexes_nil anything
  rw [TypeName.text, joinSegments, String.toList_append, String.toList_intercalate]
  exact hroot.append hsegments fun _ _ ↦ rfl

/-! ## Types -/

namespace TypeExpr

def kinds (type : TypeExpr) : List TokenKind :=
  (pieces type.text.toList).filterMap id

/-- Whether a text can follow a type. A union, an intersection or a proc may end in a symbol. -/
def mayPrecede (type : TypeExpr) (rest : List Char) : Bool :=
  if type.isCompound || type.isSymbol then separates rest else avoids isNameChar rest

theorem mayPrecede_of_separates (type : TypeExpr) (rest : List Char)
    (hrest : separates rest = true) : type.mayPrecede rest = true := by
  unfold mayPrecede
  split
  · exact hrest
  · exact avoids_isNameChar_of_separates rest hrest

theorem kinds_eq_of_lexes {type : TypeExpr} {kinds : List TokenKind}
    (h : Lexes type.mayPrecede type.text.toList kinds) : type.kinds = kinds := by
  have hpieces := h [] (type.mayPrecede_of_separates [] rfl)
  rw [List.append_nil, pieces_nil, List.append_nil] at hpieces
  rw [TypeExpr.kinds, hpieces, List.filterMap_map]
  exact List.filterMap_some

/-- A type whose text has the tokens of the type in front of every text that can follow it. -/
def Separable (type : TypeExpr) : Prop :=
  Lexes type.mayPrecede type.text.toList type.kinds

/-- A type in front of a separator is split into its own tokens. -/
theorem Separable.lexes {type : TypeExpr} (h : type.Separable) :
    Lexes separates type.text.toList type.kinds :=
  h.mono type.mayPrecede_of_separates

theorem separable_of_lexes {type : TypeExpr} {kinds : List TokenKind}
    (h : Lexes type.mayPrecede type.text.toList kinds) : type.Separable := by
  rw [Separable, kinds_eq_of_lexes h]
  exact h

theorem texts_eq_map (types : List TypeExpr) : texts types = types.map text := by
  induction types with
  | nil => rw [texts, List.map_nil]
  | cons type types ih => rw [texts, ih, List.map_cons]

end TypeExpr

def joined (mark : Mark) (groups : List (List TokenKind)) : List TokenKind :=
  [TokenKind.mark mark].intercalate groups

def enclosedIf (needed : Bool) (kinds : List TokenKind) : List TokenKind :=
  if needed then [.mark .leftParen] ++ kinds ++ [.mark .rightParen] else kinds

theorem pieces_comma (rest : List Char) :
    pieces (", ".toList ++ rest) = some (.mark .comma) :: pieces rest := by
  calc
    pieces (", ".toList ++ rest) = some (.mark .comma) :: pieces (' ' :: rest) :=
      pieces_standsAlone .comma (' ' :: rest) rfl
    _ = some (.mark .comma) :: pieces rest := by rw [pieces_blank]

/-- Items with commas between them are split item by item. -/
theorem lexes_commas {α : Type} (text : α → String) (kinds : α → List TokenKind) (items : List α)
    (hitems : ∀ item ∈ items, Lexes separates (text item).toList (kinds item)) :
    Lexes separates (", ".intercalate (items.map text)).toList
      (joined .comma (items.map kinds)) := by
  rw [String.toList_intercalate, List.map_map]
  exact lexes_intercalate separates ", ".toList .comma _ kinds pieces_comma (fun _ ↦ rfl)
    items hitems

/-- A text between two marks. -/
theorem lexes_between {opening text closing : List Char} {kinds : List TokenKind}
    {left right : Mark} (follows : List Char → Bool)
    (hopening : ∀ rest, pieces (opening ++ rest) = some (.mark left) :: pieces rest)
    (htext : Lexes follows text kinds)
    (hclosing : ∀ rest, pieces (closing ++ rest) = some (.mark right) :: pieces rest)
    (hfollows : ∀ rest, follows (closing ++ rest) = true) :
    Lexes anything (opening ++ text ++ closing) ([.mark left] ++ kinds ++ [.mark right]) :=
  ((lexes_token hopening).append htext fun _ _ ↦ rfl).append (lexes_token hclosing)
    fun rest _ ↦ hfollows rest

def argKinds (args : List TypeExpr) : List TokenKind :=
  if args.isEmpty then []
  else [.mark .leftBracket] ++ joined .comma (args.map TypeExpr.kinds) ++ [.mark .rightBracket]

theorem lexes_bracketed (args : List TypeExpr) (hargs : ∀ arg ∈ args, arg.Separable)
    (hnonempty : args.isEmpty = false) :
    Lexes anything (bracketed (TypeExpr.texts args)).toList (argKinds args) := by
  have htexts : (args.map TypeExpr.text).isEmpty = false := by
    rw [List.isEmpty_map, hnonempty]
  rw [bracketed, TypeExpr.texts_eq_map, htexts, argKinds, hnonempty]
  rw [if_neg Bool.false_ne_true, if_neg Bool.false_ne_true, String.toList_append,
    String.toList_append]
  exact lexes_between separates (fun rest ↦ pieces_standsAlone .leftBracket rest rfl)
    (lexes_commas TypeExpr.text TypeExpr.kinds args fun arg harg ↦ (hargs arg harg).lexes)
    (fun rest ↦ pieces_standsAlone .rightBracket rest rfl) (fun _ ↦ rfl)

theorem lexes_named (name : TypeName) (args : List TypeExpr) (hwords : name.hasWords = true)
    (hargs : ∀ arg ∈ args, arg.Separable) :
    Lexes (avoids isNameChar) (name.text ++ bracketed (TypeExpr.texts args)).toList
      (name.kinds ++ argKinds args) := by
  rw [String.toList_append]
  cases hempty : args.isEmpty with
  | true =>
    obtain rfl := List.isEmpty_iff.1 hempty
    exact (name.lexes hwords).append (lexes_nil _) fun _ hrest ↦ hrest
  | false =>
    apply (name.lexes hwords).append ((lexes_bracketed args hargs hempty).mono fun _ _ ↦ rfl)
    intro rest _
    rw [bracketed, TypeExpr.texts_eq_map, List.isEmpty_map, hempty]
    rw [if_neg Bool.false_ne_true, String.toList_append, String.toList_append]
    rfl

theorem pieces_pipe (rest : List Char) :
    pieces (" | ".toList ++ rest) = some (.mark .pipe) :: pieces rest := by
  calc
    pieces (" | ".toList ++ rest) = pieces ('|' :: ' ' :: rest) := pieces_blank _
    _ = some (.mark .pipe) :: pieces (' ' :: rest) := pieces_standsAlone .pipe (' ' :: rest) rfl
    _ = some (.mark .pipe) :: pieces rest := by rw [pieces_blank]

theorem pieces_ampersand (rest : List Char) :
    pieces (" & ".toList ++ rest) = some (.mark .ampersand) :: pieces rest := by
  calc
    pieces (" & ".toList ++ rest) = pieces ('&' :: ' ' :: rest) := pieces_blank _
    _ = some (.mark .ampersand) :: pieces (' ' :: rest) :=
      pieces_standsAlone .ampersand (' ' :: rest) rfl
    _ = some (.mark .ampersand) :: pieces rest := by rw [pieces_blank]

theorem pieces_leftBrace (rest : List Char) :
    pieces ("\x7b ".toList ++ rest) = some (.mark .leftBrace) :: pieces rest := by
  calc
    pieces ("\x7b ".toList ++ rest) = some (.mark .leftBrace) :: pieces (' ' :: rest) :=
      pieces_standsAlone .leftBrace (' ' :: rest) rfl
    _ = some (.mark .leftBrace) :: pieces rest := by rw [pieces_blank]

theorem pieces_rightBrace (rest : List Char) :
    pieces (" \x7d".toList ++ rest) = some (.mark .rightBrace) :: pieces rest := by
  calc
    pieces (" \x7d".toList ++ rest) = pieces ('\x7d' :: rest) := pieces_blank _
    _ = some (.mark .rightBrace) :: pieces rest := pieces_standsAlone .rightBrace rest rfl

theorem lexes_label (key : String) (hkey : isWord key.toList = true) :
    Lexes anything (key ++ ": ").toList [.ident key, .mark .colon] := by
  rw [String.toList_append]
  exact (lexes_word key hkey).append (lexes_token pieces_colon_blank) fun _ _ ↦ rfl

def LiteralType.kind : LiteralType → TokenKind
  | int value => .int value
  | str value => .str value
  | symbol name => .symbol name
  | bool value => .ident (if value then "true" else "false")

namespace TypeExpr

theorem fieldTexts_eq_map (fields : List (String × TypeExpr)) :
    fieldTexts fields = fields.map fun field ↦ field.1 ++ ": " ++ field.2.text := by
  induction fields with
  | nil => rw [fieldTexts, List.map_nil]
  | cons field fields ih => rw [fieldTexts, fieldText, ih, List.map_cons]

theorem memberTexts_eq_map (types : List TypeExpr) :
    memberTexts types = types.map fun type ↦ parenthesizedIf type.isUnion type.text := by
  induction types with
  | nil => rw [memberTexts, List.map_nil]
  | cons type types ih => rw [memberTexts, ih, List.map_cons]

theorem lexes_any : Lexes any.mayPrecede any.text.toList [.ident "untyped"] := by
  rw [text]
  exact lexes_word "untyped" (by decide)

theorem lexes_base (base : BaseType) :
    Lexes (TypeExpr.base base).mayPrecede (TypeExpr.base base).text.toList
      [.ident base.keyword] := by
  rw [text]
  exact lexes_word base.keyword (by cases base <;> decide)

theorem lexes_instance (name : TypeName) (args : List TypeExpr) (hwords : name.hasWords = true)
    (hargs : ∀ arg ∈ args, arg.Separable) :
    Lexes (instance_ name args).mayPrecede (instance_ name args).text.toList
      (name.kinds ++ argKinds args) := by
  rw [text]
  exact lexes_named name args hwords hargs

theorem lexes_interface (name : TypeName) (args : List TypeExpr) (hwords : name.hasWords = true)
    (hargs : ∀ arg ∈ args, arg.Separable) :
    Lexes (interface name args).mayPrecede (interface name args).text.toList
      (name.kinds ++ argKinds args) := by
  rw [text]
  exact lexes_named name args hwords hargs

theorem lexes_alias (name : TypeName) (args : List TypeExpr) (hwords : name.hasWords = true)
    (hargs : ∀ arg ∈ args, arg.Separable) :
    Lexes (alias_ name args).mayPrecede (alias_ name args).text.toList
      (name.kinds ++ argKinds args) := by
  rw [text]
  exact lexes_named name args hwords hargs

theorem lexes_singleton (name : TypeName) (hwords : name.hasWords = true) :
    Lexes (singleton name).mayPrecede (singleton name).text.toList
      ([.ident "singleton", .mark .leftParen] ++ name.kinds ++ [.mark .rightParen]) := by
  have hword : Lexes anything "singleton(".toList [.ident "singleton", .mark .leftParen] :=
    (lexes_word "singleton" (by decide)).append (lexes_mark .leftParen rfl) fun _ _ ↦ rfl
  have hname := hword.append (name.lexes hwords) fun _ _ ↦ rfl
  rw [text, String.toList_append, String.toList_append]
  exact (hname.append (lexes_mark .rightParen rfl) fun _ _ ↦ rfl).mono fun _ _ ↦ rfl

/-- What stands in parentheses may be followed by anything. -/
theorem Separable.lexes_parenthesizedIf {type : TypeExpr} (h : type.Separable) (needed : Bool) :
    Lexes (if needed then anything else type.mayPrecede)
      (parenthesizedIf needed type.text).toList (enclosedIf needed type.kinds) := by
  cases needed with
  | false => exact h
  | true =>
    have hbetween := lexes_between separates (fun rest ↦ pieces_standsAlone .leftParen rest rfl)
      h.lexes (fun rest ↦ pieces_standsAlone .rightParen rest rfl) (fun _ ↦ rfl)
    rw [if_pos rfl, parenthesizedIf, if_pos rfl, String.toList_append, String.toList_append]
    exact hbetween

/-- A question mark behind a symbol would be taken for a part of it. -/
theorem lexes_optional (inner : TypeExpr) (hinner : inner.Separable)
    (hsymbol : inner.isSymbol = false) :
    Lexes (optional inner).mayPrecede (optional inner).text.toList
      (enclosedIf inner.isCompound inner.kinds ++ [.mark .question]) := by
  rw [text, String.toList_append]
  apply (hinner.lexes_parenthesizedIf inner.isCompound).append
    ((lexes_mark .question rfl).mono fun _ _ ↦ rfl)
  intro rest _
  cases hcompound : inner.isCompound with
  | true => rfl
  | false =>
    rw [if_neg Bool.false_ne_true, mayPrecede, hcompound, hsymbol]
    rfl

theorem lexes_union (members : List TypeExpr) (hmembers : ∀ member ∈ members, member.Separable) :
    Lexes (union members).mayPrecede (union members).text.toList
      (joined .pipe (members.map kinds)) := by
  rw [text, texts_eq_map, String.toList_intercalate, List.map_map]
  exact lexes_intercalate separates " | ".toList .pipe _ kinds pieces_pipe (fun _ ↦ rfl) members
    fun member hmember ↦ (hmembers member hmember).lexes

theorem lexes_intersection (members : List TypeExpr)
    (hmembers : ∀ member ∈ members, member.Separable) :
    Lexes (intersection members).mayPrecede (intersection members).text.toList
      (joined .ampersand (members.map fun member ↦ enclosedIf member.isUnion member.kinds)) := by
  rw [text, memberTexts_eq_map, String.toList_intercalate, List.map_map]
  apply lexes_intercalate separates " & ".toList .ampersand _ _ pieces_ampersand (fun _ ↦ rfl)
  intro member hmember
  apply ((hmembers member hmember).lexes_parenthesizedIf member.isUnion).mono
  intro rest hrest
  split
  · rfl
  · exact member.mayPrecede_of_separates rest hrest

theorem lexes_tuple (items : List TypeExpr) (hitems : ∀ item ∈ items, item.Separable) :
    Lexes (tuple items).mayPrecede (tuple items).text.toList
      ([.mark .leftBracket] ++ joined .comma (items.map kinds) ++ [.mark .rightBracket]) := by
  have hbetween := lexes_between separates (fun rest ↦ pieces_standsAlone .leftBracket rest rfl)
    (lexes_commas text kinds items fun item hitem ↦ (hitems item hitem).lexes)
    (fun rest ↦ pieces_standsAlone .rightBracket rest rfl) (fun _ ↦ rfl)
  rw [text]
  cases items with
  | nil =>
    have hclosing : ∀ rest, pieces (" ]".toList ++ rest) =
        some (.mark .rightBracket) :: pieces rest :=
      fun rest ↦ (pieces_blank _).trans (pieces_standsAlone .rightBracket rest rfl)
    rw [List.isEmpty_nil, if_pos rfl]
    exact (lexes_between anything (fun rest ↦ pieces_standsAlone .leftBracket rest rfl)
      (lexes_nil anything) hclosing (fun _ ↦ rfl)).mono fun _ _ ↦ rfl
  | cons item items =>
    rw [texts_eq_map, if_neg (by simp), String.toList_append, String.toList_append]
    exact hbetween.mono fun _ _ ↦ rfl

/-- Keys of a record are words, so the colon behind them is a mark. -/
theorem lexes_record (fields : List (String × TypeExpr))
    (hkeys : fields.all (fun field ↦ isWord field.1.toList) = true)
    (hfields : ∀ field ∈ fields, field.2.Separable) :
    Lexes (record fields).mayPrecede (record fields).text.toList
      ([.mark .leftBrace] ++
        joined .comma (fields.map fun field ↦ [.ident field.1, .mark .colon] ++ field.2.kinds) ++
        [.mark .rightBrace]) := by
  have hcommas := lexes_commas (fun field : String × TypeExpr ↦ field.1 ++ ": " ++ field.2.text)
    (fun field ↦ [.ident field.1, .mark .colon] ++ field.2.kinds) fields (by
      intro field hfield
      rw [String.toList_append]
      exact (lexes_label field.1 (List.all_eq_true.1 hkeys field hfield)).append
        (hfields field hfield).lexes fun _ _ ↦ rfl)
  have hbetween := lexes_between separates pieces_leftBrace hcommas pieces_rightBrace (fun _ ↦ rfl)
  rw [text]
  cases fields with
  | nil =>
    rw [List.isEmpty_nil, if_pos rfl]
    exact (lexes_between anything (fun rest ↦ pieces_standsAlone .leftBrace rest rfl)
      (lexes_nil anything) pieces_rightBrace (fun _ ↦ rfl)).mono fun _ _ ↦ rfl
  | cons field fields =>
    rw [fieldTexts_eq_map, if_neg (by simp), String.toList_append, String.toList_append]
    exact hbetween.mono fun _ _ ↦ rfl

theorem lexes_literal (value : LiteralType) (hfits : value.fits = true) :
    Lexes (literal value).mayPrecede (literal value).text.toList [value.kind] := by
  rw [text]
  intro rest hrest
  cases value with
  | int value =>
    rw [LiteralType.fits, Bool.and_eq_true, decide_eq_true_iff, decide_eq_true_iff] at hfits
    exact pieces_int value rest hfits.1 hfits.2 hrest
  | str value => exact pieces_quote value rest hfits
  | symbol name =>
    rw [LiteralType.text, String.toList_append]
    exact pieces_symbol name rest hfits hrest
  | bool value =>
    cases value with
    | false => exact lexes_word "false" (by decide) rest hrest
    | true => exact lexes_word "true" (by decide) rest hrest

theorem lexes_variable (name : String) (hword : isWord name.toList = true) :
    Lexes (variable_ name).mayPrecede (variable_ name).text.toList [.ident name] := by
  rw [text]
  exact lexes_word name hword

end TypeExpr

namespace Role

/-- What is written in front of a parameter. -/
def text : Role → String
  | required | trailing => ""
  | optional => "?"
  | rest => "*"
  | keyword key => key ++ ": "
  | optionalKeyword key => "?" ++ (key ++ ": ")
  | restKeywords => "**"

def kinds : Role → List TokenKind
  | required | trailing => []
  | optional => [.mark .question]
  | rest => [.mark .star]
  | keyword key => [.ident key, .mark .colon]
  | optionalKeyword key => [.mark .question, .ident key, .mark .colon]
  | restKeywords => [.mark .doubleStar]

end Role

/-- The tokens of a parameter without its role. -/
def Param.kinds (param : Param) : List TokenKind :=
  param.type.kinds ++ param.name.toList.map .ident

def Params.kinds (params : Params) : List TokenKind :=
  joined .comma (params.entries.map fun entry ↦ entry.1.kinds ++ entry.2.kinds)

theorem Param.texts_eq_map (mark : String) (params : List Param) :
    Param.texts mark params = params.map fun param ↦ mark ++ param.text := by
  induction params with
  | nil => rw [Param.texts, List.map_nil]
  | cons param params ih => rw [Param.texts, ih, List.map_cons]

theorem Param.text?_eq_map (mark : String) (param : Option Param) :
    Param.text? mark param = param.toList.map fun param ↦ mark ++ param.text := by
  cases param with
  | none => rw [Param.text?]; rfl
  | some param => rw [Param.text?]; rfl

theorem Param.keywordTexts_eq_map (mark : String) (entries : List (String × Param)) :
    Param.keywordTexts mark entries =
      entries.map fun entry ↦ mark ++ (entry.1 ++ ": " ++ entry.2.text) := by
  induction entries with
  | nil => rw [Param.keywordTexts, List.map_nil]
  | cons entry entries ih =>
    rw [Param.keywordTexts, Param.keywordText, ih, List.map_cons]

theorem Params.text_eq (params : Params) :
    params.text =
      ", ".intercalate (params.entries.map fun entry ↦ entry.1.text ++ entry.2.text) := by
  obtain ⟨required, optional, rest, trailing, requiredKeywords, optionalKeywords, restKeywords⟩ :=
    params
  rw [Params.text]
  simp only [Params.entries, List.map_append, List.map_map, Param.texts_eq_map,
    Param.text?_eq_map, Param.keywordTexts_eq_map, Role.text, Function.comp_def,
    String.empty_append, String.append_assoc]

theorem Param.lexes (param : Param) (htype : param.type.Separable)
    (hname : param.name.all (fun name ↦ isWord name.toList) = true) :
    Lexes separates param.text.toList param.kinds := by
  obtain ⟨type, name⟩ := param
  cases name with
  | none =>
    rw [Param.text, Param.kinds, Option.toList_none, List.map_nil, List.append_nil]
    exact htype.lexes
  | some name =>
    have hblank : Lexes (avoids isNameChar) (" " ++ name).toList [.ident name] := by
      intro rest hrest
      rw [String.toList_append]
      exact (pieces_blank _).trans (lexes_word name hname rest hrest)
    rw [Param.text, String.append_assoc, String.toList_append]
    apply htype.lexes.append (hblank.mono avoids_isNameChar_of_separates)
    intro rest _
    rw [String.toList_append]
    rfl

def TokenKind.startsType : TokenKind → Bool
  | .mark found => found ∈ [.doubleColon, .leftParen, .leftBracket, .leftBrace, .caret]
  | .ident _ | .int _ | .str _ | .symbol _ => true
  | _ => false

/-- Tokens that start like a type, and not with a name and a colon as a labelled item does. -/
def Opens (kinds : List TokenKind) : Prop :=
  ∃ first rest, kinds = first :: rest ∧ first.startsType = true ∧
    (first.isIdent = true → rest.head? ≠ some (.mark .colon))

/-- The tokens of a type whose text and first tokens are known. -/
structure TypeExpr.Tokenized (type : TypeExpr) : Prop where
  separable : type.Separable
  opens : Opens type.kinds

/-- The mark of a role stands in front of the type and cannot join it. -/
theorem lexes_entry (role : Role) (param : Param) (hrole : role.fits = true)
    (htype : param.type.Tokenized)
    (hname : param.name.all (fun name ↦ isWord name.toList) = true) :
    Lexes separates (role.text ++ param.text).toList (role.kinds ++ param.kinds) := by
  have hparam := param.lexes htype.separable hname
  rw [String.toList_append]
  cases role with
  | required => exact hparam
  | trailing => exact hparam
  | optional => exact (lexes_mark .question rfl).append hparam fun _ _ ↦ rfl
  | restKeywords => exact (lexes_token pieces_doubleStar).append hparam fun _ _ ↦ rfl
  | keyword key => exact (lexes_label key hrole).append hparam fun _ _ ↦ rfl
  | optionalKeyword key =>
    have hlabel := (lexes_mark .question rfl).append (lexes_label key hrole) fun _ _ ↦ rfl
    rw [Role.text, String.toList_append]
    exact hlabel.append hparam fun _ _ ↦ rfl
  | rest =>
    -- A star must not run into the text behind it, which starts like a type.
    obtain ⟨first, tail, hkinds, hfirst, -⟩ := htype.opens
    intro rest hrest
    have hpieces := hparam rest hrest
    have hcons : pieces (param.text.toList ++ rest) =
        some first ::
          ((tail ++ param.name.toList.map TokenKind.ident).map some ++ pieces rest) := by
      rw [hpieces, Param.kinds, hkinds]
      rfl
    have hstar := pieces_star (param.text.toList ++ rest) first _ hcons
      (by rintro rfl; exact absurd hfirst (by decide))
      (by rintro rfl; exact absurd hfirst (by decide))
    rw [hpieces] at hstar
    exact hstar

/-- The parameters in the order in which they are printed, whatever their roles. -/
theorem Params.lexes (params : Params) (hfits : params.fits = true)
    (htypes : ∀ type ∈ params.types, type.Tokenized) :
    Lexes separates params.text.toList params.kinds := by
  rw [Params.text_eq]
  apply lexes_commas (fun entry : Role × Param ↦ entry.1.text ++ entry.2.text)
  intro entry hentry
  have hfit := List.all_eq_true.1 (Bool.and_eq_true _ _ ▸ hfits).1 entry hentry
  rw [Bool.and_eq_true] at hfit
  exact lexes_entry entry.1 entry.2 hfit.1 (htypes _ (List.mem_map_of_mem hentry)) hfit.2

/-! ## Method types -/

/-- The tokens of a type that is written in parentheses if it is compound. -/
def TypeExpr.returnKinds (type : TypeExpr) : List TokenKind :=
  enclosedIf type.isCompound type.kinds

theorem TypeExpr.Separable.lexes_return {type : TypeExpr} (h : type.Separable) :
    Lexes separates (parenthesizedIf type.isCompound type.text).toList type.returnKinds := by
  apply (h.lexes_parenthesizedIf type.isCompound).mono
  intro rest hrest
  split
  · rfl
  · exact type.mayPrecede_of_separates rest hrest

theorem pieces_arrow_blanks (rest : List Char) :
    pieces (" -> ".toList ++ rest) = some (.mark .arrow) :: pieces rest := by
  calc
    pieces (" -> ".toList ++ rest) = pieces ('-' :: '>' :: ' ' :: rest) := pieces_blank _
    _ = some (.mark .arrow) :: pieces (' ' :: rest) := pieces_arrow (' ' :: rest)
    _ = some (.mark .arrow) :: pieces rest := by rw [pieces_blank]

def BlockType.kinds (block : BlockType) : List TokenKind :=
  (if block.required then [] else [.mark .question]) ++ [.mark .leftBrace, .mark .leftParen] ++
    block.params.kinds ++ [.mark .rightParen, .mark .arrow] ++ block.returnType.returnKinds ++
    [.mark .rightBrace]

theorem BlockType.lexes (block : BlockType) (hfits : block.params.fits = true)
    (htypes : ∀ type ∈ block.params.types, type.Tokenized)
    (hreturn : block.returnType.Separable) : Lexes anything block.text.toList block.kinds := by
  obtain ⟨params, returnType, required⟩ := block
  have hmark : Lexes anything (if required then "" else "?").toList
      (if required then [] else [.mark .question]) := by
    cases required with
    | false => exact lexes_mark .question rfl
    | true => exact lexes_nil anything
  have hopening : Lexes anything "\x7b (".toList [.mark .leftBrace, .mark .leftParen] :=
    (lexes_token pieces_leftBrace).append (lexes_mark .leftParen rfl) fun _ _ ↦ rfl
  have hclosing : Lexes anything ") -> ".toList [.mark .rightParen, .mark .arrow] :=
    (lexes_mark .rightParen rfl).append (lexes_token pieces_arrow_blanks) fun _ _ ↦ rfl
  have hparams := (hmark.append hopening fun _ _ ↦ rfl).append (params.lexes hfits htypes)
    fun _ _ ↦ rfl
  have harrow := (hparams.append hclosing fun _ _ ↦ rfl).append hreturn.lexes_return
    fun _ _ ↦ rfl
  rw [BlockType.text]
  simp only [String.toList_append]
  exact harrow.append (lexes_token pieces_rightBrace) fun _ _ ↦ rfl

def MethodType.functionKinds (method : MethodType) : List TokenKind :=
  [.mark .leftParen] ++ method.params.kinds ++ [.mark .rightParen] ++
    method.block.toList.flatMap BlockType.kinds ++ [.mark .arrow] ++ method.returnType.returnKinds

def typeParamKinds (names : List String) : List TokenKind :=
  if names.isEmpty then []
  else [.mark .leftBracket] ++ joined .comma (names.map fun name ↦ [.ident name]) ++
    [.mark .rightBracket]

theorem lexes_typeParams (names : List String) (hnames : names.all isTypeParam = true) :
    Lexes anything (if names.isEmpty then "" else "[" ++ ", ".intercalate names ++ "] ").toList
      (typeParamKinds names) := by
  rw [typeParamKinds]
  cases hempty : names.isEmpty with
  | true => exact lexes_nil anything
  | false =>
    have hcommas := lexes_commas id (fun name ↦ [.ident name]) names (by
      intro name hname
      have hparam := List.all_eq_true.1 hnames name hname
      rw [isTypeParam, Bool.and_eq_true, Bool.and_eq_true] at hparam
      exact (lexes_word name hparam.1.1).mono avoids_isNameChar_of_separates)
    have hclosing : ∀ rest,
        pieces ("] ".toList ++ rest) = some (.mark .rightBracket) :: pieces rest := by
      intro rest
      rw [← pieces_blank rest]
      exact pieces_standsAlone .rightBracket (' ' :: rest) rfl
    rw [List.map_id] at hcommas
    rw [if_neg Bool.false_ne_true, if_neg Bool.false_ne_true, String.toList_append,
      String.toList_append]
    exact lexes_between separates (fun rest ↦ pieces_standsAlone .leftBracket rest rfl) hcommas
      hclosing fun _ ↦ rfl

/-- A method type has the tokens of its type parameters, its parameters, its block and what it
returns. -/
theorem MethodType.lexes (method : MethodType)
    (htypeParams : method.typeParams.all isTypeParam = true) (hfits : method.paramsFit = true)
    (htypes : ∀ type ∈ method.types, type.Tokenized) :
    Lexes separates method.text.toList
      (typeParamKinds method.typeParams ++ method.functionKinds) := by
  obtain ⟨typeParams, params, block, returnType⟩ := method
  rw [paramsFit, Bool.and_eq_true] at hfits
  have hparams : Lexes separates params.text.toList params.kinds := by
    apply params.lexes hfits.1
    intro type htype
    exact htypes type (List.mem_append_left _ (List.mem_append_left _ htype))
  have hblock : Lexes anything (BlockType.text? block).toList
      (block.toList.flatMap BlockType.kinds) := by
    cases block with
    | none => rw [BlockType.text?]; exact lexes_nil anything
    | some block =>
      have hlexes : Lexes anything block.text.toList block.kinds := by
        apply block.lexes hfits.2
        · intro type htype
          exact htypes type (by simp [types, htype])
        · exact (htypes block.returnType (by simp [types])).separable
      intro rest hrest
      rw [BlockType.text?, String.toList_append, Option.toList_some, List.flatMap_singleton]
      exact (pieces_blank _).trans (hlexes rest hrest)
  have hreturn := (htypes returnType (by simp [types])).separable.lexes_return
  have hopening := (lexes_typeParams typeParams htypeParams).append (lexes_mark .leftParen rfl)
    fun _ _ ↦ rfl
  have hlist := (hopening.append hparams fun _ _ ↦ rfl).append (lexes_mark .rightParen rfl)
    fun _ _ ↦ rfl
  have harrow := (hlist.append hblock fun _ _ ↦ rfl).append (lexes_token pieces_arrow_blanks)
    fun _ _ ↦ rfl
  have hwhole := harrow.append hreturn fun _ _ ↦ rfl
  rw [MethodType.text]
  simp only [functionKinds, String.toList_append, List.append_assoc] at hwhole ⊢
  exact hwhole

theorem TypeExpr.lexes_proc (method : MethodType)
    (htypeParams : method.typeParams.isEmpty = true) (hfits : method.paramsFit = true)
    (htypes : ∀ type ∈ method.types, type.Tokenized) :
    Lexes (proc method).mayPrecede (proc method).text.toList
      (.mark .caret :: method.functionKinds) := by
  have hnone := List.isEmpty_iff.1 htypeParams
  have hmethod := method.lexes (by rw [hnone]; rfl) hfits htypes
  rw [hnone] at hmethod
  rw [TypeExpr.text, String.toList_append]
  exact (lexes_mark .caret rfl).append hmethod fun _ _ ↦ rfl

theorem opens_cons (first : TokenKind) (rest : List TokenKind) (hfirst : first.startsType = true)
    (hident : first.isIdent = false) : Opens (first :: rest) :=
  ⟨first, rest, rfl, hfirst, fun h ↦ absurd h (by rw [hident]; decide)⟩

/-- What opens a type still does with more behind it, unless that makes it a label. -/
theorem Opens.append {kinds : List TokenKind} (h : Opens kinds) (more : List TokenKind)
    (hmore : more.head? ≠ some (.mark .colon)) : Opens (kinds ++ more) := by
  obtain ⟨first, rest, rfl, hfirst, hcolon⟩ := h
  refine ⟨first, rest ++ more, rfl, hfirst, fun hident ↦ ?_⟩
  cases rest with
  | nil => exact hmore
  | cons second rest => exact hcolon hident

theorem opens_ident (name : String) : Opens [.ident name] :=
  ⟨_, _, rfl, rfl, fun _ h ↦ absurd h (by decide)⟩

/-- Groups open a type if the first one does. -/
theorem opens_joined (mark : Mark) (first : List TokenKind) (others : List (List TokenKind))
    (hmark : mark ≠ .colon) (hfirst : Opens first) : Opens (joined mark (first :: others)) := by
  rw [joined]
  cases others with
  | nil => simpa using hfirst
  | cons second others =>
    rw [List.intercalate_cons_cons, List.append_assoc]
    exact hfirst.append _ (by simpa using hmark)

theorem TypeName.opens (name : TypeName) : Opens name.kinds := by
  rw [TypeName.kinds]
  cases name.absolute with
  | true => exact opens_cons _ _ rfl rfl
  | false =>
    rw [TypeName.segments]
    cases name.path with
    | nil => exact opens_ident name.name
    | cons first path =>
      exact opens_joined .doubleColon [.ident first] _ (by decide) (opens_ident first)

theorem head?_argKinds_ne_colon (args : List TypeExpr) :
    (argKinds args).head? ≠ some (.mark .colon) := by
  rw [argKinds]
  split
  · exact nofun
  · exact fun h ↦ absurd h (by simp)

theorem opens_enclosedIf (needed : Bool) (kinds : List TokenKind) (hkinds : Opens kinds) :
    Opens (enclosedIf needed kinds) := by
  cases needed with
  | false => exact hkinds
  | true => exact opens_cons _ _ rfl rfl

/-- The tokens of a type, and that they open one. -/
theorem TypeExpr.tokenized_of_lexes {type : TypeExpr} {kinds : List TokenKind}
    (h : Lexes type.mayPrecede type.text.toList kinds) (hopens : Opens kinds) :
    type.Tokenized :=
  ⟨separable_of_lexes h, kinds_eq_of_lexes h ▸ hopens⟩

theorem TypeName.hasWords_of_fits {name : TypeName} {scope : List String} {kind : NameKind}
    {args : List TypeExpr} (h : name.fits scope kind args = true) : name.hasWords = true := by
  rw [TypeName.fits, Bool.and_eq_true, Bool.and_eq_true] at h
  exact h.1.1

theorem opens_joined_of_two (mark : Mark) (groups : List (List TokenKind)) (hmark : mark ≠ .colon)
    (hlength : 2 ≤ groups.length) (hgroups : ∀ group ∈ groups, Opens group) :
    Opens (joined mark groups) := by
  cases groups with
  | nil => exact absurd hlength (by decide)
  | cons first others =>
    exact opens_joined mark first others hmark (hgroups first List.mem_cons_self)

/-- Every canonical type is cut into the tokens that its form asks for. -/
theorem TypeExpr.Canonical.tokenized {scope : List String} (hscope : scope.all isTypeParam = true)
    {type : TypeExpr} (h : type.Canonical scope) : type.Tokenized := by
  induction h with
  | intro type hfits _ ih =>
    have hseparable : ∀ part ∈ type.components, part.Separable :=
      fun part hpart ↦ (ih part hpart).separable
    cases type with
    | any => exact tokenized_of_lexes lexes_any (opens_ident _)
    | base base => exact tokenized_of_lexes (lexes_base base) (opens_ident _)
    | instance_ name args =>
      exact tokenized_of_lexes
        (lexes_instance name args (TypeName.hasWords_of_fits hfits) hseparable)
        (name.opens.append _ (head?_argKinds_ne_colon args))
    | interface name args =>
      exact tokenized_of_lexes
        (lexes_interface name args (TypeName.hasWords_of_fits hfits) hseparable)
        (name.opens.append _ (head?_argKinds_ne_colon args))
    | alias_ name args =>
      exact tokenized_of_lexes (lexes_alias name args (TypeName.hasWords_of_fits hfits) hseparable)
        (name.opens.append _ (head?_argKinds_ne_colon args))
    | singleton name =>
      exact tokenized_of_lexes (lexes_singleton name hfits)
        ⟨_, _, rfl, rfl, fun _ h ↦ absurd h (by simp)⟩
    | optional inner =>
      rw [TypeExpr.fits, Bool.and_eq_true, Bool.not_eq_true', Bool.not_eq_true'] at hfits
      exact tokenized_of_lexes
        (lexes_optional inner (hseparable inner List.mem_cons_self) hfits.2)
        ((opens_enclosedIf _ _ (ih inner List.mem_cons_self).opens).append _ (by decide))
    | union members =>
      rw [TypeExpr.fits, Bool.and_eq_true, decide_eq_true_iff] at hfits
      apply tokenized_of_lexes (lexes_union members hseparable)
      apply opens_joined_of_two .pipe _ (by decide) (by rw [List.length_map]; exact hfits.1)
      intro group hgroup
      obtain ⟨member, hmember, rfl⟩ := List.mem_map.1 hgroup
      exact (ih member hmember).opens
    | intersection members =>
      rw [TypeExpr.fits, Bool.and_eq_true, decide_eq_true_iff] at hfits
      apply tokenized_of_lexes (lexes_intersection members hseparable)
      apply opens_joined_of_two .ampersand _ (by decide) (by rw [List.length_map]; exact hfits.1)
      intro group hgroup
      obtain ⟨member, hmember, rfl⟩ := List.mem_map.1 hgroup
      exact opens_enclosedIf _ _ (ih member hmember).opens
    | tuple items =>
      exact tokenized_of_lexes (lexes_tuple items hseparable) (opens_cons _ _ rfl rfl)
    | record fields =>
      exact tokenized_of_lexes
        (lexes_record fields hfits fun field hfield ↦ hseparable _ (List.mem_map_of_mem hfield))
        (opens_cons _ _ rfl rfl)
    | literal value =>
      apply tokenized_of_lexes (lexes_literal value hfits)
      cases value with
      | int value => exact opens_cons _ _ rfl rfl
      | str value => exact opens_cons _ _ rfl rfl
      | symbol name => exact opens_cons _ _ rfl rfl
      | bool value => exact opens_ident _
    | variable_ name =>
      have hparam := List.all_eq_true.1 hscope name (List.contains_iff_mem.1 hfits)
      rw [isTypeParam, Bool.and_eq_true, Bool.and_eq_true] at hparam
      exact tokenized_of_lexes (lexes_variable name hparam.1.1) (opens_ident _)
    | proc method =>
      rw [TypeExpr.fits, Bool.and_eq_true] at hfits
      exact tokenized_of_lexes (lexes_proc method hfits.1 hfits.2 ih) (opens_cons _ _ rfl rfl)

end DeclaredMethods.Signature
