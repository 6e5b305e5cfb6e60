import DeclaredMethods.Proofs.Delegation.Candidates
import DeclaredMethods.Proofs.Document.Scanning
import DeclaredMethods.Proofs.OrderedMap.Keys
import DeclaredMethods.Proofs.Validity.Definitions

/-!
# Reading back the text of a type name

A text is cut at every `::` from the left, so joining the pieces again gives the text whatever the
pieces are. The other way round, segments that are joined are found again if no colon stands in
them: in `A:::B` the cut is in front of the third colon, which becomes part of the second piece. An
empty segment is refused.

So a name can be told from its text if its segments are not empty and hold no colon. Such names have
different texts, also as the types that a target can return. The segments of the keys of an
environment are identifiers of the texts that are loaded: they are not empty, and they hold a colon
only if they are written between backticks.
-/

namespace DeclaredMethods.Signature

section Cutting

variable {segment piece text rest : List Char}

theorem splitColons_ne_nil (segment text : List Char) : splitColons segment text ≠ [] := by
  fun_induction splitColons segment text with
  | case1 => exact List.cons_ne_nil _ _
  | case2 => exact List.cons_ne_nil _ _
  | case3 _ _ _ _ ih => exact ih

/-- Joining the pieces of a text gives the text. -/
theorem intercalate_splitColons (segment text : List Char) :
    [':', ':'].intercalate (splitColons segment text) = segment ++ text := by
  fun_induction splitColons segment text with
  | case1 segment => rw [List.intercalate_singleton, List.append_nil]
  | case2 segment text ih =>
    rw [List.intercalate_cons_of_ne_nil (splitColons_ne_nil [] text), ih]
    simp
  | case3 segment c text _ ih => rw [ih, List.append_assoc, List.singleton_append]

theorem splitColons_cons {c : Char} (h : c ≠ ':') :
    splitColons segment (c :: text) = splitColons (segment ++ [c]) text :=
  splitColons.eq_3 segment c text fun _ hcolon _ ↦ h hcolon

/-- Characters that are no colons belong to the piece that is being read. -/
theorem splitColons_append (h : ':' ∉ piece) :
    splitColons segment (piece ++ text) = splitColons (segment ++ piece) text := by
  induction piece generalizing segment with
  | nil => rw [List.append_nil, List.nil_append]
  | cons c piece ih =>
    obtain ⟨hc, hpiece⟩ := not_or.1 (mt List.mem_cons.2 h)
    rw [List.cons_append, splitColons_cons (Ne.symm hc), ih hpiece, List.append_assoc,
      List.singleton_append]

/-- Pieces without colons that are joined are found again. -/
theorem splitColons_intercalate {pieces : List (List Char)} (hpieces : pieces ≠ [])
    (h : ∀ piece ∈ pieces, ':' ∉ piece) :
    splitColons [] ([':', ':'].intercalate pieces) = pieces := by
  induction pieces with
  | nil => exact absurd rfl hpieces
  | cons first pieces ih =>
    obtain ⟨hfirst, hothers⟩ := List.forall_mem_cons.1 h
    cases pieces with
    | nil =>
      have hlast : splitColons [] (first ++ []) = splitColons ([] ++ first) [] :=
        splitColons_append hfirst
      rw [List.append_nil] at hlast
      rw [List.intercalate_singleton, hlast]
      rfl
    | cons second pieces =>
      rw [List.intercalate_cons_cons, List.append_assoc, splitColons_append hfirst]
      exact congrArg (first :: ·) (ih (List.cons_ne_nil _ _) hothers)

end Cutting

namespace TypeName

/-! ## From a text to a name and back -/

/-- The last segment becomes the name, and those before it the path. -/
theorem segments_of_ofSegments? {absolute : Bool} {segments : List String} {name : TypeName}
    (h : ofSegments? absolute segments = some name) :
    name.segments = segments ∧ name.absolute = absolute := by
  obtain ⟨last, hlast, rfl⟩ := Option.map_eq_some_iff.1 h
  exact ⟨List.dropLast_append_getLast? last hlast, rfl⟩

theorem ofSegments?_segments (name : TypeName) :
    ofSegments? name.absolute name.segments = some name := by
  simp [ofSegments?, segments]

theorem toList_joinSegments (segments : List String) :
    (joinSegments segments).toList = [':', ':'].intercalate (segments.map String.toList) :=
  String.toList_intercalate

/-- Segments that are read from a text are the pieces of the text. -/
theorem toList_joinSegments_of_readSegments? {text : List Char} {segments : List String}
    (h : readSegments? text = some segments) : (joinSegments segments).toList = text := by
  unfold readSegments? at h
  dsimp only at h
  split at h
  · cases h
  · cases h
    have hpieces : ((splitColons [] text).map String.ofList).map String.toList =
        splitColons [] text := by simp
    rw [toList_joinSegments, hpieces, intercalate_splitColons, List.nil_append]

/-- A text that is read as a name is printed as it was. -/
theorem text_of_parse? {text : String} {name : TypeName} (h : parse? text = some name) :
    name.text = text := by
  unfold parse? at h
  rw [← String.toList_inj, TypeName.text, String.toList_append]
  split at h
  · rename_i rest htext
    obtain ⟨segments, hread, hname⟩ := Option.bind_eq_some_iff.1 h
    obtain ⟨rfl, habsolute⟩ := segments_of_ofSegments? hname
    rw [toList_joinSegments_of_readSegments? hread, habsolute, htext]
    rfl
  · obtain ⟨segments, hread, hname⟩ := Option.bind_eq_some_iff.1 h
    obtain ⟨rfl, habsolute⟩ := segments_of_ofSegments? hname
    rw [toList_joinSegments_of_readSegments? hread, habsolute]
    rfl

/-- A name whose segments are not empty and hold no colon. -/
def IsSegmented (name : TypeName) : Prop :=
  ∀ segment ∈ name.segments, segment ≠ "" ∧ ':' ∉ segment.toList

instance (name : TypeName) : Decidable name.IsSegmented :=
  inferInstanceAs (Decidable (∀ segment ∈ name.segments, segment ≠ "" ∧ ':' ∉ segment.toList))

section Segmented

variable {name other : TypeName}

theorem segments_ne_nil (name : TypeName) : name.segments ≠ [] :=
  List.append_ne_nil_of_right_ne_nil _ (List.cons_ne_nil _ _)

/-- The segments of a name are read from their text. -/
theorem IsSegmented.readSegments? (h : name.IsSegmented) :
    TypeName.readSegments? (joinSegments name.segments).toList = some name.segments := by
  have hsplit : splitColons [] (joinSegments name.segments).toList =
      name.segments.map String.toList := by
    rw [toList_joinSegments]
    refine splitColons_intercalate ?_ (List.forall_mem_map.2 fun segment hsegment ↦ ?_)
    · exact mt List.map_eq_nil_iff.1 name.segments_ne_nil
    · exact (h segment hsegment).2
  have hnonempty : (name.segments.map String.toList).any List.isEmpty = false := by
    rw [List.any_eq_false]
    refine List.forall_mem_map.2 fun segment hsegment ↦ ?_
    rw [List.isEmpty_iff, String.toList_eq_nil_iff]
    exact (h segment hsegment).1
  unfold TypeName.readSegments?
  dsimp only
  rw [hsplit, hnonempty, List.map_map]
  simp [Function.comp_def]

/-- No colon stands in front of the segments of a name. -/
theorem IsSegmented.ne_colon (h : name.IsSegmented) (text : List Char) :
    (joinSegments name.segments).toList ≠ ':' :: text := by
  rw [toList_joinSegments]
  obtain ⟨first, others, hsegments⟩ := List.exists_cons_of_ne_nil name.segments_ne_nil
  obtain ⟨hnonempty, hcolon⟩ := h first (hsegments ▸ List.mem_cons_self)
  obtain ⟨c, chars, hchars⟩ :=
    List.exists_cons_of_ne_nil (mt String.toList_eq_nil_iff.1 hnonempty)
  rw [hchars] at hcolon
  intro htext
  rw [hsegments, List.map_cons, hchars] at htext
  cases others with
  | nil => simp_all
  | cons second others => simp_all

/-- A name is read back if its segments are not empty and hold no colons. -/
theorem IsSegmented.parse?_text (h : name.IsSegmented) : parse? name.text = some name := by
  have hname := name.ofSegments?_segments
  have htext : name.text.toList =
      (if name.absolute then [':', ':'] else []) ++ (joinSegments name.segments).toList := by
    rw [TypeName.text, String.toList_append]
    split <;> rfl
  unfold parse?
  cases habsolute : name.absolute with
  | true =>
    rw [habsolute] at hname htext
    rw [htext]
    simpa [h.readSegments?] using hname
  | false =>
    rw [habsolute] at hname htext
    rw [htext]
    split
    · rename_i rest hrest
      exact absurd hrest (h.ne_colon _)
    · simpa [h.readSegments?] using hname

/-- The text of a name tells it from all others. -/
theorem IsSegmented.eq_of_text_eq (h : name.IsSegmented) (h' : other.IsSegmented)
    (htext : name.text = other.text) : name = other := by
  have hparse := h.parse?_text
  rw [htext, h'.parse?_text] at hparse
  exact (Option.some.inj hparse).symm

/-- The texts of names without repetitions are without repetitions. -/
theorem nodup_texts {names : List TypeName} (h : names.Nodup) :
    ((names.filter fun name ↦ decide name.IsSegmented).map TypeName.text).Nodup := by
  refine List.Nodup.map_on (fun name hname other hother htext ↦ ?_) (h.filter _)
  have hsegmented : name.IsSegmented := of_decide_eq_true (List.mem_filter.1 hname).2
  have hsegmented' : other.IsSegmented := of_decide_eq_true (List.mem_filter.1 hother).2
  exact hsegmented.eq_of_text_eq hsegmented' htext

end Segmented

end TypeName

section Identifiers

def WrittenInBackticks (source word : String) : Prop :=
  ∃ token ∈ validTokens (scan source),
    token.kind = .ident word ∧ token.text = "\x60" ++ word ++ "\x60"

def TokenIn (sources : List String) (kind : TokenKind) : Prop :=
  kind = .eof ∨ ∃ source ∈ sources, ∃ token ∈ validTokens (scan source), token.kind = kind

/-- A token is a lexeme of its text. -/
theorem exists_lexeme_of_mem_scanFrom {bound offset : Nat} {text : List Char} {token : Token}
    (h : .ok token ∈ scanFrom bound offset text) :
    ∃ first rest, (lexemeAt first rest).reading = .token token.kind ∧
      token.text = String.ofList ((first :: rest).take (lexemeAt first rest).length) := by
  induction bound generalizing offset text with
  | zero => cases text <;> cases h
  | succ bound ih =>
    cases text with
    | nil => cases h
    | cons first text =>
      unfold scanFrom at h
      dsimp only at h
      cases hreading : (lexemeAt first text).reading with
      | skipped =>
        rw [hreading] at h
        exact ih h
      | token kind =>
        rw [hreading] at h
        rcases List.mem_cons.1 h with hfirst | hrest
        · cases hfirst
          exact ⟨first, text, hreading, rfl⟩
        · exact ih hrest
      | invalid =>
        rw [hreading] at h
        rcases List.mem_cons.1 h with hfirst | hrest
        · cases hfirst
        · exact ih hrest

/-- An identifier is not empty, and it holds a colon only if it is written between backticks. -/
theorem TokenIn.ident {sources : List String} {word : String}
    (h : TokenIn sources (.ident word)) :
    word ≠ "" ∧ (':' ∈ word.toList → ∃ source ∈ sources, WrittenInBackticks source word) := by
  obtain ⟨source, hsource, token, htoken, hkind⟩ := h.resolve_left TokenKind.noConfusion
  obtain ⟨first, rest, hreading, htext⟩ :=
    exists_lexeme_of_mem_scanFrom (mem_of_mem_validTokens htoken)
  rw [hkind] at hreading
  obtain ⟨hword, hquoted⟩ := ident_of_lexemeAt hreading
  refine ⟨hword, fun hcolon ↦ ⟨source, hsource, token, htoken, hkind, ?_⟩⟩
  rw [htext, hquoted hcolon, ← String.toList_inj]
  simp

end Identifiers

variable {tokens : TokenKind → Prop}

/-- A name in a namespace consists of words that were written. -/
theorem TypeName.Spelled.inContext {name : TypeName} {outer : List String}
    (h : name.Spelled tokens) (houter : ∀ segment ∈ outer, tokens (.ident segment)) :
    (name.inContext outer).Spelled tokens := by
  unfold TypeName.inContext
  split
  · exact h
  · intro segment hsegment
    rw [TypeName.segments, List.append_assoc] at hsegment
    exact (List.mem_append.1 hsegment).elim (houter segment) (h segment)

/-- Keys of a table: none is there twice, and their segments are spelled with tokens. -/
structure IsTable (tokens : TokenKind → Prop) (keys : List TypeName) : Prop where
  nodup : keys.Nodup
  spelled : ∀ key ∈ keys, key.Spelled tokens

/-- Changing an entry adds its key at most. -/
theorem IsTable.alter {ν : Type} {table : OrderedMap TypeName ν} {key : TypeName}
    (h : IsTable tokens table.keys) (hkey : key.Spelled tokens) (f : Option ν → ν) :
    IsTable tokens (table.alter key f).keys where
  nodup := OrderedMap.nodup_keys_alter h.nodup key f
  spelled other hother := by
    rcases OrderedMap.mem_keys_alterEntries.1 hother with rfl | hother
    · exact hkey
    · exact h.spelled other hother

namespace Environment

def tableKeys (env : Environment) : List (List TypeName) :=
  [env.classes.keys, env.interfaces.keys, env.aliases.keys, env.classAliases.keys]

/-- An environment whose keys are spelled with tokens, each once in its table. -/
structure Keyed (tokens : TokenKind → Prop) (env : Environment) : Prop where
  classes : IsTable tokens env.classes.keys
  interfaces : IsTable tokens env.interfaces.keys
  aliases : IsTable tokens env.aliases.keys
  classAliases : IsTable tokens env.classAliases.keys

namespace Keyed

variable {env : Environment}

theorem empty : Environment.empty.Keyed tokens :=
  have hempty : IsTable tokens [] := ⟨List.nodup_nil, List.forall_mem_nil _⟩
  ⟨hempty, hempty, hempty, hempty⟩

theorem addFragment (h : env.Keyed tokens) {name : TypeName} (hname : name.Spelled tokens)
    (isModule : Bool) (typeParams : List TypeParam) (superclass : Option Parent)
    (members : List Member) :
    (env.addFragment name isModule typeParams superclass members).Keyed tokens :=
  { h with classes := h.classes.alter hname _ }

mutual

/-- Adding a declaration that is spelled with tokens adds such keys. -/
theorem addDeclaration {env : Environment} (h : env.Keyed tokens) {outer scope : List String}
    (houter : ∀ segment ∈ outer, tokens (.ident segment)) :
    ∀ {declaration : Declaration}, declaration.Spelled tokens scope →
      (env.addDeclaration outer declaration).Keyed tokens
  | .class_ name typeParams superclass members, .class_ hname _ _ hmembers => by
    have hkey := hname.inContext houter
    rw [Environment.addDeclaration]
    exact addNested (h.addFragment hkey false typeParams superclass members) hkey hmembers
  | .module_ name typeParams selfTypes members, .module_ hname _ _ hmembers => by
    have hkey := hname.inContext houter
    rw [Environment.addDeclaration]
    exact addNested (h.addFragment hkey true typeParams none members) hkey hmembers
  | .interface .., .interface hname _ _ =>
    { h with interfaces := h.interfaces.alter (hname.inContext houter) _ }
  | .typeAlias .., .typeAlias hname _ _ =>
    { h with aliases := h.aliases.alter (hname.inContext houter) _ }
  | .classAlias .., .classAlias hname _ =>
    { h with classAliases := h.classAliases.alter (hname.inContext houter) _ }

theorem addNested {env : Environment} (h : env.Keyed tokens) {outer scope : List String}
    (houter : ∀ segment ∈ outer, tokens (.ident segment)) :
    ∀ {members : List Member}, (∀ member ∈ members, member.Spelled tokens scope) →
      (env.addNested outer members).Keyed tokens
  | [], _ => by
    rw [Environment.addNested]
    exact h
  | member :: members, hmembers => by
    obtain ⟨hfirst, hothers⟩ := List.forall_mem_cons.1 hmembers
    rw [Environment.addNested]
    exact addNested (addMember h houter hfirst) houter hothers

/-- Only declarations among the members add names. -/
theorem addMember {env : Environment} (h : env.Keyed tokens) {outer scope : List String}
    (houter : ∀ segment ∈ outer, tokens (.ident segment)) :
    ∀ {member : Member}, member.Spelled tokens scope → (env.addMember outer member).Keyed tokens
  | .declaration declaration, .declaration hdeclaration => by
    rw [Environment.addMember]
    exact addDeclaration h houter hdeclaration
  | .method .., _ | .attribute .., _ | .alias_ .., _ | .include_ _, _ | .prepend _, _
  | .extend _, _ => h

end

/-- The keys of an environment are spelled with the tokens of the texts that are loaded. -/
theorem foldlM_load {sources : List String} {loaded : Environment}
    (hload : sources.foldlM Environment.load .empty = .ok loaded) :
    loaded.Keyed (TokenIn sources) := by
  refine foldlM_load_induction hload empty fun source hsource declarations hparse env henv ↦ ?_
  have hspelled : ∀ declaration ∈ declarations, declaration.Spelled (TokenIn sources) [] :=
    spelled_of_parseSignature (.inl rfl)
      (fun token htoken ↦ .inr ⟨source, hsource, token, htoken, rfl⟩) hparse
  refine List.foldlRecOn declarations _ henv fun env henv declaration hdeclaration ↦ ?_
  exact henv.addDeclaration (List.forall_mem_nil _) (hspelled declaration hdeclaration)

/-- All tables of an environment are keyed by names that were written. -/
theorem isTable_of_mem (h : env.Keyed tokens) : ∀ keys ∈ env.tableKeys, IsTable tokens keys := by
  simpa [tableKeys] using ⟨h.classes, h.interfaces, h.aliases, h.classAliases⟩

end Keyed

end Environment

/-- A key is a name that can be told from its text, unless a segment with a colon is written between
backticks. -/
theorem IsTable.isSegmented_or {sources : List String} {keys : List TypeName}
    (h : IsTable (TokenIn sources) keys) {key : TypeName} (hkey : key ∈ keys) :
    key.IsSegmented ∨ ∃ segment ∈ key.segments, ':' ∈ segment.toList ∧
      ∃ source ∈ sources, WrittenInBackticks source segment := by
  by_cases hcolon : ∃ segment ∈ key.segments, ':' ∈ segment.toList
  · obtain ⟨segment, hsegment, hcolon⟩ := hcolon
    exact .inr ⟨segment, hsegment, hcolon, (h.spelled key hkey segment hsegment).ident.2 hcolon⟩
  · refine .inl fun segment hsegment ↦ ⟨(h.spelled key hkey segment hsegment).ident.1, ?_⟩
    exact fun hmem ↦ hcolon ⟨segment, hsegment, hmem⟩

/-- A name that is read from a text has that text. The text of a name whose segments are not empty
and hold no colon is read as this name, so such names have different texts. The keys in the tables
of an environment are such names, except where a segment with a colon is written between backticks,
and the texts of all such keys of a table are different. So are those of such types that a target
can return. -/
theorem typeNames_roundTrip :
    (∀ text name, TypeName.parse? text = some name → name.text = text) ∧
    (∀ name : TypeName, name.IsSegmented → TypeName.parse? name.text = some name) ∧
    (∀ name other : TypeName, name.IsSegmented → other.IsSegmented →
      name.text = other.text → name = other) ∧
    (∀ (sources : List String) (env : Environment),
      sources.foldlM Environment.load .empty = .ok env → ∀ keys ∈ env.tableKeys,
        (∀ key ∈ keys, key.IsSegmented ∨ ∃ segment ∈ key.segments, ':' ∈ segment.toList ∧
          ∃ source ∈ sources, WrittenInBackticks source segment) ∧
        ((keys.filter fun key ↦ decide key.IsSegmented).map TypeName.text).Nodup) ∧
    ∀ types, (((candidateNames types).filter fun name ↦ decide name.IsSegmented).map
      TypeName.text).Nodup := by
  refine ⟨fun _ _ ↦ TypeName.text_of_parse?, fun _ ↦ TypeName.IsSegmented.parse?_text,
    fun _ _ ↦ TypeName.IsSegmented.eq_of_text_eq, fun sources env hload keys hkeys ↦ ?_,
    fun types ↦ ?_⟩
  · have htable := (Environment.Keyed.foldlM_load hload).isTable_of_mem keys hkeys
    exact ⟨fun _ ↦ htable.isSegmented_or, TypeName.nodup_texts htable.nodup⟩
  · exact TypeName.nodup_texts (nodup_distinct _ _)

/-- A text with three colons in a row, whose second segment keeps one of them, and classes one of
which is declared inside another one and one between backticks. -/
theorem typeNames_roundTrip_of_colons :
    ∃ (text : String) (odd inner quoted : TypeName) (sources : List String) (env : Environment),
      text = "A:::B" ∧ odd = ⟨["A"], ":B", false⟩ ∧ TypeName.parse? text = some odd ∧
      odd.text = text ∧
      inner = ⟨["A"], "B", true⟩ ∧ inner.IsSegmented ∧ TypeName.parse? inner.text = some inner ∧
      sources = ["class A class B end end", "class `A:B` end"] ∧
      sources.foldlM Environment.load .empty = .ok env ∧
      env.tableKeys = [[⟨[], "A", true⟩, inner, quoted], [], [], []] ∧
      quoted = ⟨[], "A:B", true⟩ ∧ (∃ source ∈ sources, WrittenInBackticks source "A:B") ∧
      ∀ keys ∈ env.tableKeys,
        ((keys.filter fun key ↦ decide key.IsSegmented).map TypeName.text).Nodup := by
  let sources : List String := ["class A class B end end", "class `A:B` end"]
  obtain ⟨htext, hparse, -, htables, -⟩ := typeNames_roundTrip
  have hodd : TypeName.parse? "A:::B" = some ⟨["A"], ":B", false⟩ := by decide +kernel
  have hinner : (⟨["A"], "B", true⟩ : TypeName).IsSegmented := by decide +kernel
  have hquoted : ¬(⟨[], "A:B", true⟩ : TypeName).IsSegmented := by decide +kernel
  have hrun : (sources.foldlM Environment.load .empty).toOption.map Environment.tableKeys =
      some [[⟨[], "A", true⟩, ⟨["A"], "B", true⟩, ⟨[], "A:B", true⟩], [], [], []] := by
    decide +kernel
  obtain ⟨env, hload, hkeys⟩ := exists_ok_of_map_toOption hrun
  have hclasses := htables sources env hload
  obtain ⟨hall, -⟩ := hclasses _ (hkeys ▸ List.mem_cons_self)
  obtain ⟨segment, hsegment, -, hwritten⟩ :=
    (hall ⟨[], "A:B", true⟩ (by simp)).resolve_left hquoted
  obtain rfl := List.mem_singleton.1 hsegment
  exact ⟨_, _, _, _, sources, env, rfl, rfl, hodd, htext _ _ hodd, rfl, hinner, hparse _ hinner,
    rfl, hload, hkeys, rfl, hwritten, fun keys hmem ↦ (hclasses keys hmem).2⟩

/-- A class that is declared between backticks and has the text of another name: under its text it
is not found. Where the other class is declared as well, two keys of a table have the same text. -/
theorem typeNames_of_quoted_keys :
    ∃ (quoted plain : TypeName) (text first second : String) (env both : Environment),
      text = "::A::B" ∧ first = "class `A::B` end" ∧ second = "class A::B end" ∧
      quoted ≠ plain ∧ quoted.text = text ∧ plain.text = text ∧
      TypeName.parse? text = some plain ∧
      [first].foldlM Environment.load .empty = .ok env ∧
      env.classes.keys = [quoted] ∧ env.contains plain = false ∧
      [first, second].foldlM Environment.load .empty = .ok both ∧
      both.classes.keys = [quoted, plain] := by
  let quoted : TypeName := ⟨[], "A::B", true⟩
  let plain : TypeName := ⟨["A"], "B", true⟩
  have hone : (["class `A::B` end"].foldlM Environment.load .empty).toOption.map
      (fun env ↦ (env.classes.keys, env.contains plain)) = some ([quoted], false) := by
    decide +kernel
  have htwo : (["class `A::B` end", "class A::B end"].foldlM Environment.load .empty).toOption.map
      (fun env ↦ env.classes.keys) = some [quoted, plain] := by decide +kernel
  obtain ⟨env, hload, henv⟩ := exists_ok_of_map_toOption hone
  obtain ⟨both, hboth, hkeys⟩ := exists_ok_of_map_toOption htwo
  obtain ⟨hquoted, hplain⟩ := Prod.mk.inj henv
  exact ⟨quoted, plain, _, _, _, env, both, rfl, rfl, rfl, by decide +kernel, by decide +kernel,
    by decide +kernel, by decide +kernel, hload, hquoted, hplain, hboth, hkeys⟩

end DeclaredMethods.Signature
