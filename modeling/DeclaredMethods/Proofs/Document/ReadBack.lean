import DeclaredMethods.Document
import DeclaredMethods.Proofs.Document.Texts

/-!
# Generated documents are read back

A generated document is a text that another reader has to understand. If the names in it are words
and every signature is accepted on its own, the document is read as one class or module for each
block, with the generated methods as its members: the tokens of the whole are those of its parts,
and they are the tokens of the declarations.
-/

namespace DeclaredMethods

open Signature

/-- A method of a generated document: its visibility, whether it belongs to the class itself, its
name and its signatures. -/
structure GeneratedMethod where
  isPrivate : Bool
  onClass : Bool
  name : String
  signatures : List String

namespace GeneratedMethod

def text (method : GeneratedMethod) : String :=
  (if method.isPrivate then "private " else "") ++ ("def " ++ (scopeText method.onClass ++
    (method.name ++ (": " ++ " | ".intercalate method.signatures))))

/-- A method with a name and signatures that can be read. -/
structure Readable (method : GeneratedMethod) : Prop where
  name : isMethodName method.name
  signatures : ∀ signature ∈ method.signatures, ∃ overload, Accepted signature overload
  nonempty : method.signatures ≠ []

inductive ReadAs (method : GeneratedMethod) : Member → Prop
  | intro {overloads : List MethodType} (h : List.Forall₂ Accepted method.signatures overloads) :
      ReadAs method (.method method.name (memberScopeOf method.onClass) overloads false)

/-- The tokens of a line with a method. -/
theorem ReadAs.scans_line {method : GeneratedMethod} {member : Member} (h : method.ReadAs member)
    (hreadable : method.Readable) :
    Scans (fun _ ↦ true) ("  " ++ method.text ++ "\n").toList fun _ tokens ↦
      SpellsMembers tokens [member] := by
  cases h with
  | @intro overloads hoverloads =>
    have hmethod := scans_method hreadable.name hoverloads hreadable.nonempty method.onClass
    have htext : Scans startsBlank method.text.toList fun _ tokens ↦ SpellsMembers tokens
        [.method method.name (memberScopeOf method.onClass) overloads false] := by
      rw [text, String.toList_append, String.toList_append, String.toList_append,
        String.toList_append, String.toList_append]
      refine (scans_visibility method.isPrivate).append hmethod (fun _ _ ↦ rfl) ?_
      intro _ tokens tokens' hvisibility htokens'
      have hmembers : SpellsMembers (tokens' ++ []) _ := .method htokens' .nil
      rw [List.append_nil] at hmembers
      exact hvisibility _ _ hmembers
    have hblank : isGap ' ' = true := by decide
    have hnewline : isGap '\n' = true := by decide
    rw [String.toList_append, String.toList_append]
    exact ((htext.afterBlank hblank).afterBlank hblank).beforeBlank hnewline

/-- The tokens of the lines of all methods. -/
theorem scans_lines {methods : List GeneratedMethod} {members : List Member}
    (h : List.Forall₂ ReadAs methods members) (hreadable : ∀ method ∈ methods, method.Readable) :
    Scans (fun _ ↦ true) (String.join (methods.map fun method ↦ "  " ++ method.text ++ "\n")).toList
      fun _ tokens ↦ SpellsMembers tokens members := by
  rw [String.toList_join]
  induction h with
  | nil =>
    refine (scans_nil _).mono (fun _ ↦ id) ?_
    rintro _ tokens rfl
    exact .nil
  | @cons method member methods members hmember _ ih =>
    rw [List.map_cons, List.flatMap_cons]
    have hline := hmember.scans_line (hreadable method List.mem_cons_self)
    have hlines := ih fun method hmethod ↦ hreadable method (List.mem_cons_of_mem _ hmethod)
    exact hline.append hlines (fun _ _ ↦ rfl) fun _ _ _ ↦ SpellsMembers.append

end GeneratedMethod

def attributeMethods (declared : AttributeDeclaration) : List GeneratedMethod :=
  let reader (onClass : Bool) : GeneratedMethod :=
    ⟨false, onClass, declared.name, ["() -> untyped"]⟩
  let writer (onClass : Bool) : GeneratedMethod :=
    ⟨false, onClass, declared.name ++ "=", ["(untyped) -> untyped"]⟩
  let predicate (onClass : Bool) : GeneratedMethod :=
    ⟨false, onClass, declared.name ++ "?", ["() -> bool"]⟩
  [reader true, writer true] ++ (if declared.instancePredicate then [predicate true] else []) ++
    (if declared.instanceReader then [reader false] else []) ++
    (if declared.instanceWriter then [writer false] else []) ++
    (if declared.instancePredicate && declared.instanceReader then [predicate false] else [])

def declarationMethods (source : DefinitionSource) : Declaration → List GeneratedMethod
  | .attribute declared => attributeMethods declared
  | .delegate delegate =>
    [⟨delegate.isPrivate, false, delegate.methodName, delegationSignatures source delegate.request⟩]

/-- The methods of a call; a call without a normal form has none. -/
def callMethods (source : DefinitionSource) (path : Namespace) (call : MethodCall) :
    List GeneratedMethod :=
  match normalize path call with
  | .ok declarations => declarations.flatMap (declarationMethods source)
  | .error _ => []

def entryMethods (source : DefinitionSource) (entry : Namespace × List MethodCall) :
    List GeneratedMethod :=
  entry.2.flatMap (callMethods source entry.1)

def generatedBlocks (source : DefinitionSource) (found : Declarations) :
    List (Namespace × List GeneratedMethod) :=
  (found.calls.entries.map fun entry ↦ (entry.1, entryMethods source entry)).filter
    fun block ↦ !block.2.isEmpty

theorem attributeMembers_eq_map (declared : AttributeDeclaration) :
    attributeMembers declared = (attributeMethods declared).map GeneratedMethod.text := by
  obtain ⟨name, reader, writer, predicate⟩ := declared
  have htext : ∀ onClass suffix signature, GeneratedMethod.text
      ⟨false, onClass, name ++ suffix, [signature]⟩ =
        "def " ++ scopeText onClass ++ name ++ (suffix ++ ": " ++ signature) := by
    intro onClass suffix signature
    simp [GeneratedMethod.text, String.append_assoc]
  have hplain := fun onClass ↦ htext onClass "" "() -> untyped"
  simp only [String.append_empty] at hplain
  simp only [attributeMembers, attributeMethods, List.map_append, List.map_cons, List.map_nil,
    apply_ite (List.map GeneratedMethod.text), htext, hplain]
  rfl

/-- The members of a document are the texts of the generated methods. -/
theorem declarationMembers_eq_map (source : DefinitionSource) (declaration : Declaration) :
    declarationMembers source declaration =
      (declarationMethods source declaration).map GeneratedMethod.text := by
  match declaration with
  | .attribute declared => exact attributeMembers_eq_map declared
  | .delegate delegate =>
    simp [declarationMembers, declarationMethods, delegateMember, GeneratedMethod.text,
      overloadText, scopeText, String.append_assoc]

theorem callMembers_eq_map (source : DefinitionSource) (path : Namespace) (call : MethodCall) :
    callMembers source path call = (callMethods source path call).map GeneratedMethod.text := by
  unfold callMembers callMethods
  cases normalize path call with
  | error _ => rfl
  | ok declarations =>
    dsimp only
    rw [List.map_flatMap]
    exact congrArg (declarations.flatMap ·) (funext (declarationMembers_eq_map source))

theorem flatMap_callMembers_eq_map (source : DefinitionSource)
    (entry : Namespace × List MethodCall) :
    entry.2.flatMap (callMembers source entry.1) =
      (entryMethods source entry).map GeneratedMethod.text := by
  rw [entryMethods, List.map_flatMap]
  exact congrArg (entry.2.flatMap ·) (funext (callMembers_eq_map source entry.1))

/-- The blocks of a document are the texts of the namespaces that have methods. -/
theorem filterMap_block?_eq_map (source : DefinitionSource) (found : Declarations) :
    found.calls.entries.filterMap (block? source found) = (generatedBlocks source found).map
      fun block ↦ blockText found block.1 (block.2.map GeneratedMethod.text) := by
  unfold generatedBlocks
  induction found.calls.entries with
  | nil => rfl
  | cons entry entries ih =>
    rw [List.filterMap_cons, block?, flatMap_callMembers_eq_map, List.isEmpty_map, ih,
      List.map_cons, List.filter_cons]
    cases (entryMethods source entry).isEmpty <;> rfl

/-! ## Blocks and documents -/

/-- The declaration that the block of a namespace is read as: a class or module under the name of
the namespace with the methods as its members, and with nothing else. -/
inductive BlockReadAs (found : Declarations) :
    Namespace × List GeneratedMethod → Signature.Declaration → Prop
  | intro {path : Namespace} {methods : List GeneratedMethod} {name : TypeName}
      {members : List Member} (hname : TypeName.ofSegments? false path.segments = some name)
      (hmembers : List.Forall₂ GeneratedMethod.ReadAs methods members) :
      BlockReadAs found (path, methods) (plainDeclaration (found.namespaceKind path) name members)

/-- A namespace that a class or module can be declared under, and methods that can be read. -/
structure ReadableBlock (block : Namespace × List GeneratedMethod) : Prop where
  isRoot : block.1.isRoot = false
  words : ∀ segment ∈ block.1.segments, isWord segment.toList = true
  methods : ∀ method ∈ block.2, method.Readable

theorem exists_forall₂ {α β : Type} {R : α → β → Prop} {items : List α}
    (h : ∀ item ∈ items, ∃ value, R item value) : ∃ values, List.Forall₂ R items values := by
  induction items with
  | nil => exact ⟨[], .nil⟩
  | cons item items ih =>
    obtain ⟨value, hvalue⟩ := h item List.mem_cons_self
    obtain ⟨values, hvalues⟩ := ih fun item hitem ↦ h item (List.mem_cons_of_mem _ hitem)
    exact ⟨value :: values, .cons hvalue hvalues⟩

/-- Every signature of a readable method is read as a method type, so the method is read as a
member. -/
theorem GeneratedMethod.Readable.exists_readAs {method : GeneratedMethod} (h : method.Readable) :
    ∃ member, method.ReadAs member := by
  obtain ⟨overloads, hoverloads⟩ := exists_forall₂ h.signatures
  exact ⟨_, .intro hoverloads⟩

theorem ReadableBlock.exists_readAs {block : Namespace × List GeneratedMethod}
    (h : ReadableBlock block) (found : Declarations) :
    ∃ declaration, BlockReadAs found block declaration := by
  obtain ⟨members, hmembers⟩ := exists_forall₂ fun method hmethod ↦
    (h.methods method hmethod).exists_readAs
  have hne : block.1.segments ≠ [] := by
    simpa [Namespace.isRoot] using h.isRoot
  exact ⟨_, .intro (congrArg _ (List.getLast?_eq_some_getLast hne)) hmembers⟩

/-- A block is a keyword, a name, the methods and an `end`, line by line. -/
theorem toList_blockText {found : Declarations} {path : Namespace} {methods : List GeneratedMethod}
    (hroot : path.isRoot = false) :
    (blockText found path (methods.map GeneratedMethod.text)).toList =
      ((found.namespaceKind path).keyword.toList ++ [' ']) ++ ((path.text.toList ++ ['\n']) ++
        ((String.join (methods.map fun method ↦ "  " ++ method.text ++ "\n")).toList ++
          ("end".toList ++ ['\n']))) := by
  rw [blockText, hroot, if_neg Bool.false_ne_true, List.map_map]
  simp only [String.toList_append, List.append_assoc]
  rfl

/-- The tokens of a block. -/
theorem BlockReadAs.scans {found : Declarations} {block : Namespace × List GeneratedMethod}
    {declaration : Signature.Declaration} (h : BlockReadAs found block declaration)
    (hreadable : ReadableBlock block) :
    Scans (fun _ ↦ true) (blockText found block.1 (block.2.map GeneratedMethod.text)).toList
      fun _ tokens ↦ SpellsBlock tokens declaration := by
  cases h with
  | @intro path methods name members hname hmembers =>
    have hblank : isGap ' ' = true := by decide
    have hnewline : isGap '\n' = true := by decide
    have hkeyword : isWord (found.namespaceKind path).keyword.toList = true := by
      cases found.namespaceKind path <;> decide
    have hend : isWord "end".toList = true := by decide
    have hlines := (GeneratedMethod.scans_lines hmembers hreadable.methods).join
      (scans_word_blank hend hnewline) fun _ _ ↦ rfl
    have hnamed := ((scans_namespace hname hreadable.words).beforeBlank hnewline).join hlines
      fun _ _ ↦ rfl
    rw [toList_blockText hreadable.isRoot]
    refine ((scans_word_blank hkeyword hblank).join hnamed fun _ _ ↦ rfl).mono (fun _ ↦ id) ?_
    rintro _ _ ⟨_, _, rfl, ⟨keyword, rfl, hkind⟩, _, _, rfl, hname, _, _, rfl, hmembers, last, rfl,
      hlast⟩
    exact .intro hkind hname hmembers hlast

/-- The tokens of all blocks of a document. -/
theorem scans_blocks {found : Declarations} {blocks : List (Namespace × List GeneratedMethod)}
    {declarations : List Signature.Declaration}
    (h : List.Forall₂ (BlockReadAs found) blocks declarations)
    (hreadable : ∀ block ∈ blocks, ReadableBlock block) :
    Scans (fun _ ↦ true) (String.join (blocks.map fun block ↦
        "\n" ++ blockText found block.1 (block.2.map GeneratedMethod.text))).toList
      fun _ tokens ↦ SpellsBlocks tokens declarations := by
  have hnewline : isGap '\n' = true := by decide
  rw [String.toList_join]
  induction h with
  | nil =>
    refine (scans_nil _).mono (fun _ ↦ id) ?_
    rintro _ tokens rfl
    exact .nil
  | @cons block declaration blocks declarations hblock _ ih =>
    rw [List.map_cons, List.flatMap_cons, String.toList_append]
    have hscans := (hblock.scans (hreadable block List.mem_cons_self)).afterBlank hnewline
    have hblocks := ih fun block hblock ↦ hreadable block (List.mem_cons_of_mem _ hblock)
    exact hscans.append hblocks (fun _ _ ↦ rfl) fun _ _ _ ↦ SpellsBlocks.cons

/-- A text with the tokens of classes and modules is read as them. -/
theorem parseSignature_of_scans {text : String} {declarations : List Signature.Declaration}
    (h : Scans (fun _ ↦ true) text.toList fun _ tokens ↦ SpellsBlocks tokens declarations) :
    parseSignature text = .ok declarations := by
  obtain ⟨tokens, htokens, hscan⟩ := h [] 0 rfl
  have hscan' : scan text = tokens.map .ok := by
    rw [List.append_nil] at hscan
    exact hscan.trans (List.append_nil _)
  have hvalid : firstInvalid? (tokens.map .ok) = none ∧ validTokens (tokens.map .ok) = tokens := by
    clear hscan hscan' htokens
    induction tokens with
    | nil => exact ⟨rfl, rfl⟩
    | cons token tokens ih => exact ⟨ih.1, congrArg (token :: ·) ih.2⟩
  have hupcoming : (Cursor.start text).upcoming = tokens ++ [] := by
    rw [Cursor.start, hscan', List.append_nil]
    exact hvalid.2
  obtain ⟨after, hrun, -⟩ := htokens.takes_declarations.exists_run hupcoming
  exact parseAll_eq_ok_iff.2 ⟨hscan' ▸ hvalid.1, after, hrun⟩

/-- The first line holds no token. -/
theorem scans_header :
    Scans (fun _ ↦ true) (documentHeader ++ "\n").toList fun _ tokens ↦ tokens = [] := by
  have hnewline : isGap '\n' = true := by decide
  have hcomment : '\n' ∉ " resolve-type-names: false".toList := by decide
  refine (scans_comment hcomment).append (scans_blank hnewline) (fun _ _ ↦ rfl) ?_
  rintro _ tokens tokens' rfl rfl
  rfl

/-- A declaration with methods that can be read: the names are words other than `self`, and every
candidate signature is accepted and holds no comment. -/
def Declaration.Readable (source : DefinitionSource) : Declaration → Prop
  | .attribute declared => isWord declared.name.toList = true ∧ declared.name ≠ "self"
  | .delegate forwarded => isMethodName forwarded.methodName ∧
      ∀ signature ∈ delegationSignatures source forwarded.request,
        ∃ overload, Accepted signature overload

/-- A forwarded method has at least the untyped signature. -/
theorem delegationSignatures_ne_nil (source : DefinitionSource) (request : Delegation) :
    delegationSignatures source request ≠ [] := by
  unfold delegationSignatures
  dsimp only
  split
  · exact List.cons_ne_nil _ _
  · split
    · exact List.cons_ne_nil _ _
    · assumption

/-- A word other than `self`, with a mark that can end a method name, is a method name. -/
theorem isMethodName_of_isWord {word : String} (hword : isWord word.toList = true)
    (hself : word ≠ "self") (suffix : String) (hsuffix : suffix ∈ ["", "?", "!", "="]) :
    isMethodName (word ++ suffix) :=
  ⟨word, suffix, rfl, hword, hself, hsuffix⟩

/-- The signatures of attributes are accepted. -/
theorem exists_accepted_attribute {signature : String}
    (h : signature ∈ ["() -> untyped", "(untyped) -> untyped", "() -> bool"]) :
    ∃ overload, Accepted signature overload := by
  simp only [List.mem_cons, List.not_mem_nil, or_false] at h
  rcases h with rfl | rfl | rfl
  · exact ⟨.returning .any, by decide, rfl⟩
  · exact ⟨.writing ⟨.any, none⟩ .any, by decide, rfl⟩
  · exact ⟨.returning (.base .bool), by decide, rfl⟩

/-- An attribute with a word for its name has methods that can be read. -/
theorem readable_attributeMethods {declared : AttributeDeclaration}
    (hword : isWord declared.name.toList = true) (hself : declared.name ≠ "self") :
    ∀ method ∈ attributeMethods declared, method.Readable := by
  have hreadable : ∀ onClass suffix signature, suffix ∈ ["", "?", "!", "="] →
      signature ∈ ["() -> untyped", "(untyped) -> untyped", "() -> bool"] →
      GeneratedMethod.Readable ⟨false, onClass, declared.name ++ suffix, [signature]⟩ := by
    intro onClass suffix signature hsuffix hsignature
    refine ⟨isMethodName_of_isWord hword hself suffix hsuffix, ?_, List.cons_ne_nil _ _⟩
    rintro _ hmem
    obtain rfl := List.mem_singleton.1 hmem
    exact exists_accepted_attribute hsignature
  have hreader : ∀ onClass,
      GeneratedMethod.Readable ⟨false, onClass, declared.name, ["() -> untyped"]⟩ := by
    intro onClass
    have hplain := hreadable onClass "" "() -> untyped" (by decide) (by decide)
    rwa [String.append_empty] at hplain
  have hwriter := fun onClass ↦ hreadable onClass "=" "(untyped) -> untyped" (by decide) (by decide)
  have hpredicate := fun onClass ↦ hreadable onClass "?" "() -> bool" (by decide) (by decide)
  intro method hmethod
  simp only [attributeMethods, List.mem_append, List.mem_cons, List.not_mem_nil, or_false,
    List.mem_ite_nil_right] at hmethod
  rcases hmethod with ((((rfl | rfl) | ⟨-, rfl⟩) | ⟨-, rfl⟩) | ⟨-, rfl⟩) | ⟨-, rfl⟩
  · exact hreader true
  · exact hwriter true
  · exact hpredicate true
  · exact hreader false
  · exact hwriter false
  · exact hpredicate false

/-- A readable declaration has readable methods. -/
theorem Declaration.Readable.methods {source : DefinitionSource} {declaration : Declaration}
    (h : declaration.Readable source) {method : GeneratedMethod}
    (hmethod : method ∈ declarationMethods source declaration) : method.Readable := by
  match declaration with
  | .attribute declared => exact readable_attributeMethods h.1 h.2 method hmethod
  | .delegate forwarded =>
    obtain rfl := List.mem_singleton.1 hmethod
    exact ⟨h.1, h.2, delegationSignatures_ne_nil source forwarded.request⟩

/-- A generated document is read back: if the namespaces and the names of the methods are words and
every candidate signature is accepted, the text is read as one class or module for each block, whose
members are the generated methods. -/
theorem parseSignature_document (source : DefinitionSource) (found : Declarations) (text : String)
    (hdocument : (generate source found).document = some text)
    (hpaths : ∀ block ∈ generatedBlocks source found, block.1.isRoot = false ∧
      ∀ segment ∈ block.1.segments, isWord segment.toList = true)
    (hdeclared : ∀ entry ∈ found.calls.entries, ∀ call ∈ entry.2, ∀ declarations,
      normalize entry.1 call = .ok declarations →
        ∀ declaration ∈ declarations, declaration.Readable source) :
    ∃ declarations, parseSignature text = .ok declarations ∧
      List.Forall₂ (BlockReadAs found) (generatedBlocks source found) declarations := by
  have hreadable : ∀ block ∈ generatedBlocks source found, ReadableBlock block := by
    intro block hblock
    refine ⟨(hpaths block hblock).1, (hpaths block hblock).2, fun method hmethod ↦ ?_⟩
    obtain ⟨entry, hentry, rfl⟩ := List.mem_map.1 (List.mem_of_mem_filter hblock)
    obtain ⟨call, hcall, hmethod⟩ := List.mem_flatMap.1 hmethod
    unfold callMethods at hmethod
    split at hmethod
    · case h_1 declarations hnormal =>
      obtain ⟨declaration, hdeclaration, hmethod⟩ := List.mem_flatMap.1 hmethod
      exact (hdeclared entry hentry call hcall declarations hnormal declaration
        hdeclaration).methods hmethod
    · exact absurd hmethod List.not_mem_nil
  obtain ⟨declarations, hread⟩ := exists_forall₂ fun block hblock ↦
    (hreadable block hblock).exists_readAs found
  refine ⟨declarations, parseSignature_of_scans ?_, hread⟩
  have htext : text = documentHeader ++ "\n" ++ String.join ((generatedBlocks source found).map
      fun block ↦ "\n" ++ blockText found block.1 (block.2.map GeneratedMethod.text)) := by
    have hdocument' : document? source found = some text := hdocument
    rw [document?, filterMap_block?_eq_map] at hdocument'
    split at hdocument'
    · cases hdocument'
    · rw [← Option.some.inj hdocument', List.map_map]
      rfl
  rw [htext, String.toList_append]
  refine scans_header.append (scans_blocks hread hreadable) (fun _ _ ↦ rfl) ?_
  rintro _ tokens tokens' rfl htokens'
  exact htokens'

/-- An attribute of a module, and a private method of a nested class with two signatures. -/
theorem parseSignature_document_of_blocks :
    ∃ (source : DefinitionSource) (found : Declarations) (text : String),
      (generate source found).document = some text ∧
      text = "# resolve-type-names: false\n" ++
        "\nmodule Setup\n  def self.mode: () -> untyped\n" ++
        "  def self.mode=: (untyped) -> untyped\n  def self.mode?: () -> bool\n" ++
        "  def mode: () -> untyped\n  def mode?: () -> bool\nend\n" ++
        "\nclass Shop::Cart\n" ++
        "  private def empty?: () -> (::A | ::B)? | (String) -> bool\nend\n" ∧
      ∃ declarations, parseSignature text = .ok declarations ∧
        List.Forall₂ (BlockReadAs found) (generatedBlocks source found) declarations := by
  let itemsName : TypeName := ⟨[], "Items", true⟩
  let cartName : TypeName := ⟨["Shop"], "Cart", true⟩
  let optionalUnion : TypeExpr :=
    .optional (.union [.instance_ ⟨[], "A", true⟩ [], .instance_ ⟨[], "B", true⟩ []])
  let items : InstanceDefinition := ⟨itemsName, [], ⟨[("empty?", ⟨"empty?",
    [.returning optionalUnion, .writing ⟨.instance_ ⟨[], "String", false⟩ [], none⟩ (.base .bool)],
    itemsName⟩)]⟩⟩
  let cart : InstanceDefinition := ⟨cartName, [], ⟨[("items", ⟨"items",
    [.returning (.instance_ itemsName [])], cartName⟩)]⟩⟩
  let source : DefinitionSource := fun name ↦
    if name = cartName then .ok cart
    else if name = itemsName then .ok items else .error (.unknownType name)
  let symbol (name : String) : Source.Expr := ⟨.literal (.symbol name), ⟨0, 0⟩⟩
  let false_ : Source.Expr := ⟨.false, ⟨0, 0⟩⟩
  let attributeCall : MethodCall := ⟨.classAttribute,
    ⟨[symbol "mode", ⟨.hash [.pair (symbol "instance_writer") false_], ⟨0, 0⟩⟩], none, false⟩,
    false, ⟨0, 0⟩⟩
  let delegateCall : MethodCall := ⟨.delegate,
    ⟨[symbol "empty?", ⟨.hash [.pair (symbol "to") (symbol "items")], ⟨0, 0⟩⟩], none, false⟩,
    true, ⟨0, 0⟩⟩
  let found : Declarations :=
    ⟨⟨[(⟨["Setup"]⟩, [attributeCall]), (⟨["Shop", "Cart"]⟩, [delegateCall])]⟩,
      ⟨[(⟨["Setup"]⟩, .module_)]⟩⟩
  have hdocument : (generate source found).document = some _ := rfl
  refine ⟨source, found, _, hdocument, by decide +kernel, ?_⟩
  have hpaths : (generatedBlocks source found).all (fun block ↦ block.1.isRoot == false &&
      block.1.segments.all fun segment ↦ isWord segment.toList) = true := by decide +kernel
  let request : Delegation := ⟨⟨["Shop", "Cart"]⟩, "items", "empty?"⟩
  have hattribute : normalize ⟨["Setup"]⟩ attributeCall =
      .ok [.attribute ⟨"mode", true, false, true⟩] := rfl
  have hdelegate : normalize ⟨["Shop", "Cart"]⟩ delegateCall =
      .ok [.delegate ⟨request, "empty?", true⟩] := rfl
  have hsignatures : delegationSignatures source request =
      ["() -> (::A | ::B)?", "(String) -> bool"] := by decide +kernel
  have hoptional : Accepted "() -> (::A | ::B)?" (.returning optionalUnion) :=
    ⟨by decide, rfl⟩
  have hbool : Accepted "(String) -> bool"
      (.writing ⟨.instance_ ⟨[], "String", false⟩ [], none⟩ (.base .bool)) :=
    ⟨by decide, rfl⟩
  apply parseSignature_document source found _ hdocument
  · intro block hblock
    have hblock' := List.all_eq_true.1 hpaths block hblock
    rw [Bool.and_eq_true, List.all_eq_true] at hblock'
    exact ⟨eq_of_beq hblock'.1, hblock'.2⟩
  · intro entry hentry call hcall declarations hnormal declaration hdeclaration
    simp only [found, List.mem_cons, List.not_mem_nil, or_false] at hentry
    rcases hentry with rfl | rfl
    · obtain rfl := List.mem_singleton.1 hcall
      obtain rfl := Except.ok.inj (hattribute.symm.trans hnormal)
      obtain rfl := List.mem_singleton.1 hdeclaration
      exact ⟨by decide, by decide⟩
    · obtain rfl := List.mem_singleton.1 hcall
      obtain rfl := Except.ok.inj (hdelegate.symm.trans hnormal)
      obtain rfl := List.mem_singleton.1 hdeclaration
      refine ⟨⟨"empty", "?", rfl, by decide, by decide, by decide⟩, ?_⟩
      rw [hsignatures]
      intro signature hsignature
      simp only [List.mem_cons, List.not_mem_nil, or_false] at hsignature
      rcases hsignature with rfl | rfl
      · exact ⟨_, hoptional⟩
      · exact ⟨_, hbool⟩

end DeclaredMethods
