import KeyGloss.Proofs.Json.Quoted
import KeyGloss.Proofs.KeyModule.Tree
import KeyGloss.Proofs.Token.Means

/-!
# The object in the key module

How an object literal is read: its text is cut into tokens, and the tokens are taken one by one while
the objects that are still open wait on a stack (`Reading.step`). What the properties of the key module
are rendered to reads back as these properties (`ofText?_object`).
-/

namespace KeyGloss

namespace KeyNode

/-- The marks of an object literal. -/
def opening : Token := ⟨.punctuation, ['\x7b']⟩

def closing : Token := ⟨.punctuation, ['\x7d']⟩

def colon : Token := ⟨.operator, [':']⟩

def comma : Token := ⟨.punctuation, [',']⟩

/-- The name of a property: a word of any sort, or a string. -/
def propertyName? (token : Token) : Option Text :=
  match token.kind with
  | .name | .keyword => some token.value
  | .stringDouble => Json.unquote? token.value
  | _ => none

/-- How far an object literal was read: what comes next. `outer` holds the objects that are open around,
from the inside out: the properties that each has so far, and the name of the next one. -/
inductive Reading where
  | atValue (outer : List (Dictionary KeyNode × Text))
  | atName (outer : List (Dictionary KeyNode × Text)) (properties : Dictionary KeyNode)
  | atColon (outer : List (Dictionary KeyNode × Text)) (properties : Dictionary KeyNode) (name : Text)
  | atComma (outer : List (Dictionary KeyNode × Text)) (properties : Dictionary KeyNode)
  | done (node : KeyNode)

namespace Reading

/-- A value was read. A later property of the same name takes the place of an earlier one. -/
def put (node : KeyNode) : List (Dictionary KeyNode × Text) → Reading
  | [] => .done node
  | (properties, name) :: outer => .atComma outer (properties.insert name node)

/-- One token further. -/
def step : Reading → Token → Option Reading
  | .atValue outer, token =>
    if token = opening then some (.atName outer [])
    else if token.kind = .stringDouble then
      (Json.unquote? token.value).map fun key => put (.leaf key) outer
    else none
  | .atName outer properties, token =>
    if token = closing then some (put (.branch properties) outer)
    else (propertyName? token).map (.atColon outer properties)
  | .atColon outer properties name, token =>
    if token = colon then some (.atValue ((properties, name) :: outer)) else none
  | .atComma outer properties, token =>
    if token = comma then some (.atName outer properties)
    else if token = closing then some (put (.branch properties) outer)
    else none
  | .done _, _ => none

def result? : Reading → Option KeyNode
  | .done node => some node
  | _ => none

end Reading

/-- What an object literal or a string stands for. -/
def ofTokens? (tokens : List Token) : Option KeyNode :=
  (tokens.foldlM Reading.step (.atValue [])).bind Reading.result?

/-- What the text of an object literal stands for. -/
def ofText? (t : Text) : Option KeyNode :=
  (Token.lex .typeScript t).toOption.bind fun tokens => ofTokens? (Token.significant tokens)

/-- The text of the object that holds properties. -/
def object (tree : Dictionary KeyNode) : Text := "\x7b\n" ++ renderAll 1 tree ++ "\x7d"

/-! ## The tokens of properties -/

/-- The token of a property's name. -/
def nameToken (language : Language) (name : Text) : Token :=
  if isIdentifier name then Token.ofLexeme language .name name else ⟨.stringDouble, Json.quote name⟩

mutual

/-- The significant tokens of a property. -/
def tokens (language : Language) (name : Text) : KeyNode → List Token
  | .leaf key => [nameToken language name, colon, ⟨.stringDouble, Json.quote key⟩, comma]
  | .branch children =>
    nameToken language name :: colon :: opening :: tokensAll language children ++ [closing, comma]

/-- The significant tokens of properties. -/
def tokensAll (language : Language) : List (Text × KeyNode) → List Token
  | [] => []
  | (name, node) :: rest => tokens language name node ++ tokensAll language rest

end

section Means

open Token (MeansFrom)

variable {language : Language} {t : Text} {rest : List Token}

theorem means_quote (s : Text) (means : MeansFrom language .code t rest) :
    MeansFrom language .code (Json.quote s ++ t) (⟨.stringDouble, Json.quote s⟩ :: rest) := by
  have spelled : Json.quote s ++ t = '"' :: (s.flatMap Json.escape ++ '"' :: t) := by
    simp [Json.quote]
  have rule : Lexeme.scan '"' (s.flatMap Json.escape ++ '"' :: t) =
      some (.stringDouble, (s.flatMap Json.escape).length + 1) := by
    rw [Lexeme.scan_of_quote _ (.inl rfl)]
    exact congrArg (Option.map _) (Lexeme.stringTail?_quoted s t)
  rw [spelled, Token.meansFrom_token rule rfl]
  refine ⟨rest, ?_, ?_⟩
  · rw [Token.ofLexeme_of_ne_name _ _ (by simp), List.take_length_add_append]
    simp [Json.quote]
  · rwa [List.drop_length_add_append]

/-- A word is a token where no part of a word follows. -/
theorem means_word {word : Text} (identifier : isIdentifier word = true)
    (ends : ∀ d ∈ t.head?, Lexeme.isWordPart d = false) (means : MeansFrom language .code t rest) :
    MeansFrom language .code (word ++ t) (Token.ofLexeme language .name word :: rest) := by
  cases word with
  | nil => cases identifier
  | cons c w =>
    obtain ⟨starts, parts⟩ : Lexeme.isWordStart c = true ∧ ∀ d ∈ w, Lexeme.isWordPart d = true := by
      simpa [isIdentifier] using identifier
    have rule := Lexeme.scan_word starts parts ends
    rw [List.cons_append, Token.meansFrom_token rule rfl, List.take_left, List.drop_left]
    exact ⟨rest, rfl, means⟩

theorem means_property (name : Text) (means : MeansFrom language .code (':' :: t) rest) :
    MeansFrom language .code (property name ++ ':' :: t) (nameToken language name :: rest) := by
  unfold property nameToken
  split
  · next word =>
    refine means_word word (fun d first => ?_) means
    cases first
    rfl
  · exact means_quote name means

theorem means_colon (means : MeansFrom language .code t rest) :
    MeansFrom language .code (':' :: t) (colon :: rest) :=
  (Token.meansFrom_token (Lexeme.scan_colon t) rfl).mpr ⟨rest, rfl, means⟩

theorem means_opening (means : MeansFrom language .code t rest) :
    MeansFrom language .code ('\x7b' :: t) (opening :: rest) :=
  (Token.meansFrom_token (Lexeme.scan_opening t) rfl).mpr ⟨rest, rfl, means⟩

theorem means_closing (means : MeansFrom language .code t rest) :
    MeansFrom language .code ('\x7d' :: t) (closing :: rest) :=
  (Token.meansFrom_token (Lexeme.scan_closing t) rfl).mpr ⟨rest, rfl, means⟩

theorem means_blank {c : Char} (blank : Lexeme.isSpace c = true)
    (means : MeansFrom language .code t rest) : MeansFrom language .code (c :: t) rest :=
  (Token.meansFrom_space (s := [c]) t (by simpa using blank)).mpr means

theorem means_comma (means : MeansFrom language .code t rest) :
    MeansFrom language .code (',' :: '\n' :: t) (comma :: rest) :=
  (Token.meansFrom_comma _).mpr ⟨rest, rfl, means_blank rfl means⟩

theorem means_indent (depth : Nat) (means : MeansFrom language .code t rest) :
    MeansFrom language .code (indent depth ++ t) rest := by
  refine (Token.meansFrom_space t fun c member => ?_).mpr means
  rw [List.eq_of_mem_replicate member]
  rfl

/-- What properties mean, if each of them means its tokens. -/
theorem means_renderAll {children : List (Text × KeyNode)} (depth : Nat)
    (each : ∀ entry ∈ children, ∀ t rest, MeansFrom language .code t rest →
      MeansFrom language .code (render depth entry.1 entry.2 ++ t)
        (tokens language entry.1 entry.2 ++ rest))
    (means : MeansFrom language .code t rest) :
    MeansFrom language .code (renderAll depth children ++ t) (tokensAll language children ++ rest) := by
  induction children with
  | nil => simpa [renderAll, tokensAll] using means
  | cons entry children ih =>
    obtain ⟨name, node⟩ := entry
    obtain ⟨here, later⟩ := List.forall_mem_cons.mp each
    rw [renderAll, tokensAll, List.append_assoc, List.append_assoc]
    exact here _ _ (ih later)

/-- The lines of a property mean its tokens. -/
theorem Ordered.means_render {node : KeyNode} (ordered : Ordered node) (depth : Nat) (name : Text)
    (means : MeansFrom language .code t rest) :
    MeansFrom language .code (render depth name node ++ t) (tokens language name node ++ rest) := by
  induction ordered generalizing depth name t rest with
  | leaf key =>
    have line : render depth name (.leaf key) ++ t =
        indent depth ++ (property name ++ ':' :: ' ' :: (Json.quote key ++ ',' :: '\n' :: t)) := by
      simp [render]
    rw [line]
    refine means_indent depth (means_property name (means_colon (means_blank rfl ?_)))
    exact means_quote key (means_comma means)
  | @branch children increasing below ih =>
    have lines : render depth name (.branch children) ++ t =
        indent depth ++ (property name ++ ':' :: ' ' :: '\x7b' :: '\n' ::
          (renderAll (depth + 1) children ++ (indent depth ++ '\x7d' :: ',' :: '\n' :: t))) := by
      simp [render]
    have marks : tokens language name (.branch children) ++ rest =
        nameToken language name :: colon :: opening :: (tokensAll language children ++
          closing :: comma :: rest) := by
      simp [tokens]
    rw [lines, marks]
    refine means_indent depth (means_property name (means_colon (means_blank rfl ?_)))
    refine means_opening (means_blank rfl ?_)
    refine means_renderAll (depth + 1) (fun entry member t rest => ih entry member _ _) ?_
    exact means_indent depth (means_closing (means_comma means))

theorem Ordered.means_object {tree : Dictionary KeyNode} (ordered : Ordered (.branch tree))
    (means : MeansFrom language .code t rest) :
    MeansFrom language .code (object tree ++ t)
      (opening :: (tokensAll language tree ++ closing :: rest)) := by
  have text : object tree ++ t = '\x7b' :: '\n' :: (renderAll 1 tree ++ '\x7d' :: t) := by
    simp [object]
  cases ordered with
  | branch increasing below =>
    rw [text]
    refine means_opening (means_blank rfl ?_)
    exact means_renderAll 1 (fun entry member t rest => (below entry member).means_render 1 entry.1)
      (means_closing means)

end Means

/-! ## Reading the tokens -/

section Reading

open Reading (step put)

variable {language : Language} {outer : List (Dictionary KeyNode × Text)}

theorem propertyName?_nameToken (language : Language) (name : Text) :
    propertyName? (nameToken language name) = some name := by
  unfold nameToken
  split
  · unfold Token.ofLexeme
    split <;> rfl
  · exact Json.unquote?_quote name

theorem nameToken_ne_closing (name : Text) : nameToken language name ≠ closing := by
  intro same
  have named := propertyName?_nameToken language name
  rw [same] at named
  cases named

theorem step_name (properties : Dictionary KeyNode) (name : Text) :
    step (.atName outer properties) (nameToken language name) =
      some (.atColon outer properties name) := by
  rw [step, if_neg (nameToken_ne_closing name), propertyName?_nameToken]
  rfl

theorem step_string (key : Text) :
    step (.atValue outer) ⟨.stringDouble, Json.quote key⟩ = some (put (.leaf key) outer) := by
  have other : (⟨.stringDouble, Json.quote key⟩ : Token) ≠ opening := by simp [opening]
  rw [step, if_neg other, if_pos rfl, Json.unquote?_quote]
  rfl

theorem step_colon (properties : Dictionary KeyNode) (name : Text) :
    step (.atColon outer properties name) colon = some (.atValue ((properties, name) :: outer)) := by
  rw [step, if_pos rfl]

theorem step_opening : step (.atValue outer) opening = some (.atName outer []) := by
  rw [step, if_pos rfl]

theorem step_closing (properties : Dictionary KeyNode) :
    step (.atName outer properties) closing = some (put (.branch properties) outer) := by
  rw [step, if_pos rfl]

theorem step_comma (properties : Dictionary KeyNode) :
    step (.atComma outer properties) comma = some (.atName outer properties) := by
  rw [step, if_pos rfl]

/-- A property that comes behind all others is put at their end. -/
theorem insert_last {properties : Dictionary KeyNode} {name : Text} (node : KeyNode)
    (last : ∀ entry ∈ properties, entry.1 < name) :
    properties.insert name node = properties ++ [(name, node)] := by
  induction properties with
  | nil => rfl
  | cons entry properties ih =>
    obtain ⟨first, other⟩ := entry
    obtain ⟨smaller, later⟩ := List.forall_mem_cons.mp last
    rw [Dictionary.insert, if_neg (List.lt_asymm smaller), if_neg (Std.ne_of_lt smaller).symm, ih later,
      List.cons_append]

/-- Reading properties one after the other, if each of them can be read. -/
theorem foldlM_tokensAll {children properties : List (Text × KeyNode)}
    (each : ∀ entry ∈ children, ∀ outer properties,
      (tokens language entry.1 entry.2).foldlM step (.atName outer properties) =
        some (.atName outer (Dictionary.insert entry.1 entry.2 properties)))
    (increasing : Dictionary.Increasing (properties ++ children)) :
    (tokensAll language children).foldlM step (.atName outer properties) =
      some (.atName outer (properties ++ children)) := by
  induction children generalizing properties with
  | nil => simp [tokensAll]
  | cons entry children ih =>
    obtain ⟨name, node⟩ := entry
    obtain ⟨here, later⟩ := List.forall_mem_cons.mp each
    have last : ∀ entry ∈ properties, entry.1 < name := fun entry member =>
      (List.pairwise_append.mp increasing).2.2 entry member _ List.mem_cons_self
    have regrouped : properties ++ (name, node) :: children =
        (properties ++ [(name, node)]) ++ children := by simp
    rw [regrouped] at increasing ⊢
    rw [tokensAll, List.foldlM_append, here, insert_last node last]
    exact ih later increasing

/-- A property is read, and put among those before it. -/
theorem Ordered.foldlM_tokens {node : KeyNode} (ordered : Ordered node) (name : Text)
    (properties : Dictionary KeyNode) :
    (tokens language name node).foldlM step (.atName outer properties) =
      some (.atName outer (properties.insert name node)) := by
  induction ordered generalizing name outer properties with
  | leaf key =>
    simp only [tokens, List.foldlM_cons, List.foldlM_nil, step_name, step_colon, step_string, put,
      step_comma, Option.bind_eq_bind, Option.bind_some, Option.pure_def]
  | @branch children increasing below ih =>
    have inner : (tokensAll language children).foldlM step (.atName ((properties, name) :: outer) []) =
        some (.atName ((properties, name) :: outer) children) :=
      foldlM_tokensAll (fun entry member outer properties => ih entry member entry.1 properties)
        increasing
    simp only [tokens, List.cons_append, List.foldlM_cons, List.foldlM_append, List.foldlM_nil,
      step_name, step_colon, step_opening, inner, step_closing, put, step_comma, Option.bind_eq_bind,
      Option.bind_some, Option.pure_def]

theorem Ordered.ofTokens?_object {tree : Dictionary KeyNode} (ordered : Ordered (.branch tree)) :
    ofTokens? (opening :: tokensAll language tree ++ [closing]) = some (.branch tree) := by
  cases ordered with
  | branch increasing below =>
    have inner : (tokensAll language tree).foldlM step (.atName [] []) = some (.atName [] tree) :=
      foldlM_tokensAll (fun entry member outer properties =>
        (below entry member).foldlM_tokens entry.1 properties) increasing
    simp only [ofTokens?, List.cons_append, List.foldlM_cons, List.foldlM_append, List.foldlM_nil,
      step_opening, inner, step_closing, put, Option.bind_eq_bind, Option.bind_some, Option.pure_def,
      Reading.result?]

end Reading

/-- The object of the key module reads back as its properties. -/
theorem Ordered.ofText?_object {tree : Dictionary KeyNode} (ordered : Ordered (.branch tree)) :
    ofText? (object tree) = some (.branch tree) := by
  have means : Token.MeansFrom .typeScript .code (object tree ++ []) _ :=
    ordered.means_object ⟨[], .nil, rfl⟩
  rw [List.append_nil] at means
  obtain ⟨all, lexes, means⟩ := Token.lexes_iff_meansFrom.mpr means
  rw [ofText?, Token.lex_eq_ok_iff.mpr lexes]
  change ofTokens? (Token.significant all) = _
  rw [means]
  exact ordered.ofTokens?_object

end KeyNode

namespace KeyModule

/-- Where the object stands in the key module. -/
theorem source_eq (m : KeyMap) (importAs : Text) :
    (ofKeyMap m importAs).source = header ++ "const " ++ importAs ++ " = " ++
      KeyNode.object (KeyNode.ofKeys m.keys).1 ++ " as const;\n\nexport default " ++ importAs ++ ";\n" := by
  simp [ofKeyMap, KeyNode.object]

end KeyModule

end KeyGloss
