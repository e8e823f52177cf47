import ExprCheck.Proofs.Grammar.Derivation
import ExprCheck.Proofs.Parser.Entry
import ExprCheck.Proofs.Token.Tiling
import ExprCheck.Proofs.Typing.Culprit

/-!
# The extent of the nodes of a tree

The nodes of a tree that was read from a source nest and follow each other as the source does:

* `Span.Marks`, `Span.Inside`: a stretch of a file that is not empty, and one stretch inside
  another.
* `Tree.parts`: the stretches that a node is made of, which are its operator and the nodes below it.
* `Tree.IsLaid`: the parts of a node mark stretches of the file, lie inside the node and stand one
  after the other in their order.
* `InPlace`, `Tree.Fits`: tokens that stand in their order from an offset on, and a tree whose nodes
  are all laid between two offsets. There is one lemma for each form of a node.
* `Reads.fits`: tokens in place are read as a tree that fits, by induction on the reading. What is
  carried is the offset where the tokens that are left begin, since a bracket that closes a group
  lies behind its tree.
* `parse_spans_nest`: what this says of whole programs.

Every report of the type checker is about a node that starts where a token starts, so the condition
`starts` on positions goes with the offsets.
-/

namespace ExprCheck

open Text (byteSize byteSize_append)

/-- A stretch of a file of the given size, which is not empty. -/
structure Span.Marks (file : String) (size : Nat) (span : Span) : Prop where
  startFile : span.start.file = file
  stopFile : span.stop.file = file
  proper : span.start.bytes < span.stop.bytes
  fits : span.stop.bytes ≤ size

/-- One stretch lies inside another. -/
structure Span.Inside (inner outer : Span) : Prop where
  start : outer.start.bytes ≤ inner.start.bytes
  stop : inner.stop.bytes ≤ outer.stop.bytes

/-- A stretch with another beginning. -/
theorem Span.Marks.extend {file : String} {size : Nat} {span : Span} (h : span.Marks file size)
    {start : Position} (sameFile : start.file = file) (proper : start.bytes < span.stop.bytes) :
    Span.Marks file size ⟨start, span.stop⟩ :=
  ⟨sameFile, h.stopFile, proper, h.fits⟩

/-- The operator of a node and the nodes below it, in the order of the source. -/
def Tree.parts {α : Type} : Tree α → List Span
  | .literal .. => []
  | .unary _ operator operand _ => [operator.span, operand.span]
  | .binary _ left operator right _ => [left.span, operator.span, right.span]
  | .ifThen _ condition body _ => [condition.span, body.span]
  | .ifElse _ condition body otherwise _ => [condition.span, body.span, otherwise.span]
  | .block _ items _ => items.map Tree.span

/-- The parts of a node are stretches of the file that lie inside the node, one after the other. -/
structure Tree.IsLaid {α : Type} (file : String) (size : Nat) (node : Tree α) : Prop where
  marks : ∀ part ∈ node.parts, part.Marks file size
  inside : ∀ part ∈ node.parts, part.Inside node.span
  ordered : node.parts.Pairwise Span.Before

/-! ### Rows of stretches -/

/-- Stretches of a file one after the other, between two offsets. -/
inductive InRow (file : String) (size : Nat) : Nat → List Span → Nat → Prop where
  | nil {low high} : low ≤ high → InRow file size low [] high
  | cons {low high span spans} :
      span.Marks file size → low ≤ span.start.bytes → InRow file size span.stop.bytes spans high →
      InRow file size low (span :: spans) high

namespace InRow

variable {file : String} {size low high : Nat} {spans : List Span}

theorem le (h : InRow file size low spans high) : low ≤ high := by
  induction h with
  | nil le => exact le
  | cons marks le _ ih =>
    have := marks.proper
    omega

/-- A row between offsets that are further apart. -/
theorem widen (h : InRow file size low spans high) {low' high' : Nat} (le : low' ≤ low)
    (le' : high ≤ high') : InRow file size low' spans high' := by
  induction h generalizing low' with
  | nil between => exact .nil (Nat.le_trans le (Nat.le_trans between le'))
  | cons marks start _ ih => exact .cons marks (Nat.le_trans le start) (ih (Nat.le_refl _) le')

/-- Where there is a stretch, there is room for it. -/
theorem lt {span : Span} (h : InRow file size low (span :: spans) high) : low < high := by
  cases h with
  | cons marks le later => exact Nat.lt_of_le_of_lt le (Nat.lt_of_lt_of_le marks.proper later.le)

theorem marks (h : InRow file size low spans high) : ∀ span ∈ spans, span.Marks file size := by
  induction h with
  | nil _ => exact fun _ mem => absurd mem List.not_mem_nil
  | cons marks _ _ ih => exact List.forall_mem_cons.2 ⟨marks, ih⟩

theorem between (h : InRow file size low spans high) :
    ∀ span ∈ spans, low ≤ span.start.bytes ∧ span.stop.bytes ≤ high := by
  induction h with
  | nil _ => exact fun _ mem => absurd mem List.not_mem_nil
  | cons marks le later ih =>
    refine List.forall_mem_cons.2 ⟨⟨le, later.le⟩, fun span mem => ?_⟩
    have := marks.proper
    obtain ⟨start, stop⟩ := ih span mem
    omega

theorem ordered (h : InRow file size low spans high) : spans.Pairwise Span.Before := by
  induction h with
  | nil _ => exact .nil
  | cons _ _ later ih => exact .cons (fun span mem => (later.between span mem).1) ih

theorem isLaid {α : Type} {node : Tree α}
    (h : InRow file size node.start.bytes node.parts node.stop.bytes) : node.IsLaid file size where
  marks := h.marks
  inside part mem := ⟨(h.between part mem).1, (h.between part mem).2⟩
  ordered := h.ordered

end InRow

/-! ### Tokens in place -/

section InPlace

variable (file : String) (size : Nat) (starts : Position → Prop)

/-- Tokens that stand one after the other from an offset on. A token that ends the input may be
empty. -/
inductive InPlace : Nat → List Token → Prop where
  | nil {low} : low ≤ size → InPlace low []
  | cons {low token tokens} :
      starts token.start → token.start.file = file → low ≤ token.start.bytes →
      token.start.bytes ≤ token.span.stop.bytes →
      (token.kind ≠ .eof → token.span.Marks file size) →
      InPlace token.span.stop.bytes tokens → InPlace low (token :: tokens)

/-- A node that marks a stretch of the file and that is laid, with its culprits where they may
be. -/
structure Tree.IsPlaced (node : Expr) : Prop where
  marks : node.span.Marks file size
  isLaid : node.IsLaid file size
  culprits : ∀ position ∈ node.culprits, starts position

/-- A tree whose nodes are placed between two offsets. -/
structure Tree.Fits (low : Nat) (expr : Expr) (high : Nat) : Prop where
  start : low ≤ expr.start.bytes
  stop : expr.stop.bytes ≤ high
  startsToken : starts expr.start
  nodes : ∀ node ∈ expr.nodes, node.IsPlaced file size starts

end InPlace

variable {file : String} {size : Nat} {starts : Position → Prop} {low middle high : Nat}

namespace Tree.Fits

open ExprCheck.Tree (Fits)

variable {expr operand left right condition body otherwise : Expr} {items : List Expr}
  {token operator word opening closing : Token}

theorem marks (h : Fits file size starts low expr high) : expr.span.Marks file size :=
  (h.nodes expr expr.mem_nodes_self).marks

theorem weaken (h : Fits file size starts low expr high) {low' high' : Nat} (le : low' ≤ low)
    (le' : high ≤ high') : Fits file size starts low' expr high' :=
  ⟨Nat.le_trans le h.start, Nat.le_trans h.stop le', h.startsToken, h.nodes⟩

/-- A tree in front of a row of stretches. -/
theorem before {spans : List Span} {stop : Nat} (h : Fits file size starts low expr high)
    {low' : Nat} (le : low' ≤ expr.start.bytes) (later : InRow file size high spans stop) :
    InRow file size low' (expr.span :: spans) stop :=
  .cons h.marks le (later.widen h.stop (Nat.le_refl _))

/-- A tree at the end of a row of stretches. -/
theorem last (h : Fits file size starts low expr high) :
    InRow file size low [expr.span] expr.stop.bytes :=
  .cons h.marks h.start (.nil (Nat.le_refl _))

theorem literal (startsHere : starts token.start) (le : low ≤ token.start.bytes)
    (marks : token.span.Marks file size) :
    Fits file size starts low (.literal () token) token.span.stop.bytes := by
  refine ⟨le, Nat.le_refl _, startsHere, List.forall_mem_singleton.2 ⟨marks, ?_, ?_⟩⟩
  · exact InRow.isLaid (.nil (Nat.le_of_lt marks.proper))
  · exact List.forall_mem_singleton.2 startsHere

theorem unary (startsHere : starts operator.start) (le : low ≤ operator.start.bytes)
    (marks : operator.span.Marks file size)
    (h : Fits file size starts operator.span.stop.bytes operand high) :
    Fits file size starts low
      (.unary () operator operand ⟨operator.span.start, operand.span.stop⟩) high := by
  have row : InRow file size operator.start.bytes [operator.span, operand.span]
      operand.stop.bytes := .cons marks (Nat.le_refl _) h.last
  refine ⟨le, h.stop, startsHere, List.forall_mem_cons.2 ⟨⟨?_, row.isLaid, ?_⟩, h.nodes⟩⟩
  · exact h.marks.extend marks.startFile row.lt
  · exact List.forall_mem_singleton.2 startsHere

theorem binary (h : Fits file size starts low left middle) (startsHere : starts operator.start)
    (le : middle ≤ operator.start.bytes) (marks : operator.span.Marks file size)
    (h' : Fits file size starts operator.span.stop.bytes right high) :
    Fits file size starts low
      (.binary () left operator right ⟨left.span.start, right.span.stop⟩) high := by
  have row : InRow file size left.start.bytes [left.span, operator.span, right.span]
      right.stop.bytes := h.before (Nat.le_refl _) (.cons marks le h'.last)
  refine ⟨h.start, h'.stop, h.startsToken, List.forall_mem_cons.2 ⟨⟨?_, row.isLaid, ?_⟩, ?_⟩⟩
  · exact h'.marks.extend h.marks.startFile row.lt
  · exact List.forall_mem_singleton.2 startsHere
  · exact List.forall_mem_append.2 ⟨h.nodes, h'.nodes⟩

theorem ifThen (startsHere : starts word.start) (sameFile : word.start.file = file)
    (le : low ≤ word.start.bytes) (le' : word.start.bytes ≤ word.span.stop.bytes)
    (h : Fits file size starts word.span.stop.bytes condition middle)
    (h' : Fits file size starts middle body high) :
    Fits file size starts low
      (.ifThen () condition body ⟨word.span.start, body.span.stop⟩) high := by
  have row : InRow file size word.start.bytes [condition.span, body.span] body.stop.bytes :=
    h.before (Nat.le_trans le' h.start) h'.last
  refine ⟨le, h'.stop, startsHere, List.forall_mem_cons.2 ⟨⟨?_, row.isLaid, ?_⟩, ?_⟩⟩
  · exact h'.marks.extend sameFile row.lt
  · exact List.forall_mem_singleton.2 h.startsToken
  · exact List.forall_mem_append.2 ⟨h.nodes, h'.nodes⟩

theorem ifElse {middle' : Nat} (startsHere : starts word.start)
    (sameFile : word.start.file = file) (le : low ≤ word.start.bytes)
    (le' : word.start.bytes ≤ word.span.stop.bytes)
    (h : Fits file size starts word.span.stop.bytes condition middle)
    (h' : Fits file size starts middle body middle')
    (h'' : Fits file size starts middle' otherwise high) :
    Fits file size starts low
      (.ifElse () condition body otherwise ⟨word.span.start, otherwise.span.stop⟩) high := by
  have row : InRow file size word.start.bytes [condition.span, body.span, otherwise.span]
      otherwise.stop.bytes :=
    h.before (Nat.le_trans le' h.start) (h'.before h'.start h''.last)
  refine ⟨le, h''.stop, startsHere, List.forall_mem_cons.2 ⟨⟨?_, row.isLaid, ?_⟩, ?_⟩⟩
  · exact h''.marks.extend sameFile row.lt
  · exact List.forall_mem_cons.2 ⟨h.startsToken, List.forall_mem_singleton.2 h''.startsToken⟩
  · exact List.forall_mem_append.2 ⟨List.forall_mem_append.2 ⟨h.nodes, h'.nodes⟩, h''.nodes⟩

end Tree.Fits

/-- Trees one after the other between two offsets, the nodes of all of them placed. -/
structure Tree.AllFit (file : String) (size : Nat) (starts : Position → Prop) (low : Nat)
    (items : List Expr) (high : Nat) : Prop where
  row : InRow file size low (items.map Tree.span) high
  nodes : ∀ node ∈ Tree.nodesAll items, node.IsPlaced file size starts

/-- Expressions in curly brackets. -/
theorem Tree.Fits.block {opening closing : Token} {items : List Expr}
    (startsHere : starts opening.start) (le : low ≤ opening.start.bytes)
    (marks : opening.span.Marks file size)
    (h : AllFit file size starts opening.span.stop.bytes items high)
    (le' : high ≤ closing.start.bytes) (marks' : closing.span.Marks file size) :
    Fits file size starts low (.block () items ⟨opening.span.start, closing.span.stop⟩)
      closing.span.stop.bytes := by
  have inner := h.row.le
  have before : opening.start.bytes < opening.span.stop.bytes := marks.proper
  have after : closing.start.bytes < closing.span.stop.bytes := marks'.proper
  have row : InRow file size opening.start.bytes (items.map Tree.span) closing.span.stop.bytes :=
    h.row.widen (Nat.le_of_lt before) (by omega)
  refine ⟨le, Nat.le_refl _, startsHere, List.forall_mem_cons.2 ⟨⟨?_, row.isLaid, ?_⟩, h.nodes⟩⟩
  · exact marks'.extend marks.startFile (show opening.start.bytes < _ by omega)
  · exact fun _ mem => absurd mem List.not_mem_nil

/-! ### Reading tokens in place -/

/-- What a phrase makes of tokens in place. -/
def Phrase.Fits (file : String) (size : Nat) (starts : Position → Prop) (phrase : Phrase)
    (tokens : List Token) (expr : Expr) (rest : List Token) : Prop :=
  match phrase with
  | .operators _ left => ∀ low middle, left.Fits file size starts low middle →
      InPlace file size starts middle tokens →
      ∃ high, expr.Fits file size starts low high ∧ InPlace file size starts high rest
  | _ => ∀ low, InPlace file size starts low tokens →
      ∃ high, expr.Fits file size starts low high ∧ InPlace file size starts high rest

/-- A row of expressions at the beginning of tokens in place. -/
theorem Row.allFit {read : List Token → Expr → List Token → Prop} {tokens : List Token}
    {items : List Expr} {rest : List Token} (h : Row read tokens items rest)
    (fits : ∀ tokens item rest, read tokens item rest →
      (Phrase.expression .lowest).Fits file size starts tokens item rest)
    (inPlace : InPlace file size starts low tokens) :
    ∃ high, Tree.AllFit file size starts low items high ∧ InPlace file size starts high rest := by
  induction h generalizing low with
  | nil =>
    exact ⟨low, ⟨.nil (Nat.le_refl _), fun _ mem => absurd mem List.not_mem_nil⟩, inPlace⟩
  | cons first _ ih =>
    obtain ⟨middle, fitsFirst, inPlace⟩ := fits _ _ _ first low inPlace
    obtain ⟨high, ⟨row, nodes⟩, inPlace⟩ := ih inPlace
    refine ⟨high, ⟨fitsFirst.before fitsFirst.start row, ?_⟩, inPlace⟩
    exact List.forall_mem_append.2 ⟨fitsFirst.nodes, nodes⟩

/-- Tokens in place are read as a tree that fits, and those that are left are in place behind
it. -/
theorem Reads.fits {phrase : Phrase} {tokens : List Token} {expr : Expr} {rest : List Token}
    (h : Reads phrase tokens expr rest) : phrase.Fits file size starts tokens expr rest := by
  induction h using Reads.induct with
  | expression _ _ first later =>
    intro low inPlace
    obtain ⟨middle, fits, inPlace⟩ := first low inPlace
    exact later low middle fits inPlace
  | literal isLiteral =>
    intro low inPlace
    cases inPlace with
    | cons startsHere sameFile le _ marks inPlace =>
      refine ⟨_, .literal startsHere le (marks fun isEnd => ?_), inPlace⟩
      rw [isEnd] at isLiteral
      cases isLiteral
  | sign isSign _ operand =>
    intro low inPlace
    cases inPlace with
    | cons startsHere sameFile le _ marks inPlace =>
      have notEnd := ParserM.ne_eof_of_infixRule (Rules.standardInfix?_of_isSign isSign)
      obtain ⟨high, fits, inPlace⟩ := operand _ inPlace
      exact ⟨high, .unary startsHere le (marks notEnd) fits, inPlace⟩
  | group isOpening _ isClosing inner =>
    intro low inPlace
    cases inPlace with
    | cons startsHere sameFile le le' _ inPlace =>
      obtain ⟨middle, fits, inPlace⟩ := inner _ inPlace
      cases inPlace with
      | cons _ _ behind behind' _ inPlace =>
        exact ⟨_, fits.weaken (Nat.le_trans le le') (Nat.le_trans behind behind'), inPlace⟩
  | blockOperand _ inner => exact inner
  | branchOperand _ _ inner => exact inner
  | stop _ =>
    intro low middle fits inPlace
    exact ⟨middle, fits, inPlace⟩
  | operator found _ _ _ operand later =>
    intro low middle fits inPlace
    cases inPlace with
    | cons startsHere _ le _ marks inPlace =>
      have notEnd := ParserM.ne_eof_of_infixRule found
      obtain ⟨middle', fits', inPlace⟩ := operand _ inPlace
      exact later low middle' (fits.binary startsHere le (marks notEnd) fits') inPlace
  | block isOpening _ isClosing items =>
    intro low inPlace
    cases inPlace with
    | cons startsHere _ le _ marks inPlace =>
      obtain ⟨high, allFit, inPlace⟩ :=
        items.allFit (fun _ _ _ read => read.elim fun _ fits => fits) inPlace
      cases inPlace with
      | cons _ _ behind _ marks' inPlace =>
        refine ⟨_, .block startsHere le (marks ?_) allFit behind (marks' ?_), inPlace⟩
        · rw [isOpening]
          decide
        · rw [isClosing]
          decide
  | ifThen _ _ _ _ condition body =>
    intro low inPlace
    cases inPlace with
    | cons startsHere sameFile le le' _ inPlace =>
      obtain ⟨middle, fits, inPlace⟩ := condition _ inPlace
      obtain ⟨high, fits', inPlace⟩ := body _ inPlace
      exact ⟨high, .ifThen startsHere sameFile le le' fits fits', inPlace⟩
  | ifElse _ _ _ _ condition body otherwise =>
    intro low inPlace
    cases inPlace with
    | cons startsHere sameFile le le' _ inPlace =>
      obtain ⟨middle, fits, inPlace⟩ := condition _ inPlace
      obtain ⟨middle', fits', inPlace⟩ := body _ inPlace
      cases inPlace with
      | cons _ _ behind behind' _ inPlace =>
        obtain ⟨high, fits'', inPlace⟩ := otherwise _ inPlace
        have wider := fits''.weaken (Nat.le_trans behind behind') (Nat.le_refl _)
        exact ⟨high, .ifElse startsHere sameFile le le' fits fits' wider, inPlace⟩
  | ifElsif _ _ _ _ condition body otherwise =>
    intro low inPlace
    cases inPlace with
    | cons startsHere sameFile le le' _ inPlace =>
      obtain ⟨middle, fits, inPlace⟩ := condition _ inPlace
      obtain ⟨middle', fits', inPlace⟩ := body _ inPlace
      obtain ⟨high, fits'', inPlace⟩ := otherwise _ inPlace
      exact ⟨high, .ifElse startsHere sameFile le le' fits fits' fits'', inPlace⟩

/-! ### Whole programs -/

/-- The tokens of a text are in place. -/
theorem Tiles.inPlace {offset : Nat} {text : List Char} {tokens : List Token}
    (h : Tiles file offset text tokens) (fits : offset + byteSize text ≤ size)
    (short : size < UInt32.size) (startsTokens : ∀ token ∈ tokens, starts token.start) :
    InPlace file size starts offset tokens := by
  induction h with
  | @last offset gap _ =>
    have here := Position.bytes_ofBytes (Nat.lt_of_le_of_lt fits short) file
    refine .cons (startsTokens _ (List.mem_singleton_self _)) rfl ?_ (Nat.le_refl _)
      (fun notEnd => absurd rfl notEnd) (.nil ?_)
    · show offset ≤ (Position.ofBytes file (offset + byteSize gap)).bytes
      omega
    · show (Position.ofBytes file (offset + byteSize gap)).bytes ≤ size
      omega
  | @token offset gap c text rest token tokens _ _ _ _ span _ ih =>
    rw [byteSize_append, byteSize_append] at fits
    have size_pos := Text.byteSize_pos c text
    obtain ⟨start, stop⟩ := Span.bytes_of_ofBytes span (Nat.le_add_right _ _) (by omega)
    have later := ih (by omega) fun token mem => startsTokens token (List.mem_cons_of_mem _ mem)
    rw [← stop] at later
    have proper : token.span.start.bytes < token.span.stop.bytes := by omega
    refine .cons (startsTokens _ List.mem_cons_self) ?_ ?_ (Nat.le_of_lt proper) (fun _ => ?_) later
    · rw [Token.start, span]
      rfl
    · show offset ≤ token.span.start.bytes
      omega
    · exact ⟨by rw [span]; rfl, by rw [span]; rfl, proper, by omega⟩

/-- The tokens of a source are in place from its beginning on. -/
theorem Scanner.inPlace {source : String} (file : String)
    (short : source.utf8ByteSize < UInt32.size)
    (startsTokens : ∀ token ∈ TokenSource.tokens (ofSource source file), starts token.start) :
    InPlace file source.utf8ByteSize starts 0 (TokenSource.tokens (ofSource source file)) := by
  refine Tiles.inPlace (tiles_ofSource source file) ?_ short startsTokens
  rw [Nat.zero_add, Text.byteSize_toList]

/-- The last of the tokens of a source ends it. -/
theorem Scanner.tokens_eq {source : String} (file : String)
    (short : source.utf8ByteSize < UInt32.size) :
    ∃ front, TokenSource.tokens (ofSource source file) =
      front ++ [Token.endOfInput (Position.ofBytes file source.utf8ByteSize)] := by
  have size := Text.byteSize_toList source
  rw [← size] at short ⊢
  obtain ⟨front, eq, -⟩ :=
    (tiles_ofSource source file).covers (show byteSize [] = 0 from rfl) short
  exact ⟨front, eq⟩

/-- A program spans its whole source. -/
theorem Scanner.programTree_eq {source : String} (file : String) {items : List Expr} {last : Token}
    (short : source.utf8ByteSize < UInt32.size)
    (row : Row (Reads (.expression .lowest)) (TokenSource.tokens (ofSource source file)) items
      [last]) :
    last = Token.endOfInput (Position.ofBytes file source.utf8ByteSize) ∧
      programTree (ofSource source file) items last =
        .block () items (Span.ofBytes file 0 source.utf8ByteSize) := by
  obtain ⟨front, eq⟩ := tokens_eq file short
  obtain ⟨taken, split, -⟩ := Reads.row_covered row fun _ _ _ reads => reads.covered
  rw [split] at eq
  obtain ⟨-, same⟩ := List.append_inj' eq rfl
  obtain rfl := List.head_eq_of_cons_eq same
  have sameFile : (TokenSource.current (ofSource source file)).start.file = file := by
    have inPlace : InPlace file source.utf8ByteSize (fun _ => True) 0
        (TokenSource.tokens (ofSource source file)) := inPlace file short fun _ _ => trivial
    obtain ⟨later, first⟩ := TokenSource.tokens_eq_cons (ofSource source file)
    rw [first] at inPlace
    cases inPlace with
    | cons _ sameFile => exact sameFile
  refine ⟨rfl, ?_⟩
  rw [programTree, sameFile]
  rfl

/-- **Spans nest and follow each other as the source does.** The root of a program spans the whole
source. Every other node marks a stretch of it, and the parts of every node lie inside the node and
stand one after the other. The type checker moves none of them. -/
theorem parse_spans_nest {source file : String} {expr : Expr}
    (short : source.utf8ByteSize < UInt32.size)
    (h : (parse (Scanner.ofSource source file)).result = .ok expr) :
    ∃ items, expr = .block () items (Span.ofBytes file 0 source.utf8ByteSize) ∧
      expr.start.bytes = 0 ∧ expr.stop.bytes = source.utf8ByteSize ∧
      (∀ node ∈ Tree.nodesAll items, node.span.Marks file source.utf8ByteSize) ∧
      (∀ node ∈ expr.nodes, node.IsLaid file source.utf8ByteSize) ∧
      ∀ typed, expr.typeCheck.result = .ok typed →
        typed.erase = expr ∧ typed.nodes.map Tree.span = expr.nodes.map Tree.span := by
  obtain ⟨items, last, isEnd, row, rfl⟩ := parse_sound h
  have inPlace : InPlace file source.utf8ByteSize (fun _ => True) 0
      (TokenSource.tokens (Scanner.ofSource source file)) :=
    Scanner.inPlace file short fun _ _ => trivial
  obtain ⟨high, fit, behind⟩ := row.allFit (fun _ _ _ reads => reads.fits) inPlace
  obtain ⟨rfl, tree⟩ := Scanner.programTree_eq file short row
  have stop := Position.bytes_ofBytes short file
  have rootRow : InRow file source.utf8ByteSize 0 (items.map Tree.span) source.utf8ByteSize := by
    cases behind with
    | cons _ _ le => exact fit.row.widen (Nat.le_refl _) (stop ▸ le)
  rw [tree]
  refine ⟨items, rfl, rfl, stop, fun node mem => (fit.nodes node mem).marks, ?_, fun typed ok => ?_⟩
  · refine List.forall_mem_cons.2 ⟨InRow.isLaid ?_, fun node mem => (fit.nodes node mem).isLaid⟩
    show InRow _ _ 0 _ (Position.ofBytes file source.utf8ByteSize).bytes
    rwa [stop]
  · exact ⟨(TypedAs.of_nodes (infer_sound (Expr.typeCheck_ok.1 ok))).erase,
      Expr.spans_of_typeCheck ok⟩

/-- A conditional whose branches stand in brackets on other lines. -/
theorem parse_spans_nest_conditional :
    "if true \x7b\n  (1)\n\x7d".utf8ByteSize < UInt32.size ∧
      ∃ expr, (parse (Scanner.ofSource "if true \x7b\n  (1)\n\x7d" "sum")).result = .ok expr ∧
        ∀ node ∈ expr.nodes, node.IsLaid "sum" 17 := by
  have short : "if true \x7b\n  (1)\n\x7d".utf8ByteSize < UInt32.size := by decide
  have accepted :
      (parse (Scanner.ofSource "if true \x7b\n  (1)\n\x7d" "sum")).result.isOk = true := by
    decide +kernel
  obtain ⟨expr, ok⟩ := exists_ok_of_isOk accepted
  obtain ⟨_, _, _, _, _, laid, _⟩ := parse_spans_nest short ok
  exact ⟨short, expr, ok, laid⟩

end ExprCheck
