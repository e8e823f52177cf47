import ExprCheck.Proofs.Parser.Entry
import ExprCheck.Proofs.Parser.Follow
import ExprCheck.Proofs.Tree.Places

/-!
# Where the nodes of a tree come from

The tokens that a phrase takes determine where each node of its tree was read. A place is the number
of the tokens before it:

* `bracketLevel`, `Balanced`: round brackets that are open after some tokens, and tokens that close
  all that they open.
* `IsPart`: some tokens that are read as a phrase, and its tree with their places.
* `EndsAt`: a left operand that ends where its operator stands. It is an operand, or an operator
  whose own right operand ends there.
* `Tree.IsSourced`: what the place of a node says of the tokens around it: a literal stands there, a
  sign before its operand that is not behind a literal, or an operator between its operands.
* `Spans`, `SpansAfter`: what a phrase takes, and that all nodes of its tree are sourced, by one
  lemma for each way of reading. `Reads.spans` puts them together.
* `parse_sourced`, `parseExpression_sourced`: the same of whole sources.
-/

namespace ExprCheck

/-! ### Round brackets -/

/-- How many more round brackets some tokens open than they close. -/
def bracketLevel (tokens : List Token) : Int :=
  (tokens.countP fun token => token.kind = .openParen : Nat) -
    (tokens.countP fun token => token.kind = .closeParen : Nat)

theorem bracketLevel_append (tokens tokens' : List Token) :
    bracketLevel (tokens ++ tokens') = bracketLevel tokens + bracketLevel tokens' := by
  simp only [bracketLevel, List.countP_append]
  omega

theorem bracketLevel_nil : bracketLevel [] = 0 :=
  rfl

theorem bracketLevel_open {token : Token} (h : token.kind = .openParen) :
    bracketLevel [token] = 1 := by
  simp [bracketLevel, h]

theorem bracketLevel_close {token : Token} (h : token.kind = .closeParen) :
    bracketLevel [token] = -1 := by
  simp [bracketLevel, h]

theorem bracketLevel_other {token : Token} (h : token.kind ≠ .openParen)
    (h' : token.kind ≠ .closeParen) : bracketLevel [token] = 0 := by
  simp [bracketLevel, h, h']

/-- Tokens that close all round brackets that they open, and no others. -/
inductive Balanced : List Token → Prop where
  | nil : Balanced []
  | single {token} : token.kind ≠ .openParen → token.kind ≠ .closeParen → Balanced [token]
  | append {tokens tokens'} : Balanced tokens → Balanced tokens' → Balanced (tokens ++ tokens')
  | enclosed {opening inner closing} :
      opening.kind = .openParen → Balanced inner → closing.kind = .closeParen →
      Balanced ([opening] ++ (inner ++ [closing]))

namespace Balanced

theorem bracketLevel_eq {tokens : List Token} (h : Balanced tokens) : bracketLevel tokens = 0 := by
  induction h with
  | nil => rfl
  | single notOpening notClosing => exact bracketLevel_other notOpening notClosing
  | append _ _ ih ih' =>
    rw [bracketLevel_append, ih, ih']
    rfl
  | enclosed isOpening _ isClosing ih =>
    rw [bracketLevel_append, bracketLevel_append, bracketLevel_open isOpening, ih,
      bracketLevel_close isClosing]
    rfl

/-- Inside balanced tokens at least the brackets before them are open. -/
theorem le_bracketLevel_take {tokens : List Token} (h : Balanced tokens) (count : Nat) :
    0 ≤ bracketLevel (tokens.take count) := by
  induction h generalizing count with
  | nil => simp [bracketLevel_nil]
  | single notOpening notClosing =>
    cases count with
    | zero => exact Int.le_refl 0
    | succ count => simp [bracketLevel_other notOpening notClosing]
  | @append tokens _ _ _ ih ih' =>
    rw [List.take_append, bracketLevel_append]
    have first := ih count
    have second := ih' (count - tokens.length)
    omega
  | @enclosed opening inner closing isOpening _ isClosing ih =>
    cases count with
    | zero => exact Int.le_refl 0
    | succ count =>
      have first := ih count
      have second : -1 ≤ bracketLevel ([closing].take (count - inner.length)) := by
        cases count - inner.length with
        | zero => exact Int.negSucc_le_zero 0
        | succ _ => simp [bracketLevel_close isClosing]
      rw [List.singleton_append, List.take_succ_cons, List.take_append,
        ← List.singleton_append, bracketLevel_append, bracketLevel_append,
        bracketLevel_open isOpening]
      omega

end Balanced

/-! ### Kinds of tokens -/

namespace TokenKind

/-- A tree keeps no token of this kind, and it is no round bracket. -/
def IsFiller (kind : TokenKind) : Prop :=
  ¬ kind.isKept ∧ kind ≠ .openParen ∧ kind ≠ .closeParen

instance (kind : TokenKind) : Decidable kind.IsFiller :=
  inferInstanceAs (Decidable (_ ∧ _ ∧ _))

/-- A token of this kind starts a conditional or continues one with another condition. -/
def IsConditional (kind : TokenKind) : Prop :=
  kind = .ifWord ∨ kind = .elsifWord

theorem IsConditional.isFiller {kind : TokenKind} (h : kind.IsConditional) : kind.IsFiller := by
  rcases h with rfl | rfl <;> decide

theorem isKept_of_isLiteral {kind : TokenKind} (h : kind.isLiteral) : kind.isKept := by
  rw [isKept, h, Bool.true_or]

theorem isKept_of_standardInfix? {kind : TokenKind} {rule : InfixRule}
    (h : Rules.standardInfix? kind = some rule) : kind.isKept := by
  have isOperator := (Rules.mem_binaryOperators_iff kind).2 (Option.isSome_of_eq_some h)
  rw [isKept, decide_eq_true isOperator, Bool.or_true]

theorem ne_paren_of_isKept {kind : TokenKind} (h : kind.isKept) :
    kind ≠ .openParen ∧ kind ≠ .closeParen := by
  revert h
  cases kind <;> decide

theorem not_isLiteral_of_standardInfix? {kind : TokenKind} {rule : InfixRule}
    (h : Rules.standardInfix? kind = some rule) : ¬ kind.isLiteral := by
  revert h
  cases kind <;> simp [Rules.standardInfix?, isLiteral]

end TokenKind

theorem Balanced.of_isKept {token : Token} (h : token.kind.isKept) : Balanced [token] :=
  .single (TokenKind.ne_paren_of_isKept h).1 (TokenKind.ne_paren_of_isKept h).2

theorem Balanced.of_isFiller {token : Token} (h : token.kind.IsFiller) : Balanced [token] :=
  .single h.2.1 h.2.2

/-! ### Nodes and the tokens around them -/

/-- The last of some tokens is a literal. -/
def EndsInLiteral (tokens : List Token) : Prop :=
  ∃ token ∈ tokens.getLast?, token.kind.isLiteral

/-- The next token is no sign behind a literal, where it would be an operator. -/
def Fresh (before tokens : List Token) : Prop :=
  ∀ next ∈ tokens.head?, next.kind = .plus ∨ next.kind = .dash → ¬ EndsInLiteral before

/-- Some tokens that are read as a phrase, and its tree with the places of the tokens as notes. -/
structure IsPart (phrase : Phrase) (before taken rest : List Token) (tree : Tree (Option Nat)) :
    Prop where
  reads : Reads phrase (taken ++ rest) tree.erase rest
  inOrder : tree.erase.inOrder = kept taken
  balanced : Balanced taken
  placed : tree = tree.erase.dealt (keptPlaces before.length taken)

/-- The places of the nodes of a part are those of its tokens. -/
theorem IsPart.isNote_iff {phrase : Phrase} {before taken rest : List Token}
    {tree : Tree (Option Nat)} (h : IsPart phrase before taken rest tree) (place : Nat) :
    Tree.IsNote place tree.nodes ↔ place ∈ keptPlaces before.length taken := by
  rw [h.placed]
  exact Tree.isNote_dealt_iff _ (by rw [length_keptPlaces, h.inOrder]) place

/-- A tree ends before some tokens: as an operand, or as an operator with its right operand. -/
def EndsAt (before rest : List Token) (tree : Tree (Option Nat)) : Prop :=
  ∃ front taken, before = front ++ taken ∧
    (IsPart .operand front taken rest tree ∨
      ∃ note left operator right span rule, tree = .binary note left operator right span ∧
        Rules.standardInfix? operator.kind = some rule ∧
        IsPart (.expression rule.operandPower) front taken rest right)

/-- An operator behind some tokens, between its operands. -/
structure IsApplied (rule : InfixRule) (before : List Token) (operator : Token)
    (taken rest : List Token) (left right : Tree (Option Nat)) : Prop where
  found : Rules.standardInfix? operator.kind = some rule
  left : EndsAt before (operator :: (taken ++ rest)) left
  right : IsPart (.expression rule.operandPower) (before ++ [operator]) taken rest right

namespace Tree

/-- What the place of a node says of the tokens of the source. -/
def IsSourced (whole : List Token) : Tree (Option Nat) → Prop
  | literal note token =>
    ∃ before rest, whole = before ++ token :: rest ∧ note = some before.length ∧
      token.kind.isLiteral
  | unary note operator operand _ =>
    ∃ before taken rest, whole = before ++ operator :: (taken ++ rest) ∧
      note = some before.length ∧ ¬ EndsInLiteral before ∧
      IsPart (.expression .additive) (before ++ [operator]) taken rest operand
  | binary note left operator right _ =>
    ∃ rule before taken rest, whole = before ++ operator :: (taken ++ rest) ∧
      note = some before.length ∧ IsApplied rule before operator taken rest left right
  | ifThen note .. | ifElse note .. | block note .. => note = none

/-- All nodes are sourced. -/
def AllSourced (whole : List Token) (nodes : List (Tree (Option Nat))) : Prop :=
  ∀ node ∈ nodes, node.IsSourced whole

theorem allSourced_nil (whole : List Token) : AllSourced whole [] :=
  fun _ mem => absurd mem List.not_mem_nil

theorem allSourced_cons {whole : List Token} {node : Tree (Option Nat)}
    {nodes : List (Tree (Option Nat))} (h : node.IsSourced whole) (h' : AllSourced whole nodes) :
    AllSourced whole (node :: nodes) :=
  List.forall_mem_cons.2 ⟨h, h'⟩

theorem allSourced_append {whole : List Token} {nodes nodes' : List (Tree (Option Nat))}
    (h : AllSourced whole nodes) (h' : AllSourced whole nodes') :
    AllSourced whole (nodes ++ nodes') :=
  List.forall_mem_append.2 ⟨h, h'⟩

end Tree

open ExprCheck.Tree (AllSourced allSourced_nil allSourced_cons allSourced_append)

/-! ### What a phrase takes -/

/-- The tokens that a phrase takes from the front of others. The nodes of its tree are sourced, if
what stands before it is `ready` for it. -/
structure Spans (ready : List Token → Prop) (tokens : List Token) (expr : Expr)
    (rest taken : List Token) : Prop where
  tokens_eq : tokens = taken ++ rest
  inOrder : expr.inOrder = kept taken
  balanced : Balanced taken
  sourced : ∀ before, ready before →
    AllSourced (before ++ tokens) (expr.dealt (keptPlaces before.length taken)).nodes

/-- The tokens that operators take with their right operands, after the operand `left`. -/
structure SpansAfter (left : Expr) (tokens : List Token) (expr : Expr)
    (rest taken : List Token) : Prop where
  tokens_eq : tokens = taken ++ rest
  inOrder : expr.inOrder = left.inOrder ++ kept taken
  balanced : Balanced taken
  sourced : ∀ (before : List Token) (places : List Nat), places.length = left.inOrder.length →
    EndsAt before tokens (left.dealt places) →
    AllSourced (before ++ tokens) (left.dealt places).nodes →
    AllSourced (before ++ tokens) (expr.dealt (places ++ keptPlaces before.length taken)).nodes

/-- The tokens that expressions in a row take. -/
structure SpansAll (tokens : List Token) (items : List Expr) (rest taken : List Token) : Prop where
  tokens_eq : tokens = taken ++ rest
  inOrder : Tree.inOrderAll items = kept taken
  balanced : Balanced taken
  sourced : ∀ before, Fresh before tokens →
    AllSourced (before ++ tokens)
      (Tree.nodesAll (Tree.dealtAll items (keptPlaces before.length taken)))

/-! ### Places of a part -/

theorem keptPlaces_split (before taken taken' : List Token) :
    keptPlaces before.length (taken ++ taken') =
      keptPlaces before.length taken ++ keptPlaces (before ++ taken).length taken' := by
  rw [keptPlaces_append, List.length_append]

theorem keptPlaces_token {token : Token} (h : token.kind.isKept) (before taken : List Token) :
    keptPlaces before.length (token :: taken) =
      before.length :: keptPlaces (before ++ [token]).length taken := by
  rw [keptPlaces_cons_of_isKept h, List.length_append, List.length_singleton]

theorem keptPlaces_filler {token : Token} (h : token.kind.IsFiller) (before taken : List Token) :
    keptPlaces before.length (token :: taken) = keptPlaces (before ++ [token]).length taken := by
  rw [keptPlaces_cons_of_not_isKept h.1, List.length_append, List.length_singleton]

theorem fresh_behind {token : Token} (h : ¬ token.kind.isLiteral) (before tokens : List Token) :
    Fresh (before ++ [token]) tokens := by
  rintro _ _ _ ⟨last, mem, isLiteral⟩
  rw [List.getLast?_concat, Option.mem_some_iff] at mem
  exact h (mem ▸ isLiteral)

theorem TokenKind.IsFiller.not_isLiteral {kind : TokenKind} (h : kind.IsFiller) :
    ¬ kind.isLiteral :=
  fun isLiteral => h.1 (isKept_of_isLiteral isLiteral)

namespace Spans

variable {ready : List Token → Prop} {tokens rest taken : List Token} {expr : Expr}

theorem mono {ready' : List Token → Prop} (h : Spans ready tokens expr rest taken)
    (stronger : ∀ before, ready' before → ready before) : Spans ready' tokens expr rest taken :=
  { h with sourced := fun before isReady => h.sourced before (stronger before isReady) }

theorem length_places (h : Spans ready tokens expr rest taken) (start : Nat) :
    (keptPlaces start taken).length = expr.inOrder.length := by
  rw [length_keptPlaces, h.inOrder]

theorem isPart {phrase : Phrase} (h : Spans ready tokens expr rest taken)
    (reads : Reads phrase tokens expr rest) (before : List Token) :
    IsPart phrase before taken rest (expr.dealt (keptPlaces before.length taken)) where
  reads := by rwa [Tree.erase_dealt, ← h.tokens_eq]
  inOrder := by rw [Tree.erase_dealt, h.inOrder]
  balanced := h.balanced
  placed := by rw [Tree.erase_dealt]

/-- What is sourced behind some tokens is sourced among all of them. -/
theorem sourced_behind (h : Spans ready tokens expr rest taken) (before front : List Token)
    (isReady : ready (before ++ front)) :
    AllSourced (before ++ (front ++ tokens))
      (expr.dealt (keptPlaces (before ++ front).length taken)).nodes := by
  have inner := h.sourced (before ++ front) isReady
  rwa [List.append_assoc] at inner

/-- A tree does not change behind a token that it does not keep. -/
theorem filler {token : Token} (h : Spans ready tokens expr rest taken)
    (isFiller : token.kind.IsFiller) :
    Spans (fun before => ready (before ++ [token])) (token :: tokens) expr rest
      (token :: taken) where
  tokens_eq := congrArg _ h.tokens_eq
  inOrder := by rw [h.inOrder, kept_cons_of_not_isKept isFiller.1]
  balanced := (Balanced.of_isFiller isFiller).append h.balanced
  sourced := by
    intro before isReady
    rw [keptPlaces_filler isFiller]
    exact h.sourced_behind before [token] isReady

end Spans

/-! ### One lemma for each way of reading -/

variable {tokens rest taken taken' : List Token}

theorem spans_literal {token : Token} (isLiteral : token.kind.isLiteral) (rest : List Token) :
    Spans (Fresh · (token :: rest)) (token :: rest) (.literal () token) rest [token] where
  tokens_eq := rfl
  inOrder := (kept_cons_of_isKept (TokenKind.isKept_of_isLiteral isLiteral) []).symm
  balanced := .of_isKept (TokenKind.isKept_of_isLiteral isLiteral)
  sourced := by
    intro before _
    rw [keptPlaces_token (TokenKind.isKept_of_isLiteral isLiteral)]
    exact allSourced_cons ⟨before, rest, rfl, rfl, isLiteral⟩ (allSourced_nil _)

theorem spans_sign {operator : Token} {operand : Expr}
    (isSign : operator.kind = .plus ∨ operator.kind = .dash)
    (reads : Reads (.expression .additive) tokens operand rest)
    (h : Spans (Fresh · tokens) tokens operand rest taken) (span : Span) :
    Spans (Fresh · (operator :: tokens)) (operator :: tokens) (.unary () operator operand span)
      rest (operator :: taken) := by
  have found := Rules.standardInfix?_of_isSign isSign
  have isKept := TokenKind.isKept_of_standardInfix? found
  refine ⟨congrArg _ h.tokens_eq, ?_, (Balanced.of_isKept isKept).append h.balanced, ?_⟩
  · rw [kept_cons_of_isKept isKept, ← h.inOrder]
    rfl
  · intro before fresh
    have inner := h.sourced_behind before [operator]
      (fresh_behind (TokenKind.not_isLiteral_of_standardInfix? found) before tokens)
    have part := h.isPart reads (before ++ [operator])
    rw [keptPlaces_token isKept]
    refine allSourced_cons ?_ inner
    exact ⟨before, taken, rest, by rw [h.tokens_eq], rfl, fresh operator rfl isSign, part⟩

theorem spans_group {opening closing : Token} {expr : Expr} (isOpening : opening.kind = .openParen)
    (h : Spans (Fresh · tokens) tokens expr (closing :: rest) taken)
    (isClosing : closing.kind = .closeParen) :
    Spans (Fresh · (opening :: tokens)) (opening :: tokens) expr rest
      ([opening] ++ (taken ++ [closing])) where
  tokens_eq := by
    rw [h.tokens_eq, List.append_assoc, List.append_assoc]
    rfl
  inOrder := by
    rw [kept_append, kept_append, h.inOrder, kept_cons_of_not_isKept (by rw [isOpening]; decide),
      kept_cons_of_not_isKept (by rw [isClosing]; decide)]
    exact (List.append_nil _).symm
  balanced := .enclosed isOpening h.balanced isClosing
  sourced := by
    intro before _
    rw [keptPlaces_split, keptPlaces_split,
      keptPlaces_cons_of_not_isKept (by rw [isOpening]; decide),
      keptPlaces_cons_of_not_isKept (by rw [isClosing]; decide)]
    rw [keptPlaces, keptPlaces, List.nil_append, List.append_nil]
    exact h.sourced_behind before [opening]
      (fresh_behind (by rw [isOpening]; decide) before tokens)

/-! #### Operators -/

theorem spans_expression {left expr : Expr} {middle : List Token}
    (reads : Reads .operand tokens left middle)
    (h : Spans (Fresh · tokens) tokens left middle taken)
    (h' : SpansAfter left middle expr rest taken') :
    Spans (Fresh · tokens) tokens expr rest (taken ++ taken') where
  tokens_eq := by rw [h.tokens_eq, h'.tokens_eq, List.append_assoc]
  inOrder := by rw [h'.inOrder, h.inOrder, kept_append]
  balanced := h.balanced.append h'.balanced
  sourced := by
    intro before fresh
    have all := h'.sourced (before ++ taken) _ (h.length_places before.length)
    rw [List.append_assoc, ← h.tokens_eq, ← keptPlaces_split] at all
    exact all ⟨before, taken, rfl, .inl (h.isPart reads before)⟩ (h.sourced before fresh)

theorem spansAfter_stop (left : Expr) (tokens : List Token) :
    SpansAfter left tokens left tokens [] where
  tokens_eq := rfl
  inOrder := (List.append_nil _).symm
  balanced := .nil
  sourced := by
    intro before places _ _ sourced
    rwa [keptPlaces, List.append_nil]

section Operator

variable {operator : Token} {rule : InfixRule} {right : Expr} {middle : List Token}
  (found : Rules.standardInfix? operator.kind = some rule)
  (reads : Reads (.expression rule.operandPower) tokens right middle)
  (h : Spans (Fresh · tokens) tokens right middle taken)

include found reads h

theorem isSourced_operator {before : List Token} {left : Tree (Option Nat)}
    (ends : EndsAt before (operator :: tokens) left) (span : Span) :
    (Tree.binary (some before.length) left operator
      (right.dealt (keptPlaces (before ++ [operator]).length taken)) span).IsSourced
        (before ++ operator :: tokens) := by
  have part := h.isPart reads (before ++ [operator])
  rw [h.tokens_eq] at ends ⊢
  exact ⟨rule, before, taken, middle, rfl, rfl, found, ends, part⟩

theorem endsAt_operator (before : List Token) (note : Option Nat) (left : Tree (Option Nat))
    (span : Span) :
    EndsAt (before ++ [operator] ++ taken) middle
      (.binary note left operator
        (right.dealt (keptPlaces (before ++ [operator]).length taken)) span) :=
  ⟨before ++ [operator], taken, rfl,
    .inr ⟨_, _, _, _, _, rule, rfl, found, h.isPart reads (before ++ [operator])⟩⟩

theorem spansAfter_operator {left expr : Expr} {span : Span}
    (h' : SpansAfter (.binary () left operator right span) middle expr rest taken') :
    SpansAfter left (operator :: tokens) expr rest (operator :: (taken ++ taken')) where
  tokens_eq := by rw [h.tokens_eq, h'.tokens_eq, List.cons_append, List.append_assoc]
  inOrder := by
    rw [h'.inOrder, kept_cons_of_isKept (TokenKind.isKept_of_standardInfix? found), kept_append,
      Tree.inOrder, h.inOrder, List.append_assoc, List.cons_append]
  balanced := (Balanced.of_isKept (TokenKind.isKept_of_standardInfix? found)).append
    (h.balanced.append h'.balanced)
  sourced := by
    intro before places size ends sourced
    -- The operator with its operands is the left operand of the operators that follow.
    have applied : (Tree.binary () left operator right span).dealt
        (places ++ before.length :: keptPlaces (before ++ [operator]).length taken) =
          .binary (some before.length) (left.dealt places) operator
            (right.dealt (keptPlaces (before ++ [operator]).length taken)) span :=
      Tree.dealt_binary () operator span size
    have placesEq : keptPlaces before.length (operator :: (taken ++ taken')) =
        before.length :: (keptPlaces (before ++ [operator]).length taken ++
          keptPlaces (before ++ [operator] ++ taken).length taken') := by
      rw [keptPlaces_token (TokenKind.isKept_of_standardInfix? found), keptPlaces_split]
    have size' : (places ++ before.length ::
        keptPlaces (before ++ [operator]).length taken).length =
          (Tree.binary () left operator right span).inOrder.length := by
      rw [List.length_append, List.length_cons, h.length_places, size, Tree.inOrder,
        List.length_append, List.length_cons]
    have all := h'.sourced (before ++ [operator] ++ taken) _ size'
    have whole : before ++ [operator] ++ taken ++ middle = before ++ operator :: tokens := by
      rw [h.tokens_eq, List.append_assoc, List.append_assoc]
      rfl
    have inner := h.sourced_behind before [operator]
      (fresh_behind (TokenKind.not_isLiteral_of_standardInfix? found) before tokens)
    rw [whole, applied] at all
    rw [placesEq, ← List.cons_append, ← List.append_assoc]
    exact all (endsAt_operator found reads h before _ _ span)
      (allSourced_cons (isSourced_operator found reads h ends span)
        (allSourced_append sourced inner))

end Operator

/-! #### Blocks -/

theorem spansAll_nil (tokens : List Token) : SpansAll tokens [] tokens [] where
  tokens_eq := rfl
  inOrder := rfl
  balanced := .nil
  sourced := fun _ _ => allSourced_nil _

theorem spansAll_cons {item : Expr} {items : List Expr} {middle : List Token}
    (reads : Reads (.expression .lowest) tokens item middle)
    (h : Spans (Fresh · tokens) tokens item middle taken)
    (h' : SpansAll middle items rest taken') :
    SpansAll tokens (item :: items) rest (taken ++ taken') where
  tokens_eq := by rw [h.tokens_eq, h'.tokens_eq, List.append_assoc]
  inOrder := by rw [Tree.inOrderAll, h.inOrder, h'.inOrder, kept_append]
  balanced := h.balanced.append h'.balanced
  sourced := by
    intro before fresh
    -- A sign would have been read as an operator of the expression before it.
    have fresh' : Fresh (before ++ taken) middle := by
      obtain ⟨next, later, eq, stops⟩ := reads.ends
      rw [eq]
      rintro _ ⟨⟩ isSign
      have found := Rules.standardInfix?_of_isSign isSign
      exact absurd (Rules.lowest_lt_of_standardInfix? found) (stops _ found)
    have later := h'.sourced (before ++ taken) fresh'
    rw [List.append_assoc, ← h.tokens_eq] at later
    rw [keptPlaces_split, Tree.dealtAll_cons (h.length_places _)]
    exact allSourced_append (h.sourced before fresh) later

theorem spans_block {opening closing : Token} {items : List Expr}
    (isOpening : opening.kind = .openCurly) (h : SpansAll tokens items (closing :: rest) taken)
    (isClosing : closing.kind = .closeCurly) (span : Span) :
    Spans (fun _ => True) (opening :: tokens) (.block () items span) rest
      (opening :: (taken ++ [closing])) where
  tokens_eq := by
    rw [h.tokens_eq, List.cons_append, List.append_assoc]
    rfl
  inOrder := by
    rw [kept_cons_of_not_isKept (by rw [isOpening]; decide), kept_append,
      kept_cons_of_not_isKept (by rw [isClosing]; decide), Tree.inOrder, h.inOrder]
    exact (List.append_nil _).symm
  balanced := (Balanced.of_isFiller (by rw [isOpening]; decide)).append
    (h.balanced.append (.of_isFiller (by rw [isClosing]; decide)))
  sourced := by
    intro before _
    have inner := h.sourced (before ++ [opening])
      (fresh_behind (by rw [isOpening]; decide) before tokens)
    rw [keptPlaces_filler (by rw [isOpening]; decide), keptPlaces_split,
      keptPlaces_filler (by rw [isClosing]; decide), keptPlaces, List.append_nil]
    rw [List.append_assoc] at inner
    exact allSourced_cons rfl inner

/-! #### Conditionals -/

theorem spans_ifThen {word : Token} {condition body : Expr} {middle : List Token}
    (isWord : word.kind.IsConditional)
    (h : Spans (Fresh · tokens) tokens condition middle taken)
    (h' : Spans (fun _ => True) middle body rest taken') (span : Span) :
    Spans (fun _ => True) (word :: tokens) (.ifThen () condition body span) rest
      (word :: (taken ++ taken')) where
  tokens_eq := by rw [h.tokens_eq, h'.tokens_eq, List.cons_append, List.append_assoc]
  inOrder := by
    rw [kept_cons_of_not_isKept isWord.isFiller.1, kept_append, Tree.inOrder, h.inOrder, h'.inOrder]
  balanced := (Balanced.of_isFiller isWord.isFiller).append (h.balanced.append h'.balanced)
  sourced := by
    intro before _
    have first := h.sourced_behind before [word]
      (fresh_behind isWord.isFiller.not_isLiteral before tokens)
    have second := h'.sourced_behind before ([word] ++ taken) trivial
    rw [List.append_assoc, ← h.tokens_eq] at second
    rw [keptPlaces_filler isWord.isFiller, keptPlaces_split,
      Tree.dealt_ifThen _ _ (h.length_places _), List.append_assoc]
    exact allSourced_cons rfl (allSourced_append first second)

theorem spans_ifElse {word : Token} {condition body otherwise : Expr} {middle later : List Token}
    {taken'' : List Token} (isWord : word.kind.IsConditional)
    (h : Spans (Fresh · tokens) tokens condition middle taken)
    (h' : Spans (fun _ => True) middle body later taken')
    (h'' : Spans (fun _ => True) later otherwise rest taken'') (span : Span) :
    Spans (fun _ => True) (word :: tokens) (.ifElse () condition body otherwise span) rest
      (word :: (taken ++ (taken' ++ taken''))) where
  tokens_eq := by
    rw [h.tokens_eq, h'.tokens_eq, h''.tokens_eq]
    simp only [List.cons_append, List.append_assoc]
  inOrder := by
    rw [kept_cons_of_not_isKept isWord.isFiller.1, kept_append, kept_append, Tree.inOrder,
      h.inOrder, h'.inOrder, h''.inOrder]
  balanced := (Balanced.of_isFiller isWord.isFiller).append
    (h.balanced.append (h'.balanced.append h''.balanced))
  sourced := by
    intro before _
    have first := h.sourced_behind before [word]
      (fresh_behind isWord.isFiller.not_isLiteral before tokens)
    have second := h'.sourced_behind before ([word] ++ taken) trivial
    have third := h''.sourced_behind before ([word] ++ taken ++ taken') trivial
    rw [keptPlaces_filler isWord.isFiller, keptPlaces_split, keptPlaces_split,
      Tree.dealt_ifElse _ _ (h.length_places _) (h'.length_places _)]
    simp only [List.append_assoc, ← h'.tokens_eq, ← h.tokens_eq] at second third ⊢
    exact allSourced_cons rfl (allSourced_append (allSourced_append first second) third)

/-! ### Every phrase -/

/-- What a phrase takes. A conditional has to start with a word for one. -/
def Phrase.IsSpanned (tokens : List Token) (expr : Expr) (rest : List Token) : Phrase → Prop
  | .expression _ | .operand => ∃ taken, Spans (Fresh · tokens) tokens expr rest taken
  | .operators _ left => ∃ taken, SpansAfter left tokens expr rest taken
  | .block => ∃ taken, Spans (fun _ => True) tokens expr rest taken
  | .branch => (∀ word ∈ tokens.head?, word.kind.IsConditional) →
    ∃ taken, Spans (fun _ => True) tokens expr rest taken

theorem Row.spansAll {items : List Expr}
    (h : Row (fun tokens item rest => ∃ _ : Reads (.expression .lowest) tokens item rest,
      Phrase.IsSpanned tokens item rest (.expression .lowest)) tokens items rest) :
    ∃ taken, SpansAll tokens items rest taken := by
  induction h with
  | nil => exact ⟨[], spansAll_nil _⟩
  | cons first _ ih =>
    obtain ⟨reads, taken, spans⟩ := first
    obtain ⟨taken', spans'⟩ := ih
    exact ⟨taken ++ taken', spansAll_cons reads spans spans'⟩

theorem Reads.spans {phrase : Phrase} {expr : Expr} (h : Reads phrase tokens expr rest) :
    phrase.IsSpanned tokens expr rest := by
  induction h using Reads.induct with
  | expression first _ ih ih' =>
    obtain ⟨taken, spans⟩ := ih
    obtain ⟨taken', spans'⟩ := ih'
    exact ⟨_, spans_expression first spans spans'⟩
  | literal isLiteral => exact ⟨_, spans_literal isLiteral _⟩
  | sign isSign inner ih =>
    obtain ⟨taken, spans⟩ := ih
    exact ⟨_, spans_sign isSign inner spans _⟩
  | group isOpening _ isClosing ih =>
    obtain ⟨taken, spans⟩ := ih
    exact ⟨_, spans_group isOpening spans isClosing⟩
  | blockOperand _ ih =>
    obtain ⟨taken, spans⟩ := ih
    exact ⟨taken, spans.mono fun _ _ => trivial⟩
  | branchOperand isWord _ ih =>
    obtain ⟨taken, spans⟩ := ih (by rintro _ ⟨⟩; exact .inl isWord)
    exact ⟨taken, spans.mono fun _ _ => trivial⟩
  | stop _ => exact ⟨[], spansAfter_stop _ _⟩
  | operator found _ operand _ ih ih' =>
    obtain ⟨taken, spans⟩ := ih
    obtain ⟨taken', spans'⟩ := ih'
    exact ⟨_, spansAfter_operator found operand spans spans'⟩
  | block isOpening _ isClosing items =>
    obtain ⟨taken, spans⟩ := items.spansAll
    exact ⟨_, spans_block isOpening spans isClosing _⟩
  | ifThen _ _ _ _ ih ih' =>
    intro isWord
    obtain ⟨taken, spans⟩ := ih
    obtain ⟨taken', spans'⟩ := ih'
    exact ⟨_, spans_ifThen (isWord _ rfl) spans spans' _⟩
  | ifElse _ _ isElse _ ih ih' ih'' =>
    intro isWord
    obtain ⟨taken, spans⟩ := ih
    obtain ⟨taken', spans'⟩ := ih'
    obtain ⟨taken'', spans''⟩ := ih''
    have behind := spans''.filler (by rw [isElse]; decide)
    exact ⟨_, spans_ifElse (isWord _ rfl) spans spans' behind _⟩
  | ifElsif _ _ isElsif _ ih ih' ih'' =>
    intro isWord
    obtain ⟨taken, spans⟩ := ih
    obtain ⟨taken', spans'⟩ := ih'
    obtain ⟨taken'', spans''⟩ := ih'' (by rintro _ ⟨⟩; exact .inr isElsif)
    exact ⟨_, spans_ifElse (isWord _ rfl) spans spans' spans'' _⟩

/-! ### Whole sources -/

section Source

variable {σ : Type} [TokenSource σ] {source : σ} {expr : Expr}

/-- A tree keeps those tokens of its source that a tree can keep, in their order, and each of its
nodes is sourced where they stand. -/
structure Expr.IsReadFrom (tokens : List Token) (expr : Expr) : Prop where
  inOrder : expr.inOrder = kept tokens
  nodes : AllSourced tokens (expr.placed tokens).nodes

/-- The end of input is no token of a tree. -/
theorem kept_before_eof {last : Token} (isEnd : last.kind = .eof) (taken : List Token) :
    kept (taken ++ [last]) = kept taken ∧ keptPlaces 0 (taken ++ [last]) = keptPlaces 0 taken := by
  have notKept : ¬ last.kind.isKept := by rw [isEnd]; decide
  constructor
  · rw [kept_append, kept_cons_of_not_isKept notKept]
    exact List.append_nil _
  · rw [keptPlaces_append, keptPlaces_cons_of_not_isKept notKept]
    exact List.append_nil _

theorem parseExpression_sourced (ok : (parseExpression source).result = .ok expr) :
    Expr.IsReadFrom (TokenSource.tokens source) expr := by
  obtain ⟨last, isEnd, reads⟩ := parseExpression_sound ok
  obtain ⟨taken, spans⟩ := reads.spans
  obtain ⟨keptEq, placesEq⟩ := kept_before_eof isEnd taken
  have nodes := spans.sourced [] (by rintro _ _ _ ⟨_, mem, _⟩; cases mem)
  rw [spans.tokens_eq] at nodes ⊢
  refine ⟨spans.inOrder.trans keptEq.symm, ?_⟩
  rwa [Expr.placed, placesEq]

theorem parse_sourced (ok : (parse source).result = .ok expr) :
    Expr.IsReadFrom (TokenSource.tokens source) expr := by
  obtain ⟨items, last, isEnd, row, rfl⟩ := parse_sound ok
  obtain ⟨taken, spans⟩ := (row.mono fun _ _ _ reads => ⟨reads, reads.spans⟩ :
    Row (fun tokens item rest => ∃ _ : Reads (.expression .lowest) tokens item rest,
      Phrase.IsSpanned tokens item rest (.expression .lowest)) _ _ _).spansAll
  obtain ⟨keptEq, placesEq⟩ := kept_before_eof isEnd taken
  have nodes := spans.sourced [] (by rintro _ _ _ ⟨_, mem, _⟩; cases mem)
  rw [spans.tokens_eq] at nodes ⊢
  refine ⟨spans.inOrder.trans keptEq.symm, ?_⟩
  rw [Expr.placed, placesEq]
  exact allSourced_cons rfl nodes

end Source

end ExprCheck
