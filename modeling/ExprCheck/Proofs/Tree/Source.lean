import ExprCheck.Proofs.Parser.Rule
import ExprCheck.Proofs.Token.Scan
import ExprCheck.Proofs.Tree.Nodes
import ExprCheck.Tree.Display

/-!
# Trees as source text

* `Expr.WellFormed`: trees whose tokens can be written down and that are built as the language
  builds them.
* `Expr.source`: the text of a tree, as it is displayed but for a conditional in the other branch of
  a conditional. `Expr.source_eq_display` says that this is the only difference.
* `Expr.tokensAs`: the tokens of that text.
* `Tree.unplaced`: the tree without the places of its nodes and tokens.
-/

namespace ExprCheck

namespace Tree

variable {α : Type}

/-- A block. -/
def isBlock : Tree α → Bool
  | block .. => true
  | _ => false

/-- A conditional. -/
def isConditional : Tree α → Bool
  | ifThen .. | ifElse .. => true
  | _ => false

/-- A conditional whose other branch is a conditional. -/
def goesOn : Tree α → Bool
  | ifElse _ _ _ otherwise _ => otherwise.isConditional
  | _ => false

/-! ### Trees up to their places -/

mutual

/-- The tree without the places of its nodes and tokens. -/
def unplaced : Tree α → Tree α
  | literal note token => literal note token.unplaced
  | unary note operator operand _ =>
    unary note operator.unplaced (unplaced operand) Span.nowhere
  | binary note left operator right _ =>
    binary note (unplaced left) operator.unplaced (unplaced right) Span.nowhere
  | ifThen note condition body _ => ifThen note (unplaced condition) (unplaced body) Span.nowhere
  | ifElse note condition body otherwise _ =>
    ifElse note (unplaced condition) (unplaced body) (unplaced otherwise) Span.nowhere
  | block note items _ => block note (unplacedAll items) Span.nowhere

/-- The trees without the places of their nodes and tokens. -/
def unplacedAll : List (Tree α) → List (Tree α)
  | [] => []
  | item :: items => unplaced item :: unplacedAll items

end

end Tree

/-- The token of a kind that has only one spelling, without a place. -/
def TokenKind.token (kind : TokenKind) : Token :=
  ⟨kind, kind.display, Span.nowhere⟩

namespace Token

/-- The token is written as its kind can be written in a source. -/
def IsSpelt (token : Token) : Prop :=
  (token.value.toList, token.kind) ∈ Lexeme.symbols ∨
    (token.value, token.kind) ∈ TokenKind.reservedWords

/-- The text that shows the token is read as this token and nothing else. -/
def ScansAlone (token : Token) : Prop :=
  ∃ file scanned last, tokenize token.display file = .ok [scanned, last] ∧
    scanned.unplaced = token.unplaced

end Token

namespace Expr

/-- A tree whose tokens can be written down and that is built as the language builds them. -/
inductive WellFormed : Expr → Prop where
  | literal {token} : token.kind.isLiteral → token.ScansAlone → WellFormed (.literal () token)
  | unary {operator operand span} :
      operator.kind = .plus ∨ operator.kind = .dash → operator.IsSpelt → WellFormed operand →
      WellFormed (.unary () operator operand span)
  | binary {left operator right span} :
      operator.kind ∈ Rules.binaryOperators → operator.IsSpelt → WellFormed left →
      WellFormed right → WellFormed (.binary () left operator right span)
  | ifThen {condition body span} :
      WellFormed condition → body.isBlock → WellFormed body →
      WellFormed (.ifThen () condition body span)
  | ifElse {condition body otherwise span} :
      WellFormed condition → body.isBlock → WellFormed body →
      otherwise.isBlock ∨ otherwise.isConditional → WellFormed otherwise →
      WellFormed (.ifElse () condition body otherwise span)
  | block {items span} : (∀ item ∈ items, WellFormed item) → WellFormed (.block () items span)

/-! ### The text -/

mutual

/-- The text of a tree in which a conditional starts with the given word. -/
def sourceAs (word : TokenKind) : Expr → String
  | .literal _ token => token.display
  | .unary _ operator operand _ => "(" ++ (operator.value ++ sourceAs .ifWord operand) ++ ")"
  | .binary _ left operator right _ =>
    "(" ++ (sourceAs .ifWord left ++ " " ++ operator.value ++ " " ++ sourceAs .ifWord right) ++ ")"
  | .ifThen _ condition body _ =>
    word.display ++ " " ++ sourceAs .ifWord condition ++ " " ++ sourceAs .ifWord body
  | .ifElse _ condition body otherwise _ =>
    word.display ++ " " ++ sourceAs .ifWord condition ++ " " ++ sourceAs .ifWord body ++
      (if otherwise.isConditional then " " ++ sourceAs .elsifWord otherwise
        else " else " ++ sourceAs .ifWord otherwise)
  | .block _ items _ =>
    match items with
    | [] => "\x7b\x7d"
    | _ :: _ => "\x7b" ++ sourceAll items ++ " \x7d"

/-- The texts of trees one after the other, with a space before each. -/
def sourceAll : List Expr → String
  | [] => ""
  | item :: items => " " ++ sourceAs .ifWord item ++ sourceAll items

end

/-- The text of a tree. A conditional in the other branch of a conditional is introduced by
`elsif`. -/
def source (expr : Expr) : String :=
  expr.sourceAs .ifWord

theorem sourceAll_eq_displayAll {items : List Expr}
    (h : ∀ item ∈ items, sourceAs .ifWord item = item.displayWith dress) :
    sourceAll items = Tree.displayAll dress items := by
  induction items with
  | nil => rfl
  | cons item items ih =>
    rw [sourceAll, Tree.displayAll, h item List.mem_cons_self,
      ih fun other mem => h other (List.mem_cons_of_mem _ mem)]

/-- Without a conditional in the other branch of a conditional, the text is the one displayed. -/
theorem source_eq_display {expr : Expr} (h : ∀ node ∈ expr.nodes, node.goesOn = false) :
    expr.source = expr.display := by
  show sourceAs .ifWord expr = expr.displayWith dress
  induction expr using Tree.induct with
  | literal _ token => rfl
  | unary _ operator operand _ ih =>
    obtain ⟨-, inner⟩ := Tree.forall_mem_nodes_iff.1 h
    rw [sourceAs, Tree.displayWith, ih (inner operand List.mem_cons_self)]
    rfl
  | binary _ left operator right _ ihLeft ihRight =>
    obtain ⟨-, inner⟩ := Tree.forall_mem_nodes_iff.1 h
    have first := ihLeft (inner left List.mem_cons_self)
    have second := ihRight (inner right (by simp [Tree.inner]))
    rw [sourceAs, Tree.displayWith, first, second]
    rfl
  | ifThen _ condition body _ ihCondition ihBody =>
    obtain ⟨-, inner⟩ := Tree.forall_mem_nodes_iff.1 h
    have first := ihCondition (inner condition List.mem_cons_self)
    have second := ihBody (inner body (by simp [Tree.inner]))
    rw [sourceAs, Tree.displayWith, first, second]
    rfl
  | ifElse _ condition body otherwise _ ihCondition ihBody ihOtherwise =>
    obtain ⟨ends, inner⟩ := Tree.forall_mem_nodes_iff.1 h
    have first := ihCondition (inner condition List.mem_cons_self)
    have second := ihBody (inner body (by simp [Tree.inner]))
    have third := ihOtherwise (inner otherwise (by simp [Tree.inner]))
    have ends : otherwise.isConditional = false := ends
    rw [sourceAs, Tree.displayWith, first, second, third, ends, if_neg Bool.false_ne_true,
      ← String.append_assoc]
    rfl
  | block _ items _ ih =>
    obtain ⟨-, inner⟩ := Tree.forall_mem_nodes_iff.1 h
    have all : ∀ item ∈ items, sourceAs .ifWord item = item.displayWith dress :=
      fun item mem => ih item mem (inner item mem)
    cases items with
    | nil => rfl
    | cons item items =>
      rw [sourceAs, Tree.displayWith, sourceAll_eq_displayAll all]
      rfl

/-! ### The tokens of the text -/

mutual

/-- The tokens of a tree in which a conditional starts with the given word. -/
def tokensAs (word : TokenKind) : Expr → List Token
  | .literal _ token => [token.unplaced]
  | .unary _ operator operand _ =>
    TokenKind.openParen.token ::
      ((operator.unplaced :: tokensAs .ifWord operand) ++ [TokenKind.closeParen.token])
  | .binary _ left operator right _ =>
    TokenKind.openParen.token ::
      ((tokensAs .ifWord left ++ operator.unplaced :: tokensAs .ifWord right) ++
        [TokenKind.closeParen.token])
  | .ifThen _ condition body _ =>
    word.token :: (tokensAs .ifWord condition ++ tokensAs .ifWord body)
  | .ifElse _ condition body otherwise _ =>
    word.token :: (tokensAs .ifWord condition ++ (tokensAs .ifWord body ++
      (if otherwise.isConditional then tokensAs .elsifWord otherwise
        else TokenKind.elseWord.token :: tokensAs .ifWord otherwise)))
  | .block _ items _ =>
    TokenKind.openCurly.token :: (tokensAll items ++ [TokenKind.closeCurly.token])

/-- The tokens of trees one after the other. -/
def tokensAll : List Expr → List Token
  | [] => []
  | item :: items => tokensAs .ifWord item ++ tokensAll items

end

end Expr

end ExprCheck
