import ExprCheck.Proofs.Parser.Rule
import ExprCheck.Proofs.Tree.Nodes

/-!
# The tokens of a tree and their places

A literal, a sign and an operator each keep a token. Of the other tokens of a source a tree keeps
none, but their order tells which token of the source a node keeps:

* `Tree.inOrder`: the tokens that a tree keeps, in the order in which they stand in a source.
* `Tree.dealt`: the tree with values as notes, which are handed out to its tokens in this order.
* `Tree.isNote_dealt_iff`: if there is a value for each token, the notes are these values.
* `kept`, `keptPlaces`: the tokens of a list that a tree keeps, and their places.
* `Expr.placed`: the tree with the places of its tokens as notes.
-/

namespace ExprCheck

/-- Whether a tree keeps the tokens of this kind. -/
def TokenKind.isKept (kind : TokenKind) : Bool :=
  kind.isLiteral || kind ∈ Rules.binaryOperators

namespace Tree

variable {α β : Type}

/-! ### Tokens in order -/

mutual

/-- The tokens of a tree in the order of the source. -/
def inOrder : Tree α → List Token
  | literal _ token => [token]
  | unary _ operator operand _ => operator :: inOrder operand
  | binary _ left operator right _ => inOrder left ++ operator :: inOrder right
  | ifThen _ condition body _ => inOrder condition ++ inOrder body
  | ifElse _ condition body otherwise _ =>
    inOrder condition ++ (inOrder body ++ inOrder otherwise)
  | block _ items _ => inOrderAll items

/-- The tokens of some trees, one tree after the other. -/
def inOrderAll : List (Tree α) → List Token
  | [] => []
  | item :: items => inOrder item ++ inOrderAll items

end

mutual

/-- The tree with values as notes. They are handed out to the nodes that keep a token, in the order
of the tokens. -/
def dealt : Tree α → List β → Tree (Option β)
  | literal _ token, values => literal values.head? token
  | unary _ operator operand span, values =>
    unary values.head? operator (dealt operand values.tail) span
  | binary _ left operator right span, values =>
    let later := values.drop (inOrder left).length
    binary later.head? (dealt left (values.take (inOrder left).length)) operator
      (dealt right later.tail) span
  | ifThen _ condition body span, values =>
    ifThen none (dealt condition (values.take (inOrder condition).length))
      (dealt body (values.drop (inOrder condition).length)) span
  | ifElse _ condition body otherwise span, values =>
    let later := values.drop (inOrder condition).length
    ifElse none (dealt condition (values.take (inOrder condition).length))
      (dealt body (later.take (inOrder body).length))
      (dealt otherwise (later.drop (inOrder body).length)) span
  | block _ items span, values => block none (dealtAll items values) span

/-- Some trees with values as notes, one tree after the other. -/
def dealtAll : List (Tree α) → List β → List (Tree (Option β))
  | [], _ => []
  | item :: items, values =>
    dealt item (values.take (inOrder item).length) ::
      dealtAll items (values.drop (inOrder item).length)

end

/-! ### Values for each part of a tree -/

section Parts

variable {left right condition body otherwise : Tree α} {items : List (Tree α)}
  {first second third : List β} {value : β}

theorem dealt_binary (note : α) (operator : Token) (span : Span)
    (h : first.length = left.inOrder.length) :
    (binary note left operator right span).dealt (first ++ value :: second) =
      binary (some value) (left.dealt first) operator (right.dealt second) span := by
  simp [dealt, ← h]

theorem dealt_ifThen (note : α) (span : Span) (h : first.length = condition.inOrder.length) :
    (ifThen note condition body span).dealt (first ++ second) =
      ifThen none (condition.dealt first) (body.dealt second) span := by
  simp [dealt, ← h]

theorem dealt_ifElse (note : α) (span : Span) (h : first.length = condition.inOrder.length)
    (h' : second.length = body.inOrder.length) :
    (ifElse note condition body otherwise span).dealt (first ++ (second ++ third)) =
      ifElse none (condition.dealt first) (body.dealt second) (otherwise.dealt third) span := by
  simp [dealt, ← h, ← h']

theorem dealtAll_cons {item : Tree α} (h : first.length = item.inOrder.length) :
    dealtAll (item :: items) (first ++ second) = item.dealt first :: dealtAll items second := by
  simp [dealtAll, ← h]

end Parts

/-! ### Notes and values -/

theorem erase_dealt (tree : Expr) (values : List β) : (tree.dealt values).erase = tree := by
  induction tree using induct generalizing values with
  | literal note token => rfl
  | unary note operator operand span ih => exact congrArg (unary () operator · span) (ih _)
  | binary note left operator right span ihl ihr =>
    show binary () (erase (dealt left _)) operator (erase (dealt right _)) span = _
    rw [ihl, ihr]
  | ifThen note condition body span ihc ihb =>
    show ifThen () (erase (dealt condition _)) (erase (dealt body _)) span = _
    rw [ihc, ihb]
  | ifElse note condition body otherwise span ihc ihb iho =>
    show ifElse () (erase (dealt condition _)) (erase (dealt body _)) (erase (dealt otherwise _))
      span = _
    rw [ihc, ihb, iho]
  | block note items span ih =>
    refine congrArg (block () · span) ?_
    induction items generalizing values with
    | nil => rfl
    | cons item items ihs =>
      rw [dealtAll, mapAll]
      rw [show map (fun _ => ()) (dealt item _) = item from ih item List.mem_cons_self _,
        ihs fun other mem => ih other (List.mem_cons_of_mem _ mem)]

/-- A value that is the note of one of some nodes. -/
def IsNote (value : β) (trees : List (Tree (Option β))) : Prop :=
  ∃ node ∈ trees, node.note = some value

theorem isNote_nil (value : β) : ¬ IsNote value [] := by
  rintro ⟨_, mem, _⟩
  cases mem

theorem isNote_cons {value : β} {node : Tree (Option β)} {trees : List (Tree (Option β))} :
    IsNote value (node :: trees) ↔ node.note = some value ∨ IsNote value trees := by
  simp only [IsNote, List.mem_cons, or_and_right, exists_or, exists_eq_left]

theorem isNote_append {value : β} {trees trees' : List (Tree (Option β))} :
    IsNote value (trees ++ trees') ↔ IsNote value trees ∨ IsNote value trees' := by
  simp only [IsNote, List.mem_append, or_and_right, exists_or]

theorem exists_split {values : List β} {m n : Nat} (size : values.length = m + n) :
    ∃ first second, values = first ++ second ∧ first.length = m ∧ second.length = n :=
  ⟨values.take m, values.drop m, (List.take_append_drop m values).symm, by simp [size],
    by simp [size]⟩

/-- If there is a value for each token, then the notes are these values. -/
theorem isNote_dealt_iff (tree : Tree α) {values : List β}
    (size : values.length = tree.inOrder.length) (value : β) :
    IsNote value (tree.dealt values).nodes ↔ value ∈ values := by
  induction tree using induct generalizing values with
  | literal note token =>
    obtain ⟨only, rfl⟩ := List.length_eq_one_iff.1 size
    simp [dealt, nodes, isNote_cons, isNote_nil, Tree.note, eq_comm]
  | unary note operator operand span ih =>
    cases values with
    | nil => cases size
    | cons own values =>
      simp [dealt, nodes, isNote_cons, Tree.note, ih (Nat.succ.inj size), eq_comm]
  | binary note left operator right span ihl ihr =>
    rw [inOrder, List.length_append] at size
    obtain ⟨first, later, rfl, sizeL, sizeR⟩ := exists_split size
    cases later with
    | nil => cases sizeR
    | cons own second =>
      rw [dealt_binary _ _ _ sizeL, nodes, isNote_cons, isNote_append, ihl sizeL,
        ihr (Nat.succ.inj sizeR), List.mem_append, List.mem_cons, Tree.note, Option.some.injEq,
        eq_comm]
      exact or_left_comm
  | ifThen note condition body span ihc ihb =>
    rw [inOrder, List.length_append] at size
    obtain ⟨first, second, rfl, sizeC, sizeB⟩ := exists_split size
    rw [dealt_ifThen _ _ sizeC]
    simp [nodes, isNote_cons, isNote_append, Tree.note, ihc sizeC, ihb sizeB]
  | ifElse note condition body otherwise span ihc ihb iho =>
    rw [inOrder, List.length_append, List.length_append] at size
    obtain ⟨first, later, rfl, sizeC, size⟩ := exists_split size
    obtain ⟨second, third, rfl, sizeB, sizeO⟩ := exists_split size
    rw [dealt_ifElse _ _ sizeC sizeB]
    simp [nodes, isNote_cons, isNote_append, Tree.note, ihc sizeC, ihb sizeB, iho sizeO]
  | block note items span ih =>
    suffices h : IsNote value (nodesAll (dealtAll items values)) ↔ value ∈ values by
      simpa [dealt, nodes, isNote_cons, Tree.note] using h
    replace size : values.length = (inOrderAll items).length := size
    induction items generalizing values with
    | nil =>
      obtain rfl := List.eq_nil_of_length_eq_zero size
      simp [dealtAll, nodesAll, isNote_nil]
    | cons item items ihs =>
      rw [inOrderAll, List.length_append] at size
      obtain ⟨first, second, rfl, sizeI, sizeR⟩ := exists_split size
      have tail : IsNote value (nodesAll (dealtAll items second)) ↔ value ∈ second :=
        ihs (fun other mem => ih other (List.mem_cons_of_mem _ mem)) sizeR
      rw [dealtAll_cons sizeI, nodesAll, isNote_append, ih item List.mem_cons_self sizeI, tail,
        List.mem_append]

end Tree

/-! ### Places in a list of tokens -/

/-- The tokens that a tree keeps. -/
def kept (tokens : List Token) : List Token :=
  tokens.filter fun token => token.kind.isKept

/-- The places of the tokens that a tree keeps, where the first token stands at `start`. -/
def keptPlaces : Nat → List Token → List Nat
  | _, [] => []
  | start, token :: tokens =>
    if token.kind.isKept then start :: keptPlaces (start + 1) tokens
    else keptPlaces (start + 1) tokens

/-- The tree of some tokens with the places of its own tokens among them as notes. -/
def Expr.placed (tokens : List Token) (expr : Expr) : Tree (Option Nat) :=
  expr.dealt (keptPlaces 0 tokens)

theorem kept_append (tokens tokens' : List Token) :
    kept (tokens ++ tokens') = kept tokens ++ kept tokens' :=
  List.filter_append ..

theorem kept_cons_of_isKept {token : Token} (h : token.kind.isKept) (tokens : List Token) :
    kept (token :: tokens) = token :: kept tokens :=
  List.filter_cons_of_pos h

theorem kept_cons_of_not_isKept {token : Token} (h : ¬ token.kind.isKept) (tokens : List Token) :
    kept (token :: tokens) = kept tokens :=
  List.filter_cons_of_neg h

theorem keptPlaces_cons_of_isKept {token : Token} (h : token.kind.isKept) (start : Nat)
    (tokens : List Token) :
    keptPlaces start (token :: tokens) = start :: keptPlaces (start + 1) tokens :=
  if_pos h

theorem keptPlaces_cons_of_not_isKept {token : Token} (h : ¬ token.kind.isKept) (start : Nat)
    (tokens : List Token) :
    keptPlaces start (token :: tokens) = keptPlaces (start + 1) tokens :=
  if_neg h

theorem keptPlaces_append (start : Nat) (tokens tokens' : List Token) :
    keptPlaces start (tokens ++ tokens') =
      keptPlaces start tokens ++ keptPlaces (start + tokens.length) tokens' := by
  induction tokens generalizing start with
  | nil => rfl
  | cons token tokens ih =>
    have later := ih (start + 1)
    rw [Nat.add_right_comm, Nat.add_assoc] at later
    by_cases isKept : token.kind.isKept
    · rw [List.cons_append, keptPlaces_cons_of_isKept isKept, keptPlaces_cons_of_isKept isKept,
        later]
      rfl
    · rw [List.cons_append, keptPlaces_cons_of_not_isKept isKept,
        keptPlaces_cons_of_not_isKept isKept, later]
      rfl

theorem length_keptPlaces (start : Nat) (tokens : List Token) :
    (keptPlaces start tokens).length = (kept tokens).length := by
  induction tokens generalizing start with
  | nil => rfl
  | cons token tokens ih =>
    by_cases isKept : token.kind.isKept
    · rw [keptPlaces_cons_of_isKept isKept, kept_cons_of_isKept isKept, List.length_cons, ih]
      rfl
    · rw [keptPlaces_cons_of_not_isKept isKept, kept_cons_of_not_isKept isKept, ih]

theorem mem_keptPlaces_iff {start place : Nat} {tokens : List Token} :
    place ∈ keptPlaces start tokens ↔
      ∃ front token later, tokens = front ++ token :: later ∧ token.kind.isKept ∧
        place = start + front.length := by
  induction tokens generalizing start with
  | nil => simp [keptPlaces]
  | cons head tokens ih =>
    have step : place ∈ keptPlaces start (head :: tokens) ↔
        head.kind.isKept ∧ place = start ∨ place ∈ keptPlaces (start + 1) tokens := by
      rw [keptPlaces]
      split <;> simp [*]
    rw [step, ih]
    constructor
    · rintro (⟨isKept, rfl⟩ | ⟨front, token, later, rfl, isKept, rfl⟩)
      · exact ⟨[], head, tokens, rfl, isKept, rfl⟩
      · refine ⟨head :: front, token, later, rfl, isKept, ?_⟩
        rw [List.length_cons]
        omega
    · rintro ⟨front, token, later, eq, isKept, rfl⟩
      cases front with
      | nil =>
        obtain ⟨rfl, rfl⟩ := List.cons.inj eq
        exact .inl ⟨isKept, rfl⟩
      | cons _ front =>
        obtain ⟨rfl, rfl⟩ := List.cons.inj eq
        refine .inr ⟨front, token, later, rfl, isKept, ?_⟩
        rw [List.length_cons]
        omega

theorem kept_of_forall_isKept {tokens : List Token} (all : ∀ token ∈ tokens, token.kind.isKept) :
    kept tokens = tokens :=
  List.filter_eq_self.2 all

/-- If a tree keeps all of the tokens, then there is no gap in their places. -/
theorem mem_keptPlaces_of_forall_isKept {tokens : List Token}
    (all : ∀ token ∈ tokens, token.kind.isKept) {start place : Nat} :
    place ∈ keptPlaces start tokens ↔ start ≤ place ∧ place < start + tokens.length := by
  induction tokens generalizing start with
  | nil => simp [keptPlaces]
  | cons token tokens ih =>
    obtain ⟨isKept, all⟩ := List.forall_mem_cons.1 all
    rw [keptPlaces_cons_of_isKept isKept, List.mem_cons, ih all, List.length_cons]
    omega

/-- A token that a tree keeps is among those that are taken unless it is among those left. -/
theorem mem_keptPlaces_taken_iff {taken rest front later : List Token} {token : Token}
    (eq : taken ++ rest = front ++ token :: later) (isKept : token.kind.isKept) (start : Nat) :
    start + front.length ∈ keptPlaces start taken ↔ rest.length ≤ later.length := by
  have size := congrArg List.length eq
  rw [List.length_append, List.length_append, List.length_cons] at size
  rw [mem_keptPlaces_iff]
  constructor
  · rintro ⟨front', token', later', takenEq, -, placeEq⟩
    have size' := congrArg List.length takenEq
    rw [List.length_append, List.length_cons] at size'
    omega
  · intro fewer
    rcases List.append_eq_append_iff.1 eq with ⟨extra, frontEq, restEq⟩ | ⟨extra, takenEq, later'⟩
    · have size' := congrArg List.length restEq
      rw [List.length_append, List.length_cons] at size'
      omega
    · cases extra with
      | nil =>
        have size' := congrArg List.length later'
        rw [List.nil_append, List.length_cons] at size'
        omega
      | cons token' extra =>
        obtain ⟨rfl, -⟩ := List.cons.inj later'
        exact ⟨front, token, extra, takenEq, isKept, rfl⟩

end ExprCheck
