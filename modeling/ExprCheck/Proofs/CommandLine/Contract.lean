import ExprCheck.CommandLine.Run
import ExprCheck.Proofs.CommandLine.Files
import ExprCheck.Proofs.Parser.Unknown

/-!
# What the command promises

* `exists_parse_error`: a source that cannot be scanned cannot be read either. So to show the tokens
  before reading the program never turns a success into a failure, or the other way round.
* `Token.IsListedAs`: what is listed of a token, which is its offset, its kind and the token itself
  in columns.
* `Options.Shows`, `Options.Blames`: what is shown of a program that is accepted, and the fault for
  which another is refused. Each program has one or the other.
* `Options.Contract`: the exit code and both outputs of the command on a text, from the outcomes of
  scanning, reading and checking it.
* `Options.contract_runIn`: the contract on the text of a file in a directory.
-/

namespace ExprCheck

/-! ### The tokens -/

/-- A source that cannot be scanned cannot be read. -/
theorem exists_parse_error {source file : String} {diagnostic : Diagnostic}
    (scanned : tokenize source file = .error diagnostic) :
    ∃ diagnostic', (parse (Scanner.ofSource source file)).result = .error diagnostic' := by
  obtain ⟨token, mem, isUnknown, -⟩ := tokenize_error scanned
  cases read : (parse (Scanner.ofSource source file)).result with
  | ok expr => exact absurd isUnknown (not_unknown_of_parse read token mem)
  | error diagnostic' => exact ⟨diagnostic', rfl⟩

/-- The text stands at the right end of a column: there are only spaces before it, and no more than
the column needs to be so wide. -/
def Text.IsAtRight (width : Nat) (text column : String) : Prop :=
  ∃ count, column = String.ofList (List.replicate count ' ') ++ text ∧
    column.length = max width text.length

/-- The text stands at the left end of a column. -/
def Text.IsAtLeft (width : Nat) (text column : String) : Prop :=
  ∃ count, column = text ++ String.ofList (List.replicate count ' ') ∧
    column.length = max width text.length

/-- What is listed of a token: its offset at the right of five columns, its kind at the left of
fourteen, and the token as it is shown. -/
def Token.IsListedAs (token : Token) (entry : String) : Prop :=
  ∃ offset kind, Text.IsAtRight 5 (toString token.start.offset.toNat) offset ∧
    Text.IsAtLeft 14 token.kind.display kind ∧
    entry = offset ++ " " ++ kind ++ " " ++ token.display ++ "\n"

theorem tokenLine_isListed (token : Token) : token.IsListedAs (tokenLine token) :=
  ⟨_, _, ⟨_, rfl, Text.length_alignRight ..⟩, ⟨_, rfl, Text.length_alignLeft ..⟩, rfl⟩

/-- The table of the tokens of a source has an entry for each but the end of the input. -/
theorem tokenTable_of_tokenize {source file : String} {tokens : List Token}
    (scanned : tokenize source file = .ok tokens) :
    ∃ entries, tokenTable tokens = String.join entries ∧
      List.Forall₂ Token.IsListedAs (tokens.filter fun token => token.kind ≠ .eof) entries := by
  obtain ⟨rfl, -⟩ := tokenize_ok.1 scanned
  obtain ⟨front, last, eq, before, isEnd⟩ :=
    TokenSource.tokens_ends (Scanner.ofSource source file)
  have chosen : ∀ token ∈ front, decide (token.kind ≠ .eof) = true := by simpa using before
  have left : decide (last.kind ≠ .eof) = false := by simpa using isEnd
  refine ⟨front.map tokenLine, ?_, ?_⟩
  · rw [tokenTable, eq, List.takeWhile_append_of_pos chosen,
      List.takeWhile_cons_of_neg (by rw [left]; decide), List.append_nil]
  · rw [eq, List.filter_append, List.filter_eq_self.2 chosen,
      List.filter_cons_of_neg (by rw [left]; decide), List.filter_nil, List.append_nil,
      List.forall₂_map_right_iff, List.forall₂_same]
    exact fun token _ => tokenLine_isListed token

/-! ### The outcome -/

namespace Options

variable (options : Options) (source : String)

/-- The program as it is read. -/
def parsed : Except Diagnostic Expr :=
  (parse (Scanner.ofSource source options.fileName)).result

/-- The tokens to be listed: those before the end of the input, if they are asked for and all of
them can be scanned. -/
def listedTokens : List Token :=
  if options.showTokens then
    match tokenize source options.fileName with
    | .ok tokens => tokens.filter fun token => token.kind ≠ .eof
    | .error _ => []
  else []

/-- One entry after the other, for the tokens to be listed. -/
def Lists (listing : String) : Prop :=
  ∃ entries, listing = String.join entries ∧
    List.Forall₂ Token.IsListedAs (options.listedTokens source) entries

/-- What is shown of a program that is accepted. -/
inductive Shows : String → Prop where
  | untyped {expr : Expr} :
      options.parsed source = .ok expr → options.parseOnly = true → Shows expr.display
  | typed {expr : Expr} {typed : TypedExpr} :
      options.parsed source = .ok expr → options.parseOnly = false →
      expr.typeCheck.result = .ok typed → Shows typed.display

/-- The fault for which a program is refused, which is the first that is found. -/
inductive Blames : Diagnostic → Prop where
  | scan {diagnostic : Diagnostic} :
      options.showTokens = true → tokenize source options.fileName = .error diagnostic →
      Blames diagnostic
  | parse {diagnostic : Diagnostic} :
      (options.showTokens = true → (tokenize source options.fileName).isOk) →
      options.parsed source = .error diagnostic → Blames diagnostic
  | check {expr : Expr} {diagnostic : Diagnostic} :
      options.parsed source = .ok expr → options.parseOnly = false →
      expr.typeCheck.result = .error diagnostic → Blames diagnostic

/-- The output of the command on a text. -/
structure Contract (output : Output) : Prop where
  code : output.exitCode = 0 ∨ output.exitCode = 1
  /-- The command succeeds if the program can be read and, unless that is all, checked. -/
  accepts : output.exitCode = 0 ↔ ∃ expr, options.parsed source = .ok expr ∧
    (options.parseOnly = true ∨ ∃ typed, expr.typeCheck.result = .ok typed)
  /-- Behind the entries of the tokens there is one for the tree of the program, or none. -/
  stdout : ∃ listing entry, output.stdout = listing ++ entry ∧ options.Lists source listing ∧
    (output.exitCode ≠ 0 → entry = "") ∧
    (output.exitCode = 0 → ∃ tree, options.Shows source tree ∧ entry = tree ++ "\n")
  silent : output.stderr = "" ↔ output.exitCode = 0
  stderr : output.exitCode ≠ 0 → ∃ diagnostic, options.Blames source diagnostic ∧
    output.stderr = diagnostic.render source options.fileName ++
      if diagnostic.isInternal then "This is a bug in exprlang, please report it.\n" else ""

variable {options source}

theorem Shows.accepted {tree : String} (h : options.Shows source tree) :
    ∃ expr, options.parsed source = .ok expr ∧
      (options.parseOnly = true ∨ ∃ typed, expr.typeCheck.result = .ok typed) := by
  cases h with
  | untyped read only => exact ⟨_, read, .inl only⟩
  | typed read _ checked => exact ⟨_, read, .inr ⟨_, checked⟩⟩

/-- No program is accepted that has a fault to be refused for. -/
theorem Blames.not_accepted {diagnostic : Diagnostic} (h : options.Blames source diagnostic) :
    ¬ ∃ expr, options.parsed source = .ok expr ∧
      (options.parseOnly = true ∨ ∃ typed, expr.typeCheck.result = .ok typed) := by
  rintro ⟨expr, read, accepts⟩
  cases h with
  | scan _ scanned =>
    obtain ⟨diagnostic', refused⟩ := exists_parse_error scanned
    rw [parsed, refused] at read
    cases read
  | parse _ refused =>
    rw [refused] at read
    cases read
  | check read' notOnly refused =>
    rw [read'] at read
    cases read
    rcases accepts with only | ⟨typed, checked⟩
    · rw [notOnly] at only
      cases only
    · rw [refused] at checked
      cases checked

/-- A program has a tree to be shown or a fault to be refused for. -/
theorem treeText_ends
    (scanned : options.showTokens = true → (tokenize source options.fileName).isOk) :
    (∃ tree, options.treeText source = .ok tree ∧ options.Shows source tree) ∨
      ∃ diagnostic, options.treeText source = .error diagnostic ∧
        options.Blames source diagnostic := by
  unfold treeText
  cases read : (ExprCheck.parse (Scanner.ofSource source options.fileName)).result with
  | error diagnostic => exact .inr ⟨diagnostic, rfl, .parse scanned read⟩
  | ok expr =>
    cases only : options.parseOnly with
    | true => exact .inl ⟨expr.display, rfl, .untyped read only⟩
    | false =>
      cases checked : expr.typeCheck.result with
      | error diagnostic =>
        refine .inr ⟨diagnostic, ?_, .check read only checked⟩
        show (expr.typeCheck.result >>= fun typed => pure typed.display) = _
        rw [checked]
        rfl
      | ok typed =>
        refine .inl ⟨typed.display, ?_, .typed read only checked⟩
        show (expr.typeCheck.result >>= fun typed => pure typed.display) = _
        rw [checked]
        rfl

/-- The tokens are all scanned before one of them is listed. -/
theorem tokenText_ends :
    (∃ listing, options.tokenText source = .ok listing ∧ options.Lists source listing ∧
      (options.showTokens = true → (tokenize source options.fileName).isOk)) ∨
      ∃ diagnostic, options.tokenText source = .error diagnostic ∧
        options.Lists source "" ∧ options.Blames source diagnostic := by
  unfold tokenText Lists listedTokens
  cases asked : options.showTokens with
  | false => exact .inl ⟨"", rfl, ⟨[], rfl, .nil⟩, fun isTrue => by cases isTrue⟩
  | true =>
    cases scanned : tokenize source options.fileName with
    | error diagnostic => exact .inr ⟨diagnostic, rfl, ⟨[], rfl, .nil⟩, .scan asked scanned⟩
    | ok tokens => exact .inl ⟨tokenTable tokens, rfl, tokenTable_of_tokenize scanned, fun _ => rfl⟩

/-! ### The command -/

/-- Every report says at least that there is an error. -/
theorem report_ne_empty (diagnostic : Diagnostic) (source file : String) :
    diagnostic.report source file ≠ "" := by
  intro eq
  have noHeadline : diagnostic.headline = "" := by
    simp only [Diagnostic.report, Diagnostic.render, String.append_eq_empty_iff] at eq
    exact eq.1.1.1.1.1
  unfold Diagnostic.headline at noHeadline
  split at noHeadline <;> simp at noHeadline

theorem contract_success {listing tree : String} (lists : options.Lists source listing)
    (shows : options.Shows source tree) :
    options.Contract source (.success (listing ++ tree ++ "\n")) where
  code := .inl rfl
  accepts := ⟨fun _ => shows.accepted, fun _ => rfl⟩
  stdout := ⟨listing, tree ++ "\n", String.append_assoc .., lists,
    fun failed => absurd rfl failed, fun _ => ⟨tree, shows, rfl⟩⟩
  silent := ⟨fun _ => rfl, fun _ => rfl⟩
  stderr failed := absurd rfl failed

theorem contract_failure {listing : String} {diagnostic : Diagnostic}
    (lists : options.Lists source listing) (blames : options.Blames source diagnostic) :
    options.Contract source
      (.failure listing (diagnostic.report source options.fileName)) := by
  have failed : (1 : UInt32) ≠ 0 := by decide
  exact {
    code := .inr rfl
    accepts := ⟨fun eq => absurd eq failed, fun accepted => absurd accepted blames.not_accepted⟩
    stdout := ⟨listing, "", (String.append_empty).symm, lists, fun _ => rfl,
      fun eq => absurd eq failed⟩
    silent := ⟨fun eq => absurd eq (report_ne_empty _ _ _), fun eq => absurd eq failed⟩
    stderr := fun _ => ⟨diagnostic, blames, rfl⟩ }

theorem contract_runOn (options : Options) (source : String) :
    options.Contract source (options.runOn source) := by
  unfold runOn
  rcases options.tokenText_ends with ⟨listing, shown, lists, scanned⟩ |
    ⟨diagnostic, error, nothing, blames⟩
  · rw [shown]
    rcases options.treeText_ends scanned with ⟨tree, ok, shows⟩ | ⟨diagnostic, error, blames⟩
    · rw [ok]
      exact contract_success lists shows
    · rw [error]
      exact contract_failure lists blames
  · rw [error]
    exact contract_failure nothing blames

/-- **What the command promises.** On a text that it can read, the exit code says whether the
program is accepted, whether or not its tokens are shown. The tree of an accepted program is the
last entry on the standard output, behind those of the tokens, and the first fault of any other is
all that is on the standard error. -/
theorem run_contract {options : Options} {input : Except ReadFailure ByteArray} {source : String}
    (read : (input >>= decodeText) = .ok source) :
    options.Contract source (options.run input) ∧
      ∀ showTokens, (run { options with showTokens := showTokens } input).exitCode =
        (options.run input).exitCode := by
  have contract : ∀ options : Options, options.Contract source (options.run input) := by
    intro options
    rw [run, read]
    exact contract_runOn options source
  refine ⟨contract options, fun showTokens => ?_⟩
  -- Both programs are read under the same name, so both are accepted or neither is.
  have same := (contract { options with showTokens := showTokens }).accepts.trans
    (contract options).accepts.symm
  rcases (contract options).code with code | code
  · rw [code]
    exact same.2 code
  · have failed : (run { options with showTokens := showTokens } input).exitCode ≠ 0 := by
      rw [Ne, same, code]
      decide
    rw [code]
    exact (contract { options with showTokens := showTokens }).code.resolve_left failed

/-- A program that is read but that the checker has no rule for. To stop after reading it is to
accept it. -/
theorem run_contract_assignment :
    let options : Options := { showTokens := true }
    let input : Except ReadFailure ByteArray := .ok "1 = \"s\"".toUTF8
    let listing := "    0 Integer        1\n    2 =              =\n    4 String         \"s\"\n"
    (input >>= decodeText) = .ok "1 = \"s\"" ∧ options.Contract "1 = \"s\"" (options.run input) ∧
      (∀ showTokens, (run { options with showTokens := showTokens } input).exitCode =
        (options.run input).exitCode) ∧
      options.run input = .failure listing
        ("Error: InternalError (Internal error: no typing rule for operator \x60=\x60)\n" ++
          "-> <stdin>\n  |\n1 | 1 = \"s\"\n  | --^\n" ++
          "This is a bug in exprlang, please report it.\n") ∧
      run { options with parseOnly := true } input =
        .success (listing ++ "\x7b (1 = \"s\") \x7d\n") := by
  intro options input listing
  have read : (input >>= decodeText) = .ok "1 = \"s\"" := by decide +kernel
  obtain ⟨contract, sameCode⟩ := run_contract read
  exact ⟨read, contract, sameCode, by decide +kernel, by decide +kernel⟩

example : run {} (.ok "1 + 2.5".toUTF8) = .success "Float(\x7b Float(1 + 2.5) \x7d)\n" := by
  decide +kernel

/-! ### What is read -/

/-- The command reads a text, or it fails and names what it could not read. -/
theorem runIn_ends (options : Options) (inputs : Inputs Id) :
    (∃ source, ((options.input inputs).run >>= decodeText) = .ok source ∧
      options.Contract source (options.runIn inputs).run) ∨
    ∃ cause, ((options.input inputs).run >>= decodeText) = .error cause ∧
      (options.runIn inputs).run = .failure ""
        ("Failed to read " ++ options.sourceName ++ ": " ++ cause.reason ++ "\n") := by
  have ran : (options.runIn inputs).run = options.run (options.input inputs).run := rfl
  rw [ran, run]
  cases (options.input inputs).run >>= decodeText with
  | ok source => exact .inl ⟨source, rfl, contract_runOn options source⟩
  | error cause => exact .inr ⟨cause, rfl, rfl⟩

/-- **Every file of a directory can be checked.** The command that is asked for it keeps what it
promises for the text of that file. -/
theorem contract_runIn {files : List (String × ByteArray)} (holds : FileTree.Holds files)
    {path : String} {content : ByteArray} (mem : (path, content) ∈ files) {source : String}
    (isText : decodeText content = .ok source) {options : Options}
    (asked : options.path? = some path) (standard : ByteArray) :
    options.Contract source (options.runIn ((FileTree.ofPaths files).inputs standard)).run := by
  have found : (options.input ((FileTree.ofPaths files).inputs standard)).run = .ok content := by
    rw [input, asked]
    exact FileTree.read_ofPaths holds mem
  have isRead : ((options.input ((FileTree.ofPaths files).inputs standard)).run >>= decodeText) =
      .ok source := by
    rw [found]
    exact isText
  rcases options.runIn_ends ((FileTree.ofPaths files).inputs standard) with
    ⟨other, isOther, contract⟩ | ⟨cause, refused, -⟩
  · cases isRead.symm.trans isOther
    exact contract
  · cases isRead.symm.trans refused

end Options

end ExprCheck
