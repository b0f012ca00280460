/-
Programs from source text.

Lines become statements and headers take the block that is indented below
them. A line that cannot be read leaves an `error` statement in its place and
an error in the list; a block below it is read, so that its own errors show,
and dropped. `pero_si` and `si_no` join the conditional right before them.

The reader walks the lexemes from left to right and never gives one back, so
their number is fuel enough.
-/
import Guion.Parse.Line
import Guion.Token.Layout

namespace Guion.Parse

/-- What the reader still has to read, and the errors so far, latest first. -/
structure Cursor where
  lexemes : List Lexeme
  errors : List ParseError

/-- The tokens of the current line, and what follows its end. -/
def takeLine : List Lexeme → List Lexeme × List Lexeme
  | [] => ([], [])
  | lexeme :: rest =>
    if lexeme.token = .newline then ([], rest)
    else
      let (tokens, after) := takeLine rest
      (lexeme :: tokens, after)

def endsWithColon (tokens : List Lexeme) : Bool :=
  (tokens.getLast?.map Lexeme.token) == some (.symbol .colon)

/-- Whether a block starts here. -/
def atIndent : List Lexeme → Bool
  | lexeme :: _ => lexeme.token == .indent
  | [] => false

/-- The statement that stands for an error. -/
def errorStatement (e : ParseError) : Statement := .error e.message e.line

/-- Declarations put up with text that is no token: it may be raw text. -/
def isDeclaration (tokens : List Lexeme) : Bool :=
  match tokens.head?.map Lexeme.token with
  | some (.keyword .variable) | some (.keyword .global) | some (.keyword .constant) => true
  | _ => false

/-- Reads one line; an end of line found inside an expression is reported with
the number of the line. -/
def lineAt (types : List String) (text : List Char) (number : Nat) (tokens : List Lexeme) :
    Except ParseError Line :=
  let parsed :=
    match firstUnknown? tokens with
    | some e => if isDeclaration tokens then line types text tokens else .error e
    | none => line types text tokens
  match parsed with
  | .error (.unexpectedEndOfLine 0) => .error (.unexpectedEndOfLine number)
  | other => other

/-- Adds the statement of a header and its body to the statements before it,
the latest first. -/
def attach (header : Header) (body : Block) (number : Nat) (before : List Statement) :
    Except ParseError (List Statement) :=
  match header with
  | .ifIs condition => .ok (.conditional [(condition, body)] none number :: before)
  | .elseIf condition =>
    match before with
    | .conditional branches none start :: rest =>
      .ok (.conditional (branches ++ [(condition, body)]) none start :: rest)
    | _ => .error (.orphanBranch "pero_si" number)
  | .otherwise =>
    match before with
    | .conditional branches none start :: rest =>
      .ok (.conditional branches (some body) start :: rest)
    | _ => .error (.orphanBranch "si_no" number)
  | .whileLoop condition => .ok (.whileLoop condition body number :: before)
  | .forLoop name source => .ok (.forLoop name source body number :: before)
  | .function name params =>
    let signature : Signature :=
      { name := name, params := params, returns := body.returnKind, line := number }
    .ok (.function signature body :: before)

/-- The block of some statements: it starts on the line of the first one. -/
def blockOf (statements : List Statement) (fallback : Nat) : Block :=
  .mk statements ((statements.head?.map Statement.line).getD fallback)

/-- Reads statements at a depth up to the end of their block. The statements
before them in the block are given, and returned, latest first. -/
def block (types : List String) (lines : Array (List Char)) :
    Nat → Nat → List Statement → Cursor → List Statement × Cursor
  | 0, _, before, cursor => (before, cursor)
  | fuel + 1, depth, before, cursor =>
    match cursor.lexemes with
    | [] => (before, cursor)
    | lexeme :: rest =>
      let number := lexeme.line
      match lexeme.token with
      | .dedent => (before, { cursor with lexemes := rest })
      | .indent =>
        let e := ParseError.unexpectedIndentation depth (depth + 1) number
        let inner := block types lines fuel (depth + 1) [] ⟨rest, e :: cursor.errors⟩
        block types lines fuel depth (errorStatement e :: before) inner.2
      | .irregularIndent width =>
        let (tokens, rest) := takeLine rest
        let e := ParseError.irregularIndentation width number
        let after : Cursor := ⟨rest, e :: cursor.errors⟩
        let after :=
          if endsWithColon tokens && atIndent rest then
            (block types lines fuel (depth + 1) [] { after with lexemes := rest.tail }).2
          else after
        block types lines fuel depth (errorStatement e :: before) after
      | _ =>
        let (tokens, rest) := takeLine (lexeme :: rest)
        if tokens.isEmpty then block types lines fuel depth before { cursor with lexemes := rest }
        else
          match lineAt types (lines.getD (number - 1) []) number tokens with
          | .ok (.simple statement) =>
            block types lines fuel depth (statement :: before) { cursor with lexemes := rest }
          | .ok (.header header) =>
            if atIndent rest then
              let (inner, after) :=
                block types lines fuel (depth + 1) [] { cursor with lexemes := rest.tail }
              match attach header (blockOf inner.reverse number) number before with
              | .ok statements => block types lines fuel depth statements after
              | .error e =>
                block types lines fuel depth (errorStatement e :: before)
                  { after with errors := e :: after.errors }
            else
              let e := ParseError.emptyBlock header.keyword number
              block types lines fuel depth (errorStatement e :: before) ⟨rest, e :: cursor.errors⟩
          | .error e =>
            let after : Cursor := ⟨rest, e :: cursor.errors⟩
            let after :=
              if endsWithColon tokens && atIndent rest then
                (block types lines fuel (depth + 1) [] { after with lexemes := rest.tail }).2
              else after
            block types lines fuel depth (errorStatement e :: before) after

/-- The program of a source, and all the errors in it, in the order in which
they were found. `types` are the type names that declarations may use. -/
def program (types : List String) (source : String) : Block × List ParseError :=
  let lexemes := Layout.lexemes source
  let lines := (Text.lines source.toList).toArray
  let (statements, cursor) := block types lines (lexemes.length + 1) 0 [] ⟨lexemes, []⟩
  (blockOf statements.reverse 1, cursor.errors.reverse)

end Guion.Parse
