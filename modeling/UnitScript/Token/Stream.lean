import UnitScript.Diagnostic.Problem

/-!
# Reading from tokens

A `TokenStream` is the tokens that are still to be read.  It ends at the first
end-of-file token, which is never read: behind the last token the stream keeps
answering with the end of the file.

`Parse α` reads an `α` from a stream.  It succeeds, or it fails with one
complaint; either way the stream is left where reading stopped.

* `peek`, `advance`, `eat`, `expect`, `skipNewlines` are the steps.
* `leftAssoc` reads operands joined by operators of one level, from left to
  right.

Reading that nests or repeats takes a `fuel`.  As much as there are tokens left
is enough, because each turn reads at least one of them.
-/

namespace UnitScript

/-- The tokens that are still to be read, the span of the token read last, and
the span of the end of the file. -/
structure TokenStream where
  rest : List Token
  previous : Span
  finish : Span
deriving DecidableEq

namespace TokenStream

/-- The stream of a token list.  A list without an end-of-file token ends
where its last token stands. -/
def ofTokens (tokens : List Token) : TokenStream where
  rest := tokens.takeWhile fun token => token.kind != .endOfFile
  previous := .point .origin
  finish :=
    match tokens.find? (fun token => token.kind == .endOfFile), tokens.getLast? with
    | some token, _ => token.span
    | none, some token => token.span
    | none, none => .point .origin

/-- What the next token is. -/
def kind (s : TokenStream) : Token.Kind :=
  match s.rest with
  | [] => .endOfFile
  | token :: _ => token.kind

/-- What the token after the next one is. -/
def secondKind (s : TokenStream) : Token.Kind :=
  match s.rest with
  | _ :: token :: _ => token.kind
  | _ => .endOfFile

/-- Where the next token stands. -/
def span (s : TokenStream) : Span :=
  match s.rest with
  | [] => s.finish
  | token :: _ => token.span

/-- Whether every token was read. -/
def atEnd (s : TokenStream) : Bool := s.kind == .endOfFile

/-- Reads the next token.  The end of the file stays where it is. -/
def advance (s : TokenStream) : TokenStream :=
  match s.rest with
  | [] => s
  | token :: rest => { s with rest := rest, previous := token.span }

/-- Reads the longest run of tokens that satisfy `p`. -/
def skipWhile (p : Token.Kind → Bool) (s : TokenStream) : TokenStream where
  rest := s.rest.dropWhile fun token => p token.kind
  previous :=
    match (s.rest.takeWhile fun token => p token.kind).getLast? with
    | some token => token.span
    | none => s.previous
  finish := s.finish

/-- Reads any newlines. -/
def skipNewlines (s : TokenStream) : TokenStream := s.skipWhile (· == .newline)

/-- Whether a statement can go on with a token of this kind. -/
def isInsideStatement (kind : Token.Kind) : Bool :=
  kind != .newline && kind != .rightBrace && kind != .endOfFile

/-- Skips to the start of the next statement: over the rest of the line, or up
to a closing brace or the end. -/
def synchronize (s : TokenStream) : TokenStream :=
  (s.skipWhile isInsideStatement).skipNewlines

end TokenStream

/-- Reads an `α` from a token stream, or fails with a complaint. -/
abbrev Parse (α : Type) := EStateM Complaint TokenStream α

namespace Parse

/-- What the next token is. -/
def peek : Parse Token.Kind := fun s => .ok s.kind s

/-- Where the next token stands. -/
def here : Parse Span := fun s => .ok s.span s

/-- Where the token read last stands. -/
def previous : Parse Span := fun s => .ok s.previous s

/-- Reads the next token and gives its span. -/
def advance : Parse Span := fun s => .ok s.span s.advance

/-- Reads any newlines. -/
def skipNewlines : Parse Unit := fun s => .ok () s.skipNewlines

/-- Fails with a problem at the next token. -/
def fail {α : Type} (problem : Problem) : Parse α := fun s => .error ⟨problem, s.span⟩ s

/-- Reads a token of kind `wanted` if it comes next, and says whether it did. -/
def eat (wanted : Token.Kind) : Parse Bool := fun s =>
  if s.kind = wanted then .ok true s.advance else .ok false s

/-- Reads a token of kind `wanted`, or fails. -/
def expect (wanted : Token.Kind) : Parse Unit := fun s =>
  if s.kind = wanted then .ok () s.advance
  else .error ⟨.expected wanted s.kind, s.span⟩ s

variable {α ω : Type}

/-- Goes on from the operand `left` as long as operators follow.  `fuel`
bounds their number. -/
def chain (op? : Token.Kind → Option ω) (operand : Parse α) (join : ω → α → α → α) :
    (fuel : Nat) → α → Parse α
  | 0, left => pure left
  | fuel + 1, left => do
      match op? (← peek) with
      | none => pure left
      | some op => do
          let _ ← advance
          let right ← operand
          chain op? operand join fuel (join op left right)

/-- Reads one operand and any number of operators and operands behind it, and
joins them from left to right.  `fuel` bounds the number of operators. -/
def leftAssoc (fuel : Nat) (op? : Token.Kind → Option ω) (operand : Parse α)
    (join : ω → α → α → α) : Parse α := do
  let left ← operand
  chain op? operand join fuel left

end Parse

end UnitScript
