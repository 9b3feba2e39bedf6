/-
# What can go wrong

A refused request is an `Error`: a cause with the data that names it, worded by
`Error.message`.  An `Abort` is no answer at all: a message that does not have
the shape of the statement it is encoded for, a power modulo zero, a length
beyond the machine word, or a source of randomness whose every proposal was
refused.  `Failure` is either.  A transcript that does not verify is none of
these: checking answers `false`.
-/

namespace ThreeMove

/-- Why a request was refused. Source: `Error`. -/
inductive Error where
  | verificationFailure
  | invalidInstanceWitnessPair
  | challengeSpaceMismatch
  | invalidParameters (reason : String)
  | invalidEncoding (what : String)
  | unexpectedRepresentation (expected : String)
  | reservedIdentifier (id : String)
  | mailboxEmpty (id : String)
  | mailboxCollision (id : String)
  | unknownSubProtocol (name : String)
  | duplicateSubProtocol (name : String)
  | argumentRejected (name : String)
  | unexpectedMessage (state : String)
  | protocolTerminated
  | roundLimitExceeded (limit : Nat)
  deriving DecidableEq, Repr

/-- A name between quotation marks, as messages show it: quotes, backslashes
and the common control characters by a two-character escape, the other control
characters by their code in hexadecimal, all else as it is. -/
def quoted (name : String) : String :=
  "\"" ++ String.join (name.toList.map escape) ++ "\""
where
  /-- The written form of one character. -/
  escape (c : Char) : String :=
    if c = '"' then "\\\""
    else if c = '\\' then "\\\\"
    else if c = '\n' then "\\n"
    else if c = '\r' then "\\r"
    else if c = '\t' then "\\t"
    else if c = '\x00' then "\\0"
    else if c.val < 0x20 ∨ 0x7f ≤ c.val ∧ c.val < 0xa0 then
      "\\u\x7b" ++ String.ofList (Nat.toDigits 16 c.toNat) ++ "\x7d"
    else c.toString

/-- The wording of an error. -/
def Error.message : Error → String
  | .verificationFailure => "Verification failed."
  | .invalidInstanceWitnessPair => "Invalid instance/witness pair."
  | .challengeSpaceMismatch => "Composed protocols do not share a challenge space."
  | .invalidParameters reason => "Invalid parameters: " ++ reason
  | .invalidEncoding what => "Invalid encoding of " ++ what ++ "."
  | .unexpectedRepresentation expected =>
    "Unexpected representation, expected " ++ expected ++ "."
  | .reservedIdentifier id => "Identifier " ++ quoted id ++ " is reserved."
  | .mailboxEmpty id => "No pending value for mailbox id " ++ quoted id ++ "."
  | .mailboxCollision id => "Mailbox id " ++ quoted id ++ " already holds an unread value."
  | .unknownSubProtocol name => "No running sub-protocol named " ++ quoted name ++ "."
  | .duplicateSubProtocol name =>
    "A sub-protocol named " ++ quoted name ++ " is already running."
  | .argumentRejected name => "Argument " ++ quoted name ++ " was rejected."
  | .unexpectedMessage state => "Unexpected message in state " ++ state ++ "."
  | .protocolTerminated => "The protocol instance has already terminated."
  | .roundLimitExceeded limit =>
    "Execution did not terminate within " ++ toString limit ++ " messages."

/-- The two kinds of message that a statement encodes. -/
inductive MessageKind where
  | announcement
  | response
  deriving DecidableEq, Repr

/-- Why a request has no answer. -/
inductive Abort where
  /-- A message has not the shape of its statement: `shape_mismatch`. -/
  | shapeMismatch (kind : MessageKind)
  /-- A power is taken modulo zero: `modpow`. -/
  | zeroModulus
  /-- The length of a list to be read, in bytes, is no machine word. -/
  | lengthOverflow
  /-- Every proposal of a source of randomness was refused. -/
  | randomnessExhausted
  deriving DecidableEq, Repr

/-- The wording of an abort that has one. -/
def Abort.message? : Abort → Option String
  | .shapeMismatch .announcement => some "announcement does not match the shape of the formula"
  | .shapeMismatch .response => some "response does not match the shape of the formula"
  | .zeroModulus | .lengthOverflow | .randomnessExhausted => none

/-- A refusal or an abort. -/
inductive Failure where
  | error (cause : Error)
  | abort (cause : Abort)
  deriving DecidableEq, Repr

instance : Coe Error Failure := ⟨.error⟩
instance : Coe Abort Failure := ⟨.abort⟩

/-- A refusal seen as a failure. -/
def Failure.ofRefused {α : Type} : Except Error α → Except Failure α :=
  Except.mapError .error

/-- An abort seen as a failure. -/
def Failure.ofAborted {α : Type} : Except Abort α → Except Failure α :=
  Except.mapError .abort

end ThreeMove
