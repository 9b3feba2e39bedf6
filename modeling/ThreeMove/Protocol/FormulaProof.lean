/-
# Proving a formula of statements

The prover knows witnesses of some leaves of a monotone formula, enough to
satisfy it.  At an `all` gate every child answers the same challenge.  At an
`any` gate the challenge is split among the children so that the shares add up
to it: the first child that the prover can satisfy is proved, the others are
simulated for shares of the prover's choosing, and all shares but the last are
shown, the last being what remains.
-/

import ThreeMove.Protocol.Basic
import ThreeMove.Protocol.Formula

namespace ThreeMove
namespace FormulaProof

variable {G : Type}

/-- A formula whose leaves are protocols. -/
abbrev Gate (G : Type) := Formula (Protocol G)

mutual

/-- A transcript for a challenge, without any witness.  At an `any` gate all
shares but the last are drawn first, then the children are simulated. Source: `simulate`. -/
def simulate (space : ChallengeSpace) :
    Gate G → Nat → Sampler (Announcement G × Response G)
  | .leaf _ protocol, c => do
    let (announcement, response) ← protocol.simulate c
    return (.leaf announcement, .leaf response)
  | .all children, c => do
    let parts ← simulateEach space children (children.map fun _ => c)
    return (.all (parts.map (·.1)), .all (parts.map (·.2)))
  | .any children, c => do
    let shares ← (List.range (children.length - 1)).mapM fun _ => Sampler.drawElement space
    let parts ← simulateEach space children (shares ++ [space.remaining c shares])
    return (.any (parts.map (·.1)), .any shares (parts.map (·.2)))

/-- Simulates each formula for the challenge in the same place. -/
def simulateEach (space : ChallengeSpace) :
    List (Gate G) → List Nat → Sampler (List (Announcement G × Response G))
  | child :: rest, c :: shares => do
    let part ← simulate space child c
    let parts ← simulateEach space rest shares
    return part :: parts
  | _, _ => return []

end

/-- Simulates a formula for a share of one's own. -/
def simulateFresh (space : ChallengeSpace) (child : Gate G) :
    Sampler (Announcement G × Secret G) := do
  let challenge ← Sampler.drawElement space
  let (announcement, response) ← simulate space child challenge
  return (announcement, .simulated challenge response)

/-- Whether the known witnesses satisfy a formula. -/
def covers (known : Table Witness) (formula : Gate G) : Bool := formula.holds known.has

mutual

/-- Announces with the known witnesses, which satisfy the formula. Source: `announce`. -/
def announce (space : ChallengeSpace) (known : Table Witness) :
    Gate G → Sampler (Announcement G × Secret G)
  | .leaf name protocol =>
    match known.find? name with
    | some witness => do
      let (announcement, secret) ← protocol.announce witness
      return (.leaf announcement, .leaf secret)
    | none => Sampler.refuse .invalidInstanceWitnessPair
  | .all children => do
    let parts ← announceAll space known children
    return (.all (parts.map (·.1)), .all (parts.map (·.2)))
  | .any children => do
    let parts ← announceAny space known children
    return (.any (parts.map (·.1)), .any (parts.map (·.2)))

/-- Announces every formula. -/
def announceAll (space : ChallengeSpace) (known : Table Witness) :
    List (Gate G) → Sampler (List (Announcement G × Secret G))
  | [] => return []
  | child :: rest => do
    let part ← announce space known child
    let parts ← announceAll space known rest
    return part :: parts

/-- Announces the first formula that the witnesses satisfy, and simulates the
others. -/
def announceAny (space : ChallengeSpace) (known : Table Witness) :
    List (Gate G) → Sampler (List (Announcement G × Secret G))
  | [] => Sampler.refuse .invalidInstanceWitnessPair
  | child :: rest =>
    if covers known child then do
      let part ← announce space known child
      let parts ← rest.mapM (simulateFresh space)
      return part :: parts
    else do
      let part ← simulateFresh space child
      let parts ← announceAny space known rest
      return part :: parts

end

mutual

/-- Answers a challenge; a secret that does not fit the formula is refused. Source: `respond`. -/
def respond (space : ChallengeSpace) : Gate G → Secret G → Nat → Except Error (Response G)
  | .leaf _ protocol, .leaf secret, c => .leaf <$> protocol.respond secret c
  | .all children, .all secrets, c =>
    if children.length = secrets.length then .all <$> respondAll space children secrets c
    else .error .invalidInstanceWitnessPair
  | .any children, .any secrets, c =>
    if children.length = secrets.length then do
      let share := space.remaining c (secrets.filterMap Secret.simulatedChallenge?)
      let parts ← respondAny space children secrets share
      return .any (parts.map (·.1)).dropLast (parts.map (·.2))
    else .error .invalidInstanceWitnessPair
  | _, _, _ => .error .invalidInstanceWitnessPair

/-- Answers one challenge throughout. -/
def respondAll (space : ChallengeSpace) :
    List (Gate G) → List (Secret G) → Nat → Except Error (List (Response G))
  | child :: rest, secret :: secrets, c => do
    let response ← respond space child secret c
    let responses ← respondAll space rest secrets c
    return response :: responses
  | _, _, _ => .ok []

/-- Gives every child its challenge and its response: those prepared where the
child was simulated, and the answer to `share` where it was announced. -/
def respondAny (space : ChallengeSpace) :
    List (Gate G) → List (Secret G) → Nat → Except Error (List (Nat × Response G))
  | child :: rest, secret :: secrets, share => do
    let part ← match secret with
      | .simulated challenge response => .ok (challenge, response)
      | secret => (share, ·) <$> respond space child secret share
    let parts ← respondAny space rest secrets share
    return part :: parts
  | _, _, _ => .ok []

end

mutual

/-- Whether the messages fit the formula and every leaf accepts its part. Source: `check`. -/
def check (space : ChallengeSpace) :
    Gate G → Announcement G → Nat → Response G → Except Abort Bool
  | .leaf _ protocol, .leaf announcement, c, .leaf response =>
    protocol.check announcement c response
  | .all children, .all announcements, c, .all responses =>
    if children.length = announcements.length ∧ children.length = responses.length then
      checkEach space children announcements (children.map fun _ => c) responses
    else .ok false
  | .any children, .any announcements, c, .any shares responses =>
    if children.length = announcements.length ∧ children.length = responses.length ∧
        shares.length + 1 = children.length then
      checkEach space children announcements (shares ++ [space.remaining c shares]) responses
    else .ok false
  | _, _, _, _ => .ok false

/-- Checks each formula on the messages in the same place, up to the first that
does not accept. -/
def checkEach (space : ChallengeSpace) :
    List (Gate G) → List (Announcement G) → List Nat → List (Response G) → Except Abort Bool
  | child :: rest, a :: announcements, c :: challenges, r :: responses => do
    if ← check space child a c r then checkEach space rest announcements challenges responses
    else return false
  | _, _, _, _ => .ok true

end

mutual

/-- Encodes an announcement of the formula, a frame for each child of a gate.
Source: `serialize_announcement_node`. -/
def encodeAnnouncement : Gate G → Announcement G → Except Abort Bytes
  | .leaf _ protocol, .leaf announcement => protocol.encodeAnnouncement announcement
  | .all children, .all announcements => frameAll <$> encodeAnnouncements children announcements
  | .any children, .any announcements => frameAll <$> encodeAnnouncements children announcements
  | _, _ => shapeMismatch .announcement

/-- Encodes announcements as far as there are formulas. -/
def encodeAnnouncements : List (Gate G) → List (Announcement G) → Except Abort (List Bytes)
  | child :: rest, a :: announcements => do
    let data ← encodeAnnouncement child a
    let others ← encodeAnnouncements rest announcements
    return data :: others
  | _, _ => .ok []

end

mutual

/-- Encodes a response to the formula, a frame for each child of a gate; at an
`any` gate the frames of the shares come first. Source: `serialize_response_node`. -/
def encodeResponse (space : ChallengeSpace) : Gate G → Response G → Except Abort Bytes
  | .leaf _ protocol, .leaf response => protocol.encodeResponse response
  | .all children, .all responses => frameAll <$> encodeResponses space children responses
  | .any children, .any shares responses =>
    (fun parts => frameAll (shares.map space.encode ++ parts)) <$>
      encodeResponses space children responses
  | _, _ => shapeMismatch .response

/-- Encodes responses as far as there are formulas. -/
def encodeResponses (space : ChallengeSpace) :
    List (Gate G) → List (Response G) → Except Abort (List Bytes)
  | child :: rest, r :: responses => do
    let data ← encodeResponse space child r
    let others ← encodeResponses space rest responses
    return data :: others
  | _, _ => .ok []

end

mutual

/-- Reads an announcement of the formula. Source: `restore_announcement_node`. -/
def decodeAnnouncement : Gate G → Bytes → Except Error (Announcement G)
  | .leaf _ protocol, data => .leaf <$> protocol.decodeAnnouncement data
  | .all children, data =>
    .all <$> decodeFrames "partial-knowledge announcement" (announcementDecoders children) data
  | .any children, data =>
    .any <$> decodeFrames "partial-knowledge announcement" (announcementDecoders children) data

/-- A decoder for each formula. -/
def announcementDecoders : List (Gate G) → List (Bytes → Except Error (Announcement G))
  | [] => []
  | child :: rest => decodeAnnouncement child :: announcementDecoders rest

end

mutual

/-- Reads a response to the formula. Source: `restore_response_node`. -/
def decodeResponse (space : ChallengeSpace) : Gate G → Bytes → Except Error (Response G)
  | .leaf _ protocol, data => .leaf <$> protocol.decodeResponse data
  | .all children, data =>
    .all <$> decodeFrames "AND response" (responseDecoders space children) data
  | .any children, data => do
    let (shares, cursor) ←
      FrameCursor.decodeEach "OR challenge"
        (List.replicate (children.length - 1) space.decode) ⟨data⟩
    let (responses, cursor) ←
      FrameCursor.decodeEach "OR response" (responseDecoders space children) cursor
    cursor.finish "OR response"
    return .any shares responses

/-- A decoder for each formula. -/
def responseDecoders (space : ChallengeSpace) :
    List (Gate G) → List (Bytes → Except Error (Response G))
  | [] => []
  | child :: rest => decodeResponse space child :: responseDecoders space rest

end

mutual

/-- Names the kinds of the leaves and the gates over them. Source: `identifier_node`. -/
def identifier : Gate G → Bytes
  | .leaf _ protocol => Protocol.gateIdentifier 0 [protocol.identifier]
  | .all children => Protocol.gateIdentifier 1 (identifiers children)
  | .any children => Protocol.gateIdentifier 2 (identifiers children)

/-- The identifier of each formula. -/
def identifiers : List (Gate G) → List Bytes
  | [] => []
  | child :: rest => identifier child :: identifiers rest

end

mutual

/-- Names the leaves and their statements. Source: `label_node`. -/
def label : Gate G → Bytes
  | .leaf name protocol => frameAll [Bytes.ofText name, protocol.label]
  | .all children => frameAll (labels children)
  | .any children => frameAll (labels children)

/-- The label of each formula. -/
def labels : List (Gate G) → List Bytes
  | [] => []
  | child :: rest => label child :: labels rest

end

/-- The protocol for a formula whose leaves all have the challenge space
`space`. Source: `ProofOfPartialKnowledge`. -/
def protocol (space : ChallengeSpace) (formula : Gate G) : Protocol G where
  space := space
  identifier := identifier formula
  label := label formula
  announce
    | .named known =>
      if covers known formula then announce space known formula
      else Sampler.refuse .invalidInstanceWitnessPair
    | _ => Sampler.refuse .invalidInstanceWitnessPair
  respond := respond space formula
  check := check space formula
  simulate := simulate space formula
  encodeAnnouncement := encodeAnnouncement formula
  encodeResponse := encodeResponse space formula
  decodeAnnouncement := decodeAnnouncement formula
  decodeResponse := decodeResponse space formula

end FormulaProof
end ThreeMove
