/-
This file models the auction of `fleece_embedded.c`: `fleece_embedded_claim_best_goal`
and the functions under it, which score the records of a goal pool and claim the best
one through a compare-and-set on a shared field `claim_<key>`.

The script engine is not part of the repository. Its two services are parameters: the
conversion of a stored claim from JSON, and the result of a call of `scoreGoal`, which
may be another one each time. So is the text that `%.17g` prints. A score is a number of
any type that has the source's operators; nothing here uses a law of arithmetic.

The source takes the key it fills in as a buffer of `FLEECE_FIELD_NAME_MAX` bytes, as
every caller passes.
-/

import Fleece.Hexadecimal
import Fleece.Names

namespace Fleece

/-- `FLEECE_JS_LIST_MAX`. -/
abbrev jsListMax : Nat := 128

/-- `"claim_"`. -/
def claimPrefix : List UInt8 := [0x63, 0x6C, 0x61, 0x69, 0x6D, 0x5F]

/-- `snprintf(claim_key, FLEECE_FIELD_NAME_MAX + 8, "claim_%s", key)`. -/
def claimName (key : CString) : CString where
  chars := (claimPrefix ++ key.chars).take (fieldNameMax + 7)
  noNul member := by
    rcases List.mem_append.mp (List.mem_of_mem_take member) with inPrefix | inKey
    · exact absurd inPrefix (by decide)
    · exact key.noNul inKey

/-- What the auction takes from the script engine and from the C library. `parseClaim` is
`JS_ParseJSON`, and of its result the string in `o` and the number in `b`; `printScore` is `%.17g`. -/
structure ScriptHost (Score : Type) where
  parseClaim : List UInt8 → Option (Option (List UInt8) × Option Score)
  printScore : Score → List UInt8

/-- The results of `scoreGoal` in one call of the auction: the number that the call with this index
gives for a key and the record under it, or nothing where the record is not JSON, the call throws or
its result is not a number's. The key that is held has the index zero, and those that are listed
count from one. -/
abbrev ScoreCalls (Score : Type) : Type := Nat → CString → Blob → Option Score

/-- The arguments of `fleece_embedded_claim_best_goal` apart from the key that is held, and what it
finds in the embedding: its time to live, and `scoreGoal` if the script defines it. -/
structure Auction (Score : Type) where
  poolPrefix : CString
  contestMargin : Score
  allowReassert : Bool
  peerTtlTicks : UInt64
  scoreGoal : Option (ScoreCalls Score)

/-- A candidate of the scan: the best one so far. -/
structure Bid (Score : Type) where
  key : FieldName
  score : Score
  expected : Option Blob

section Model

variable {Score : Type} [Add Score] [LT Score] [DecidableLT Score] [BEq Score] [Neg Score]
  [Zero Score] [OfScientific Score]

/-! ### Scores and claims -/

/-- The end of `js_score_goal`: a NaN is no score, and the others are kept between `±1e300`. -/
def acceptScore (score : Score) : Option Score :=
  if score != score then none
  else if score > 1e300 ∨ score < -1e300 then some (if score > 0 then 1e300 else -1e300)
  else some score

/-- `js_score_goal`. -/
def jsScoreGoal (calls : ScoreCalls Score) (index : Nat) (key : CString) (data : Blob) :
    Option Score :=
  (calls index key data).bind acceptScore

/-- `{"o":"%016llx","b":%.17g}`. -/
def claimText (host : ScriptHost Score) (selfId : UInt64) (score : Score) : List UInt8 :=
  [0x7B, 0x22, 0x6F, 0x22, 0x3A, 0x22] ++ Hexadecimal.print selfId ++
    [0x22, 0x2C, 0x22, 0x62, 0x22, 0x3A] ++ host.printScore score ++ [0x7D]

/-- The owner and the score in the bytes of a claim. -/
def parseClaim (host : ScriptHost Score) (data : Blob) : Option (UInt64 × Score) :=
  match host.parseClaim data.bytes with
  | some (some ownerHex, some score) => some (Hexadecimal.strtoull ownerHex, score)
  | _ => none

namespace FleeceStateManager

/-- `read_claim`: the owner and the score of a claim, and its bytes, which are also returned where
they are malformed. -/
def readClaim (host : ScriptHost Score) (manager : FleeceStateManager) (key : CString) :
    Option (UInt64 × Score) × Option Blob :=
  match manager.getNamed sharedOwnerId (claimName key) with
  | none => (none, none)
  | some data => (parseClaim host data, some data)

/-- `cas_claim`, whose buffer has 96 bytes. -/
def casClaim (host : ScriptHost Score) (manager : FleeceStateManager) (key : CString)
    (selfId : UInt64) (score : Score) (expected : Option Blob) : FleeceStateManager × Int :=
  if fits : (claimText host selfId score).length < 96 then
    manager.setSharedCas (claimName key) (expected.filter fun raw => decide (0 < raw.size))
      ⟨claimText host selfId score, fits.trans (by decide)⟩
  else (manager, -1)

/-! ### The auction -/

/-- The key that is held and its score: its claim names this node, its record is live and is
scored. -/
def heldGoal (host : ScriptHost Score) (calls : ScoreCalls Score) (manager : FleeceStateManager)
    (currentKey : Option CString) : Option (CString × Score) :=
  match currentKey with
  | none => none
  | some key =>
    match (manager.readClaim host key).1 with
    | none => none
    | some (owner, _) =>
      if owner = manager.nodeId then
        (manager.getNamed sharedOwnerId key).bind fun data =>
          (jsScoreGoal calls 0 key data).map fun score => (key, score)
      else none

/-- The listed names that the scan looks at. -/
def isConsidered (poolPrefix : CString) (currentKey : Option CString) (key : FieldName) : Bool :=
  poolPrefix.chars.isPrefixOf key.chars && !claimPrefix.isPrefixOf key.chars &&
    currentKey != some key.toCString

/-- A key that is unclaimed or ours, held by a peer that has gone silent, or outbid. -/
def isEligible (manager : FleeceStateManager) (auction : Auction Score)
    (claim : Option (UInt64 × Score)) (score : Score) : Bool :=
  match claim with
  | none => true
  | some (holder, holderScore) =>
    if holder = manager.nodeId then true
    else if manager.ticksSinceSeen holder > auction.peerTtlTicks then true
    else decide (score > holderScore + auction.contestMargin)

/-- What the scan makes of one listed name. -/
def bidOn (host : ScriptHost Score) (auction : Auction Score) (calls : ScoreCalls Score)
    (manager : FleeceStateManager) (currentKey : Option CString) (index : Nat) (key : FieldName) :
    Option (Bid Score) :=
  if isConsidered auction.poolPrefix currentKey key then
    (manager.getNamed sharedOwnerId key.toCString).bind fun data =>
      (jsScoreGoal calls index key.toCString data).bind fun score =>
        let claim := manager.readClaim host key.toCString
        if manager.isEligible auction claim.1 score then some ⟨key, score, claim.2⟩ else none
  else none

/-- The first bid of the scan wins, and a later one only with a higher score. -/
def betterBid (best : Option (Bid Score)) (bid : Option (Bid Score)) : Option (Bid Score) :=
  match best, bid with
  | best, none => best
  | none, some bid => some bid
  | some best, some bid => if bid.score > best.score then some bid else some best

/-- The scan of `fleece_embedded_claim_best_goal` over the listed keys: the best bid that it
finds. -/
def bestBid (host : ScriptHost Score) (auction : Auction Score) (calls : ScoreCalls Score)
    (manager : FleeceStateManager) (currentKey : Option CString) : Option (Bid Score) :=
  ((manager.listFields sharedOwnerId jsListMax).zipIdx 1).foldl
    (fun best listed =>
      betterBid best (manager.bidOn host auction calls currentKey listed.2 listed.1)) none

/-- `should_switch`, and the bid that it is for. -/
def switchTo (auction : Auction Score) (held : Option (CString × Score))
    (best : Option (Bid Score)) : Option (Bid Score) :=
  best.filter fun bid =>
    match held with
    | none => true
    | some (_, score) => decide (bid.score > score + auction.contestMargin)

/-- The key that is given back while nothing new is claimed. -/
def heldKey (held : Option (CString × Score)) : FieldName :=
  match held with
  | none => .empty
  | some (key, _) => .copy key

/-- A successful claim gives up the one before. -/
def releaseHeld (manager : FleeceStateManager) (held : Option (CString × Score)) :
    FleeceStateManager :=
  match held with
  | none => manager
  | some (key, _) => (manager.removeShared (claimName key)).1

/-- The compare-and-set of a claim with its own bytes. -/
def reassert (host : ScriptHost Score) (manager : FleeceStateManager) (allowReassert : Bool)
    (held : Option (CString × Score)) : FleeceStateManager :=
  match held with
  | none => manager
  | some (key, score) =>
    if allowReassert then
      match manager.getNamed sharedOwnerId (claimName key) with
      | none => manager
      | some raw => (manager.casClaim host key manager.nodeId score (some raw)).1
    else manager

/-- The part of the auction behind the scan. -/
def settle (host : ScriptHost Score) (auction : Auction Score) (manager : FleeceStateManager)
    (held : Option (CString × Score)) (best : Option (Bid Score)) :
    FleeceStateManager × FieldName :=
  match switchTo auction held best with
  | some bid =>
    let claimed := manager.casClaim host bid.key.toCString manager.nodeId bid.score bid.expected
    if claimed.2 = 0 then (claimed.1.releaseHeld held, bid.key) else (claimed.1, heldKey held)
  | none => (manager.reassert host auction.allowReassert held, heldKey held)

/-- `if (current_key && current_key[0] == '\0') current_key = NULL`. -/
def passedKey (currentKey : CString) : Option CString :=
  if currentKey.chars.isEmpty then none else some currentKey

/-- `fleece_embedded_claim_best_goal`: the code and the key it fills in. An empty key is none. -/
def claimBestGoal (host : ScriptHost Score) (auction : Auction Score)
    (manager : FleeceStateManager) (currentKey : CString) :
    FleeceStateManager × Int × FieldName :=
  match auction.scoreGoal with
  | none => (manager, -1, .empty)
  | some calls =>
    let current := passedKey currentKey
    let settled := manager.settle host auction (manager.heldGoal host calls current)
      (manager.bestBid host auction calls current)
    (settled.1, 0, settled.2)

end FleeceStateManager

end Model

end Fleece
