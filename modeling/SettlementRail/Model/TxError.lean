import Mathlib.Data.List.Basic

/-! `classifyTxError`: the retry policy of a send error, read off its code and its text. -/

namespace Rail

/-- What `readCode` and `readMessage` extract from a thrown value. -/
structure TxError where
  code : Option String
  message : String
deriving DecidableEq, Repr

structure TxErrorClass where
  retryable : Bool
  resyncNonce : Bool
  reason : String
deriving DecidableEq, Repr

/-- `toLowerCase`, as far as a search for ASCII text can tell: two characters outside of ASCII,
the Kelvin sign and the dotted capital I, have ASCII letters in their lower case. -/
def lowerChar (c : Char) : List Char :=
  if c = '\u212A' then ['k'] else if c = '\u0130' then ['i', '\u0307'] else [c.toLower]

def lowerChars (s : String) : List Char := s.toList.flatMap lowerChar

def includes (message : List Char) (part : String) : Bool :=
  message.tails.any part.toList.isPrefixOf

def isNonceDesync (code : Option String) (message : List Char) : Bool :=
  code = some "NONCE_EXPIRED" || code = some "REPLACEMENT_UNDERPRICED" ||
    includes message "nonce too low" || includes message "already known" ||
    includes message "replacement transaction underpriced"

def isTransient (code : Option String) (message : List Char) : Bool :=
  code = some "NETWORK_ERROR" || code = some "TIMEOUT" || code = some "SERVER_ERROR" ||
    includes message "timeout" || includes message "econnreset" ||
    includes message "socket hang up" || includes message "rate limit" ||
    includes message "429"

def isUnderpriced (message : List Char) : Bool :=
  includes message "underpriced" || includes message "fee too low" ||
    includes message "max fee per gas less than block base fee"

def isInsufficientFunds (code : Option String) (message : List Char) : Bool :=
  code = some "INSUFFICIENT_FUNDS" || includes message "insufficient funds"

def isReverted (code : Option String) (message : List Char) : Bool :=
  code = some "CALL_EXCEPTION" || includes message "execution reverted" ||
    includes message "transfer amount exceeds balance"

def classifyTxError (err : TxError) : TxErrorClass :=
  let message := lowerChars err.message
  if isNonceDesync err.code message then
    { retryable := true, resyncNonce := true, reason := err.code.getD "NONCE_DESYNC" }
  else if isTransient err.code message then
    { retryable := true, resyncNonce := false, reason := err.code.getD "TRANSIENT" }
  else if isUnderpriced message then
    { retryable := true, resyncNonce := false, reason := "UNDERPRICED" }
  else if isInsufficientFunds err.code message then
    { retryable := false, resyncNonce := false, reason := "INSUFFICIENT_FUNDS" }
  else if isReverted err.code message then
    { retryable := false, resyncNonce := false, reason := "REVERTED" }
  else { retryable := true, resyncNonce := false, reason := err.code.getD "UNKNOWN" }

end Rail
