import Mathlib.Data.Int.Notation

/-! # Scalars and enumerations of the schema

Timestamps are whole microseconds since the epoch, the resolution the database stores. -/

namespace Vsms.Schema.Types

/-- A timestamp, or a length of time, in microseconds. -/
abbrev Time := ℤ

def seconds (n : ℤ) : Time := n * 1000000

def minutes (n : ℤ) : Time := seconds (60 * n)

def hours (n : ℤ) : Time := minutes (60 * n)

def days (n : ℤ) : Time := hours (24 * n)

inductive MessageState
  | accepted
  | queued
  | routed
  | submitted
  | delivered
  | uncertain
  | undelivered
  | failed
  | expired
  | rejected
  | cancelled
  deriving DecidableEq, Repr

inductive JobState
  | pending
  | running
  | succeeded
  | failed
  | dead
  | cancelled
  deriving DecidableEq, Repr

inductive AttemptState
  | pending
  | delivering
  | succeeded
  | failed
  | dead
  deriving DecidableEq, Repr

inductive WebhookDeliveryMode
  | hmac
  | sealed
  deriving DecidableEq, Repr

inductive MessageClass
  | otp
  | transactional
  | notification
  | marketing
  deriving DecidableEq, Repr

inductive OperatorCode
  | mtn
  | orange
  | camtel
  | nexttel
  | unknown
  deriving DecidableEq, Repr

inductive Encoding
  | gsm7
  | ucs2
  deriving DecidableEq, Repr

/-- The outcome column of a stored delivery receipt. -/
inductive ReceiptOutcome
  | delivered
  | uncertain
  | failed
  | expired
  | rejected
  | inFlight
  | unknown
  deriving DecidableEq, Repr

inductive ProviderState
  | active
  | degraded
  | disabled
  | draining
  deriving DecidableEq, Repr

/-- How a procedure fails. -/
inductive CratestackError
  | validation (message : String)
  | unauthorized (message : String)
  | forbidden (message : String)
  | notFound (message : String)
  | conflict (message : String)
  | database (message : String)
  | internal (message : String)
  deriving DecidableEq, Repr

end Vsms.Schema.Types
