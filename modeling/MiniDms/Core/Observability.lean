import MiniDms.Python.Uuids

/-! # Correlation

`RequestContextMiddleware` gives every request an identifier: the one in `X-Request-ID`, in whatever
spelling `uuid.UUID` reads, or a new one. It is answered in the same header, and whatever the request
leads to carries it. -/

namespace MiniDms

open Python

/-- The identifier of a request, from its header and a drawn `uuid4()`. -/
def requestIdentifier (decimal : CodePoint → Option Nat) (header : Option Str) (drawn : Nat) : Nat :=
  (parseUuid decimal (header.getD [])).getD drawn

/-- `correlation`, which is answered as `X-Request-ID`. -/
def correlation (decimal : CodePoint → Option Nat) (header : Option Str) (drawn : Nat) : Str :=
  uuidText (requestIdentifier decimal header drawn)

variable {decimal : CodePoint → Option Nat} {header : Option Str} {drawn : Nat}

/-- The identifier is one. -/
theorem requestIdentifier_lt (hdrawn : drawn < 2 ^ 128) :
    requestIdentifier decimal header drawn < 2 ^ 128 := by
  unfold requestIdentifier
  cases hparse : parseUuid decimal (header.getD []) with
  | none => exact hdrawn
  | some n => exact lt_of_parseUuid hparse

/-- **The answered header names the request**: it is read back as the identifier, and sent again, by a
client that passes it on, it is answered unchanged. -/
theorem correlation_passed_on (hdrawn : drawn < 2 ^ 128) (drawn' : Nat) :
    parseUuid decimal (correlation decimal header drawn) =
        some (requestIdentifier decimal header drawn) ∧
      correlation decimal (some (correlation decimal header drawn)) drawn' =
        correlation decimal header drawn := by
  have hparse : parseUuid decimal (correlation decimal header drawn) =
      some (requestIdentifier decimal header drawn) :=
    parseUuid_uuidText decimal (requestIdentifier_lt hdrawn)
  refine ⟨hparse, congrArg uuidText ?_⟩
  rw [requestIdentifier, Option.getD_some, hparse, Option.getD_some]

end MiniDms
