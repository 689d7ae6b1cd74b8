import BeePhp.Parsers
import BeePhp.Runs

/-!
# Which response answers which request

A response that is used should be the one to the request it is used for: its header has the sync of
that request (`Awaited.Answered`). This file says so, and what a server and the lookups of names have to
do for it: every response has a sync (`Tagged`), and a lookup finds its own response first
(`Awaited.Own`).
-/

namespace BeePhp

open Codec (Bytes Doc)

/-! ## Responses with a header -/

/-- The payload begins with a header: a map from distinct unsigned keys to unsigned numbers. -/
structure Headed (payload : Bytes) (header : List Entry) : Prop where
  bytes : ∃ (w : Codec.SeqWidth) (more : Bytes), (Doc.map w (entryDocs header)).WF ∧
    payload = (Doc.map w (entryDocs header)).encode ++ more
  distinct : (header.map Entry.key).Nodup
  keys : ∀ f ∈ header, f.key < 2 ^ 32
  numbers : ∀ f ∈ header, ∃ w n, f.value = .uint w n

/-- The header of the payload has this sync modulo 2^32. -/
def Carries (payload : Bytes) (sync : UInt32) : Prop :=
  ∃ header, Headed payload header ∧
    ∃ w n, valueAt beexSync.toNat header = some (.uint w n) ∧ n % 2 ^ 32 = sync.toNat

/-- A payload with a header, or none at all. -/
def WellFormed (payload : Bytes) : Prop := payload = [] ∨ ∃ header, Headed payload header

/-- A payload whose header has a sync, or none at all. -/
def Tagged (payload : Bytes) : Prop := payload = [] ∨ ∃ sync, Carries payload sync

/-- What lies ahead begins with the response to the request, if with any response at all. -/
def Awaited.Answered (a : Awaited) : Prop :=
  ∃ payload rest, a.ahead = frame payload ++ rest ∧ (payload = [] ∨ Carries payload a.sync)

/-- The response to the request is the next to be read, or there is none to read. -/
def Awaited.Own (a : Awaited) : Prop := a.ahead = [] ∨ a.Answered

/-! ## The server -/

/-- Whole responses whose payloads are as given, and whose lengths an `int` can hold. -/
def Responses (good : Bytes → Prop) (bs : Bytes) : Prop :=
  ∃ payloads : List Bytes, bs = (payloads.map frame).flatten ∧
    ∀ payload ∈ payloads, payload.length < 2 ^ 31 ∧ good payload

/-- The server sends whole responses, in whatever number and order, behind 128 bytes that greet; other
objects leave nothing but whole responses on the streams; and no read stops short but that of a length in
`bee_step_recv`. -/
structure Net.Delivers (good : Bytes → Prop) (net : Net) : Prop where
  greeting : ∀ g, .opened g ∈ net.opens →
    ∃ salt responses, g = salt ++ responses ∧ salt.length = greetingSize ∧ Responses good responses
  reply : ∀ r ∈ net.replies, Responses good r
  found : ∀ stream, some stream ∈ net.finds → Responses good stream.inbox
  prompt : ∀ c ∈ net.chunks, 0 < c

end BeePhp
