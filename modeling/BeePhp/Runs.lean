import BeePhp.Methods
import BeePhp.Program.Wlp
import BeePhp.Request

/-!
# Runs of a connection object

A run is a creation of an object and a list of method calls, each with what the environment does during
it. This file says what the runs are to keep: that only what an operation has encoded is sent
(`Sent.Fresh`), that data requests go out under the credentials of the object (`Sent.Authentic`), and
that no byte of a response is left over (`World.Settled`).
-/

namespace BeePhp

open Codec (Bytes)
open Program

/-- What an object is created from: the setting `bee.persistent`, what new memory and the indeterminate
variable of `tp_ensure` hold, the arguments of the constructor, and the counter of the process. -/
structure Creation where
  persistent : Bool
  fresh : Nat → UInt8
  garbage : Nat → Nat
  host : Option ZStr
  port : Int64
  login : Option ZStr
  passwd : Option ZStr
  suffix : Option ZStr
  syncCounter : Int64

/-- The state in which the object is new, unless the constructor throws. -/
def Creation.init (c : Creation) : Option World :=
  (construct c.persistent c.fresh c.garbage c.host c.port c.login c.passwd c.suffix).map fun new =>
    .init new.1 new.2 c.syncCounter

/-- The run of the method calls `steps` returns, and `w` is the state then. -/
def Runs (P : Platform) (c : Creation) (steps : List Step) (w : World) : Prop :=
  ∃ w₀, c.init = some w₀ ∧ runAll (Step.run P) steps w₀ = .ok ((), w)

/-- Whether the run returns in a state that passes a test. -/
def runsTo (P : Platform) (c : Creation) (steps : List Step) (test : World → Bool) : Bool :=
  match c.init with
  | none => false
  | some w₀ =>
    match runAll (Step.run P) steps w₀ with
    | .ok ((), w) => test w
    | .error _ => false

theorem exists_of_runsTo {P : Platform} {c : Creation} {steps : List Step} {test : World → Bool}
    (h : runsTo P c steps test = true) : ∃ w, Runs P c steps w ∧ test w = true := by
  unfold runsTo at h
  split at h
  case h_1 => cases h
  case h_2 w₀ hinit =>
    split at h
    case h_1 w hrun => exact ⟨w, ⟨w₀, hinit, hrun⟩, h⟩
    case h_2 => cases h

/-- Whether a program returns in a state that passes a test. -/
def endsIn {α : Type} (x : M α) (w : World) (test : World → Bool) : Bool :=
  match x w with
  | .ok (_, w') => test w'
  | .error _ => false

theorem exists_of_endsIn {α : Type} {x : M α} {w : World} {test : World → Bool}
    (h : endsIn x w test = true) : ∃ a w', x w = .ok (a, w') ∧ test w' = true := by
  unfold endsIn at h
  split at h
  case h_1 a w' hrun => exact ⟨a, w', hrun, h⟩
  case h_2 => cases h

/-! ## Sending -/

/-- No send fails. -/
def Net.Sends (net : Net) : Prop := ∀ o ∈ net.writes, o = .ok

/-- The buffer was empty when the operation began to encode, and it handed to the stream what it had
encoded. -/
def Sent.Fresh (s : Sent) : Prop := s.start = 0 ∧ s.bytes = s.own

instance (s : Sent) : Decidable s.Fresh := inferInstanceAs (Decidable (_ ∧ _))

/-! ## Identity -/

/-- A data request of an object with a login and a password goes out on a stream on which the last
authentication succeeded with them. -/
def Sent.Authentic (s : Sent) : Prop :=
  s.request = true → ∀ c, s.credentials = some c → s.identity = some c

/-- Every authentication succeeded, and every persistent stream found was the object's own. -/
def World.Granted (w : World) : Prop := ∀ ok ∈ w.exchanges, ok = true

/-! ## Framing -/

/-- The server greets with 128 bytes, answers every request with one frame, and keeps a stream open for
another object only if nothing on it is underway. -/
structure Net.Serves (net : Net) : Prop where
  greeting : ∀ g, .opened g ∈ net.opens → g.length = greetingSize
  reply : ∀ r ∈ net.replies, ∃ payload, r = frame payload ∧ payload.length < 2 ^ 32
  found : ∀ stream, some stream ∈ net.finds → stream.inbox = [] ∧ stream.pending = []

/-- Every send succeeds, no read stops short but that of a length in `bee_step_recv`, and an `int` holds
the length of every response. -/
structure Net.Answers (net : Net) : Prop extends net.Serves where
  sends : net.Sends
  prompt : ∀ c ∈ net.chunks, 0 < c
  short : ∀ payload, frame payload ∈ net.replies → payload.length < 2 ^ 31

/-- Every request that was handed to the stream is shorter than 2^32 bytes. -/
def World.Short (w : World) : Prop := ∀ s ∈ w.sent, s.bytes.length < 2 ^ 32

/-- The stream is closed, or nothing that has arrived is unread and nothing that was sent is unanswered. -/
def World.Settled (w : World) : Prop :=
  ∀ stream, w.obj.stream = some stream → stream.inbox = [] ∧ stream.pending = []

/-! ## An input -/

/-- An object for the user `guest`. -/
def Creation.guest : Creation := ⟨false, fun _ => 0, fun _ => 0, none, 0, none, none, none, 0⟩

/-- An object for a user with a password. -/
def Creation.user : Creation :=
  { Creation.guest with
    login := some ⟨ascii "user", by decide⟩
    passwd := some ⟨ascii "secret", by decide⟩ }

/-- A new object without a password. -/
def plainWorld (net : Net) : World :=
  { World.init (.new [] 3301 [] none none (fun _ => 0) (fun _ => 0)) false 0 with net := net }

/-- An OK response whose body has the given bytes. -/
def okReply (sync : UInt8) (body : Bytes) : Bytes := frame ([0x82, 0x00, 0x00, 0x01, sync] ++ body)

/-- A response that refuses the request with the text `no`. -/
def refusal (sync : UInt8) : Bytes :=
  frame ([0x82, 0x00, 0xcd, 0x80, 0x2f, 0x01, sync, 0x81, 0x31, 0xa2] ++ ascii "no")

/-- The environment in which a stream can be opened. -/
def Net.opening : Net := { Net.calm with opens := [.opened (List.replicate greetingSize 0)] }

end BeePhp
