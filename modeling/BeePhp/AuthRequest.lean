import BeePhp.Request

/-!
# bee_proto.c: the request that authenticates

`php_tp_sizeof_auth` and `php_tp_encode_auth`, and what the frame of an authentication is to say
(`AuthFrame`).
-/

namespace BeePhp

open Codec

def phpScrambleSize : Nat := 20

/-- `php_mp_pack_string` of `len` bytes at a pointer, which may be null. -/
def phpMpPackStringAt (str : SmartString) (c : Option Bytes) (len : Nat) :
    Except Fault SmartString :=
  match c with
  | some c => str.pack (mpSizeofStr (toUint32 len)) (mpEncodeStr c (toUint32 len))
  | none => .error .nullDeref

def phpTpSizeofAuth (ndebug : Bool) (sync : UInt32) (ulen : Nat) (nopass : Bool) :
    Except Fault Nat := do
  let val := (← phpTpSizeofHeader ndebug beexAuth sync) + phpMpSizeofHash 2 +
    (← phpMpSizeofLong ndebug (longOfUint32 beexUsername)) + phpMpSizeofString ulen +
    (← phpMpSizeofLong ndebug (longOfUint32 beexTuple)) +
    phpMpSizeofArray (if nopass then 0 else 2)
  if ¬ nopass then
    return val + phpMpSizeofString 9 + phpMpSizeofString phpScrambleSize
  else return val

/-- `php_tp_encode_auth`. Its flag `nopass` is set when there is a scramble. -/
def phpTpEncodeAuth (ndebug : Bool) (str : SmartString) (sync : UInt32) (username : Bytes)
    (scramble : Option Bytes) : Except Fault SmartString := do
  let nopass := scramble.isSome
  let packetSize ← phpTpSizeofAuth ndebug sync username.length nopass
  let str := str.ensure (packetSize + 5)
  let str ← phpTpPackHeader ndebug str packetSize beexAuth sync
  let str ← phpMpPackHash str 2
  let str ← phpMpPackLong ndebug str (longOfUint32 beexUsername)
  let str ← phpMpPackString str username
  let str ← phpMpPackLong ndebug str (longOfUint32 beexTuple)
  let str ← phpMpPackArray str (if nopass then 0 else 2)
  if ¬ nopass then
    let str ← phpMpPackStringAt str (some (ascii "chap-sha1")) 9
    phpMpPackStringAt str scramble phpScrambleSize
  else return str

/-! ## What the frame is to say -/

/-- The tuple of an authentication: the name of the method and the scramble, or nothing. -/
def AuthTuple : Option Bytes → List Doc → Prop
  | some s, ts => ∃ method w, ts = [method, .str w s]
  | none, ts => ts = []

/-- A map with these fields, in some order. -/
def MapOf (fields : List (Doc × Doc)) (d : Doc) : Prop :=
  ∃ w ps, d = .map w (flatten ps) ∧ ps.Perm fields

/-- The header of an authentication, whatever the widths of its numbers. -/
def AuthHeader (sync : UInt32) (header : Doc) : Prop :=
  ∃ wc wt ws wn, MapOf [(.uint wc beexCode.toNat, .uint wt beexAuth.toNat),
    (.uint ws beexSync.toNat, .uint wn sync.toNat)] header

/-- A body with the name of the user and such a tuple, whatever the widths of its numbers. -/
def AuthBody (username : Bytes) (scramble : Option Bytes) (body : Doc) : Prop :=
  ∃ wu wn wt wa ts, MapOf [(.uint wu beexUsername.toNat, .str wn username),
    (.uint wt beexTuple.toNat, .array wa ts)] body ∧ AuthTuple scramble ts

/-- The length of a payload and the payload: a header with the code and the sync, and such a body. -/
def AuthFrame (sync : UInt32) (username : Bytes) (scramble : Option Bytes) (bytes : Bytes) : Prop :=
  ∃ header body : Doc, header.WF ∧ body.WF ∧ AuthHeader sync header ∧
    AuthBody username scramble body ∧ (header.encode ++ body.encode).length < 2 ^ 32 ∧
    bytes = frame (header.encode ++ body.encode)

/-- The encoder appends the frame of an authentication. -/
def AuthEncodes (ndebug : Bool) (str : SmartString) (sync : UInt32) (username : Bytes)
    (scramble : Option Bytes) : Prop :=
  ∃ str' bytes, phpTpEncodeAuth ndebug str sync username scramble = .ok str' ∧
    str'.data = str.data ++ bytes ∧ AuthFrame sync username scramble bytes

/-- The body that is sent when there is a scramble. -/
def emptyAuthBody (username : Bytes) : Doc :=
  .ofPairs [(.ofNat beexUsername.toNat, .ofStr username), (.ofNat beexTuple.toNat, .ofList [])]

end BeePhp
