import BeePhp.Codec.Base64
import BeePhp.Codec.Challenge
import BeePhp.Codec.Sha
import BeePhp.Scramble
import BeePhp.TpRequests

/-!
# The handshake

A server greets with 64 characters, and a salt of 32 bytes in base64 behind them. It keeps the hash of the hash
of every password. This file says which authentications it grants (`Grants`), and when the scrambles of a platform
are those of tp.h (`Platform.Scrambles`).
-/

namespace BeePhp

open Codec

/-- The scrambles of the platform are those of tp.h. -/
def Platform.Scrambles (P : Platform) (locals : ScrambleLocals) : Prop :=
  ∀ salt pass r, tpAuthScramble locals salt pass = .ok r → P.scramble salt pass = r

/-- A platform with the scrambles of tp.h, on which pointers read as 0. -/
def Platform.chap (ndebug : Bool) (locals : ScrambleLocals) : Platform where
  ndebug := ndebug
  address := fun _ => 0
  scramble := fun salt pass => ((tpAuthScramble locals salt pass).toOption.filter
    fun r => r.length = scrambleSize).getD (List.replicate scrambleSize 0)
  scramble_length := by
    intro salt pass
    cases h : (tpAuthScramble locals salt pass).toOption.filter fun r => r.length = scrambleSize with
    | none => exact List.length_replicate
    | some r => exact of_decide_eq_true (Option.filter_eq_some_iff.mp h).2

/-- The greeting of a server. -/
def Greets (salt greeting : Bytes) : Prop :=
  ∃ description rest : Bytes, description.length = saltPrefixSize ∧ salt.length = 32 ∧
    greeting = description ++ (Base64.text 0 salt ++ rest)

/-- A server with these users grants the authentication: the user is one of them, and the scramble is the
response to the first bytes of the salt. -/
def Grants (users : Bytes → Option Bytes) (salt : Bytes) (r : RequestDoc) : Prop :=
  r.type = tpAuthType ∧ ∃ login scramble kept : Bytes, AuthBody login (some scramble) r.body ∧
    scramble.length = scrambleSize ∧ users login = some kept ∧
    Challenge.Accepts Sha.digest kept (salt.take scrambleSize) scramble

end BeePhp
