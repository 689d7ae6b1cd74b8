import BeePhp.Handshake
import BeePhp.Proofs.ScrambleProofs
import BeePhp.Proofs.SendProofs
import BeePhp.Proofs.TpRequestsProofs

/-!
# Proofs: the handshake

An object that has the password of its login answers every salt so that the server grants the authentication
(`authenticate_granted`).
-/

namespace BeePhp

open Codec Program
open Codec.Base64 (text)
open Codec.Challenge (response stored accepts_response response_length)
open Codec.Sha (digest digest_length)

/-! ## The salt -/

theorem Greets.salt {obj : Connection} {salt : Bytes} (h : Greets salt obj.greeting) :
    obj.salt = text 0 salt ∧ salt.length = 32 := by
  obtain ⟨description, rest, hdescription, hlength, hgreeting⟩ := h
  refine ⟨?_, hlength⟩
  rw [Connection.salt, hgreeting, List.drop_left' hdescription, List.take_left' (text_salt_length hlength)]

/-! ## The authentication -/

/-- What an authentication hands to the stream is what it has composed, whatever comes of it. -/
theorem beeAuthenticate_sends {P : Platform} {w : World} {Q : Bytes → Prop}
    (h : Wlp (composeTp (authRequests P)) (fun _ w' => Q w'.obj.value.data)
      { w with obj := { w.obj with schema := beeSchemaFlush w.obj.schema } }) :
    Wlp (beeAuthenticate P) (fun _ w' => ∃ s : Sent, w'.sent = w.sent ++ [s] ∧ Q s.bytes) w := by
  refine .bind (.modify (.bind (((composeTp_quiet authRequests_quiet _).and h).mono ?_)))
  rintro syncs w₁ ⟨hquiet, hdata⟩
  refine .bind ((beeStreamSend_sent false w₁).mono ?_)
  rintro ok w₂ ⟨-, hsent, -⟩
  have hsent₂ : w₂.sent = w.sent ++ [w₁.record false] := by
    rw [hsent, hquiet.sent]
  refine .ite (fun _ => .bind ((authLoop_quiet w₂).mono fun r w₃ h₃ => ?_)) fun _ => ?_
  · exact .bind (.modify (.pure ⟨_, h₃.sent.trans hsent₂, hdata⟩))
  · exact .bind (.modify (.pure ⟨_, hsent₂, hdata⟩))

/-- The server has greeted with a salt, and keeps the hash of the hash of the password that the object has for its
login. Then it grants the authentication that the object sends, before the requests for the catalogue. -/
theorem authenticate_granted {P : Platform} {locals : ScrambleLocals} (hP : P.Scrambles locals) {w : World}
    {salt password : Bytes} (hgreets : Greets salt w.obj.greeting) (hpasswd : w.obj.passwd = some password)
    (hpassword : password.length + 63 < 2 ^ 32) (hlogin : w.obj.login.length < 2 ^ 31)
    (hgarbage : ∀ n, w.obj.tps.garbage n ≠ 2 ^ 64 - 1) {users : Bytes → Option Bytes}
    (huser : users w.obj.login = some (stored digest password)) :
    Wlp (beeAuthenticate P) (fun _ w' => ∃ s : Sent, w'.sent = w.sent ++ [s] ∧ ∃ body : Doc,
      Grants users salt (authDoc body (longToUint32 w.syncCounter)) ∧
        s.bytes = docFrames (authBatch body w.syncCounter)) w := by
  obtain ⟨hsalt, hlength⟩ := hgreets.salt
  have hscramble := hP _ _ _ (tpAuthScramble_text locals hlength hpassword)
  let w₀ : World := { w with obj := { w.obj with schema := beeSchemaFlush w.obj.schema } }
  refine @beeAuthenticate_sends P w (fun bytes => ∃ body : Doc,
    Grants users salt (authDoc body (longToUint32 w.syncCounter)) ∧
      bytes = docFrames (authBatch body w.syncCounter)) ((@authRequests_composed P w₀ hlogin hgarbage).mono ?_)
  rintro _ w₁ ⟨rfl, ⟨body, -, hshape, hdata⟩, -⟩
  refine ⟨body, ⟨rfl, w.obj.login, response digest (salt.take scrambleSize) password, _, ?_,
    response_length digest_length _ _, huser, accepts_response digest_length _ _⟩, hdata⟩
  have hresponse : w.obj.passwd.map (P.scramble w.obj.salt) =
      some (response digest (salt.take scrambleSize) password) := by
    rw [hpasswd, hsalt, Option.map_some, hscramble]
  rw [← hresponse]
  exact hshape

/-! ## An input -/

theorem Platform.chap_scrambles (ndebug : Bool) (locals : ScrambleLocals) :
    (Platform.chap ndebug locals).Scrambles locals := by
  intro salt pass r h
  have hfilter : (tpAuthScramble locals salt pass).toOption.filter (fun r => r.length = scrambleSize) = some r := by
    rw [h, Except.toOption, Option.filter_some, if_pos (decide_eq_true (tpAuthScramble_length h))]
  unfold Platform.chap
  dsimp only
  rw [hfilter, Option.getD_some]

/-- A connection to a server that has greeted with a salt of sevens. -/
def World.greeted : World :=
  let w := World.linked [okReply 0 [0x80], okReply 1 [0x80], okReply 2 [0x80]]
  { w with obj := { w.obj with
      greeting := List.replicate 64 0 ++ (Base64.text 0 (List.replicate 32 7) ++ List.replicate 20 0) } }

/-- The user `user`, whose password is `secret`. -/
def theUser (login : Bytes) : Option Bytes :=
  if login = ascii "user" then some (stored digest (ascii "secret")) else none

theorem authenticate_granted_user : ∃ ok w', beeAuthenticate (.chap true blankLocals) .greeted = .ok (ok, w') ∧
    ∃ s : Sent, w'.sent = World.greeted.sent ++ [s] ∧ ∃ body : Doc,
      Grants theUser (List.replicate 32 7) (authDoc body (longToUint32 World.greeted.syncCounter)) ∧
        s.bytes = docFrames (authBatch body World.greeted.syncCounter) := by
  have hruns : endsIn (beeAuthenticate (.chap true blankLocals)) .greeted (fun _ => true) = true := by
    decide +kernel
  obtain ⟨ok, w', hrun, -⟩ := exists_of_endsIn hruns
  refine ⟨ok, w', hrun, authenticate_granted (Platform.chap_scrambles true blankLocals) ⟨List.replicate 64 0,
    List.replicate 20 0, rfl, rfl, rfl⟩ rfl (by decide) (by decide) (fun _ => by simp [World.greeted, World.linked,
    Connection.new, World.init]) (if_pos rfl) ok w' hrun⟩

end BeePhp
