import BeePhp.Handed
import BeePhp.Proofs.NumberedProofs
import BeePhp.Proofs.ProcessProofs

/-!
# Proofs: the requests of a process

However the constructor calls, the frees and the method calls on the objects of a process follow each other, all
requests that its connections encode have consecutive syncs, and every connection records its own part of them
(`process_numbered`).
-/

namespace BeePhp

open Codec Program

/-! ## What is handed over -/

theorem NumberedFrom.nil {n : Int64} : NumberedFrom n [] [] n := fun _ => ⟨[], .nil, .nil⟩

theorem NumberedFrom.append {n m k : Int64} {sent sent' : List Sent} {more : List Bytes}
    (h : NumberedFrom n sent [] m) (h' : NumberedFrom m sent' more k) :
    NumberedFrom n (sent ++ sent') more k := by
  intro hshort
  obtain ⟨batches, hbatches, hrequests⟩ := h fun s hs => hshort s (List.mem_append_left _ hs)
  obtain ⟨batches', hbatches', hrequests'⟩ := h' fun s hs => hshort s (List.mem_append_right _ hs)
  rw [List.append_nil] at hrequests
  refine ⟨batches ++ batches', List.rel_append hbatches hbatches', ?_⟩
  rw [List.flatten_append, List.append_assoc]
  exact hrequests.append hrequests'

theorem handedTo_append (conn : Nat) (all new : List Handover) :
    handedTo conn (all ++ new) = handedTo conn all ++ handedTo conn new := by
  rw [handedTo, List.filter_append, List.map_append]
  rfl

/-- What is handed to one stream. -/
theorem handedTo_one (conn i : Nat) (sent : List Sent) :
    handedTo i (sent.map (Handover.mk conn)) = if conn = i then sent else [] := by
  rw [handedTo, List.filter_map, List.map_map]
  by_cases h : conn = i <;> simp [h, Function.comp_def]

theorem Process.sent_eq {p : Process} {conn : Nat} {w : World} (h : p.world conn = some w) :
    p.sent conn = w.sent := by
  rw [Process.sent, h]
  rfl

/-! ## The invariant -/

/-- Every connection that has not been destroyed has recorded what was handed to its stream, and nothing was
handed to the stream of a connection that is still to come. -/
structure Process.Recorded (all : List Handover) (p : Process) : Prop where
  world : ∀ i w, p.world i = some w →
    w.obj.tps.Healthy ∧ w.obj.login.length < 2 ^ 31 ∧ w.sent = handedTo i all
  unborn : ∀ i, p.conns.length ≤ i → handedTo i all = []

section Invariant

variable {p p' : Process} {all : List Handover}

/-- Connections may be destroyed. -/
theorem Process.Recorded.fewer (h : p.Recorded all) (hlength : p'.conns.length = p.conns.length)
    (hworld : ∀ i w, p'.world i = some w → p.world i = some w) : p'.Recorded all :=
  ⟨fun i w hw => h.world i w (hworld i w hw), fun i hi => h.unborn i (hlength ▸ hi)⟩

theorem Process.Recorded.destroy (h : p.Recorded all) (conn : Nat) : (p.destroy conn).Recorded all := by
  refine h.fewer (List.length_modify _ _ _) fun i w hw => ?_
  rw [world_destroy] at hw
  split at hw
  · cases hw
  · exact hw

theorem Process.Recorded.update (h : p.Recorded all) (key : Bytes) (conn : Nat) :
    (p.update key conn).Recorded all := by
  unfold Process.update
  cases p.persistentList.lookup key with
  | none => exact ⟨h.world, h.unborn⟩
  | some old =>
    obtain ⟨hworld, hunborn⟩ := h.destroy old
    exact ⟨hworld, hunborn⟩

/-- A connection that is new has recorded nothing. -/
theorem Process.Recorded.hold (h : p.Recorded all) {c : Creation} {n : Int64} {w : World}
    (hinit : Creation.init { c with syncCounter := n } = some w) (hgarbage : ∀ n, c.garbage n ≠ 2 ^ 64 - 1) :
    (p.hold c w).Recorded all := by
  obtain ⟨host, port, login, passwd, id, isPersistent, hlogin, rfl⟩ := Creation.init_spec hinit
  constructor
  · intro i w hw
    rcases Nat.lt_trichotomy i p.conns.length with hlt | rfl | hgt
    · rw [world_hold hlt] at hw
      exact h.world i w hw
    · rw [Process.world, hold_last] at hw
      obtain rfl := Option.some.inj hw
      exact ⟨hgarbage, hlogin, (h.unborn _ (Nat.le_refl _)).symm⟩
    · rw [Process.world, List.getElem?_eq_none (by simp [Process.hold]; omega)] at hw
      cases hw
  · intro i hi
    simp only [Process.hold, List.length_append, List.length_singleton] at hi
    exact h.unborn i (by omega)

theorem Process.Recorded.construct (h : p.Recorded all) {c : Creation}
    (hgarbage : ∀ n, c.garbage n ≠ 2 ^ 64 - 1) : (p.construct c).Recorded all := by
  unfold Process.construct
  split
  case h_1 => exact h
  case h_2 w hinit =>
    have hheld := h.hold hinit hgarbage
    split
    · split
      · exact ⟨h.world, h.unborn⟩
      · obtain ⟨hworld, hunborn⟩ := hheld.update c.parameters.updateKey p.conns.length
        exact ⟨hworld, hunborn⟩
    · exact ⟨hheld.world, hheld.unborn⟩

theorem Process.construct_counter (p : Process) (c : Creation) :
    (p.construct c).syncCounter = p.syncCounter := by
  unfold Process.construct
  split
  · rfl
  · split
    · split
      · rfl
      · unfold Process.update
        split <;> rfl
    · rfl

theorem Process.Recorded.free (h : p.Recorded all) (object : Nat) : (p.free object).Recorded all := by
  unfold Process.free
  split
  case h_1 => exact h
  case h_2 o _ =>
    dsimp only
    split
    · exact ⟨h.world, h.unborn⟩
    · obtain ⟨hworld, hunborn⟩ := h.destroy o.conn
      exact ⟨hworld, hunborn⟩

theorem Process.free_counter (p : Process) (object : Nat) : (p.free object).syncCounter = p.syncCounter := by
  unfold Process.free
  split
  · rfl
  · dsimp only
    split <;> rfl

/-- A method takes its syncs from the counter of the process, and its connection records its requests. -/
theorem Process.Recorded.call {P : Platform} (h : p.Recorded all) {object : Nat} {step : Step}
    (hcall : p.call P object step = .ok p') :
    p'.Recorded (all ++ (Event.call object step).handed p p') ∧
      NumberedFrom p.syncCounter (((Event.call object step).handed p p').map Handover.sent) []
        p'.syncCounter := by
  obtain rfl | ⟨o, w, v, w', hobject, hworld, hrun, hp'⟩ := call_spec hcall
  · have hnone : (Event.call object step).handed p' p' = [] := by
      rw [Event.handed]
      cases p'.objects[object]? with
      | none => rfl
      | some o => exact List.map_eq_nil_iff.mpr (List.drop_eq_nil_of_le (Nat.le_refl _))
    rw [hnone, List.append_nil]
    exact ⟨h, .nil⟩
  · obtain ⟨hhealthy, hlogin, hsent⟩ := h.world o.conn w hworld
    have hbegin : World.Numbering w.sent p.syncCounter { w with syncCounter := p.syncCounter, ids := [] } :=
      ⟨hhealthy, hlogin, [], (List.append_nil _).symm, .nil⟩
    obtain ⟨hhealthy', hlogin', sent, hsent', hnumbered⟩ :=
      Step.run_keeps kept_numbers trivial _ hbegin v w' hrun
    have hcounter : p'.syncCounter = w'.syncCounter := by rw [hp']
    have hlength : p'.conns.length = p.conns.length := by rw [hp', List.length_modify]
    have hconn (i : Nat) : p'.world i = if o.conn = i then some w' else p.world i := by
      rw [hp', Process.world, List.getElem?_modify, Process.world]
      by_cases hi : o.conn = i
      · subst hi
        obtain ⟨held, hheld, -⟩ := Option.bind_eq_some_iff.mp hworld
        simp [hheld]
      · simp [hi]
    have hhanded : (Event.call object step).handed p p' = sent.map (Handover.mk o.conn) := by
      rw [Event.handed, hobject, Option.elim_some, sent_eq hworld, sent_eq ((hconn _).trans (if_pos rfl)),
        hsent', List.drop_left]
    rw [hhanded]
    refine ⟨⟨fun i u hu => ?_, fun i hi => ?_⟩, ?_⟩
    · rw [hconn] at hu
      rw [handedTo_append, handedTo_one]
      by_cases hi : o.conn = i
      · subst hi
        rw [if_pos rfl] at hu ⊢
        obtain rfl := Option.some.inj hu
        exact ⟨hhealthy', hlogin', by rw [hsent', hsent]⟩
      · rw [if_neg hi] at hu ⊢
        rw [List.append_nil]
        exact h.world i u hu
    · rw [hlength] at hi
      rw [handedTo_append, handedTo_one, h.unborn i hi, List.nil_append, if_neg]
      rintro rfl
      rw [Process.world, List.getElem?_eq_none hi] at hworld
      cases hworld
    · rw [hcounter, List.map_map]
      simpa [Function.comp_def] using hnumbered

/-- An event, whichever it is. -/
theorem Process.Recorded.event {P : Platform} (h : p.Recorded all) {e : Event} (hclean : e.Clean)
    (hrun : e.run P p = .ok ((), p')) : p'.Recorded (all ++ e.handed p p') ∧
      NumberedFrom p.syncCounter ((e.handed p p').map Handover.sent) [] p'.syncCounter := by
  cases e with
  | construct c =>
    obtain ⟨-, rfl⟩ := Prod.mk.inj (Except.ok.inj hrun)
    rw [Event.handed, List.append_nil, construct_counter]
    exact ⟨h.construct hclean, .nil⟩
  | free object =>
    obtain ⟨-, rfl⟩ := Prod.mk.inj (Except.ok.inj hrun)
    rw [Event.handed, List.append_nil, free_counter]
    exact ⟨h.free object, .nil⟩
  | call object step => exact h.call (Event.call_run hrun)

end Invariant

/-! ## Runs -/

theorem handed_cons {P : Platform} {e : Event} {p p' : Process} (h : e.run P p = .ok ((), p'))
    (events : List Event) : handed P p (e :: events) = e.handed p p' ++ handed P p' events := by
  rw [handed, h]

theorem Process.Recorded.run {P : Platform} {events : List Event} {p p' : Process} {all : List Handover}
    (h : p.Recorded all) (hclean : ∀ e ∈ events, e.Clean) (hrun : runAll (Event.run P) events p = .ok ((), p')) :
    p'.Recorded (all ++ handed P p events) ∧
      NumberedFrom p.syncCounter ((handed P p events).map Handover.sent) [] p'.syncCounter := by
  induction events generalizing p all with
  | nil =>
    obtain ⟨-, rfl⟩ := Prod.mk.inj (Except.ok.inj hrun)
    rw [handed, List.append_nil]
    exact ⟨h, .nil⟩
  | cons e events ih =>
    obtain ⟨⟨_, p₁⟩, he, hrest⟩ := except_bind_eq_ok.mp hrun
    obtain ⟨hrecorded, hnumbered⟩ := h.event (hclean e List.mem_cons_self) he
    obtain ⟨hrecorded', hnumbered'⟩ := ih hrecorded (fun e' he' => hclean e' (List.mem_cons_of_mem _ he')) hrest
    rw [handed_cons he, ← List.append_assoc, List.map_append]
    exact ⟨hrecorded', hnumbered.append hnumbered'⟩

theorem start_recorded (n : Int64) : (Process.start n).Recorded [] := by
  refine ⟨fun i w hw => ?_, fun _ _ => rfl⟩
  simp [Process.world, Process.start] at hw

/-- Whatever constructor calls, frees and method calls follow each other in a process, and however reads and
writes end, the requests that its connections encode have consecutive syncs: none is left out, and of 2^32 in a
row no two are the same, on whichever connections. Every connection that is there has recorded those of them
that were handed to its stream. The variable that `tp_ensure` does not set is never the largest number, and what
is encoded is shorter than 2^32 bytes. -/
theorem process_numbered {P : Platform} {n : Int64} {events : List Event} {p : Process}
    (h : Reaches P n events p) (hclean : ∀ e ∈ events, e.Clean)
    (hshort : ∀ s ∈ handed P (.start n) events, s.sent.own.length < 2 ^ 32) :
    (∀ i w, p.world i = some w → w.sent = handedTo i (handed P (.start n) events)) ∧
    ∃ batches : List (List Bytes),
      List.Forall₂ (fun s payloads => s.sent.Encodes payloads) (handed P (.start n) events) batches ∧
      RequestsFrom n batches.flatten p.syncCounter ∧
      ∀ i j x y, batches.flatten[i]? = some x → batches.flatten[j]? = some y → i < j → j < i + 2 ^ 32 →
        x ≠ y := by
  obtain ⟨hrecorded, hnumbered⟩ := (start_recorded n).run hclean h
  refine ⟨fun i w hw => (hrecorded.world i w hw).2.2, ?_⟩
  obtain ⟨batches, hbatches, hrequests⟩ := hnumbered (by simpa using hshort)
  rw [List.append_nil] at hrequests
  exact ⟨batches, List.forall₂_map_left_iff.mp hbatches, hrequests,
    fun i j x y hx hy => hrequests.distinct hx hy⟩

/-- A guest and a user take turns. Then the object of the guest goes. -/
def sharing : List Event :=
  [.construct .guest, .construct .user, .call 0 ⟨.opening, [], .ping⟩, .call 1 ⟨.opening, [], .ping⟩,
    .call 0 ⟨.calm, [], .ping⟩, .call 1 ⟨.calm, [], .ping⟩, .free 0]

theorem process_numbered_sharing : ∃ p, Reaches (.blank false) 7 sharing p ∧
    ((handed (.blank false) (.start 7) sharing).map Handover.conn = [0, 1, 0, 1] ∧ p.syncCounter = 13) ∧
    (∀ i w, p.world i = some w → w.sent = handedTo i (handed (.blank false) (.start 7) sharing)) ∧
    ∃ batches : List (List Bytes),
      List.Forall₂ (fun s payloads => s.sent.Encodes payloads) (handed (.blank false) (.start 7) sharing)
        batches ∧
      RequestsFrom 7 batches.flatten p.syncCounter ∧
      ∀ i j x y, batches.flatten[i]? = some x → batches.flatten[j]? = some y → i < j → j < i + 2 ^ 32 →
        x ≠ y := by
  have hreaches : reachesTo (.blank false) 7 sharing (fun p => p.syncCounter = 13) = true := by
    decide +kernel
  have hconns : (handed (.blank false) (.start 7) sharing).map Handover.conn = [0, 1, 0, 1] := by
    decide +kernel
  have hshort : ∀ s ∈ handed (.blank false) (.start 7) sharing, s.sent.own.length < 2 ^ 32 := by
    decide +kernel
  have hclean : ∀ e ∈ sharing, e.Clean := by
    simp [sharing, Event.Clean, Creation.user, Creation.guest]
  obtain ⟨p, hp, hcounter⟩ := exists_of_reachesTo hreaches
  exact ⟨p, hp, ⟨hconns, of_decide_eq_true hcounter⟩, process_numbered hp hclean hshort⟩

end BeePhp
