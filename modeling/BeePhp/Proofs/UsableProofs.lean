import BeePhp.Runs
import BeePhp.Usable
import BeePhp.Proofs.ReadingProofs
import BeePhp.Proofs.TrafficProofs

/-!
# Proofs: what connecting is for

A read is complete exactly if enough has arrived and no chunk before its end is empty
(`readLoop_complete`). The loop of `__bee_connect` stops at the first attempt that opens a stream, whatever
the greeting that comes with it (`connectLoop_refused`, `connectLoop_opened`).
-/

namespace BeePhp

open Codec (Bytes)
open Program

/-! ## Complete reads -/

/-- Chunks that go on for so long, and enough to fill them, are all of it. -/
theorem gathered_eq_iff (chunks : List Nat) (size arrived : Nat) :
    (gathered chunks size arrived).1 = size ↔ size ≤ arrived ∧ Gathers chunks size := by
  induction chunks generalizing size arrived with
  | nil => simp [gathered_nil, Gathers]
  | cons c cs ih =>
    have hle := gathered_le cs (size - min (min c size) arrived) (arrived - min (min c size) arrived)
    rcases Nat.eq_zero_or_pos size with rfl | hpos
    · simp [gathered_zero, Gathers]
    · have hstep := @gathered_step (c :: cs) size arrived (min (min c size) arrived) hpos rfl
      rw [hstep, List.tail_cons, Gathers]
      by_cases hzero : min (min c size) arrived = 0
      · rw [if_pos hzero]
        refine iff_of_false (by dsimp only; omega) ?_
        rintro ⟨harrived, rfl | ⟨hc, -⟩⟩ <;> omega
      · rw [if_neg hzero]
        by_cases harrived : size ≤ arrived
        · have hrest : (gathered cs (size - min (min c size) arrived)
              (arrived - min (min c size) arrived)).1 = size - min (min c size) arrived ↔
                Gathers cs (size - c) := by
            have hsub : size - min (min c size) arrived = size - c := by omega
            rw [ih, hsub]
            exact and_iff_right (by omega)
          have hc : 0 < c := by omega
          have hsize : size ≠ 0 := by omega
          simp only [harrived, hc, hsize, true_and, false_or, ← hrest]
          omega
        · exact iff_of_false (by dsimp only; omega) fun h => harrived h.1

/-- The loop comes to its end exactly if enough has arrived and the chunks go on for so long. -/
theorem readLoop_complete {β : Type} {store : Nat → Bytes → β → Except Fault β} {kind : ReadKind}
    {size fuel total n : Nat} {buf buf' : β} {stream : Stream} {w w' : World} (hle : total ≤ size)
    (hstream : w.obj.stream = some stream)
    (h : readLoop kind store size fuel total buf w = .ok ((n, buf'), w')) :
    n = size ↔ size - total ≤ stream.inbox.length ∧ Gathers (w.net.chunksOf kind) (size - total) := by
  obtain ⟨hn, -⟩ := readLoop_gathered hle hstream h
  rw [← gathered_eq_iff, hn]
  omega

/-! ## The greeting -/

/-- The bytes of the greeting go to the front of `obj->greeting`, and the result is never -1. -/
theorem readGreeting_run {w : World} {stream : Stream}
    (hgreeting : w.obj.greeting.length = greetingSize) (hstream : w.obj.stream = some stream) :
    ∃ rv bs rest net, readGreeting w = .ok (rv, { w with
        obj := { w.obj with
          stream := some { stream with inbox := rest }
          greeting := bs ++ w.obj.greeting.drop bs.length }
        net := net }) ∧
      rv ≠ -1 ∧ stream.inbox = bs ++ rest ∧ bs.length ≤ greetingSize ∧
      (bs.length = greetingSize ↔
        greetingSize ≤ stream.inbox.length ∧ Gathers (w.net.chunksOf .other) greetingSize) := by
  have hroom (bs : Bytes) (hbs : 0 + bs.length ≤ greetingSize) :
      ∃ buf', writeAt w.obj.greeting 0 bs = .ok buf' := ⟨_, if_pos (by rw [hgreeting]; exact hbs)⟩
  obtain ⟨bs, buf', w', hdel, hstore, hloop⟩ :=
    @readLoop_delivers _ _ writeAt_composes .other stream greetingSize (greetingSize + 1) 0
      w.obj.greeting w (by decide) (by decide) hroom hstream
  have hle := hdel.le
  have hcomplete := readLoop_complete (Nat.zero_le _) hstream hloop
  rw [Nat.zero_add] at hloop hcomplete
  obtain ⟨rest, net, hinbox, -, rfl⟩ := hdel.after
  have hbuf : buf' = bs ++ w.obj.greeting.drop bs.length := by
    simpa using (writeAt_eq_ok.mp hstore).2
  have hrv : toInt bs.length ≠ -1 := by
    have hsmall : bs.length ≤ 128 := hle
    rw [toInt_of_lt (by omega)]
    omega
  refine ⟨_, bs, rest, net, ?_, hrv, hinbox, hle, hcomplete⟩
  have hread : beexllStreamRead2 .other (fun off bs buf => writeAt buf off bs) w.obj.greeting
      greetingSize w = _ := run_bind hloop
  rw [readGreeting, run_bind (getObj_run w), run_bind hread, hbuf]
  rfl

/-! ## The attempts -/

theorem renewPersistentId_run {w : World} (h : w.isPersistent = false) :
    renewPersistentId w = .ok ((), w) := by
  have hrun : renewPersistentId w = .ok ((), if w.isPersistent then
      { w with obj := { w.obj with persistentId := some w.obj.streamId } } else w) := rfl
  rw [hrun, h]
  rfl

/-- An attempt that fails. -/
theorem beexllStreamOpen_refused {w : World} (h : ∀ bytes opens, w.net.opens ≠ .opened bytes :: opens) :
    ∃ err, beexllStreamOpen w = .ok (some err, { w with
      ids := w.ids ++ [w.obj.persistentId], net := { w.net with opens := w.net.opens.tail } }) := by
  cases hopens : w.net.opens with
  | nil =>
    refine ⟨"", ?_⟩
    obtain ⟨obj, _, _, ⟨_, _, opens, _⟩, _⟩ := w
    obtain rfl : opens = [] := hopens
    rfl
  | cons a opens =>
    cases a with
    | refused err => exact ⟨err, by simp [beexllStreamOpen, hopens]⟩
    | opened bytes => exact absurd hopens (h bytes opens)

theorem beexllStreamOpen_opened {w : World} {bytes : Bytes} {opens : List Attempt}
    (h : w.net.opens = .opened bytes :: opens) :
    beexllStreamOpen w = .ok (none, { w with
      ids := w.ids ++ [w.obj.persistentId]
      obj := { w.obj with stream := some ⟨bytes, [], none⟩ }, net := { w.net with opens := opens } }) := by
  simp [beexllStreamOpen, h]

/-- The attempt after `n` others opens a stream with `bytes` to greet, of which as many as come are read. -/
structure OpensAt (w : World) (count n : Nat) (bytes : Bytes) (w' : World) : Prop where
  lt : n < count
  opens : w.net.opens[n]? = some (.opened bytes)
  ids : w'.ids.length = w.ids.length + (n + 1)
  read : ∃ bs rest, bytes = bs ++ rest ∧ bs.length ≤ greetingSize ∧
    w'.obj.stream = some ⟨rest, [], none⟩ ∧ w'.obj.greeting = bs ++ w.obj.greeting.drop bs.length ∧
    (bs.length = greetingSize ↔
      greetingSize ≤ bytes.length ∧ Gathers (w.net.chunksOf .other) greetingSize)

/-- The loop makes all its attempts, or stops at the first that opens a stream. -/
theorem connectLoop_run {count : Nat} {err : Option String} {w : World}
    (hpersistent : w.isPersistent = false) (hgreeting : w.obj.greeting.length = greetingSize) :
    ∃ left err' w', connectLoop count err w = .ok ((left, err'), w') ∧ w'.exceptions = w.exceptions ∧
      w'.obj.passwd = w.obj.passwd ∧
      (left = 0 ∧ (w.net.opens.take count).findSome? Attempt.greeting? = none ∧
          w'.ids.length = w.ids.length + count ∨
        left ≠ 0 ∧ ∃ n bytes, (w.net.opens.take count).findSome? Attempt.greeting? = some bytes ∧
          OpensAt w count n bytes w') := by
  induction count generalizing err w with
  | zero => exact ⟨0, err, w, rfl, rfl, rfl, .inl ⟨rfl, rfl, rfl⟩⟩
  | succ count ih =>
    rw [connectLoop, run_bind (renewPersistentId_run hpersistent)]
    by_cases hopened : ∃ bytes opens, w.net.opens = .opened bytes :: opens
    · -- the greeting is read, and the loop ends whatever came of it
      obtain ⟨bytes, opens, hopens⟩ := hopened
      rw [run_bind (beexllStreamOpen_opened hopens)]
      let w₁ : World := { w with
        ids := w.ids ++ [w.obj.persistentId]
        obj := { w.obj with stream := some ⟨bytes, [], none⟩ }
        net := { w.net with opens := opens } }
      obtain ⟨rv, bs, rest, net, hread, hrv, hsplit, hle, hcomplete⟩ :=
        @readGreeting_run w₁ ⟨bytes, [], none⟩ hgreeting rfl
      let w₂ : World := { w₁ with
        obj := { w₁.obj with
          stream := some ⟨rest, [], none⟩, greeting := bs ++ w.obj.greeting.drop bs.length }
        net := net }
      have hreturn : (do
          if (← readGreeting) = -1 then connectLoop count none
          else return (count + 1, none)) w₁ = .ok ((count + 1, none), w₂) := by
        rw [run_bind hread, if_neg hrv]
        rfl
      have hat : OpensAt w (count + 1) 0 bytes w₂ :=
        ⟨by omega, by simp [hopens], List.length_append, bs, rest, hsplit, hle, rfl, rfl, hcomplete⟩
      refine ⟨count + 1, none, w₂, hreturn, rfl, rfl, .inr ⟨by omega, 0, bytes, ?_, hat⟩⟩
      rw [hopens]
      rfl
    · have hrefused (bytes : Bytes) (opens : List Attempt) : w.net.opens ≠ .opened bytes :: opens :=
        fun heq => hopened ⟨bytes, opens, heq⟩
      obtain ⟨err₁, hopen⟩ := beexllStreamOpen_refused hrefused
      rw [run_bind hopen]
      obtain ⟨left, err', w', hloop, hexceptions, hpasswd, hcases⟩ := @ih (some err₁)
        { w with
          ids := w.ids ++ [w.obj.persistentId], net := { w.net with opens := w.net.opens.tail } }
        hpersistent hgreeting
      have hfind : (w.net.opens.take (count + 1)).findSome? Attempt.greeting? =
          (w.net.opens.tail.take count).findSome? Attempt.greeting? := by
        cases hopens : w.net.opens with
        | nil => simp
        | cons a opens =>
          cases a with
          | refused err => rfl
          | opened bytes => exact absurd hopens (hrefused bytes opens)
      refine ⟨left, err', w', hloop, hexceptions, hpasswd, ?_⟩
      rw [hfind]
      have hids : (w.ids ++ [w.obj.persistentId]).length = w.ids.length + 1 := List.length_append
      rcases hcases with ⟨hleft, hnone, hlen⟩ | ⟨hleft, n, bytes, hsome, hat⟩
      · refine .inl ⟨hleft, hnone, ?_⟩
        rw [hlen, hids]
        omega
      · refine .inr ⟨hleft, n + 1, bytes, hsome, ?_⟩
        obtain ⟨hlt, hopens, hlen, hread⟩ := hat
        refine ⟨by omega, ?_, ?_, hread⟩
        · rwa [← List.getElem?_tail]
        · rw [hlen, hids]
          omega

/-! ## Connecting -/

/-- What `__bee_connect` returns when its loop has ended with the count `left`. -/
theorem beeConnect_run {P : Platform} {w w' : World} {left : Nat} {err : Option String}
    (hpersistent : w.isPersistent = false) (hpasswd : w'.obj.passwd = none)
    (h : connectLoop w.net.retryCount.toInt.toNat none w = .ok ((left, err), w')) :
    beeConnect P w = if w.net.retryCount ≥ 0 ∧ left = 0 then
        .ok (false, { w' with exceptions := w'.exceptions ++ [⟨connectError err, []⟩] })
      else .ok (true, w') := by
  have hconnect : beeConnect P w = connectRetry P w := by
    have hrun : beeConnect P w = (if w.isPersistent then do
        modifyObj fun obj => { obj with persistentId := some (obj.persistentId.getD obj.streamId) }
        if ← beexllStreamFpid2 then return true else connectRetry P
      else connectRetry P : M Bool) w := rfl
    rw [hrun, hpersistent]
    rfl
  have hretry : connectRetry P w = (do
      let r ← connectLoop w.net.retryCount.toInt.toNat none
      if w.net.retryCount ≥ 0 ∧ r.1 = 0 then
        throwExc (connectError r.2) []
        return false
      else if (← getObj).passwd.isSome then beeAuthenticate P
      else return true : M Bool) w := rfl
  rw [hconnect, hretry, run_bind h]
  by_cases hfailed : w.net.retryCount ≥ 0 ∧ left = 0
  · simp only [hfailed, and_self, if_true]
    rfl
  · simp only [hfailed, if_false]
    rw [run_bind (getObj_run w'), hpasswd]
    rfl

theorem OpensAt.greeted_iff {w w' : World} {count n : Nat} {bytes : Bytes}
    (h : OpensAt w count n bytes w') (hgreeting : w.obj.greeting.length = greetingSize) :
    w.Greeted w' (n + 1) ↔
      greetingSize ≤ bytes.length ∧ Gathers (w.net.chunksOf .other) greetingSize := by
  obtain ⟨bs, rest, rfl, hle, hstream, hgreet, hcomplete⟩ := h.read
  rw [← hcomplete]
  constructor
  · rintro ⟨bytes, hopens, -, hlen, -, hstream'⟩
    obtain rfl : bs ++ rest = bytes := Attempt.opened.inj (Option.some.inj (h.opens.symm.trans hopens))
    have hinbox := congrArg Stream.inbox (Option.some.inj (hstream.symm.trans hstream'))
    have hrest := congrArg List.length hinbox
    simp only [List.length_drop, List.length_append] at hrest hlen
    omega
  · intro hbs
    refine ⟨bs ++ rest, h.opens, by omega, by simp [hbs], ?_, ?_⟩
    · rw [hgreet, List.take_left' hbs, List.drop_eq_nil_of_le (by omega), List.append_nil]
    · rw [hstream, List.drop_left' hbs]

/-- For an object that is not persistent and has no password: a connection that is made is usable, and one
that is not made is reported, exactly if the setting is not negative and the greeting arrives. -/
theorem beeConnect_connected (P : Platform) {w : World} (hpersistent : w.isPersistent = false)
    (hpasswd : w.obj.passwd = none) (hgreeting : w.obj.greeting.length = greetingSize) :
    ∃ success w', beeConnect P w = .ok (success, w') ∧ (w.Connected success w' ↔ w.net.Greets) := by
  obtain ⟨left, err, w', hloop, hexceptions, hpasswd', hcases⟩ :=
    @connectLoop_run w.net.retryCount.toInt.toNat none w hpersistent hgreeting
  have hrun := @beeConnect_run P _ _ _ _ hpersistent (hpasswd'.trans hpasswd) hloop
  have hsign : w.net.retryCount ≥ 0 ↔ 0 ≤ w.net.retryCount.toInt := Int64.le_iff_toInt_le
  rcases hcases with ⟨hleft, hnone, hids⟩ | ⟨hleft, n, bytes, hsome, hat⟩
  · by_cases hcount : w.net.retryCount ≥ 0
    · -- every attempt failed
      rw [if_pos ⟨hcount, hleft⟩] at hrun
      refine ⟨false, _, hrun, iff_of_true ?_ ⟨hcount, fun bytes hbytes => ?_⟩⟩
      · refine ⟨_, hids, ?_, nofun, fun _ => ⟨⟨connectError err, []⟩, ?_⟩⟩
        · have := hsign.mp hcount
          omega
        · show w'.exceptions ++ _ = _
          rw [hexceptions]
      · rw [hnone] at hbytes
        cases hbytes
    · -- no attempt is made, and the connection counts as made
      rw [if_neg fun h => hcount h.1] at hrun
      refine ⟨true, w', hrun, iff_of_false ?_ fun h => hcount h.1⟩
      rintro ⟨attempts, hlen, hle, hgreeted, -⟩
      obtain ⟨bytes, -, hpos, -⟩ := hgreeted rfl
      have := mt hsign.mpr hcount
      omega
  · rw [if_neg fun h => hleft h.2] at hrun
    have hlt := hat.lt
    have hcount : w.net.retryCount ≥ 0 := hsign.mpr (by omega)
    refine ⟨true, w', hrun, ?_⟩
    have hgreets : w.net.Greets ↔
        greetingSize ≤ bytes.length ∧ Gathers (w.net.chunksOf .other) greetingSize := by
      rw [Net.Greets, hsome]
      constructor
      · exact fun h => h.2 bytes rfl
      · rintro h
        refine ⟨hcount, fun bytes' heq => ?_⟩
        obtain rfl := Option.some.inj heq
        exact h
    rw [hgreets, ← hat.greeted_iff hgreeting]
    constructor
    · rintro ⟨attempts, hlen, -, hgreeted, -⟩
      have hids := hat.ids
      obtain rfl : attempts = n + 1 := by omega
      exact hgreeted rfl
    · intro hgreeted
      exact ⟨n + 1, hat.ids, by omega, fun _ => hgreeted, nofun⟩

/-- Two attempts, the second of which opens a stream with 130 bytes on it. -/
def Net.secondTry : Net := { Net.calm with
  retryCount := 2, opens := [.refused "no", .opened (List.replicate 130 7)], chunks := [100] }

theorem beeConnect_connected_second : ∃ success w',
    beeConnect (.blank false) (plainWorld .secondTry) = .ok (success, w') ∧
      (plainWorld .secondTry).Connected success w' := by
  obtain ⟨success, w', hrun, hiff⟩ :=
    beeConnect_connected (.blank false) (w := plainWorld .secondTry) rfl rfl List.length_replicate
  refine ⟨success, w', hrun, hiff.mpr ⟨by decide, fun bytes hbytes => ?_⟩⟩
  obtain rfl : List.replicate 130 7 = bytes := Option.some.inj hbytes
  exact ⟨by rw [List.length_replicate]; decide, .inr ⟨by decide, trivial⟩⟩

/-- With a setting of -1 no attempt is made, and the connection counts as made. -/
theorem beeConnect_connected_negative : ¬ ∀ (P : Platform) (w w' : World) (success : Bool),
    w.isPersistent = false → w.obj.passwd = none → w.obj.greeting.length = greetingSize →
      beeConnect P w = .ok (success, w') → w.Connected success w' := by
  intro h
  let w : World := plainWorld { Net.calm with retryCount := -1 }
  have hrun : beeConnect (.blank false) w = .ok (true, w) := beeConnect_run rfl rfl rfl
  obtain ⟨attempts, hids, -, hgreeted, -⟩ := h _ w w true rfl rfl List.length_replicate hrun
  obtain ⟨bytes, -, hpos, -⟩ := hgreeted rfl
  omega

end BeePhp
