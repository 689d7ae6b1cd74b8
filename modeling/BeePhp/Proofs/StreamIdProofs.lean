import BeePhp.Proofs.ConnectProofs
import BeePhp.Proofs.ProcessProofs
import BeePhp.Proofs.TrafficProofs

/-!
# Proofs: the ids of persistent streams

A connection that was made without a suffix keeps to one id: that with which its fields are formatted
(`World.Named`). With a suffix the first id has it and every id computed later lacks it.
-/

namespace BeePhp

open Codec Program

/-! ## One id -/

/-- The connection is persistent, its fields make up this id, and no other has been in use. -/
structure World.Named (id : Bytes) (w : World) : Prop where
  persistent : w.isPersistent = true
  fields : w.obj.streamId = id
  own : ∀ x, w.obj.persistentId = some x → x = id
  ids : ∀ x ∈ w.ids, x = some id

section Named

variable {id : Bytes} {P : Platform}

theorem World.Named.ignoresExchange : IgnoresExchange (World.Named id) where
  exceptions := fun _ _ h => ⟨h.persistent, h.fields, h.own, h.ids⟩
  schema := fun _ _ h => ⟨h.persistent, h.fields, h.own, h.ids⟩
  records := fun _ _ _ _ h => ⟨h.persistent, h.fields, h.own, h.ids⟩
  writer := fun _ _ _ h => ⟨h.persistent, h.fields, h.own, h.ids⟩
  counter := fun _ _ h => ⟨h.persistent, h.fields, h.own, h.ids⟩
  record := fun _ _ _ h => ⟨h.persistent, h.fields, h.own, h.ids⟩
  stream := fun _ _ _ h => ⟨h.persistent, h.fields, h.own, h.ids⟩
  greeting := fun _ _ h => ⟨h.persistent, h.fields, h.own, h.ids⟩
  sent := fun _ _ _ h => ⟨h.persistent, h.fields, h.own, h.ids⟩

/-- One more use of the id. -/
theorem World.Named.used {w : World} (h : w.Named id) (hown : w.obj.persistentId = some id) :
    ∀ x ∈ w.ids ++ [w.obj.persistentId], x = some id := by
  intro x hx
  rcases List.mem_append.mp hx with hx | hx
  · exact h.ids x hx
  · rw [List.mem_singleton.mp hx, hown]

theorem beeStreamClose_named : Keeps (World.Named id) beeStreamClose :=
  fun _ h => .modify ⟨h.persistent, h.fields, nofun, h.ids⟩

/-- A renewed id is the same. -/
theorem renewPersistentId_named {w : World} (h : w.Named id) : Wlp renewPersistentId
    (fun _ w' => w'.Named id ∧ w'.obj.persistentId = some id) w := by
  refine .modify ?_
  rw [if_pos h.persistent, h.fields]
  refine ⟨⟨h.persistent, h.fields, fun x hx => ?_, h.ids⟩, rfl⟩
  exact (Option.some.inj hx).symm

/-- A stream is opened with the id of the connection. -/
theorem beexllStreamOpen_named {w : World} (h : w.Named id) (hown : w.obj.persistentId = some id) :
    Wlp beexllStreamOpen (fun _ => World.Named id) w := by
  refine (beexllStreamOpen_spec w).mono ?_
  rintro err w' ⟨opens, -, ⟨-, greeting, -, rfl⟩ | ⟨-, rfl⟩⟩
  · exact ⟨h.persistent, h.fields, h.own, h.used hown⟩
  · exact ⟨h.persistent, h.fields, h.own, h.used hown⟩

theorem beexllStreamFpid2_named {w : World} (h : w.Named id) (hown : w.obj.persistentId = some id) :
    Wlp beexllStreamFpid2 (fun _ => World.Named id) w := by
  refine (beexllStreamFpid2_spec w).mono ?_
  rintro found w' ⟨finds, -, ⟨-, stream, -, rfl⟩ | ⟨-, rfl⟩⟩
  · exact ⟨h.persistent, h.fields, h.own, h.used hown⟩
  · exact ⟨h.persistent, h.fields, h.own, h.used hown⟩

theorem connectLoop_named {n : Nat} {err : Option String} :
    Keeps (World.Named id) (connectLoop n err) := by
  induction n generalizing err with
  | zero => exact .pure _
  | succ n ih =>
    intro w h
    refine .bind ((renewPersistentId_named h).mono ?_)
    rintro - w₁ ⟨h₁, hown⟩
    refine .bind ((beexllStreamOpen_named h₁ hown).mono fun attempt w₂ h₂ => ?_)
    cases attempt with
    | some text => exact ih w₂ h₂
    | none =>
      have hread := readGreeting_keeps World.Named.ignoresExchange.toIgnoresTraffic.line.reads w₂ h₂
      refine .bind (hread.mono fun rv w₃ h₃ => ?_)
      exact Keeps.ite ih (.pure _) w₃ h₃

theorem connectRetry_named : Keeps (World.Named id) (connectRetry P) := by
  have hI : IgnoresExchange (World.Named id) := World.Named.ignoresExchange
  refine .bind .get fun _ => .bind connectLoop_named fun r => ?_
  refine .ite (.bind (throwExc_keeps hI.toIgnoresOutput) fun _ => .pure _) ?_
  exact .bind getObj_keeps fun _ => .ite (beeAuthenticate_keeps hI) (.pure _)

/-- Connecting looks for the stream with the id the connection has, or with a new one. -/
theorem beeConnect_named : Keeps (World.Named id) (beeConnect P) := by
  intro w h
  refine .bind (.get (.ite (fun _ => .bind (.modify (.bind ?_))) fun hnot => absurd h.persistent hnot))
  have hown : w.obj.persistentId.getD w.obj.streamId = id := by
    cases hid : w.obj.persistentId with
    | none => exact h.fields
    | some x => exact h.own x hid
  have hnamed : World.Named id { w with
      obj := { w.obj with persistentId := some (w.obj.persistentId.getD w.obj.streamId) } } := by
    refine ⟨h.persistent, h.fields, fun x hx => ?_, h.ids⟩
    rw [← hown]
    exact (Option.some.inj hx).symm
  refine (beexllStreamFpid2_named hnamed (congrArg some hown)).mono fun found w₁ h₁ => ?_
  exact Keeps.ite (.pure _) connectRetry_named w₁ h₁

theorem links_named : Links P (World.Named id) where
  connect := beeConnect_named
  close := beeStreamClose_named
  eof := phpStreamEof_keeps fun w _ h => World.Named.ignoresExchange.stream w w.obj.stream _ h
  exchange := beeAuthenticate_keeps World.Named.ignoresExchange

theorem kept_named : Kept P (fun _ => True) (World.Named id) where
  net := fun w _ _ h => World.Named.ignoresExchange.stream w w.obj.stream _ h
  throwExc := fun _ _ => throwExc_keeps World.Named.ignoresExchange.toIgnoresOutput
  onDemand := links_named.onDemand
  connect := links_named.connect
  reconnect := links_named.reconnect
  authenticate := links_named.authenticate fun _ _ _ h => ⟨h.persistent, h.fields, h.own, h.ids⟩
  flushSchema := .bind (fun w h => .modify (World.Named.ignoresExchange.schema w _ h)) fun _ => .pure _
  spaceno := by
    have hI : IgnoresExchange (World.Named id) := World.Named.ignoresExchange
    refine spaceno_keeps (fun _ _ => throwExc_keeps hI.toIgnoresOutput) fun s => ?_
    exact lookupName_keeps hI (spaceRequest_keeps hI.toIgnoresWriter)
  indexno := by
    have hI : IgnoresExchange (World.Named id) := World.Named.ignoresExchange
    refine fun _ => indexno_keeps (fun _ _ => throwExc_keeps hI.toIgnoresOutput) fun s => ?_
    exact lookupName_keeps hI (indexRequest_keeps hI.toIgnoresWriter)
  execute := fun H r _ _ => execute_keeps World.Named.ignoresExchange beeStreamClose_named H r

end Named

/-! ## Parameters without NUL -/

/-- The texts are C strings. -/
structure Parameters.Clean (q : Parameters) : Prop where
  host : 0 ∉ q.host
  login : 0 ∉ q.login
  suffix : ∀ s, q.suffix = some s → 0 ∉ s

theorem zero_notMem_cString (s : Bytes) : 0 ∉ cString s := by
  intro h
  have htest := List.all_eq_true.mp (List.all_takeWhile (p := fun b : UInt8 => decide (b ≠ 0))) 0 h
  exact of_decide_eq_true htest rfl

theorem Creation.parameters_clean (c : Creation) : c.parameters.Clean where
  host := by
    unfold Creation.parameters
    cases c.host with
    | none => exact (by decide : 0 ∉ ascii "localhost")
    | some host => exact zero_notMem_cString _
  login := by
    unfold Creation.parameters
    cases c.login with
    | none => exact (by decide : 0 ∉ ascii "guest")
    | some login => exact zero_notMem_cString _
  suffix := by
    intro s hs
    obtain ⟨suffix, -, rfl⟩ := Option.map_eq_some_iff.mp hs
    exact zero_notMem_cString _

theorem Parameters.Clean.plistId {q : Parameters} (h : q.Clean) : 0 ∉ q.plistId := by
  simp only [Parameters.plistId, persistentId, List.mem_append, not_or]
  refine ⟨⟨⟨⟨⟨⟨⟨⟨by decide, by decide⟩, by decide⟩, h.host⟩, by decide⟩, zero_notMem_decimal _⟩,
    by decide⟩, h.login⟩, ?_⟩
  cases hs : q.suffix with
  | none => exact List.not_mem_nil
  | some s => simp [h.suffix s hs, ascii]

/-- Without a suffix nothing is found that has been registered. -/
theorem Parameters.findKey_ne {q r : Parameters} (hq : q.suffix = none) (hr : r.Clean) :
    r.updateKey ≠ q.findKey := by
  have hfind : 0 ∈ q.findKey := by
    have hall : q.findKey = q.plistId ++ [0] := List.take_of_length_le (by
      simp [Parameters.plistIdLen, hq])
    rw [hall]
    exact List.mem_append_right _ List.mem_cons_self
  have hlen : r.plistIdLen - 1 ≤ r.plistId.length := by
    unfold Parameters.plistIdLen
    split <;> omega
  intro heq
  rw [← heq, Parameters.updateKey, Parameters.key, List.take_append_of_le_length hlen] at hfind
  exact hr.plistId (List.mem_of_mem_take hfind)

/-! ## The process -/

/-- A connection as a constructor call makes it and as the methods leave it. Nothing is said of one made
with a suffix. -/
structure Held.Sound (held : Held) : Prop where
  clean : held.parameters.Clean
  named : held.isPersistent = true → held.parameters.suffix = none → ∀ w, held.world = some w →
    World.Named held.parameters.streamId { w with ids := [] }

/-- An object made without a suffix refers to a connection with its own parameters, and its streams have
their id. -/
structure BeeObject.Sound (o : BeeObject) (conns : List Held) : Prop where
  own : ∃ held, conns[o.conn]? = some held ∧ held.parameters = o.parameters
  ids : ∀ x ∈ o.ids, x = some o.parameters.streamId

/-- The invariant of a process. -/
structure Process.Streams (p : Process) : Prop where
  registry : p.Registry
  conns : ∀ held ∈ p.conns, held.Sound
  objects : ∀ o ∈ p.objects, o.isPersistent = true → o.parameters.suffix = none → o.Sound p.conns

theorem Process.Streams.start (n : Int64) : (Process.start n).Streams where
  registry := .start n
  conns := by simp [Process.start]
  objects := by simp [Process.start]

/-- Connections may change their states, and new ones may be made. -/
theorem BeeObject.Sound.later {o : BeeObject} {conns conns' : List Held} (h : o.Sound conns)
    (hconns : ∀ (i : Nat) (held : Held), conns[i]? = some held →
      ∃ held', conns'[i]? = some held' ∧ held'.parameters = held.parameters) : o.Sound conns' := by
  obtain ⟨held, hheld, hparameters⟩ := h.own
  obtain ⟨held', hheld', hparameters'⟩ := hconns _ held hheld
  exact ⟨⟨held', hheld', hparameters'.trans hparameters⟩, h.ids⟩

section Steps

variable {p : Process} {c : Creation} {conn : Nat}

theorem Held.Sound.destroyed {held : Held} (h : held.Sound) : ({ held with world := none } : Held).Sound :=
  ⟨h.clean, fun _ _ _ => nofun⟩

theorem Process.sound_destroy (h : ∀ held ∈ p.conns, held.Sound) :
    ∀ held ∈ (p.destroy conn).conns, held.Sound := by
  intro held hheld
  rcases mem_modify hheld with hold | ⟨before, hbefore, rfl⟩
  · exact h held hold
  · exact (h before (List.mem_of_getElem? hbefore)).destroyed

theorem Process.sound_update (h : ∀ held ∈ p.conns, held.Sound) {key : Bytes} :
    ∀ held ∈ (p.update key conn).conns, held.Sound := by
  unfold Process.update
  cases p.persistentList.lookup key with
  | none => exact h
  | some old => exact sound_destroy h

/-- A new connection is sound. -/
theorem Process.sound_hold (h : ∀ held ∈ p.conns, held.Sound) {w : World}
    (hinit : Creation.init { c with syncCounter := p.syncCounter } = some w) :
    ∀ held ∈ (p.hold c w).conns, held.Sound := by
  intro held hheld
  rcases List.mem_append.mp hheld with hold | hnew
  · exact h held hold
  · rw [List.mem_singleton.mp hnew]
    refine ⟨c.parameters_clean, fun hpersistent hsuffix w' hw' => ?_⟩
    obtain rfl := Option.some.inj hw'
    have hvalid : c.Valid := by
      by_contra hinvalid
      rw [Creation.init_invalid hinvalid] at hinit
      cases hinit
    obtain ⟨passwd, hworld⟩ := Creation.init_valid hvalid p.syncCounter
    obtain rfl := Option.some.inj (hworld.symm.trans hinit)
    have hpersistent' : c.isPersistent = true := hpersistent
    have hsuffix' : c.parameters.suffix = none := hsuffix
    rw [if_pos hpersistent']
    refine ⟨hpersistent', ?_, fun x hx => (Option.some.inj hx).symm, nofun⟩
    show persistentId _ _ _ _ none = persistentId _ _ _ _ c.parameters.suffix
    rw [hsuffix']
    rfl

/-- One more object, sound if it needs to be. -/
theorem Process.Streams.refer {q : Process} (hregistry : (q.refer c conn).Registry)
    (hconns : ∀ held ∈ q.conns, held.Sound)
    (hobjects : ∀ o ∈ q.objects, o.isPersistent = true → o.parameters.suffix = none → o.Sound q.conns)
    (hown : c.isPersistent = true → c.parameters.suffix = none →
      ∃ held, q.conns[conn]? = some held ∧ held.parameters = c.parameters) :
    (q.refer c conn).Streams where
  registry := hregistry
  conns := hconns
  objects := by
    intro o ho hpersistent hsuffix
    rcases List.mem_append.mp ho with hold | hnew
    · exact hobjects o hold hpersistent hsuffix
    · obtain rfl := List.mem_singleton.mp hnew
      exact ⟨hown hpersistent hsuffix, List.forall_mem_nil _⟩

theorem Process.conns_hold_later {w : World} (i : Nat) (held : Held) (h : p.conns[i]? = some held) :
    ∃ held', (p.hold c w).conns[i]? = some held' ∧ held'.parameters = held.parameters := by
  have hlt := (List.getElem?_eq_some_iff.mp h).1
  exact ⟨held, (conns_hold hlt).trans h, rfl⟩

theorem Process.conns_update_later {key : Bytes} (i : Nat) (held : Held)
    (h : p.conns[i]? = some held) :
    ∃ held', (p.update key conn).conns[i]? = some held' ∧ held'.parameters = held.parameters := by
  rw [conns_update, h, Option.map_some]
  refine ⟨_, rfl, ?_⟩
  split
  · rfl
  · rfl

theorem Process.Streams.construct (h : p.Streams) (c : Creation) : (p.construct c).Streams := by
  have hregistry := h.registry.construct c
  by_cases hvalid : c.Valid
  case neg =>
    rw [construct_invalid hvalid]
    exact h
  case pos =>
    cases hpersistent : c.isPersistent with
    | false =>
      obtain ⟨w, hinit, hnew⟩ := construct_transient (p := p) hvalid hpersistent
      rw [hnew] at hregistry ⊢
      refine .refer hregistry (sound_hold h.conns hinit) (fun o ho hp hs => ?_) fun hp => ?_
      · exact (h.objects o ho hp hs).later conns_hold_later
      · rw [hpersistent] at hp
        cases hp
    | true =>
      cases hfound : p.persistentList.lookup c.parameters.findKey with
      | some conn =>
        rw [construct_found hvalid hpersistent hfound] at hregistry ⊢
        refine .refer hregistry h.conns h.objects fun _ hsuffix => ?_
        -- without a suffix no connection is found
        obtain ⟨held, hheld, -, hupdate, -⟩ := h.registry.entry _ conn hfound
        have hclean := (h.conns held (List.mem_of_getElem? hheld)).clean
        exact absurd hupdate (Parameters.findKey_ne hsuffix hclean)
      | none =>
        obtain ⟨w, hinit, hnew⟩ := construct_new hvalid hpersistent hfound
        rw [hnew] at hregistry ⊢
        refine .refer hregistry (sound_update (sound_hold h.conns hinit)) (fun o ho hp hs => ?_) ?_
        · rw [objects_update] at ho
          exact ((h.objects o ho hp hs).later conns_hold_later).later conns_update_later
        · intro _ _
          exact conns_update_later _ _ hold_last

theorem Process.Streams.free (h : p.Streams) (object : Nat) : (p.free object).Streams := by
  have hregistry := h.registry.free object
  unfold Process.free at hregistry ⊢
  cases hobject : p.objects[object]? with
  | none => exact h
  | some o =>
    rw [hobject] at hregistry
    have hobjects : ∀ o' ∈ p.objects.modify object fun o => { o with live := false },
        o'.isPersistent = true → o'.parameters.suffix = none → o'.Sound p.conns := by
      intro o' ho' hpersistent hsuffix
      rcases mem_modify ho' with hold | ⟨before, hbefore, rfl⟩
      · exact h.objects o' hold hpersistent hsuffix
      · have hsound := h.objects before (List.mem_of_getElem? hbefore) hpersistent hsuffix
        exact ⟨hsound.own, hsound.ids⟩
    simp only at hregistry ⊢
    split at hregistry
    case isTrue hpersistent =>
      rw [if_pos hpersistent]
      exact ⟨hregistry, h.conns, hobjects⟩
    case isFalse htransient =>
      rw [if_neg htransient]
      refine ⟨hregistry, sound_destroy h.conns, fun o' ho' hp hs => ?_⟩
      refine (hobjects o' ho' hp hs).later fun i held hheld => ?_
      rw [conns_destroy, hheld, Option.map_some]
      refine ⟨_, rfl, ?_⟩
      split
      · rfl
      · rfl

/-- A method uses the id of its connection, if that was made without a suffix. -/
theorem Held.Sound.run {P : Platform} {held : Held} (h : held.Sound) {w w' : World} {step : Step}
    {v : PVal} {n : Int64} (hpersistent : held.isPersistent = true)
    (hsuffix : held.parameters.suffix = none) (hworld : held.world = some w)
    (hrun : step.run P { w with syncCounter := n, ids := [] } = .ok (v, w')) :
    w'.Named held.parameters.streamId := by
  have hnamed := h.named hpersistent hsuffix w hworld
  exact Step.run_keeps (s := step) kept_named trivial _
    (World.Named.ignoresExchange.counter _ n hnamed) _ _ hrun

theorem Process.Streams.call {P : Platform} (h : p.Streams) {object : Nat} {step : Step} {p' : Process}
    (hcall : p.call P object step = .ok p') : p'.Streams := by
  have hregistry := h.registry.call hcall
  obtain rfl | ⟨o, w, v, w', hobject, hworld, hrun, rfl⟩ := call_spec hcall
  · exact h
  · obtain ⟨held, hheld, hstate⟩ := Option.bind_eq_some_iff.mp hworld
    have hsound := h.conns held (List.mem_of_getElem? hheld)
    have hlater (i : Nat) (held₁ : Held) (hheld₁ : p.conns[i]? = some held₁) : ∃ held',
        (p.conns.modify o.conn fun held => { held with world := some w' })[i]? = some held' ∧
          held'.parameters = held₁.parameters := by
      rw [List.getElem?_modify, hheld₁]
      refine ⟨_, rfl, ?_⟩
      split
      · rfl
      · rfl
    refine ⟨hregistry, fun held' hheld' => ?_, fun o' ho' hpersistent hsuffix => ?_⟩
    · rcases mem_modify hheld' with hold | ⟨before, hbefore, rfl⟩
      · exact h.conns held' hold
      · obtain rfl := Option.some.inj (hheld.symm.trans hbefore)
        refine ⟨hsound.clean, fun hpersistent hsuffix w₁ hw₁ => ?_⟩
        obtain rfl := Option.some.inj hw₁
        have hnamed := hsound.run hpersistent hsuffix hstate hrun
        exact ⟨hnamed.persistent, hnamed.fields, hnamed.own, nofun⟩
    · rcases mem_modify ho' with hold | ⟨before, hbefore, rfl⟩
      · exact (h.objects o' hold hpersistent hsuffix).later hlater
      · obtain rfl := Option.some.inj (hobject.symm.trans hbefore)
        have hobj := h.objects o (List.mem_of_getElem? hobject) hpersistent hsuffix
        refine ⟨(hobj.later hlater).own, fun x hx => ?_⟩
        rcases List.mem_append.mp hx with hx | hx
        · exact hobj.ids x hx
        · -- the connection was made with the parameters of the object
          obtain ⟨held₁, hheld₁, hparameters⟩ := hobj.own
          obtain rfl := Option.some.inj (hheld.symm.trans hheld₁)
          obtain ⟨held₂, hheld₂, hkind⟩ := h.registry.kind o (List.mem_of_getElem? hobject)
          obtain rfl := Option.some.inj (hheld.symm.trans hheld₂)
          have hsuffix' : held.parameters.suffix = none := by
            rw [hparameters]
            exact hsuffix
          have hnamed := hsound.run (hkind.trans hpersistent) hsuffix' hstate hrun
          rw [hnamed.ids x hx, hparameters]

end Steps

theorem streams_keeps {P : Platform} (e : Event) : Keeps Process.Streams (e.run P) := by
  cases e with
  | construct c => exact fun p h => .modify (h.construct c)
  | free object => exact fun p h => .modify (h.free object)
  | call object step =>
    intro p h _ p' hrun
    exact h.call (Event.call_run hrun)

theorem Reaches.streams {P : Platform} {n : Int64} {events : List Event} {p : Process}
    (h : Reaches P n events p) : p.Streams :=
  runAll_keeps (fun e _ => streams_keeps e) _ (.start n) _ _ h

/-! ## Runs that show more than one id -/

/-- An environment in which no persistent stream is found and the server refuses one connection. -/
def Net.refusing : Net := { Net.calm with finds := [none], opens := [.refused ""] }

/-- A `connect` that fails. -/
def Step.refused : Step := ⟨.refusing, [], .connect⟩

/-- It looks for a stream with the id the connection has, and tries to open one with a new id. -/
theorem refused_ids (P : Platform) {w : World} {id : Bytes} (hpersistent : w.isPersistent = true)
    (hstream : w.obj.stream = none) (hid : w.obj.persistentId = some id) :
    ∃ v w', Step.refused.run P w = .ok (v, w') ∧
      w'.ids = w.ids ++ [some id] ++ [some w.obj.streamId] := by
  obtain ⟨⟨host, port, login, passwd, stream, schema, value, tps, greeting, origLogin, suffix, pid⟩,
    isPersistent, n, net, exceptions, start, own, sent, exchanges, ids, ahead, asked, used⟩ := w
  obtain rfl : isPersistent = true := hpersistent
  obtain rfl : stream = none := hstream
  obtain rfl : pid = some id := hid
  exact ⟨_, _, rfl, rfl⟩

/-- The id that is computed from the fields of the connection, which do not include the suffix. -/
def Parameters.renewedId (q : Parameters) : Bytes := { q with suffix := none : Parameters }.streamId

/-- An object whose first connection has been refused. -/
structure BeeObject.Refused (o : BeeObject) (c : Creation) : Prop where
  parameters : o.parameters = c.parameters
  persistent : o.isPersistent = true
  ids : o.ids = [some c.parameters.streamId, some c.parameters.renewedId]

section Refused

variable {P : Platform} {n : Int64} {events : List Event} {p : Process} {c : Creation}

theorem Reaches.snoc (h : Reaches P n events p) {e : Event} {p' : Process}
    (he : e.run P p = .ok ((), p')) : Reaches P n (events ++ [e]) p' := by
  rw [Reaches, runAll_append h, runAll, run_bind he]
  rfl

/-- The objects stay when another is made. -/
theorem Process.construct_objects (hvalid : c.Valid) (hpersistent : c.isPersistent = true) :
    ∃ conn, (p.construct c).objects = p.objects ++ [⟨c.parameters, true, conn, true, []⟩] := by
  cases hfound : p.persistentList.lookup c.parameters.findKey with
  | some conn =>
    rw [construct_found hvalid hpersistent hfound, Process.refer, hpersistent]
    exact ⟨conn, rfl⟩
  | none =>
    obtain ⟨w, -, hnew⟩ := construct_new hvalid hpersistent hfound
    rw [hnew, Process.refer, hpersistent, objects_update]
    exact ⟨_, rfl⟩

/-- A method that returns. -/
theorem Process.call_run {object : Nat} {step : Step} {o : BeeObject} {w w' : World} {v : PVal}
    (hobject : p.objects[object]? = some o) (hlive : o.live = true) (hworld : p.world o.conn = some w)
    (hrun : step.run P { w with syncCounter := p.syncCounter, ids := [] } = .ok (v, w')) :
    p.call P object step = .ok { p with
      syncCounter := w'.syncCounter
      conns := p.conns.modify o.conn fun held => { held with world := some w' }
      objects := p.objects.modify object fun o => { o with ids := o.ids ++ w'.ids } } := by
  simp only [Process.call, hobject, hlive, if_true, hworld, hrun]
  rfl

/-- A new connection is made and the server refuses it. -/
theorem Reaches.refused (h : Reaches P n events p) (hvalid : c.Valid) (hpersistent : c.isPersistent = true)
    (hfound : p.persistentList.lookup c.parameters.findKey = none) :
    ∃ events' p', Reaches P n events' p' ∧ (∀ o ∈ p.objects, o ∈ p'.objects) ∧
      ∃ o ∈ p'.objects, o.Refused c := by
  obtain ⟨w, hinit, hnew⟩ := Process.construct_new hvalid hpersistent hfound
  obtain ⟨passwd, hworld⟩ := Creation.init_valid hvalid p.syncCounter
  obtain rfl := Option.some.inj (hworld.symm.trans hinit)
  let w : World := .init (.new c.parameters.host c.parameters.port c.parameters.login passwd
    (if c.isPersistent then some c.parameters.streamId else none) c.fresh c.garbage)
    c.isPersistent p.syncCounter
  have hobject : (p.construct c).objects[p.objects.length]? =
      some ⟨c.parameters, true, p.conns.length, true, []⟩ := by
    rw [hnew, Process.refer, Process.objects_update, hpersistent]
    exact List.getElem?_concat_length
  have hconn : (p.construct c).world p.conns.length = some w := by
    rw [hnew]
    have hlast : (p.hold c w).persistentList.lookup c.parameters.updateKey ≠ some p.conns.length :=
      h.registry.next_unregistered _
    show ((p.hold c w).update c.parameters.updateKey p.conns.length).world p.conns.length = _
    rw [Process.world_update, if_neg hlast, Process.world, Process.hold_last]
    rfl
  have hid : w.obj.persistentId = some c.parameters.streamId := if_pos hpersistent
  obtain ⟨v, w', hrun, hids⟩ := refused_ids P
    (w := { w with syncCounter := (p.construct c).syncCounter, ids := [] }) hpersistent rfl hid
  have hcall := Process.call_run hobject rfl hconn hrun
  have hconstruct : (Event.construct c).run P p = .ok ((), p.construct c) := rfl
  refine ⟨_, _, (h.snoc hconstruct).snoc (Event.run_call hcall), fun o ho => ?_, ?_⟩
  · obtain ⟨i, hi⟩ := List.mem_iff_getElem?.mp ho
    have hlt := (List.getElem?_eq_some_iff.mp hi).1
    refine List.mem_of_getElem? (i := i) ?_
    obtain ⟨conn, hobjects⟩ := Process.construct_objects (p := p) hvalid hpersistent
    rw [List.getElem?_modify, hobjects, List.getElem?_append_left hlt, hi]
    exact congrArg some (if_neg (by omega))
  · refine ⟨⟨c.parameters, true, p.conns.length, true, w'.ids⟩,
      List.mem_of_getElem? (i := p.objects.length) ?_, ⟨rfl, rfl, hids⟩⟩
    rw [List.getElem?_modify_eq, hobject]
    rfl

/-- With a suffix the renewed id is another one. -/
theorem Parameters.renewedId_ne {q : Parameters} (h : q.suffix ≠ none) : q.streamId ≠ q.renewedId := by
  obtain ⟨s, hs⟩ := Option.ne_none_iff_exists'.mp h
  intro heq
  have hlen := congrArg List.length heq
  simp [Parameters.renewedId, Parameters.streamId, persistentId, hs, ascii] at hlen

/-- A first refusal in a process. -/
theorem refused_first (P : Platform) (hvalid : c.Valid) (hpersistent : c.isPersistent = true) :
    ∃ events p, Reaches P 0 events p ∧ ∃ o ∈ p.objects, o.Refused c := by
  have hstart : Reaches P 0 [] (.start 0) := rfl
  obtain ⟨events, p, hreaches, -, hobject⟩ := hstart.refused hvalid hpersistent rfl
  exact ⟨events, p, hreaches, hobject⟩

/-- An object with a suffix does not keep to one id, whatever other object there is. -/
theorem exists_renewed (P : Platform) {d : Creation} (hvalid : c.Valid) (hpersistent : c.isPersistent = true)
    (hsuffix : c.parameters.suffix ≠ none) (hvalid' : d.Valid) (hpersistent' : d.isPersistent = true) :
    ∃ events p, Reaches P 0 events p ∧ (∃ a ∈ p.objects, a.isPersistent = true ∧
      a.parameters = c.parameters ∧ ¬ ∀ x ∈ a.ids, ∀ y ∈ a.ids, x = y) ∧
      ∃ b ∈ p.objects, b.isPersistent = true ∧ b.parameters = d.parameters := by
  obtain ⟨events, p, hreaches, a, ha, hrefused⟩ := refused_first P hvalid hpersistent
  obtain ⟨conn, hobjects⟩ := Process.construct_objects (p := p) hvalid' hpersistent'
  refine ⟨_, p.construct d, hreaches.snoc (e := .construct d) rfl, ⟨a, ?_, hrefused.persistent,
    hrefused.parameters, fun hsame => ?_⟩, ⟨d.parameters, true, conn, true, []⟩, ?_, rfl, rfl⟩
  · rw [hobjects]
    exact List.mem_append_left _ ha
  · rw [hrefused.ids] at hsame
    have heq := hsame _ List.mem_cons_self _ (List.mem_cons_of_mem _ List.mem_cons_self)
    exact Parameters.renewedId_ne hsuffix (Option.some.inj heq)
  · rw [hobjects]
    exact List.mem_append_right _ List.mem_cons_self

end Refused

/-! ## When the ids are apart -/

theorem suffix_of_parameters {c : Creation} : c.parameters.suffix = none ↔ c.suffix = none :=
  Option.map_eq_none_iff

/-- The streams of an object without a suffix all have its id. -/
theorem Reaches.stream_ids {P : Platform} {n : Int64} {events : List Event} {p : Process}
    (h : Reaches P n events p) {o : BeeObject} (ho : o ∈ p.objects) (hpersistent : o.isPersistent = true)
    (hsuffix : o.parameters.suffix = none) : ∀ x ∈ o.ids, x = some o.parameters.streamId :=
  (h.streams.objects o ho hpersistent hsuffix).ids

/-- The ids of the streams of two persistent objects are apart in every run exactly when neither object
has a suffix and the ids formatted from their parameters differ. -/
theorem streams_apart (P : Platform) {c d : Creation} (hc : c.Valid) (hd : d.Valid)
    (hcp : c.isPersistent = true) (hdp : d.isPersistent = true) :
    StreamsApart P c.parameters d.parameters ↔
      c.suffix = none ∧ d.suffix = none ∧ c.parameters.streamId ≠ d.parameters.streamId := by
  constructor
  · intro h
    have hcs : c.suffix = none := by
      by_contra hsuffix
      obtain ⟨events, p, hreaches, ⟨a, ha, hap, hac, hnot⟩, b, hb, hbp, hbd⟩ :=
        exists_renewed P hc hcp (mt suffix_of_parameters.mp hsuffix) hd hdp
      exact hnot (h _ events p hreaches a ha b hb hap hbp hac hbd).left
    have hds : d.suffix = none := by
      by_contra hsuffix
      obtain ⟨events, p, hreaches, ⟨b, hb, hbp, hbd, hnot⟩, a, ha, hap, hac⟩ :=
        exists_renewed P hd hdp (mt suffix_of_parameters.mp hsuffix) hc hcp
      exact hnot (h _ events p hreaches a ha b hb hap hbp hac hbd).right
    refine ⟨hcs, hds, fun heq => ?_⟩
    -- both connections are refused, the second with the id of the first
    obtain ⟨events, p, hreaches, a, ha, harefused⟩ := refused_first P hc hcp
    have hunfound : p.persistentList.lookup d.parameters.findKey = none := by
      cases hfound : p.persistentList.lookup d.parameters.findKey with
      | none => rfl
      | some conn =>
        obtain ⟨held, hheld, -, hupdate, -⟩ := hreaches.registry.entry _ conn hfound
        have hclean := (hreaches.streams.conns held (List.mem_of_getElem? hheld)).clean
        exact absurd hupdate (Parameters.findKey_ne (suffix_of_parameters.mpr hds) hclean)
    obtain ⟨events', p', hreaches', hkept, b, hb, hbrefused⟩ := hreaches.refused hd hdp hunfound
    have hapart := h _ events' p' hreaches' a (hkept a ha) b hb harefused.persistent
      hbrefused.persistent harefused.parameters hbrefused.parameters
    refine hapart.apart (some c.parameters.streamId) ?_ (some d.parameters.streamId) ?_ (congrArg some heq)
    · rw [harefused.ids]
      exact List.mem_cons_self
    · rw [hbrefused.ids]
      exact List.mem_cons_self
  · rintro ⟨hcs, hds, hne⟩ n events p hreaches a ha b hb hap hbp hac hbd
    have haids : ∀ x ∈ a.ids, x = some c.parameters.streamId := by
      rw [← hac]
      exact hreaches.stream_ids ha hap (by rw [hac]; exact suffix_of_parameters.mpr hcs)
    have hbids : ∀ x ∈ b.ids, x = some d.parameters.streamId := by
      rw [← hbd]
      exact hreaches.stream_ids hb hbp (by rw [hbd]; exact suffix_of_parameters.mpr hds)
    constructor
    · intro x hx y hy heq
      rw [haids x hx, hbids y hy] at heq
      exact hne (Option.some.inj heq)
    · intro x hx y hy
      rw [haids x hx, haids y hy]
    · intro x hx y hy
      rw [hbids x hx, hbids y hy]

/-- An object with the given login. -/
def Creation.named (login : ZStr) : Creation := { Creation.pooled with login := some login }

/-- The streams of two users of a server have ids of their own. -/
theorem streams_apart_users : StreamsApart (.blank false)
    (Creation.named ⟨ascii "ann", by decide⟩).parameters
    (Creation.named ⟨ascii "bob", by decide⟩).parameters :=
  (streams_apart (.blank false) ⟨by decide, by decide⟩ ⟨by decide, by decide⟩ rfl rfl).mpr
    ⟨rfl, rfl, by decide⟩

/-- With a suffix the id changes when the stream is opened anew. -/
theorem streams_apart_suffix : ¬ ∀ (P : Platform) (c d : Creation), c.Valid → d.Valid →
    c.isPersistent = true → d.isPersistent = true → c.parameters ≠ d.parameters →
    StreamsApart P c.parameters d.parameters := by
  intro h
  let a : Creation := { Creation.guest with suffix := some ⟨ascii "a", by decide⟩ }
  let b : Creation := { Creation.guest with suffix := some ⟨ascii "b", by decide⟩ }
  obtain ⟨events, p, hreaches, ⟨x, hx, hxp, hxa, hnot⟩, y, hy, hyp, hyb⟩ :=
    exists_renewed (.blank false) (c := a) (d := b) ⟨by decide, by decide⟩ rfl (by decide)
      ⟨by decide, by decide⟩ rfl
  refine hnot (h (.blank false) a b ⟨by decide, by decide⟩ ⟨by decide, by decide⟩ rfl rfl ?_ _ events p
    hreaches x hx y hy hxp hyp hxa hyb).left
  decide

end BeePhp
