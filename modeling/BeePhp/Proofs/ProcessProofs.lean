import BeePhp.Process
import BeePhp.Proofs.MethodsProofs

/-!
# Proofs: the pool of connections

Every entry of the persistent list is a connection that has not been destroyed, under the key that its
parameters have for the registration (`Process.Registry`). That key is never the one that is looked up
for the same parameters, so a connection is obtained from the pool only by mistake.
-/

namespace BeePhp

open Codec Program

/-! ## Keys -/

/-- What is registered is one byte shorter than what is looked up. -/
theorem Parameters.updateKey_ne (q : Parameters) : q.updateKey ≠ q.findKey := by
  intro h
  have hlen := congrArg List.length h
  have hid : 0 < q.plistId.length := by
    simp [Parameters.plistId, persistentId, ascii]
  simp only [Parameters.updateKey, Parameters.findKey, Parameters.key, List.length_take,
    List.length_append, List.length_singleton, Parameters.plistIdLen] at hlen
  split at hlen <;> omega

/-! ## Connections -/

/-- What is in a list with one place changed was there, or stands in that place. -/
theorem mem_modify {α : Type} {l : List α} {i : Nat} {f : α → α} {a : α} (h : a ∈ l.modify i f) :
    a ∈ l ∨ ∃ b, l[i]? = some b ∧ a = f b := by
  obtain ⟨j, hj⟩ := List.mem_iff_getElem?.mp h
  rw [List.getElem?_modify] at hj
  obtain ⟨b, hb, rfl⟩ := Option.map_eq_some_iff.mp hj
  by_cases hij : i = j
  · subst hij
    exact .inr ⟨b, hb, if_pos rfl⟩
  · rw [if_neg hij]
    exact .inl (List.mem_of_getElem? hb)

section Connections

variable {p : Process} {i j : Nat}

theorem Process.conns_destroy : (p.destroy i).conns[j]? =
    (p.conns[j]?).map fun held => if i = j then { held with world := none } else held := by
  rw [Process.destroy, List.getElem?_modify]
  rfl

theorem Process.world_destroy : (p.destroy i).world j = if i = j then none else p.world j := by
  rw [Process.world, conns_destroy, Process.world]
  cases p.conns[j]? with
  | none => simp
  | some held => by_cases h : i = j <;> simp [h]

theorem Process.conns_hold {c : Creation} {w : World} (h : j < p.conns.length) :
    (p.hold c w).conns[j]? = p.conns[j]? := List.getElem?_append_left h

theorem Process.world_hold {c : Creation} {w : World} (h : j < p.conns.length) :
    (p.hold c w).world j = p.world j := by
  rw [Process.world, conns_hold h, Process.world]

theorem Process.hold_last {c : Creation} {w : World} :
    (p.hold c w).conns[p.conns.length]? = some ⟨c.parameters, c.isPersistent, some w⟩ := by
  simp [Process.hold]

/-- What registering a connection destroys. -/
theorem Process.conns_update {key : Bytes} {conn : Nat} : (p.update key conn).conns[j]? =
    (p.conns[j]?).map fun held =>
      if p.persistentList.lookup key = some j then { held with world := none } else held := by
  unfold Process.update
  cases p.persistentList.lookup key with
  | none => simp
  | some old => simp [conns_destroy]

theorem Process.world_update {key : Bytes} {conn : Nat} : (p.update key conn).world j =
    if p.persistentList.lookup key = some j then none else p.world j := by
  rw [Process.world, conns_update, Process.world]
  cases p.conns[j]? with
  | none => simp
  | some held => by_cases h : p.persistentList.lookup key = some j <;> simp [h]

theorem Process.list_update {key : Bytes} {conn : Nat} :
    (p.update key conn).persistentList = enter key conn p.persistentList := by
  unfold Process.update
  cases p.persistentList.lookup key with
  | none => rfl
  | some old => rfl

theorem Process.objects_update {key : Bytes} {conn : Nat} :
    (p.update key conn).objects = p.objects := by
  unfold Process.update
  cases p.persistentList.lookup key with
  | none => rfl
  | some old => rfl

end Connections

/-! ## Constructing -/

/-- The state in which a valid call leaves the connection it makes. -/
theorem Creation.init_valid {c : Creation} (h : c.Valid) (n : Int64) :
    ∃ passwd, Creation.init { c with syncCounter := n } = some (.init
      (.new c.parameters.host c.parameters.port c.parameters.login passwd
        (if c.isPersistent then some c.parameters.streamId else none) c.fresh c.garbage)
      c.isPersistent n) := by
  have hport : ¬ (c.port < 0 ∨ c.port ≥ 65536) := by
    rintro (hlt | hge)
    · exact absurd h.1 (Int64.not_le.mpr hlt)
    · exact absurd h.2 (Int64.not_lt.mpr hge)
  refine ⟨c.passwd.bind fun passwd => if passwd.val = [] then none else some (cString passwd.val), ?_⟩
  rw [Creation.init, construct, if_neg hport]
  rfl

theorem Creation.init_invalid {c : Creation} (h : ¬ c.Valid) (n : Int64) :
    Creation.init { c with syncCounter := n } = none := by
  have hport : c.port < 0 ∨ c.port ≥ 65536 := by
    by_cases hlt : c.port < 0
    · exact .inl hlt
    · refine .inr (Int64.not_lt.mp fun hlt' => h ⟨Int64.not_lt.mp hlt, hlt'⟩)
  rw [Creation.init, construct, if_pos hport]
  rfl

section Constructing

variable {p : Process} {c : Creation}

theorem Process.construct_invalid (h : ¬ c.Valid) : p.construct c = p := by
  rw [Process.construct, Creation.init_invalid h]

/-- A call that is to make no persistent object. -/
theorem Process.construct_transient (h : c.Valid) (hpersistent : c.isPersistent = false) :
    ∃ w, Creation.init { c with syncCounter := p.syncCounter } = some w ∧
      p.construct c = (p.hold c w).refer c p.conns.length := by
  obtain ⟨passwd, hinit⟩ := Creation.init_valid h p.syncCounter
  refine ⟨_, hinit, ?_⟩
  rw [Process.construct, hinit]
  simp only [hpersistent, Bool.false_eq_true, if_false]

/-- A call that finds a connection. -/
theorem Process.construct_found (h : c.Valid) (hpersistent : c.isPersistent = true) {conn : Nat}
    (hfound : p.persistentList.lookup c.parameters.findKey = some conn) :
    p.construct c = p.refer c conn := by
  obtain ⟨passwd, hinit⟩ := Creation.init_valid h p.syncCounter
  rw [Process.construct, hinit]
  simp only [hpersistent, if_true, hfound]

/-- A call that finds none registers a new one. -/
theorem Process.construct_new (h : c.Valid) (hpersistent : c.isPersistent = true)
    (hfound : p.persistentList.lookup c.parameters.findKey = none) :
    ∃ w, Creation.init { c with syncCounter := p.syncCounter } = some w ∧ p.construct c =
      ((p.hold c w).update c.parameters.updateKey p.conns.length).refer c p.conns.length := by
  obtain ⟨passwd, hinit⟩ := Creation.init_valid h p.syncCounter
  refine ⟨_, hinit, ?_⟩
  rw [Process.construct, hinit]
  simp only [hpersistent, if_true, hfound]

theorem Process.obtained_refer {p' : Process} {conn : Nat} (h : p.construct c = p'.refer c conn)
    (hobjects : p'.objects = p.objects) : p.obtained c = some conn := by
  rw [Process.obtained, h, Process.refer, hobjects]
  simp

end Constructing

/-! ## The invariant -/

/-- Every entry of the persistent list is a persistent connection that has not been destroyed, under the
key its parameters are registered with; and every object is as persistent as its connection. -/
structure Process.Registry (p : Process) : Prop where
  entry : ∀ key conn, p.persistentList.lookup key = some conn → ∃ held, p.conns[conn]? = some held ∧
    held.isPersistent = true ∧ held.parameters.updateKey = key ∧ held.world.isSome
  kind : ∀ o ∈ p.objects, ∃ held, p.conns[o.conn]? = some held ∧ held.isPersistent = o.isPersistent

theorem Process.Registry.start (n : Int64) : (Process.start n).Registry where
  entry := by simp [Process.start]
  kind := by simp [Process.start]

/-- A registered connection is found under one key only. -/
theorem Process.Registry.key_unique {p : Process} (h : p.Registry) {key key' : Bytes} {conn : Nat}
    (hkey : p.persistentList.lookup key = some conn)
    (hkey' : p.persistentList.lookup key' = some conn) : key = key' := by
  obtain ⟨held, hheld, -, rfl, -⟩ := h.entry key conn hkey
  obtain ⟨held', hheld', -, rfl, -⟩ := h.entry key' conn hkey'
  obtain rfl := Option.some.inj (hheld.symm.trans hheld')
  rfl

/-- What is made next is not registered yet. -/
theorem Process.Registry.next_unregistered {p : Process} (h : p.Registry) (key : Bytes) :
    p.persistentList.lookup key ≠ some p.conns.length := by
  intro hkey
  obtain ⟨held, hheld, -⟩ := h.entry key _ hkey
  have hlt := (List.getElem?_eq_some_iff.mp hheld).1
  omega

/-- Objects stay as persistent as their connections while these only change their states. -/
theorem Process.Registry.kind_of_map {p : Process} (h : p.Registry) {conns : List Held}
    {f : Nat → Held → Held} (hconns : ∀ j, conns[j]? = (p.conns[j]?).map (f j))
    (hf : ∀ j held, (f j held).isPersistent = held.isPersistent) {o : BeeObject} (ho : o ∈ p.objects) :
    ∃ held, conns[o.conn]? = some held ∧ held.isPersistent = o.isPersistent := by
  obtain ⟨held, hheld, hkind⟩ := h.kind o ho
  refine ⟨f o.conn held, ?_, (hf _ _).trans hkind⟩
  rw [hconns, hheld, Option.map_some]

section Steps

variable {p : Process}

theorem Process.Registry.refer (h : p.Registry) (c : Creation) {conn : Nat} {held : Held}
    (hheld : p.conns[conn]? = some held) (hkind : held.isPersistent = c.isPersistent) :
    (p.refer c conn).Registry where
  entry := h.entry
  kind := by
    intro o ho
    rcases List.mem_append.mp ho with ho | ho
    · exact h.kind o ho
    · rw [List.mem_singleton.mp ho]
      exact ⟨held, hheld, hkind⟩

theorem Process.Registry.hold (h : p.Registry) (c : Creation) (w : World) : (p.hold c w).Registry where
  entry := by
    intro key conn hkey
    obtain ⟨held, hheld, hrest⟩ := h.entry key conn hkey
    have hlt := (List.getElem?_eq_some_iff.mp hheld).1
    exact ⟨held, (conns_hold hlt).trans hheld, hrest⟩
  kind := by
    intro o ho
    obtain ⟨held, hheld, hkind⟩ := h.kind o ho
    have hlt := (List.getElem?_eq_some_iff.mp hheld).1
    exact ⟨held, (conns_hold hlt).trans hheld, hkind⟩

/-- A connection is registered that is not in the list. -/
theorem Process.Registry.update (h : p.Registry) {conn : Nat} {held : Held}
    (hheld : p.conns[conn]? = some held) (hpersistent : held.isPersistent = true)
    (halive : held.world.isSome) (hnew : ∀ key, p.persistentList.lookup key ≠ some conn) :
    (p.update held.parameters.updateKey conn).Registry where
  entry := by
    intro key' conn' hkey'
    rw [list_update, lookup_enter] at hkey'
    by_cases hkey : key' = held.parameters.updateKey
    · rw [if_pos hkey] at hkey'
      obtain rfl := Option.some.inj hkey'
      refine ⟨held, ?_, hpersistent, hkey.symm, halive⟩
      rw [conns_update, hheld, Option.map_some, if_neg (hnew _)]
    · rw [if_neg hkey] at hkey'
      obtain ⟨held', hheld', hpersistent', hupdate', halive'⟩ := h.entry key' conn' hkey'
      refine ⟨held', ?_, hpersistent', hupdate', halive'⟩
      have hother : p.persistentList.lookup held.parameters.updateKey ≠ some conn' :=
        fun hold => hkey (h.key_unique hkey' hold)
      rw [conns_update, hheld', Option.map_some, if_neg hother]
  kind := by
    rw [objects_update]
    refine fun o ho => h.kind_of_map (fun _ => conns_update) (fun j held' => ?_) ho
    split
    · rfl
    · rfl

theorem Process.Registry.construct (h : p.Registry) (c : Creation) : (p.construct c).Registry := by
  by_cases hvalid : c.Valid
  case neg =>
    rw [construct_invalid hvalid]
    exact h
  case pos =>
    cases hpersistent : c.isPersistent with
    | false =>
      obtain ⟨w, -, hnew⟩ := construct_transient (p := p) hvalid hpersistent
      rw [hnew]
      exact (h.hold c w).refer c hold_last rfl
    | true =>
      cases hfound : p.persistentList.lookup c.parameters.findKey with
      | some conn =>
        rw [construct_found hvalid hpersistent hfound]
        obtain ⟨held, hheld, hpersistent', -, -⟩ := h.entry _ conn hfound
        exact h.refer c hheld (hpersistent'.trans hpersistent.symm)
      | none =>
        obtain ⟨w, -, hnew⟩ := construct_new hvalid hpersistent hfound
        rw [hnew]
        have hlast := h.next_unregistered
        have hupdated := (h.hold c w).update hold_last hpersistent rfl hlast
        have hheld : ((p.hold c w).update c.parameters.updateKey p.conns.length).conns[p.conns.length]? =
            some ⟨c.parameters, c.isPersistent, some w⟩ := by
          have hlast' : (p.hold c w).persistentList.lookup c.parameters.updateKey ≠
            some p.conns.length := hlast _
          rw [conns_update, hold_last, Option.map_some, if_neg hlast']
        exact hupdated.refer c hheld rfl

/-- The end of an object destroys its connection only if that is not in the list. -/
theorem Process.Registry.free (h : p.Registry) (object : Nat) : (p.free object).Registry := by
  unfold Process.free
  cases hobject : p.objects[object]? with
  | none => exact h
  | some o =>
    let q : Process :=
      { p with objects := p.objects.modify object fun o => { o with live := false } }
    have hq : q.Registry := by
      refine ⟨h.entry, fun o' ho' => ?_⟩
      rcases mem_modify ho' with hold | ⟨before, hbefore, rfl⟩
      · exact h.kind o' hold
      · exact h.kind before (List.mem_of_getElem? hbefore)
    obtain ⟨held, hheld, hkind⟩ := h.kind o (List.mem_of_getElem? hobject)
    show Process.Registry (if o.isPersistent then q else q.destroy o.conn)
    split
    case isTrue => exact hq
    case isFalse htransient =>
      constructor
      · intro key conn hkey
        obtain ⟨held', hheld', hpersistent', hrest⟩ := hq.entry key conn hkey
        have hne : o.conn ≠ conn := by
          rintro rfl
          obtain rfl := Option.some.inj (hheld.symm.trans hheld')
          exact htransient (hkind.symm.trans hpersistent')
        refine ⟨held', ?_, hpersistent', hrest⟩
        rw [conns_destroy, hheld', Option.map_some, if_neg hne]
      · refine fun o' ho' => hq.kind_of_map (fun _ => conns_destroy) (fun j held' => ?_) ho'
        split
        · rfl
        · rfl

/-- A method that returns was called on an object that is there, and its connection too. -/
theorem Process.call_spec {P : Platform} {object : Nat} {step : Step} {p' : Process}
    (h : p.call P object step = .ok p') : p' = p ∨ ∃ o w v w', p.objects[object]? = some o ∧
      p.world o.conn = some w ∧
      step.run P { w with syncCounter := p.syncCounter, ids := [] } = .ok (v, w') ∧
      p' = { p with
        syncCounter := w'.syncCounter
        conns := p.conns.modify o.conn fun held => { held with world := some w' }
        objects := p.objects.modify object fun o => { o with ids := o.ids ++ w'.ids } } := by
  unfold Process.call at h
  cases hobject : p.objects[object]? with
  | none =>
    rw [hobject] at h
    exact .inl (Except.ok.inj h).symm
  | some o =>
    simp only [hobject] at h
    split at h
    case isFalse => exact .inl (Except.ok.inj h).symm
    case isTrue hlive =>
      cases hworld : p.world o.conn with
      | none =>
        rw [hworld] at h
        cases h
      | some w =>
        simp only [hworld] at h
        cases hrun : step.run P { w with syncCounter := p.syncCounter, ids := [] } with
        | error e =>
          rw [hrun] at h
          cases h
        | ok r =>
          rw [hrun] at h
          exact .inr ⟨o, w, r.1, r.2, rfl, hworld, hrun, (Except.ok.inj h).symm⟩

theorem Process.Registry.call {P : Platform} (h : p.Registry) {object : Nat} {step : Step} {p' : Process}
    (hcall : p.call P object step = .ok p') : p'.Registry := by
  obtain rfl | ⟨o, w, v, w', hobject, -, -, rfl⟩ := call_spec hcall
  · exact h
  · have hconns (j : Nat) : (p.conns.modify o.conn fun held => { held with world := some w' })[j]? =
        (p.conns[j]?).map fun held => if o.conn = j then { held with world := some w' } else held := by
      rw [List.getElem?_modify]
      rfl
    constructor
    · intro key conn hkey
      obtain ⟨held, hheld, hpersistent, hupdate, halive⟩ := h.entry key conn hkey
      refine ⟨if o.conn = conn then { held with world := some w' } else held, ?_, ?_⟩
      · rw [hconns, hheld, Option.map_some]
      · split
        · exact ⟨hpersistent, hupdate, rfl⟩
        · exact ⟨hpersistent, hupdate, halive⟩
    · intro o' ho'
      have hf (j : Nat) (held : Held) :
          (if o.conn = j then { held with world := some w' } else held).isPersistent =
            held.isPersistent := by
        split
        · rfl
        · rfl
      rcases mem_modify ho' with hold | ⟨before, hbefore, rfl⟩
      · exact h.kind_of_map hconns hf hold
      · obtain ⟨held, hheld, hkind⟩ := h.kind_of_map hconns hf (List.mem_of_getElem? hbefore)
        exact ⟨held, hheld, hkind⟩

end Steps

/-! ## Runs -/

theorem Event.run_call {P : Platform} {object : Nat} {step : Step} {p p' : Process}
    (h : p.call P object step = .ok p') : (Event.call object step).run P p = .ok ((), p') := by
  simp only [Event.run, h, Bind.bind, Except.bind]
  rfl

theorem Event.call_run {P : Platform} {object : Nat} {step : Step} {p p' : Process} {u : Unit}
    (h : (Event.call object step).run P p = .ok (u, p')) : p.call P object step = .ok p' := by
  cases hcall : p.call P object step with
  | error e => simp [Event.run, hcall, Bind.bind, Except.bind] at h
  | ok p'' =>
    simp only [Event.run, hcall, Bind.bind, Except.bind] at h
    rw [(Prod.mk.inj (Except.ok.inj h)).2]

theorem registry_keeps {P : Platform} (e : Event) : Keeps Process.Registry (e.run P) := by
  cases e with
  | construct c => exact fun p h => .modify (h.construct c)
  | free object => exact fun p h => .modify (h.free object)
  | call object step =>
    intro p h _ p' hrun
    exact h.call (Event.call_run hrun)

theorem Reaches.registry {P : Platform} {n : Int64} {events : List Event} {p : Process}
    (h : Reaches P n events p) : p.Registry :=
  runAll_keeps (fun e _ => registry_keeps e) _ (.start n) _ _ h

/-! ## The pool -/

section Pool

variable {p : Process} {c : Creation}

/-- What has been registered with some parameters. -/
theorem Process.registered_some {q : Parameters} {i : Nat} (h : p.registered q = some i) :
    ∃ held, p.conns[i]? = some held ∧ held.isPersistent = true ∧ held.parameters = q := by
  have hfound := List.find?_some h
  obtain ⟨held, hheld, htest⟩ := Option.any_eq_true _ _ |>.mp hfound
  obtain ⟨hpersistent, hparameters⟩ := Bool.and_eq_true_iff.mp htest
  exact ⟨held, hheld, hpersistent, of_decide_eq_true hparameters⟩

/-- The connection that is found has other parameters. -/
theorem Process.Registry.found_other (h : p.Registry) {q : Parameters} {conn : Nat} {held : Held}
    (hfound : p.persistentList.lookup q.findKey = some conn) (hheld : p.conns[conn]? = some held) :
    held.parameters ≠ q := by
  rintro rfl
  obtain ⟨held', hheld', -, hupdate, -⟩ := h.entry _ conn hfound
  obtain rfl := Option.some.inj (hheld.symm.trans hheld')
  exact held.parameters.updateKey_ne hupdate

/-- A call that finds nothing obtains its own connection, and what is destroyed is what was registered
under its key. -/
theorem Process.construct_unfound (hvalid : c.Valid) (hpersistent : c.isPersistent = true)
    (hfound : p.persistentList.lookup c.parameters.findKey = none) :
    p.obtained c = some p.conns.length ∧ ∀ i < p.conns.length, (p.construct c).world i =
      if p.persistentList.lookup c.parameters.updateKey = some i then none else p.world i := by
  obtain ⟨w, -, hnew⟩ := construct_new hvalid hpersistent hfound
  constructor
  · exact obtained_refer hnew objects_update
  · intro i hi
    rw [hnew]
    show ((p.hold c w).update c.parameters.updateKey p.conns.length).world i = _
    rw [world_update, world_hold hi]
    rfl

/-- Exactly the clear calls do what the pool is for. -/
theorem Process.Registry.pools_iff (h : p.Registry) (hvalid : c.Valid)
    (hpersistent : c.isPersistent = true) : p.Pools c ↔ p.Clear c := by
  constructor
  · intro hpools
    have hunfound : p.persistentList.lookup c.parameters.findKey = none := by
      cases hfound : p.persistentList.lookup c.parameters.findKey with
      | none => rfl
      | some conn =>
        obtain ⟨held, hheld, -⟩ := h.entry _ conn hfound
        have hobtained := obtained_refer (construct_found hvalid hpersistent hfound) rfl
        exact absurd (hpools.own conn held hobtained hheld) (h.found_other hfound hheld)
    obtain ⟨hobtained, hworld⟩ := construct_unfound hvalid hpersistent hunfound
    refine ⟨?_, hunfound, fun i hi o ho hlive hconn => ?_⟩
    · cases hregistered : p.registered c.parameters with
      | none => rfl
      | some i =>
        have hlast := hpools.same i _ hregistered hobtained
        obtain ⟨held, hheld, -⟩ := registered_some hregistered
        have hlt := (List.getElem?_eq_some_iff.mp hheld).1
        omega
    · obtain ⟨held, hheld, -, -, halive⟩ := h.entry _ i hi
      subst hconn
      have hlt := (List.getElem?_eq_some_iff.mp hheld).1
      have hspared := hpools.spares o ho hlive (by rw [Process.world, hheld]; exact halive)
      rw [hworld _ hlt, if_pos hi] at hspared
      cases hspared
  · intro hclear
    obtain ⟨hobtained, hworld⟩ := construct_unfound hvalid hpersistent hclear.unfound
    constructor
    · intro i j hregistered
      rw [hclear.unregistered] at hregistered
      cases hregistered
    · intro i held hi hheld
      obtain rfl := Option.some.inj (hobtained.symm.trans hi)
      have hlt := (List.getElem?_eq_some_iff.mp hheld).1
      omega
    · intro o ho hlive halive
      obtain ⟨held, hheld, -⟩ := h.kind o ho
      have hlt := (List.getElem?_eq_some_iff.mp hheld).1
      rw [hworld _ hlt, if_neg fun hi => hclear.unreferred _ hi o ho hlive rfl]
      exact halive

end Pool

/-- The constructor calls among the events do what the pool is for exactly when each of them is clear: no
earlier call with the same values has registered a connection, the key it looks up is not registered, and
no object that is there refers to a connection registered under the key it registers. -/
theorem pool_identity (P : Platform) (syncCounter : Int64) (events : List Event) :
    EveryCall P syncCounter events Process.Pools ↔ EveryCall P syncCounter events Process.Clear := by
  constructor
  · intro h before c after p hevents hvalid hpersistent hreaches
    exact (hreaches.registry.pools_iff hvalid hpersistent).mp
      (h before c after p hevents hvalid hpersistent hreaches)
  · intro h before c after p hevents hvalid hpersistent hreaches
    exact (hreaches.registry.pools_iff hvalid hpersistent).mpr
      (h before c after p hevents hvalid hpersistent hreaches)

/-- An object for `guest` with a connection that persists. -/
def Creation.pooled : Creation := { Creation.guest with persistent := true }

/-- A second call with the same values does not obtain the connection that the first has registered. -/
theorem pool_identity_again : ¬ ∀ (P : Platform) (syncCounter : Int64) (events : List Event),
    EveryCall P syncCounter events Process.Pools := by
  intro h
  have hpools : (Process.construct (.start 0) .pooled).Pools .pooled :=
    h (.blank false) 0 [.construct .pooled, .construct .pooled] [.construct .pooled] .pooled [] _ rfl
      ⟨by decide, by decide⟩ rfl rfl
  have hregistered : (Process.construct (.start 0) .pooled).registered Creation.pooled.parameters =
      some 0 := by decide +kernel
  have hobtained : (Process.construct (.start 0) .pooled).obtained .pooled = some 1 := by
    decide +kernel
  have hsame := hpools.same 0 1 hregistered hobtained
  cases hsame

end BeePhp
