import BeePhp.Codec.Assoc
import BeePhp.Runs

/-!
# The process

The objects of class `Bee` of one process, the connections they refer to, and the persistent list in which
the connections that outlive them are registered. An event is a call of the constructor, the end of an
object, or a call of a method.
-/

namespace BeePhp

open Codec (Bytes enter)
open Program

/-! ## The parameters of the constructor -/

/-- The values a constructor call goes by, with the defaults filled in. -/
structure Parameters where
  host : Bytes
  port : Nat
  login : Bytes
  suffix : Option Bytes
  deriving DecidableEq, Repr

def Creation.parameters (c : Creation) : Parameters where
  host := c.host.elim (ascii "localhost") fun host => cString host.val
  port := if c.port = 0 then 3301 else c.port.toInt.toNat
  login := c.login.elim (ascii "guest") fun login => cString login.val
  suffix := c.suffix.map fun suffix => cString suffix.val

/-- `is_persistent`. -/
def Creation.isPersistent (c : Creation) : Bool := c.persistent || c.suffix.isSome

/-- The constructor does not throw. -/
def Creation.Valid (c : Creation) : Prop := 0 ≤ c.port ∧ c.port < 65536

/-- The `persistent_id` of a stream. -/
def Parameters.streamId (q : Parameters) : Bytes :=
  persistentId q.host q.port q.login (ascii "stream") q.suffix

/-- The `persistent_id` of an entry of the persistent list. -/
def Parameters.plistId (q : Parameters) : Bytes :=
  persistentId q.host q.port q.login (ascii "plist") q.suffix

/-- The length that `persistent_id` returns. It counts the NUL where no suffix is added. -/
def Parameters.plistIdLen (q : Parameters) : Nat :=
  if q.suffix.isSome then q.plistId.length else q.plistId.length + 1

/-- So many bytes of the id and of the NUL behind it. -/
def Parameters.key (q : Parameters) (len : Nat) : Bytes := (q.plistId ++ [0]).take len

/-- The key of `BEE_PERSISTENT_FIND`. -/
def Parameters.findKey (q : Parameters) : Bytes := q.key q.plistIdLen

/-- The key of the `zend_hash_update` that registers a connection. -/
def Parameters.updateKey (q : Parameters) : Bytes := q.key (q.plistIdLen - 1)

/-! ## The state -/

/-- A connection: the parameters of the call that made it, whether it is allocated to persist, and its
state, unless it has been destroyed. -/
structure Held where
  parameters : Parameters
  isPersistent : Bool
  world : Option World

/-- A `bee_object`: the parameters of its constructor call, the connection it refers to, whether it is
still there, and the ids with which streams were looked for and opened in its methods. -/
structure BeeObject where
  parameters : Parameters
  isPersistent : Bool
  conn : Nat
  live : Bool
  ids : List (Option Bytes)

/-- A process: its counter, `EG(persistent_list)` as far as it holds entries of the extension, and all
connections and objects there have been. -/
structure Process where
  syncCounter : Int64
  persistentList : List (Bytes × Nat)
  conns : List Held
  objects : List BeeObject

/-- A process without objects. -/
def Process.start (syncCounter : Int64) : Process := ⟨syncCounter, [], [], []⟩

/-! ## Events -/

inductive Event where
  | construct (c : Creation)
  | free (object : Nat)
  | call (object : Nat) (step : Step)

/-- `bee_connection_free`. -/
def Process.destroy (p : Process) (conn : Nat) : Process :=
  { p with conns := p.conns.modify conn fun held => { held with world := none } }

/-- `zend_hash_update` of the persistent list, which runs `php_bee_dtor` on the entry it replaces. -/
def Process.update (p : Process) (key : Bytes) (conn : Nat) : Process :=
  let p := match p.persistentList.lookup key with
    | some old => p.destroy old
    | none => p
  { p with persistentList := enter key conn p.persistentList }

/-- A new connection, which is the last one. -/
def Process.hold (p : Process) (c : Creation) (w : World) : Process :=
  { p with conns := p.conns ++ [⟨c.parameters, c.isPersistent, some w⟩] }

/-- A new object, which is the last one. -/
def Process.refer (p : Process) (c : Creation) (conn : Nat) : Process :=
  { p with objects := p.objects ++ [⟨c.parameters, c.isPersistent, conn, true, []⟩] }

/-- `__construct` of a new object. -/
def Process.construct (p : Process) (c : Creation) : Process :=
  match Creation.init { c with syncCounter := p.syncCounter } with
  | none => p
  | some w =>
    if c.isPersistent then
      match p.persistentList.lookup c.parameters.findKey with
      | some conn => p.refer c conn
      | none =>
        ((p.hold c w).update c.parameters.updateKey p.conns.length).refer c p.conns.length
    else (p.hold c w).refer c p.conns.length

/-- `bee_object_free`. -/
def Process.free (p : Process) (object : Nat) : Process :=
  match p.objects[object]? with
  | none => p
  | some o =>
    let p := { p with objects := p.objects.modify object fun o => { o with live := false } }
    if o.isPersistent then p else p.destroy o.conn

/-- The state of a connection. -/
def Process.world (p : Process) (conn : Nat) : Option World := p.conns[conn]?.bind Held.world

/-- A method of an object. After its connection has been destroyed the object's pointer dangles. -/
def Process.call (P : Platform) (p : Process) (object : Nat) (step : Step) : Except Fault Process :=
  match p.objects[object]? with
  | none => return p
  | some o =>
    if o.live then
      match p.world o.conn with
      | none => throw .uninit
      | some w => do
        let (_, w) ← step.run P { w with syncCounter := p.syncCounter, ids := [] }
        return { p with
          syncCounter := w.syncCounter
          conns := p.conns.modify o.conn fun held => { held with world := some w }
          objects := p.objects.modify object fun o => { o with ids := o.ids ++ w.ids } }
    else return p

def Event.run (P : Platform) : Event → StateT Process (Except Fault) Unit
  | .construct c => modify fun p => p.construct c
  | .free object => modify fun p => p.free object
  | .call object step => fun p => do return ((), ← p.call P object step)

/-- The events lead from the start of the process to the state `p`. -/
def Reaches (P : Platform) (syncCounter : Int64) (events : List Event) (p : Process) : Prop :=
  runAll (Event.run P) events (.start syncCounter) = .ok ((), p)

/-! ## The pool -/

/-- The connection that the object made by a constructor call refers to, unless the call throws. -/
def Process.obtained (p : Process) (c : Creation) : Option Nat :=
  (p.construct c).objects[p.objects.length]?.map BeeObject.conn

/-- The connection registered by the latest call with these parameters. -/
def Process.registered (p : Process) (q : Parameters) : Option Nat :=
  (List.range p.conns.length).reverse.find? fun i =>
    p.conns[i]?.any fun held => held.isPersistent && decide (held.parameters = q)

/-- A constructor call does what the pool is for: it obtains the connection that the latest call with the
same parameters has registered, it obtains none of other parameters, and it destroys none that an object
refers to. -/
structure Process.Pools (p : Process) (c : Creation) : Prop where
  same : ∀ i j, p.registered c.parameters = some i → p.obtained c = some j → j = i
  own : ∀ i held, p.obtained c = some i → p.conns[i]? = some held → held.parameters = c.parameters
  spares : ∀ o ∈ p.objects, o.live = true → (p.world o.conn).isSome →
    ((p.construct c).world o.conn).isSome

/-- No call with the same parameters has registered a connection, the key that is looked up is not
registered, and under the key to be registered there is no connection that an object refers to. -/
structure Process.Clear (p : Process) (c : Creation) : Prop where
  unregistered : p.registered c.parameters = none
  unfound : p.persistentList.lookup c.parameters.findKey = none
  unreferred : ∀ i, p.persistentList.lookup c.parameters.updateKey = some i →
    ∀ o ∈ p.objects, o.live = true → o.conn ≠ i

/-- Every constructor call among the events that makes a persistent object is as `Q` says in the state it
is made in. -/
def EveryCall (P : Platform) (syncCounter : Int64) (events : List Event)
    (Q : Process → Creation → Prop) : Prop :=
  ∀ before c after p, events = before ++ .construct c :: after → c.Valid → c.isPersistent = true →
    Reaches P syncCounter before p → Q p c

/-! ## The ids of streams -/

/-- The streams of two objects are looked for and opened with different ids, those of one object always
with the same. -/
structure IdsApart (a b : BeeObject) : Prop where
  apart : ∀ x ∈ a.ids, ∀ y ∈ b.ids, x ≠ y
  left : ∀ x ∈ a.ids, ∀ y ∈ a.ids, x = y
  right : ∀ x ∈ b.ids, ∀ y ∈ b.ids, x = y

/-- Whatever happens in a process, the ids of two persistent objects made with these parameters are
apart. -/
def StreamsApart (P : Platform) (q r : Parameters) : Prop :=
  ∀ (syncCounter : Int64) (events : List Event) (p : Process), Reaches P syncCounter events p →
    ∀ a ∈ p.objects, ∀ b ∈ p.objects, a.isPersistent = true → b.isPersistent = true →
      a.parameters = q → b.parameters = r → IdsApart a b

end BeePhp
