import BeePhp.Msgpack.Value
import BeePhp.Proto

/-!
# Requests

What the request encoders are for. A `Request` is a request with its arguments, `Request.docs` are the
documents its payload consists of, and `frame` puts the length of a payload before it.
-/

namespace BeePhp

open Codec

/-- A request with the arguments its encoder takes. -/
inductive Request where
  | ping
  | select (spaceNo indexNo limit offset iterator : UInt32) (key : Zval)
  | insertOrReplace (spaceNo : UInt32) (tuple : Zval) (type : UInt32)
  | delete (spaceNo indexNo : UInt32) (key : Zval)
  | call (proc : Bytes) (tuple : Zval)
  | eval (proc : Bytes) (tuple : Zval)
  | update (spaceNo indexNo : UInt32) (key args : Zval)
  | upsert (spaceNo : UInt32) (tuple args : Zval)

/-- Run the encoder of a request. -/
def Request.encode (ndebug : Bool) (H : Heap) (str : SmartString) (c : Counts) (sync : UInt32) :
    Request → Except Fault (SmartString × Counts)
  | .ping => do return (← phpTpEncodePing ndebug str sync, c)
  | .select spaceNo indexNo limit offset iterator key =>
    phpTpEncodeSelect ndebug H str c sync spaceNo indexNo limit offset iterator key
  | .insertOrReplace spaceNo tuple type =>
    phpTpEncodeInsertOrReplace ndebug H str c sync spaceNo tuple type
  | .delete spaceNo indexNo key => phpTpEncodeDelete ndebug H str c sync spaceNo indexNo key
  | .call proc tuple => phpTpEncodeCall ndebug H str c sync proc tuple
  | .eval proc tuple => phpTpEncodeEval ndebug H str c sync proc tuple
  | .update spaceNo indexNo key args =>
    phpTpEncodeUpdate ndebug H str c sync spaceNo indexNo key args
  | .upsert spaceNo tuple args => phpTpEncodeUpsert ndebug H str c sync spaceNo tuple args

/-- The code of a request. -/
def Request.type : Request → UInt32
  | .ping => beexPing
  | .select .. => beexSelect
  | .insertOrReplace _ _ type => type
  | .delete .. => beexDelete
  | .call .. => beexCall
  | .eval .. => beexEval
  | .update .. => beexUpdate
  | .upsert .. => beexUpsert

/-- The fields of a request, each argument under its key. -/
def Request.fields : Request → List (UInt32 × Arg)
  | .ping => []
  | .select spaceNo indexNo limit offset iterator key =>
    [(beexSpace, .long spaceNo), (beexIndex, .long indexNo), (beexOffset, .long offset),
      (beexLimit, .long limit), (beexIterator, .long iterator), (beexKey, .zval key)]
  | .insertOrReplace spaceNo tuple _ => [(beexSpace, .long spaceNo), (beexTuple, .zval tuple)]
  | .delete spaceNo indexNo key =>
    [(beexSpace, .long spaceNo), (beexIndex, .long indexNo), (beexKey, .zval key)]
  | .call proc tuple => [(beexFunction, .string proc), (beexTuple, .zval tuple)]
  | .eval proc tuple => [(beexExpression, .string proc), (beexTuple, .zval tuple)]
  | .update spaceNo indexNo key args =>
    [(beexSpace, .long spaceNo), (beexIndex, .long indexNo), (beexKey, .zval key),
      (beexTuple, .zval args)]
  | .upsert spaceNo tuple args =>
    [(beexSpace, .long spaceNo), (beexTuple, .zval tuple), (beexOps, .zval args)]

/-- `php_tp_encode_insert_or_replace` is for these two requests. -/
def Request.Proper : Request → Prop
  | .insertOrReplace _ _ type => type = beexInsert ∨ type = beexReplace
  | _ => True

/-- The document of an argument. -/
def Arg.doc (H : Heap) : Arg → Doc
  | .long n => .ofNat n.toNat
  | .string c => .ofStr c
  | .zval val => zvalDoc H val

/-- The header of a request. -/
def headerDoc (type sync : UInt32) : Doc :=
  .ofPairs [(.ofNat beexCode.toNat, .ofNat type.toNat), (.ofNat beexSync.toNat, .ofNat sync.toNat)]

/-- A body with the given fields. -/
def bodyDoc (H : Heap) (fields : List (UInt32 × Arg)) : Doc :=
  .ofPairs (fields.map fun f => (.ofNat f.1.toNat, f.2.doc H))

/-- The documents a request consists of: a header and, but for `ping`, a body. -/
def Request.docs (H : Heap) (sync : UInt32) : Request → List Doc
  | .ping => [headerDoc beexPing sync]
  | r => [headerDoc r.type sync, bodyDoc H r.fields]

/-- The payload of a request. -/
def Request.payload (H : Heap) (r : Request) (sync : UInt32) : Bytes := encodeAll (r.docs H sync)

/-- A payload after its length. -/
def frame (payload : Bytes) : Bytes := 0xce :: toBE 4 payload.length ++ payload

end BeePhp
