import Broko.Amqp.Content

/-! `src/broker/message.h`. -/

namespace Broko.Broker
open Amqp

structure Message where
  exchange : Bytes := []
  routing_key : Bytes := []
  mandatory : Bool := false
  immediate : Bool := false
  properties : BasicProperties := {}
  body : Bytes := []
  redelivered : Bool := false
  /-- `steady_clock` reading in nanoseconds. -/
  enqueued_at : Int := 0
  /-- The id of the message's WAL record, 0 for none. -/
  wal_id : UInt64 := 0
  source_connection_id : Nat := 0
  dlx_hops : Nat := 0
  deriving Repr

namespace Message

def isPersistent (m : Message) : Bool := m.properties.delivery_mode == some 2

def effectivePriority (m : Message) : UInt8 := m.properties.priority.getD 0

end Message
end Broko.Broker
