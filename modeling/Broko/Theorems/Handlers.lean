import Broko.Broker.Server

/-! The dispatch of methods, once for all properties. A property of the state that every method handler of a
    channel keeps is kept by `Channel::handleMethod`. -/

namespace Broko.Broker
open Amqp Storage

namespace AmqpServer

/-- The state that a handler has got to, whether it returns or throws. --/
def outcome : Outcome → AmqpServer
  | .ok s => s
  | .error s => s

theorem outcome_withArgs {α : Type} {P : AmqpServer → Prop} {read : Read α} {buf : Buffer} {s : AmqpServer}
    {k : α → AmqpServer} (h : P s) (hk : ∀ args, P (k args)) : P (outcome (withArgs read buf s k)) := by
  rw [withArgs]
  split
  · exact h
  · exact hk _

/-- The same where the arguments that can be read have a property. --/
theorem outcome_withArgs_of {α : Type} {P : AmqpServer → Prop} {Q : α → Prop} {read : Read α} {buf : Buffer}
    {s : AmqpServer} {k : α → AmqpServer} (hr : Reader.Yields read Q) (h : P s) (hk : ∀ args, Q args → P (k args)) :
    P (outcome (withArgs read buf s k)) := by
  rw [withArgs]
  split
  · exact h
  · rename_i args rest hread
    exact hk args (hr buf args rest hread)

theorem outcome_ite {P : AmqpServer → Prop} {p : Prop} [Decidable p] {a b : Outcome} (ha : P (outcome a))
    (hb : P (outcome b)) : P (outcome (if p then a else b)) := by
  split
  · exact ha
  · exact hb

/-- The same where the test is known in each branch. --/
theorem outcome_ite_of {P : AmqpServer → Prop} {p : Prop} [Decidable p] {a b : Outcome} (ha : p → P (outcome a))
    (hb : ¬p → P (outcome b)) : P (outcome (if p then a else b)) := by
  split
  · rename_i h
    exact ha h
  · rename_i h
    exact hb h

/-- Every method handler of the channel leads to a state with the property, which may depend on the method. --/
structure Handlers (P : UInt16 → UInt16 → AmqpServer → Prop) (c : Nat) (num : UInt16) (s : AmqpServer) : Prop where
  exchangeDeclare : ∀ buf, P class_id.EXCHANGE exchange_method.DECLARE (outcome (s.handleExchangeDeclare c num buf))
  exchangeDelete : ∀ buf, P class_id.EXCHANGE exchange_method.DELETE (outcome (s.handleExchangeDelete c num buf))
  queueDeclare : ∀ buf, P class_id.QUEUE queue_method.DECLARE (outcome (s.handleQueueDeclare c num buf))
  queueBind : ∀ buf, P class_id.QUEUE queue_method.BIND (outcome (s.handleQueueBind c num buf))
  queueUnbind : ∀ buf, P class_id.QUEUE queue_method.UNBIND (outcome (s.handleQueueUnbind c num buf))
  queuePurge : ∀ buf, P class_id.QUEUE queue_method.PURGE (outcome (s.handleQueuePurge c num buf))
  queueDelete : ∀ buf, P class_id.QUEUE queue_method.DELETE (outcome (s.handleQueueDelete c num buf))
  basicQos : ∀ buf, P class_id.BASIC basic_method.QOS (outcome (s.handleBasicQos c num buf))
  basicConsume : ∀ buf, P class_id.BASIC basic_method.CONSUME (outcome (s.handleBasicConsume c num buf))
  basicCancel : ∀ buf, P class_id.BASIC basic_method.CANCEL (outcome (s.handleBasicCancel c num buf))
  basicPublish : ∀ buf, P class_id.BASIC basic_method.PUBLISH (outcome (s.handleBasicPublish c num buf))
  basicGet : ∀ buf, P class_id.BASIC basic_method.GET (outcome (s.handleBasicGet c num buf))
  basicAck : ∀ buf, P class_id.BASIC basic_method.ACK (outcome (s.handleBasicAck c num buf))
  basicReject : ∀ buf, P class_id.BASIC basic_method.REJECT (outcome (s.handleBasicReject c num buf))
  basicRecover : ∀ buf, P class_id.BASIC basic_method.RECOVER (outcome (s.handleBasicRecover c num buf))
  basicRecoverAsync : ∀ buf, P class_id.BASIC basic_method.RECOVER_ASYNC (outcome (s.handleBasicRecover c num buf))
  basicNack : ∀ buf, P class_id.BASIC basic_method.NACK (outcome (s.handleBasicNack c num buf))
  confirmSelect : ∀ buf, P class_id.CONFIRM confirm_method.SELECT (outcome (s.handleConfirmSelect c num buf))
  tx : ∀ methodId okId, P class_id.TX methodId (outcome (s.handleTx c num okId))
  notImplemented : ∀ classId methodId, P classId methodId (s.notImplemented c num classId methodId)

/-- A branch of the dispatch, at its method. --/
theorem outcome_method {P : UInt16 → AmqpServer → Prop} {id id' : UInt16} {a b : Outcome} (ha : P id' (outcome a))
    (hb : P id (outcome b)) : P id (outcome (if id = id' then a else b)) := by
  split
  · rename_i h
    exact h ▸ ha
  · exact hb

theorem Handlers.handleMethod {P : UInt16 → UInt16 → AmqpServer → Prop} {c : Nat} {num : UInt16} {s : AmqpServer}
    (h : Handlers P c num s) (classId methodId : UInt16) (buf : Buffer) :
    P classId methodId (outcome (s.handleMethod c num classId methodId buf)) := by
  have hni : ∀ classId, P classId methodId (outcome (.ok (s.notImplemented c num classId methodId))) :=
    fun classId => h.notImplemented classId methodId
  unfold AmqpServer.handleMethod
  refine outcome_ite_of ?exchange fun _ => outcome_ite_of ?queue fun _ => outcome_ite_of ?basic fun _ =>
    outcome_ite_of ?confirm fun _ => outcome_ite_of ?tx fun _ => hni classId
  case exchange =>
    rintro rfl
    exact outcome_method (h.exchangeDeclare buf) (outcome_method (h.exchangeDelete buf) (hni _))
  case queue =>
    rintro rfl
    exact outcome_method (h.queueDeclare buf) (outcome_method (h.queueBind buf) (outcome_method (h.queueUnbind buf)
      (outcome_method (h.queuePurge buf) (outcome_method (h.queueDelete buf) (hni _)))))
  case basic =>
    rintro rfl
    exact outcome_method (h.basicQos buf) (outcome_method (h.basicConsume buf) (outcome_method (h.basicCancel buf)
      (outcome_method (h.basicPublish buf) (outcome_method (h.basicGet buf) (outcome_method (h.basicAck buf)
        (outcome_method (h.basicReject buf) (outcome_method (h.basicRecover buf) (outcome_method (h.basicRecoverAsync buf)
          (outcome_method (h.basicNack buf) (hni _))))))))))
  case confirm =>
    rintro rfl
    exact outcome_method (h.confirmSelect buf) (hni _)
  case tx =>
    rintro rfl
    exact outcome_ite (h.tx methodId _) (outcome_ite (h.tx methodId _) (outcome_ite (h.tx methodId _) (hni _)))

end AmqpServer
end Broko.Broker
