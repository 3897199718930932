import Broko.Amqp.Content

/-! `src/amqp/frame.h` and `src/amqp/methods.h`. -/

namespace Broko.Amqp

def FRAME_METHOD : UInt8 := 1
def FRAME_HEADER : UInt8 := 2
def FRAME_BODY : UInt8 := 3
def FRAME_HEARTBEAT : UInt8 := 8
def FRAME_END : UInt8 := 0xCE

def PROTOCOL_HEADER : Bytes := ascii "AMQP" ++ [0, 0, 9, 1]

structure Frame where
  type : UInt8 := 0
  channel : UInt16 := 0
  payload : Bytes := []
  deriving DecidableEq, Repr

/-- A frame as it stands on the wire. --/
def Frame.encode (f : Frame) : Bytes :=
  writeUint8 f.type ++ writeUint16 f.channel ++ writeUint32 (UInt32.ofNat f.payload.length) ++ f.payload ++
    writeUint8 FRAME_END

namespace class_id
def CONNECTION : UInt16 := 10
def CHANNEL : UInt16 := 20
def EXCHANGE : UInt16 := 40
def QUEUE : UInt16 := 50
def BASIC : UInt16 := 60
def CONFIRM : UInt16 := 85
def TX : UInt16 := 90
end class_id

namespace connection_method
def START : UInt16 := 10
def START_OK : UInt16 := 11
def TUNE : UInt16 := 30
def TUNE_OK : UInt16 := 31
def OPEN : UInt16 := 40
def OPEN_OK : UInt16 := 41
def CLOSE : UInt16 := 50
def CLOSE_OK : UInt16 := 51
end connection_method

namespace channel_method
def OPEN : UInt16 := 10
def OPEN_OK : UInt16 := 11
def FLOW : UInt16 := 20
def FLOW_OK : UInt16 := 21
def CLOSE : UInt16 := 40
def CLOSE_OK : UInt16 := 41
end channel_method

namespace exchange_method
def DECLARE : UInt16 := 10
def DECLARE_OK : UInt16 := 11
def DELETE : UInt16 := 20
def DELETE_OK : UInt16 := 21
end exchange_method

namespace queue_method
def DECLARE : UInt16 := 10
def DECLARE_OK : UInt16 := 11
def BIND : UInt16 := 20
def BIND_OK : UInt16 := 21
def PURGE : UInt16 := 30
def PURGE_OK : UInt16 := 31
def DELETE : UInt16 := 40
def DELETE_OK : UInt16 := 41
def UNBIND : UInt16 := 50
def UNBIND_OK : UInt16 := 51
end queue_method

namespace basic_method
def QOS : UInt16 := 10
def QOS_OK : UInt16 := 11
def CONSUME : UInt16 := 20
def CONSUME_OK : UInt16 := 21
def CANCEL : UInt16 := 30
def CANCEL_OK : UInt16 := 31
def PUBLISH : UInt16 := 40
def RETURN : UInt16 := 50
def DELIVER : UInt16 := 60
def GET : UInt16 := 70
def GET_OK : UInt16 := 71
def GET_EMPTY : UInt16 := 72
def ACK : UInt16 := 80
def REJECT : UInt16 := 90
def RECOVER_ASYNC : UInt16 := 100
def RECOVER : UInt16 := 110
def RECOVER_OK : UInt16 := 111
def NACK : UInt16 := 120
end basic_method

namespace confirm_method
def SELECT : UInt16 := 10
def SELECT_OK : UInt16 := 11
end confirm_method

namespace tx_method
def SELECT : UInt16 := 10
def SELECT_OK : UInt16 := 11
def COMMIT : UInt16 := 20
def COMMIT_OK : UInt16 := 21
def ROLLBACK : UInt16 := 30
def ROLLBACK_OK : UInt16 := 31
end tx_method

namespace reply_code
def CONTENT_TOO_LARGE : UInt16 := 311
def NO_ROUTE : UInt16 := 312
def INVALID_PATH : UInt16 := 402
def ACCESS_REFUSED : UInt16 := 403
def NOT_FOUND : UInt16 := 404
def RESOURCE_LOCKED : UInt16 := 405
def PRECONDITION_FAILED : UInt16 := 406
def FRAME_ERROR : UInt16 := 501
def COMMAND_INVALID : UInt16 := 503
def CHANNEL_ERROR : UInt16 := 504
def NOT_IMPLEMENTED : UInt16 := 540
end reply_code

/-- The frame that `sendMethodFrame` builds. --/
def methodFrame (channel classId methodId : UInt16) (args : Bytes) : Frame :=
  { type := FRAME_METHOD, channel, payload := writeUint16 classId ++ writeUint16 methodId ++ args }

end Broko.Amqp
