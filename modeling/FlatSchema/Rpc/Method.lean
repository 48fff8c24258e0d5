import FlatSchema.Catalog
import FlatSchema.Rpc.Fault
import FlatSchema.Text.Utf8

/-!
# Methods of remote services

A method has a path made of its service and its name, a mode of streaming, and
a codec for each of its two kinds of message.
-/

namespace FlatSchema.Rpc

/-- How messages of one kind become bytes and come back; both ways may refuse. -/
structure Codec where
  encode : String → Except Fault (List UInt8)
  decode : List UInt8 → Except Fault String

namespace Codec

/-- Messages are UTF-8, read without a byte order mark; the codec refuses to write one given message
and to read another. -/
def utf8 (unwritable unreadable : Option String) : Codec where
  encode msg :=
    if unwritable = some msg then .error (.raised ("cannot encode " ++ msg))
    else .ok (Utf8.encode msg)
  decode bs :=
    let msg := Utf8.decodeString bs
    if unreadable = some msg then .error (.raised ("cannot decode " ++ msg))
    else .ok msg

def plain : Codec :=
  utf8 none none

end Codec

structure Method where
  service : String
  name : String
  streaming : StreamingMode
  request : Codec
  response : Codec

def Method.path (method : Method) : String :=
  "/" ++ method.service ++ "/" ++ method.name

end FlatSchema.Rpc
