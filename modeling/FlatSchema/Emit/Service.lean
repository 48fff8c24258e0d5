import FlatSchema.Emit.Draft

/-!
# Services in generated modules

A service becomes a table of its methods, a client class, an interface of
handlers and a function that registers handlers with a server.
-/

namespace FlatSchema.Emit

def streamsIn : StreamingMode → Bool
  | .client | .bidi => true
  | _ => false

def streamsOut : StreamingMode → Bool
  | .server | .bidi => true
  | _ => false

def callHelper : StreamingMode → String
  | .none => "unaryCall"
  | .server => "serverStreamingCall"
  | .client => "clientStreamingCall"
  | .bidi => "bidiStreamingCall"

def serverHook : StreamingMode → String
  | .none => "handleUnary"
  | .server => "handleServerStreaming"
  | .client => "handleClientStreaming"
  | .bidi => "handleBidiStreaming"

def argumentName (mode : StreamingMode) : String :=
  if streamsIn mode then "requests" else "request"

variable (method : Catalog.Method)

/-- A method with its argument, the kind of its context and the wrapper of its response. -/
def signature (last wrapper : Code) : Code :=
  let req := entryName "" method.request "Object"
  let arg : Code :=
    if streamsIn method.streaming then "requests: AsyncIterable<" ++ req ++ ">"
    else "request: " ++ req
  s!"{MemberName.camelCase method.name}(" ++ arg ++ ", " ++ last ++ "): " ++ wrapper ++ "<" ++
    entryName "" method.response "Object" ++ ">"

def codecExpr (t : Nat) : Code :=
  "\x7b encode: " ++ entryName "serialize" t "" ++ ", decode: " ++ entryName "deserialize" t "" ++
    " \x7d"

def methodDefinition (service : String) : Draft :=
  enclose (s!"{MemberName.camelCase method.name}: " ++ runtime "defineMethod" ++ "(") "),"
    [.line (quoted service ++ ","), .line (quoted method.name ++ ","),
      .line (quoted method.streaming.name ++ ","), .line (codecExpr method.request ++ ","),
      .line (codecExpr method.response ++ ",")]

def clientMethod (methods : String) : Draft :=
  let mode := method.streaming
  let wrapper : Code := if streamsOut mode then runtime "ServerStream" else "Promise"
  .blank :: .doc method.doc ::
    braces (signature method ("options?: " ++ runtime "CallOptions") wrapper)
      [.line ("return " ++ runtime (callHelper mode) ++
        s!"(this.transport, {methods}.{MemberName.camelCase method.name}, " ++
        s!"{argumentName mode}, options);")]

def handlerMember : Draft :=
  let wrapper := if streamsOut method.streaming then "AsyncIterable" else "Promise"
  [.doc method.doc, .line (signature method ("context: " ++ runtime "CallContext") wrapper ++ ";")]

def handlerRegistration (methods : String) : Element :=
  let mem := MemberName.camelCase method.name
  let arg := argumentName method.streaming
  let hook := serverHook method.streaming
  .line s!"server.{hook}({methods}.{mem}, ({arg}, context) => handlers.{mem}({arg}, context));"

def serviceModule (e : Catalog.Entry) (ty : Catalog.ServiceType) : Draft :=
  let name := e.name
  let methods := name ++ "Methods"
  bracesThen (exported "const" methods ++ " =") " as const;"
      (ty.methods.flatMap fun method => methodDefinition method e.fullName) ++
    .blank :: .doc e.doc :: braces (exported "class" (name ++ "Client"))
      (.line ("constructor(private readonly transport: " ++ runtime "RpcTransport" ++
          ") \x7b\x7d") ::
        ty.methods.flatMap fun method => clientMethod method methods) ++
    .blank :: braces (exported "interface" (name ++ "Handlers"))
      (ty.methods.flatMap handlerMember) ++
    .blank :: braces (exported "function" ("register" ++ name) ++ "(server: " ++
        runtime "RpcServer" ++ s!", handlers: {name}Handlers): void")
      (ty.methods.map fun method => handlerRegistration method methods) ++
    [.blank]

end FlatSchema.Emit
