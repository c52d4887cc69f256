import NodeManager.FastWriter
import NodeManager.Server

/-!
# The callbacks of the HTTP server

`HttpReqGetAllNodesCb` and `HttpReqStopNodeCb` on a state of the server. The
document of a reply is handed to `evbuffer_add_printf` as its format, without
arguments. The body of a request is copied into a buffer of 1024 bytes and
parsed from there as a string that ends at a NUL.
-/

namespace NodeManager.HttpReq

open ByteMemory CString Json
open Server (State)

/-- How a callback ends when it does not return. -/
inductive Stop
  /-- An exception of the JSON library leaves the callback. -/
  | thrown (error : Json.Error)
  /-- The copy leaves the buffer, or the string does not end in it. -/
  | buffer (fault : ByteMemory.Fault)
  /-- The format asks for arguments that were not passed. -/
  | format
  /-- Undefined behaviour in `Global`. -/
  | server (fault : Server.Fault)
  deriving DecidableEq

/-- A reply that was sent. -/
structure Reply where
  /-- The value that its document was written from. -/
  jsonData : Value
  /-- The body that `evbuffer_add_printf` made of the document. -/
  body : Str

/-- A parser of documents: its verdict and the value it leaves behind, where it
does not throw. -/
abbrev JsonParser := Str → Except Json.Error (Bool × Value)

variable (host : ByteOrder) (parse : JsonParser) (realToString : Double → Str)

/-- The part `res` that every reply starts from. -/
def successJson : Except Json.Error Value := do
  let jsonData ← Value.null.assign [chars "res"] .null
  let jsonData ← jsonData.assign [chars "res", chars "err_code"] (.int 0)
  jsonData.assign [chars "res", chars "err_msg"] (.string (chars "success"))

/-- `Global::GetAllNode` for the ips and names that it goes through. -/
def getAllNode (listing : List (Str × Str)) (jsonData : Value) : Except Json.Error Value := do
  let jsonData ← jsonData.assign [chars "node"] .null
  listing.foldlM
    (fun jsonData kv => jsonData.assign [chars "node", kv.1] (.string kv.2)) jsonData

/-- `evbuffer_add_printf(evbuf, strJson.c_str())` and `evhttp_send_reply`. -/
def sendReply (jsonData : Value) : Except Stop Reply :=
  match CString.format (upToNul (write realToString jsonData)) with
  | none => .error .format
  | some body => .ok ⟨jsonData, body⟩

/-- `HttpReqGetAllNodesCb` and its reply. -/
def httpReqGetAllNodesCb (s : State) : Except Stop Reply := do
  let jsonData ← successJson.mapError .thrown
  match s.getAllNode with
  | none => .error (.server .useAfterFree)
  | some listing =>
    let jsonData ← (getAllNode listing jsonData).mapError .thrown
    sendReply realToString jsonData

/-- The size of `buf` in `HttpReqStopNodeCb`. -/
def bufSize : ℕ := 1024

/-- What the parser is handed: the string in `buf` after the body was copied
there. -/
def handedToParser (body : Str) : Except ByteMemory.Fault Str := do
  let buf ← store (List.replicate bufSize 0) 0 body
  loadString buf

/-- `jsonPost["ip"].asString()`. -/
def ipOf (jsonPost : Value) : Except Json.Error Str := do
  let ip ← jsonPost.resolve (chars "ip")
  ip.asString realToString

/-- `HttpReqStopNodeCb`: the state it leaves behind and its replies. -/
def httpReqStopNodeCb (stack : Stack) (s : State) (body : Str) :
    Except Stop (State × List Reply) := do
  let document ← (handedToParser body).mapError .buffer
  let (_, jsonPost) ← (parse document).mapError .thrown
  let strIp ← (ipOf realToString jsonPost).mapError .thrown
  let jsonData ← successJson.mapError .thrown
  let s := s.delNode host stack strIp
  match s.fault with
  | some fault => .error (.server fault)
  | none =>
    let reply ← sendReply realToString jsonData
    return (s, [reply])

/-- The members of `res`. -/
def successMembers : List (Str × Value) :=
  [(chars "err_code", .int 0), (chars "err_msg", .string (chars "success"))]

theorem successJson_eq : successJson = .ok (.object [(chars "res", .object successMembers)]) := rfl

/-- Documents without a percent sign and a NUL are replied as they are, and only
they are. -/
theorem sendReply_eq_iff {jsonData : Value} (hnul : 0 ∉ write realToString jsonData) :
    sendReply realToString jsonData = .ok ⟨jsonData, write realToString jsonData⟩ ↔
      37 ∉ write realToString jsonData := by
  rw [sendReply, upToNul_eq_self_iff.mpr hnul, ← format_eq_self_iff]
  cases hformat : CString.format (write realToString jsonData) with
  | none => exact ⟨fun h => (nomatch h), fun h => (nomatch h)⟩
  | some body =>
    rw [Except.ok.injEq, Reply.mk.injEq, Option.some.injEq]
    exact and_iff_right rfl

end NodeManager.HttpReq
