import LibTasks.Net.HttpBase

/-!
# `tasks::net::http_request`

The HTTP request of `http_request.h` and `http_request.cpp`: a request is only
written.
-/

namespace LibTasks.Net

open LibTasks.Foundation LibTasks.Tools

/-- The fields of `http_request`. -/
structure HttpRequest extends HttpBase where
  host : Bytes
  url : Bytes := []
  port : Int := 80
  deriving DecidableEq

namespace HttpRequest

/-- `init_default_headers`. -/
def initDefaultHeaders (r : HttpRequest) : HttpRequest :=
  { r with headers := r.headers.insert (text "User-Agent") (text "libtasks") }

/-- The constructor. -/
def create (host : Bytes) (url : Bytes := []) (port : Int := 80) : HttpRequest :=
  initDefaultHeaders { host, url, port, headers := AList.singleton (text "Host") host }

/-- `set_url`. -/
def setUrl (r : HttpRequest) (url : Bytes) : HttpRequest := { r with url }

/-- `clear`, which keeps the host, the URL and the port. -/
def clear (r : HttpRequest) : HttpRequest :=
  let r := initDefaultHeaders { r with toHttpBase := r.toHttpBase.clear }
  { r with headers := r.headers.insert (text "Host") r.host }

/-- `prepare_data_buffer`, for an order of iteration over the header map.  Without
content the line for the content length is empty, but ended all the same. -/
def prepareDataBuffer (order : Headers → List (Bytes × Bytes)) (r : HttpRequest) :
    Except Fault HttpRequest :=
  if 0 < r.url.length then do
    let (method, ctlen) :=
      if r.contentBuffer.size = 0 then
        (text "GET ", [])
      else
        (text "POST ", text "Content-Length: " ++ decimal r.contentBuffer.size)
    let b ← r.dataBuffer.write method
    let b ← b.write r.url
    let b ← b.write (text " HTTP/1.1")
    let b ← b.write crlf
    let b ← (order r.headers).foldlM writeHeaderLine b
    let b ← b.write ctlen
    let b ← b.write crlf
    let dataBuffer ← b.write crlf
    .ok { r with dataBuffer }
  else
    .error .assertion

/-- `write_data`. -/
def writeData (order : Headers → List (Bytes × Bytes)) (r : HttpRequest) (sock : Socket) :
    Outcome HttpRequest :=
  if r.state = .ready then
    match r.prepareDataBuffer order with
    | .error f => ⟨.error (.fault f), r, sock⟩
    | .ok r =>
        let o := HttpBase.writePrepared { r.toHttpBase with state := .writeData } sock
        ⟨o.result, { r with toHttpBase := o.object }, o.socket⟩
  else
    let o := r.writePrepared sock
    ⟨o.result, { r with toHttpBase := o.object }, o.socket⟩

end HttpRequest

end LibTasks.Net
