import OsLabs.Foundation.CString

/-!
# Client requests

`http_request_t` of `lab3/include/http_utils.h` as a record of strings that fit their arrays, and
the check that `__handle_client` makes before it serves a request.
-/

namespace OsLabs.Proxy

/-- `http_request_t`; `header_count` is the length of `headers`. -/
structure HttpRequest where
  /-- `method[HTTP_METHOD_LEN]`. -/
  method : CharArray 8
  /-- `version[HTTP_VERSION_LEN]`. -/
  version : CharArray 16
  /-- `path[HTTP_PATH_LEN]`. -/
  path : CharArray 512
  /-- `body[HTTP_BODY_LEN]`. -/
  body : CharArray 512
  /-- `headers[HTTP_HEADER_COUNT][HTTP_HEADER_LEN]`, the first `header_count` of them. -/
  headers : List (CharArray 256)
  deriving DecidableEq

/-- The text `HTTP/1.0`. -/
def http10 : CString := ⟨CString.ascii ['H', 'T', 'T', 'P', '/', '1', '.', '0'], by decide⟩

/-- The text `HTTP/1.1`. -/
def http11 : CString := ⟨CString.ascii ['H', 'T', 'T', 'P', '/', '1', '.', '1'], by decide⟩

/-- The only path that is refused. -/
def refusedPath : CString :=
  ⟨CString.ascii ['h', 't', 't', 'p', ':', '/', '/', 'o', '.', 'p', 'k', 'i', '.', 'g', 'o', 'o',
    'g', '/', 'w', 'e', '2'], by decide⟩

/-- `__validate_request(request) == 0`. -/
def validateRequest (request : HttpRequest) : Bool :=
  (CString.agree request.version.toCString http10 16 ||
    CString.agree request.version.toCString http11 16) &&
  !CString.agree request.path.toCString refusedPath 512

/-- The request `method path HTTP/1.1` without headers or body. -/
def plainRequest (method : CharArray 8) (path : CharArray 512) : HttpRequest where
  method := method
  version := ⟨http11, by decide⟩
  path := path
  body := ⟨CString.empty, by decide⟩
  headers := []

/-- The method `GET`. -/
def methodGet : CharArray 8 := ⟨⟨CString.ascii ['G', 'E', 'T'], by decide⟩, by decide⟩

/-- The method `POST`. -/
def methodPost : CharArray 8 := ⟨⟨CString.ascii ['P', 'O', 'S', 'T'], by decide⟩, by decide⟩

/-- The path `http://a/`. -/
def samplePath : CharArray 512 :=
  ⟨⟨CString.ascii ['h', 't', 't', 'p', ':', '/', '/', 'a', '/'], by decide⟩, by decide⟩

end OsLabs.Proxy
