import BeaverMQ.Model.Amqp
import BeaverMQ.Model.AuthDb

/-!
# BeaverMQ — the management API (`http.c`)

One HTTP connection: the bytes read so far, the request at their front, the authentication of
that request, which may wait for a password hash computed on another thread, and the routing once
the level is known. What the server cannot decide by itself is an `Oracle` of the event.

The contents of the JSON documents and of the static files are left out. `World.log` is
bookkeeping: every call of `cfg_apply` and every response, with the request head, the store that
was asked for the level and the password verification that had just ended.
-/

namespace BeaverMQ.Http

open Amqp (ascii copyStr)

/-! ## Text -/

/-- `tolower` of the C locale. -/
def lower (c : UInt8) : UInt8 := if 65 ≤ c && c ≤ 90 then c + 32 else c

/-- `strncasecmp(s, name, strlen(name)) == 0`. -/
def startsWithCase (s name : Bytes) : Bool := (s.take name.length).map lower = name.map lower

/-- `http_header_end`: where the first empty line begins. -/
def headerEnd : Bytes → Option Nat
  | [] => none
  | c :: rest =>
    if (c :: rest).take 4 = [13, 10, 13, 10] then some 0 else (headerEnd rest).map (· + 1)

/-- The request head with its empty line, or everything. -/
def requestHead (inbuf : Bytes) : Bytes := (headerEnd inbuf).elim inbuf fun n => inbuf.take (n + 4)

/-- What is behind the first line that starts with `name`, if more than `slack` bytes are left
there. `atStart` says whether a line starts here. -/
def scanHeader (name : Bytes) (slack : Nat) : Bool → Bytes → Option Bytes
  | _, [] => none
  | atStart, c :: rest =>
    if slack < (c :: rest).length && atStart && startsWithCase (c :: rest) name then
      some ((c :: rest).drop name.length)
    else scanHeader name slack (c = 10) rest

def skipSpaces (s : Bytes) : Bytes := s.dropWhile (· = 32)

def lineOf (s : Bytes) : Bytes := s.takeWhile fun c => c ≠ 13 && c ≠ 10

/-- `crypto_ct_memcmp`. -/
def ctMemcmp (a b : Bytes) : UInt8 := (a.zip b).foldl (fun d xy => d ||| (xy.1 ^^^ xy.2)) 0

/-- `http_has_bootstrap_token`: the first such header decides. -/
def hasBootstrapToken (token head : Bytes) : Bool :=
  if token = [] then false
  else match scanHeader (ascii "X-Bootstrap-Token:") 18 true head with
    | none => false
    | some v =>
      let value := lineOf (skipSpaces v)
      if value.length ≠ token.length then false else ctMemcmp value token = 0

def b64Val (c : UInt8) : Option UInt32 :=
  if 65 ≤ c && c ≤ 90 then some (c - 65).toUInt32
  else if 97 ≤ c && c ≤ 122 then some ((c - 97).toUInt32 + 26)
  else if 48 ≤ c && c ≤ 57 then some ((c - 48).toUInt32 + 52)
  else if c = 43 then some 62
  else if c = 47 then some 63
  else none

/-- The loop of `b64_decode`. -/
def b64Loop (cap : Nat) : Bytes → UInt32 → Nat → Bytes → Option Bytes
  | [], _, _, out => some out
  | c :: rest, acc, bits, out =>
    if c = 61 then some out
    else match b64Val c with
      | none => none
      | some v =>
        let acc := ((acc <<< 6) ||| v) &&& 0xFFFFFF
        if 8 ≤ bits + 6 then
          let bits := bits + 6 - 8
          if cap ≤ out.length + 1 then none
          else b64Loop cap rest acc bits (out ++ [((acc >>> UInt32.ofNat bits) &&& 0xFF).toUInt8])
        else b64Loop cap rest acc (bits + 6) out

/-- `b64_decode`; nothing decoded is an error to its caller. -/
def b64Decode (cap : Nat) (s : Bytes) : Option Bytes :=
  (b64Loop cap s 0 0 []).filter fun out => out ≠ []

/-- The credentials that `mgmt_auth_start` finds: the user, and what is behind the colon. -/
def basicCredentials (head : Bytes) : Option (Bytes × Bytes) :=
  match scanHeader (ascii "Authorization:") 21 true head with
  | none => none
  | some v =>
    let v := skipSpaces v
    if !startsWithCase v (ascii "Basic") then none
    else match b64Decode 300 (lineOf (skipSpaces (v.drop 5))) with
      | none => none
      | some plain =>
        -- the buffer is a C string from here on
        let plain := cstr plain
        let user := plain.takeWhile (· ≠ 58)
        if plain.length ≤ user.length then none
        else if authstoreNameMax ≤ user.length then none
        else some (user, plain.drop (user.length + 1))

/-! ## The store -/

def authTagAdministrator : UInt32 := 1
def authTagManagement : UInt32 := 2

/-- `authstore_lookup_hash`. -/
def lookupHash (s : AuthDb.Store) (user : Bytes) : Option Bytes :=
  (s.users.find? fun u => u.name.bytes = user).map fun u => u.hash.bytes

/-- `authstore_user_tags`. -/
def userTags (s : AuthDb.Store) (user : Bytes) : UInt32 :=
  (s.users.find? fun u => u.name.bytes = user).elim 0 fun u => u.tags

def mgmtLevelFromTags (tags : UInt32) : Int :=
  if tags &&& authTagAdministrator ≠ 0 then 2
  else if tags &&& authTagManagement ≠ 0 then 1
  else -1

/-! ## Connections -/

/-- What does not change while the server runs. `jstr` is the string member of a JSON body
under a key, and `passwordMatches` what `hash_matches` says of a stored hash and a password. -/
structure Cfg where
  token : Bytes := []
  maxBodyBytes : Nat := 16 * 1024 * 1024
  webRoot : Bytes := ascii "web"
  cluster : Bool := false
  jstr : Bytes → Bytes → Option Bytes := fun _ _ => none
  passwordMatches : Bytes → Bytes → Bool := fun _ _ => false

/-- What an event finds out while it runs: whether the buffer grows, the response can be written,
the work object can be allocated and queued; whether `authlimit` lets the request through; the
hash of a new password; the health of the cluster and what applying a change returns; and what
other threads do to the store between two calls into it. -/
structure Oracle where
  grows : Bool := true
  writes : Bool := true
  work : Bool := true
  queued : Bool := true
  admits : Bool := true
  hash : Option Bytes := none
  healthy : Bool := true
  rc : Int := 0
  between : AuthDb.Store → AuthDb.Store := id

/-- `http_auth_work_t`. `asked` is bookkeeping: the store in which `stored` was looked up. -/
structure AuthWork where
  user : Bytes
  pass : Bytes
  stored : Option Bytes
  method : Bytes
  path : Bytes
  asked : AuthDb.Store
  deriving DecidableEq

/-- `w->result`, which `http_auth_work_cb` computes. -/
def AuthWork.result (cfg : Cfg) (w : AuthWork) : Bool :=
  w.stored.any fun hash => hash ≠ [] && cfg.passwordMatches hash w.pass

/-- The documents of the API. -/
inductive Document
  | healthz
  | whoami (user level : Bytes)
  | overview
  | queues
  | exchanges
  | connections
  | cluster
  | vhosts
  | users
  | permissions
  | index
  deriving DecidableEq

/-- What leaves the connection. -/
inductive Output
  | cfgApply (op : AuthDb.Mutation)
  /-- The answer to a change that was applied. -/
  | applied
  | document (d : Document)
  | error (status : Nat) (message : Bytes)
  /-- `http_respond_401`. -/
  | unauthorized
  /-- `serve_static` goes to the file system for this name. -/
  | file (name : Bytes)
  deriving DecidableEq

/-- An output and what led to it: the request head, the store as it was asked for the level, and
the password verification that had just ended. -/
structure Entry where
  output : Output
  head : Bytes
  asked : Option AuthDb.Store
  work : Option AuthWork
  deriving DecidableEq

/-- `struct http_conn` and what it shares with the rest of the server. `store` is `none` when
there is no access-control store, and `freed` when the handles are closed. -/
structure World where
  inbuf : Bytes := []
  closing : Bool := false
  responded : Bool := false
  reading : Bool := true
  pendingAuth : Option AuthWork := none
  freed : Bool := false
  store : Option AuthDb.Store
  log : List Entry := []
  deriving DecidableEq

/-! ## Responses

The functions of the source that take a connection take and give a `World` here. `Ctx` is what
they have at hand besides; its last two fields are bookkeeping, the store that was asked for the
level and the verification that just ended. -/

structure Ctx where
  cfg : Cfg
  oracle : Oracle
  asked : Option AuthDb.Store
  work : Option AuthWork := none

def World.note (w : World) (c : Ctx) (out : Output) : World :=
  { w with log := w.log ++ [⟨out, requestHead w.inbuf, c.asked, c.work⟩] }

/-- `http_conn_close`. -/
def World.close (w : World) : World := { w with closing := true }

variable (c : Ctx) (w : World)

/-- `http_respond`: one response, and the connection is closed when it cannot be written. -/
def respond (out : Output) : World :=
  if w.responded || w.closing then w
  else
    let w := { w with responded := true }
    if c.oracle.writes then w.note c out else w.close

/-- `http_respond_error`. -/
def respondError (status : Nat) (message : Bytes) : World :=
  respond c w (.error status message)

/-- `http_respond_401`, which does not look at `responded` and does not set it. -/
def respond401 : World :=
  if c.oracle.writes then w.note c .unauthorized else w.close

def serveStatic (path : Bytes) : World :=
  let rel := if path = ascii "/" then ascii "/index.html" else path
  if rel.head? ≠ some 47 || ([46, 46] : Bytes) <:+: rel then
    respondError c w 403 (ascii "invalid path")
  else if 1024 ≤ (c.cfg.webRoot ++ rel).length then
    respondError c w 414 (ascii "path too long")
  else respond c w (.file (c.cfg.webRoot ++ rel))

/-! ## Changes -/

/-- `cfg_apply`: through the cluster when there is one, else on the store. -/
def cfgApply (op : AuthDb.Mutation) : World × Int :=
  let called := w.note c (.cfgApply op)
  match w.store with
  | none => (called, -1)
  | some s =>
    if c.cfg.cluster then (called, if c.oracle.healthy then c.oracle.rc else -2)
    else ({ called with store := some (op.run s).1 }, c.oracle.rc)

def mgmtNameOk (s : Bytes) : Bool :=
  s ≠ [] && s.length < authstoreNameMax && s.all fun c => 0x20 ≤ c && c ≠ 0x7f

def hexnib (c : UInt8) : Option UInt8 :=
  if 48 ≤ c && c ≤ 57 then some (c - 48)
  else
    let c := c ||| 0x20
    if 97 ≤ c && c ≤ 102 then some (c - 97 + 10) else none

/-- `url_decode`; `none` is a malformed escape. -/
def urlDecode : Bytes → Option Bytes
  | [] => some []
  | c :: rest =>
    if c = 37 then
      match rest with
      | hi :: lo :: rest => do
        let h ← hexnib hi
        let l ← hexnib lo
        return (h <<< 4 ||| l) :: (← urlDecode rest)
      | _ => none
    else do return (if c = 43 then 32 else c) :: (← urlDecode rest)

def parseTags (s : Bytes) : UInt32 :=
  (s.splitOnP fun c => c = 44 || c = 32 || c = 9 || c = 59).foldl (fun tags token =>
    if token = ascii "administrator" then tags ||| authTagAdministrator
    else if token = ascii "management" then tags ||| authTagManagement
    else tags) 0

def respondCfgResult (r : World × Int) (badRequest : Bytes) : World :=
  if r.2 = -2 then
    respondError c r.1 503 (ascii "cluster has no leader/quorum; check /api/cluster")
  else if r.2 ≠ 0 then respondError c r.1 400 badRequest
  else respond c r.1 .applied

/-- The change that a POST asks for, with the message for a bad one; `none` is another path. The
password of a new user is hashed last. -/
def postChange (path body : Bytes) : Option (Option AuthDb.Mutation × Bytes) :=
  let jstr (key dflt : Bytes) : Bytes := cstr ((c.cfg.jstr body key).getD dflt)
  let short (s : Bytes) : Bool := s.length < authstoreRegexMax
  if path = ascii "/api/vhosts" then
    let name := jstr (ascii "name") []
    some (if mgmtNameOk name then some (.addVhost name) else none, ascii "missing/invalid 'name'")
  else if path = ascii "/api/users" then
    let name := jstr (ascii "name") []
    let tags := parseTags (jstr (ascii "tags") [])
    some (if mgmtNameOk name && jstr (ascii "password") [] ≠ [] then
        c.oracle.hash.map fun hash => .addUser name hash tags
      else none, ascii "missing 'name'/'password'")
  else if path = ascii "/api/permissions" then
    let user := jstr (ascii "user") []
    let vhost := jstr (ascii "vhost") []
    let conf := jstr (ascii "configure") (ascii ".*")
    let wr := jstr (ascii "write") (ascii ".*")
    let rd := jstr (ascii "read") (ascii ".*")
    some (if mgmtNameOk user && mgmtNameOk vhost && short conf && short wr && short rd then
        some (.setPerm user vhost conf wr rd)
      else none, ascii "missing/invalid 'user'/'vhost'/pattern")
  else none

/-- The change that a DELETE asks for; `none` is another path, and on the left is the message for
a bad one. -/
def deleteChange (path : Bytes) : Option (Bytes ⊕ AuthDb.Mutation) :=
  let decode (s : Bytes) : Option Bytes := (urlDecode (copyStr 256 s)).map cstr
  let named (s : Bytes) (op : Bytes → AuthDb.Mutation) : Bytes ⊕ AuthDb.Mutation :=
    match decode s with
    | none => .inl (ascii "malformed percent-escape")
    | some name => .inr (op name)
  if ascii "/api/vhosts/" <+: path then some (named (path.drop 12) .delVhost)
  else if ascii "/api/users/" <+: path then some (named (path.drop 11) .delUser)
  else if ascii "/api/permissions/" <+: path then
    let rest := path.drop 17
    let user := rest.takeWhile (· ≠ 47)
    if rest.length ≤ user.length then some (.inl (ascii "need user/vhost"))
    else match decode user, decode (rest.drop (user.length + 1)) with
      | some user, some vhost => some (.inr (.clearPerm user vhost))
      | _, _ => some (.inl (ascii "malformed percent-escape"))
  else none

/-- `handle_mgmt`; `none` when the path is not its own. -/
def handleMgmt (method path body : Bytes) : Option World :=
  if method = ascii "POST" then
    (postChange c path body).map fun (change, badRequest) =>
      match change with
      | none => respondCfgResult c (w, -1) badRequest
      | some op => respondCfgResult c (cfgApply c w op) badRequest
  else if method = ascii "DELETE" then
    (deleteChange path).map fun change =>
      match change with
      | .inl message => respondError c w 400 message
      | .inr op => respondCfgResult c (cfgApply c w op) (ascii "delete failed")
  else none

/-! ## Routing -/

/-- The document of a GET, for the given user and level. -/
def documentAt (path user : Bytes) (level : Int) : Option Document :=
  if path = ascii "/api/whoami" then
    some (.whoami user (if level = 3 then ascii "open"
      else if level = 2 then ascii "administrator" else ascii "user"))
  else if path = ascii "/api/overview" then some .overview
  else if path = ascii "/api/queues" then some .queues
  else if path = ascii "/api/exchanges" then some .exchanges
  else if path = ascii "/api/connections" then some .connections
  else if path = ascii "/api/cluster" then some .cluster
  else if path = ascii "/api/vhosts" then some .vhosts
  else if path = ascii "/api/users" then some .users
  else if path = ascii "/api/permissions" then some .permissions
  else if path = ascii "/api" then some .index
  else none

/-- The endpoints that answer a POST or DELETE with 405. -/
def readOnly (path : Bytes) : Bool :=
  path = ascii "/api/overview" || path = ascii "/api/queues" || path = ascii "/api/exchanges" ||
    path = ascii "/api/connections" || path = ascii "/api/cluster" || path = ascii "/api"

def requestBody (inbuf : Bytes) : Bytes := (headerEnd inbuf).elim [] fun n => inbuf.drop (n + 4)

/-- `http_dispatch_level`. Levels: 3 bootstrap window, 2 administrator, 1 management, 0 no or bad
credentials, -1 no management tag, -2 rate limited. -/
def httpDispatchLevel (method path : Bytes) (level : Int) (user : Bytes) : World :=
  if w.closing || w.responded then w
  else if level = 0 then respond401 c w
  else if level = -2 then respondError c w 429 (ascii "rate limited; slow down and retry")
  else if level < 0 then
    respondError c w 403 (ascii "administrator or management tag required")
  else if method = ascii "POST" || method = ascii "DELETE" then
    if level = 1 then respondError c w 403 (ascii "administrator tag required")
    else match handleMgmt c w method path (requestBody w.inbuf) with
      | some w => w
      | none =>
        if readOnly path then respondError c w 405 (ascii "read-only endpoint")
        else respondError c w 404 (ascii "no such API resource")
  else if method ≠ ascii "GET" then respondError c w 405 (ascii "GET/POST/DELETE only")
  else match documentAt path user level with
    | some d => respond c w (.document d)
    | none =>
      if ascii "/api" <+: path then respondError c w 404 (ascii "no such API resource")
      else serveStatic c w path

/-! ## Authentication -/

/-- `http_auth_after_cb` on a connection that is still there; nothing cancels a verification. -/
def httpAuthAfterCb (cfg : Cfg) (o : Oracle) (w : World) (work : AuthWork) : World :=
  let c : Ctx := { cfg, oracle := o, asked := w.store, work := some work }
  let after := { w with pendingAuth := none, store := w.store.map o.between }
  if work.result cfg then
    httpDispatchLevel c after work.method work.path
      (mgmtLevelFromTags (w.store.elim 0 fun s => userTags s work.user)) work.user
  else httpDispatchLevel c after work.method work.path 0 []

def mgmtAuthStart (cfg : Cfg) (o : Oracle) (w : World) (method path head : Bytes) : World :=
  let c : Ctx := { cfg, oracle := o, asked := w.store }
  let after := { w with store := w.store.map o.between }
  let window : World :=
    httpDispatchLevel c after method path (if hasBootstrapToken cfg.token head then 3 else 0) []
  match w.store with
  | none => window
  | some s =>
    if AuthDb.authstoreIsOpen s then window
    else match basicCredentials head with
      | none => httpDispatchLevel c after method path 0 []
      | some (user, pass) =>
        if !o.admits then httpDispatchLevel c after method path (-2) []
        else if !o.work then respondError c after 500 (ascii "out of memory")
        else
          let work : AuthWork :=
            { user, pass := copyStr 256 pass, stored := lookupHash (o.between s) user
              method := copyStr 8 method, path := copyStr 256 path, asked := o.between s }
          let stopped := { after with reading := false }
          if o.queued then { stopped with pendingAuth := some work }
          else respondError c stopped 500 (ascii "failed to start auth")

/-! ## Requests -/

/-- The request line as `handle_request` cuts it. -/
def requestLine (inbuf : Bytes) : Option (Bytes × Bytes) :=
  let method := inbuf.takeWhile (· ≠ 32)
  let rest := inbuf.drop (method.length + 1)
  let path := rest.takeWhile (· ≠ 32)
  if inbuf.length ≤ method.length then none
  else if rest.length ≤ path.length then none
  else some (copyStr 8 method, copyStr 256 (path.takeWhile (· ≠ 63)))

def handleRequest (cfg : Cfg) (o : Oracle) (w : World) : World :=
  let c : Ctx := { cfg, oracle := o, asked := w.store }
  match requestLine w.inbuf with
  | none => respondError c w 400 (ascii "malformed request line")
  | some (method, path) =>
    if method = ascii "GET" && path = ascii "/api/healthz" then respond c w (.document .healthz)
    else mgmtAuthStart cfg o w method path (requestHead w.inbuf)

def isBlank (c : UInt8) : Bool := c = 32 || c = 9

/-- The value of a `Content-Length` header: `strtoul` and the checks around it. -/
def readLength (v : Bytes) : Option Nat :=
  let v := v.dropWhile isBlank
  let digits := v.takeWhile fun c => 48 ≤ c && c ≤ 57
  let val := digits.foldl (fun n d => 10 * n + (d.toNat - 48)) 0
  if digits = [] || 2 ^ 64 ≤ val then none
  else match (v.drop digits.length).dropWhile isBlank with
    | c :: _ => if c = 13 || c = 10 then some val else none
    | [] => none

/-- `http_content_length` at a place `left` bytes before the empty line; `seen` is the value so
far. -/
def contentLengthFrom : Bool → Nat → Bytes → Option Nat → Option Nat
  | _, _, [], seen => some (seen.getD 0)
  | atStart, left, c :: rest, seen =>
    if left ≤ 15 then some (seen.getD 0)
    else if atStart && startsWithCase (c :: rest) (ascii "Content-Length:") then
      match readLength ((c :: rest).drop 15) with
      | none => none
      | some val =>
        if seen.any (· ≠ val) then none
        else contentLengthFrom (c = 10) (left - 1) rest (some val)
    else contentLengthFrom (c = 10) (left - 1) rest seen

def httpMaxHeader : Nat := 64 * 1024

/-- `on_http_read` with data. -/
def onHttpRead (cfg : Cfg) (o : Oracle) (w : World) (data : Bytes) : World :=
  let c : Ctx := { cfg, oracle := o, asked := w.store }
  if !o.grows then respondError c w 500 (ascii "out of memory")
  else
    let w := { w with inbuf := w.inbuf ++ data }
    if httpMaxHeader < (requestHead w.inbuf).length then
      respondError c w 431 (ascii "header too large")
    else match headerEnd w.inbuf with
      | none => w
      | some he =>
        match contentLengthFrom true he w.inbuf none with
        | none => respondError c w 400 (ascii "invalid or conflicting Content-Length")
        | some clen =>
          if cfg.maxBodyBytes < clen then respondError c w 413 (ascii "request body too large")
          else if he + 4 + clen ≤ w.inbuf.length then handleRequest cfg o w
          else w

/-! ## Events -/

inductive Event
  | read (data : Bytes) (o : Oracle)
  /-- The end of the stream, an error, the request timeout, a response that was written, or the
  shutdown of the server. -/
  | hangUp
  /-- The handles are closed and the connection is freed. -/
  | handlesClosed
  /-- The hash was computed. -/
  | authDone (o : Oracle)
  /-- Another connection or thread changes the store. -/
  | storeChanges (s : Option AuthDb.Store)

def step (cfg : Cfg) (w : World) : Event → Option World
  | .read data o =>
    if w.reading && !w.closing then some (onHttpRead cfg o w data) else none
  | .hangUp => some w.close
  | .handlesClosed =>
    if w.closing then some { w with freed := true, pendingAuth := none } else none
  | .authDone o => w.pendingAuth.map fun work => httpAuthAfterCb cfg o w work
  | .storeChanges s => some { w with store := s }

def start (store : Option AuthDb.Store) : World := { store }

end BeaverMQ.Http
