import Nocturne.Lib.Percent
import Nocturne.Lib.Steps
import Nocturne.Numbers

/-!
# The client of Syncthing

`syncthing_api.c` is the one place from which the daemon speaks to a network. It keeps the address
and the key of `config.xml` in globals, and a test may put another address in front of it. The
library that sends the requests, and the contents of `config.xml`, are parameters of the calls.
-/

namespace Nocturne

open Lib

/-! ### Texts -/

/-- `strstr`, as an index. -/
def strpos (needle s : Text) : Option Nat :=
  (List.range (s.length + 1)).find? fun i ↦ needle.isPrefixOf (s.drop i)

/-- `atoi`: what `strtol` returns, cut down to an `int`. -/
def atoi (s : Text) : Int := ((strtol s).getD 0).bmod (2 ^ 32)

/-- A text at the last of some byte, as `strrchr` finds it. -/
def splitLast (c : UInt8) (s : Text) : Option (Text × Text) :=
  match s.reverse.dropWhile (· ≠ c) with
  | [] => none
  | _ :: front => some (front.reverse, (s.reverse.takeWhile (· ≠ c)).reverse)

/-! ### The state -/

/-- The globals of `syncthing_api.c`, lines 40–49. -/
structure SyncthingApi where
  initialized : Bool
  host : Text
  port : Int
  apiKey : Text
  configLoaded : Bool
  testHost : Text
  testPort : Int
  useTestEndpoint : Bool
  deriving DecidableEq, Repr

/-- A request that the library sends. -/
structure Request where
  verb : Text
  url : Text
  headers : List Text
  body : Text
  deriving DecidableEq, Repr

/-- How the calls of the library go: the status that the peer answers with, where the transfer comes to
its end, and the chunks of the body that came, also before a transport error. -/
structure CurlReplies where
  globalInit : Bool
  easyInit : Bool
  easyEscape : Text → Option Text
  status : Option Int
  body : List Text

/-- What `syncthing_get_config` sees of the world. -/
structure SyncthingEnv where
  xdgConfigHome : Option Text
  home : Option Text
  contents : Text → Option Text

namespace SyncthingApi

def start : SyncthingApi := ⟨false, [], 0, [], false, [], 0, false⟩

/-- `syncthing_api_set_test_endpoint`, `syncthing_api.c:51–63`. -/
def setTestEndpoint (s : SyncthingApi) (host : Option Text) (port : Int) : SyncthingApi :=
  match host with
  | some host =>
    { s with testHost := host.take 63, testPort := port.bmod (2 ^ 32), useTestEndpoint := true }
  | none => { s with useTestEndpoint := false, testHost := [], testPort := 0 }

/-- `syncthing_api_init`, `syncthing_api.c:65–71`. -/
def init (s : SyncthingApi) (ok : Bool) : Bool × SyncthingApi :=
  if s.initialized then (true, s)
  else if ok then (true, { s with initialized := true })
  else (false, s)

/-- `syncthing_api_cleanup`, `syncthing_api.c:73–82`. -/
def cleanup (s : SyncthingApi) : SyncthingApi :=
  { s with
    initialized := false
    configLoaded := false
    host := []
    port := 0
    apiKey := []
    useTestEndpoint := false }

/-! ### `config.xml` -/

/-- `xml_extract`, `syncthing_api.c:84–106`. -/
def xmlExtract (block tag : Text) (size : Nat) : Option Text := do
  let o ← strpos (ascii "<" ++ tag ++ ascii ">") block
  let inner := block.drop (o + (tag.length + 2))
  let c ← strpos (ascii "</" ++ tag ++ ascii ">") inner
  some (inner.take (min c (size - 1)))

/-- The hosts of `is_loopback_host`, `syncthing_api.c:108–121`. -/
def loopbackHosts : List Text := [ascii "127.0.0.1", ascii "::1", ascii "[::1]", ascii "localhost"]

/-- `is_loopback_host`. -/
def isLoopbackHost (h : Text) : Bool := loopbackHosts.contains h

/-- A blank, a tabulator or the end of a line. -/
def isKeyBlank (c : UInt8) : Bool := c == 32 || c == 9 || c == 10 || c == 13

/-- Where `config.xml` is looked for, `syncthing_api.c:128–159`. -/
def configPath (dir : Option Text) (env : SyncthingEnv) : Option Text :=
  match dir.filter (· ≠ []) with
  | some dir => some ((dir ++ ascii "/config.xml").take 1023)
  | none =>
    let absolute : Option Text → Option Text := fun v ↦ v.filter fun v ↦ v.head? = some 47
    (((absolute env.xdgConfigHome).toList.map fun xdg ↦ xdg ++ ascii "/syncthing/config.xml") ++
      (absolute env.home).toList.flatMap fun home ↦
        [home ++ ascii "/.local/state/syncthing/config.xml",
          home ++ ascii "/.config/syncthing/config.xml"]).map (·.take 1023)
      |>.find? fun path ↦ (env.contents path).isSome

/-- What is read of `config.xml`, `syncthing_api.c:161–221`: the host, the port and the key. -/
def guiSettings (bytes : Text) : Option (Text × Int × Text) := do
  let content := (bytes.take (1024 * 1024 - 1)).takeWhile (· ≠ 0)
  let o ← strpos (ascii "<gui") content
  let c ← strpos (ascii "</gui>") content
  if c ≤ o then none
  else
    let buf := (content.drop o).take (min (c - o) 1023)
    let addr ← xmlExtract buf (ascii "address") 128
    let (host, portText) ← splitLast 58 addr
    let port := atoi portText
    if port ≤ 0 ∨ 65535 < port then none
    else if isLoopbackHost host then
      let key ← xmlExtract buf (ascii "apikey") 128
      if key.all isKeyBlank then none
      else
        let host := if host = ascii "localhost" then ascii "127.0.0.1" else host
        some (host.take 63, port, key.take 127)
    else none

/-- `syncthing_get_config`, `syncthing_api.c:123–226`. -/
def getConfig (s : SyncthingApi) (dir : Option Text) (env : SyncthingEnv) : Int × SyncthingApi :=
  match ((configPath dir env).bind env.contents).bind guiSettings with
  | some (host, port, key) => (0, { s with host, port, apiKey := key, configLoaded := true })
  | none => (-1, s)

/-! ### Requests -/

def activeHost (s : SyncthingApi) : Text := if s.useTestEndpoint then s.testHost else s.host

def activePort (s : SyncthingApi) : Int := if s.useTestEndpoint then s.testPort else s.port

/-- `build_url`, `syncthing_api.c:245–271`, with `snprintf` into a buffer of `need` bytes. -/
def buildUrl (s : SyncthingApi) (path : Text) (query : Option Text) : Option Text :=
  let h := s.activeHost
  let port := s.activePort
  if !isLoopbackHost h ∨ port ≤ 0 then none
  else
    let scheme := if s.useTestEndpoint then ascii "http" else ascii "https"
    let need := 16 + h.length + 8 + path.length + 1 + query.elim 0 fun q ↦ q.length + 8
    let url := scheme ++ ascii "://" ++ h ++ ascii ":" ++ decimal port ++ path ++
      query.elim [] fun q ↦ if q = [] then [] else ascii "?" ++ q
    some (url.take (need - 1))

/-- The header with the key, in a buffer of 256 bytes. -/
def keyHeader (s : SyncthingApi) : Text := (ascii "X-API-Key: " ++ s.apiKey).take 255

/-- What a call makes of the answer. -/
def statusRc (status : Option Int) : Int := if status = some 200 then 0 else -1

/-- What the three requests have in common: `make` fills in the request for a handle. -/
def perform (s : SyncthingApi) (r : CurlReplies) (make : SyncthingApi → Option Request) :
    Int × SyncthingApi × Option Request :=
  if s.configLoaded then
    match s.init r.globalInit with
    | (false, s) => (-1, s, none)
    | (true, s) =>
      match (if r.easyInit then make s else none) with
      | some req => (statusRc r.status, s, some req)
      | none => (-1, s, none)
  else (1, s, none)

/-- The folder id of a call, where there is one. -/
def folderId (folder : Option Text) : Option Text := folder.filter (· ≠ [])

/-- The request of `syncthing_rescan`, `syncthing_api.c:282–304`. -/
def rescanRequest (r : CurlReplies) (id : Text) (s : SyncthingApi) : Option Request :=
  (r.easyEscape id).bind fun enc ↦
    (s.buildUrl (ascii "/rest/db/scan") (some ((ascii "folder=" ++ enc).take 1023))).map fun url ↦
      ⟨ascii "POST", url, [s.keyHeader], []⟩

/-- `syncthing_rescan`, `syncthing_api.c:273–328`. -/
def rescan (s : SyncthingApi) (folder : Option Text) (r : CurlReplies) :
    Int × SyncthingApi × Option Request :=
  match s.configLoaded, folderId folder with
  | true, none => (-1, s, none)
  | _, id => s.perform r fun s ↦ id.bind fun id ↦ rescanRequest r id s

/-- The request of `syncthing_put_folder_config`, `syncthing_api.c:340–359`. -/
def putRequest (r : CurlReplies) (id body : Text) (s : SyncthingApi) : Option Request :=
  (r.easyEscape id).bind fun enc ↦
    (s.buildUrl ((ascii "/rest/config/folders/" ++ enc).take 255) none).map fun url ↦
      ⟨ascii "PUT", url, [s.keyHeader, ascii "Content-Type: application/json"], body⟩

/-- `syncthing_put_folder_config`, `syncthing_api.c:330–386`. -/
def putFolderConfig (s : SyncthingApi) (folder body : Option Text) (r : CurlReplies) :
    Int × SyncthingApi × Option Request :=
  match s.configLoaded, folderId folder, body with
  | true, none, _ => (-1, s, none)
  | true, _, none => (-1, s, none)
  | _, id, body => s.perform r fun s ↦ id.bind fun id ↦ body.bind fun body ↦ putRequest r id body s

/-- The request of `syncthing_get_options`, `syncthing_api.c:428–438`. -/
def optionsRequest (s : SyncthingApi) : Option Request :=
  (s.buildUrl (ascii "/rest/config/options") none).map fun url ↦
    ⟨ascii "GET", url, [s.keyHeader], []⟩

/-- `struct write_to_buf`: what is in the buffer, and the length of all that came. -/
structure WriteToBuf where
  out : Text
  len : Nat

/-- `append_to_buf`, `syncthing_api.c:403–414`. -/
def appendToBuf (cap : Nat) (w : WriteToBuf) (chunk : Text) : WriteToBuf where
  out :=
    if 1 < cap ∧ w.len < cap - 1 then w.out ++ chunk.take (min chunk.length (cap - 1 - w.len))
    else w.out
  len := w.len + chunk.length

/-- `syncthing_get_options`, `syncthing_api.c:416–474`: the request, the body in the buffer up to
its NUL, and its length. -/
def getOptions (s : SyncthingApi) (cap : Nat) (r : CurlReplies) :
    (Int × SyncthingApi × Option Request) × WriteToBuf :=
  if s.configLoaded ∧ cap < 2 then ((-1, s, none), ⟨[], 0⟩)
  else
    let result := s.perform r optionsRequest
    let chunks := if result.2.2.isSome then r.body else []
    (result, chunks.foldl (appendToBuf cap) ⟨[], 0⟩)

/-! ### Calls -/

/-- A call of the client, with what the world makes of it. -/
inductive ApiCall
  | setTestEndpoint (host : Option Text) (port : Int)
  | init (ok : Bool)
  | cleanup
  | getConfig (dir : Option Text) (env : SyncthingEnv)
  | rescan (folder : Option Text) (r : CurlReplies)
  | putFolderConfig (folder body : Option Text) (r : CurlReplies)
  | getOptions (cap : Nat) (r : CurlReplies)

namespace ApiCall

/-- What a call returns, what it leaves behind, and the request it sends. -/
def run (s : SyncthingApi) : ApiCall → Int × SyncthingApi × Option Request
  | setTestEndpoint host port => (0, s.setTestEndpoint host port, none)
  | init ok => (if (s.init ok).1 then 0 else -1, (s.init ok).2, none)
  | cleanup => (0, s.cleanup, none)
  | getConfig dir env => ((s.getConfig dir env).1, (s.getConfig dir env).2, none)
  | rescan folder r => s.rescan folder r
  | putFolderConfig folder body r => s.putFolderConfig folder body r
  | getOptions cap r => (s.getOptions cap r).1

/-- The replies of the library to a call that sends a request. -/
def replies : ApiCall → Option CurlReplies
  | rescan _ r | putFolderConfig _ _ r | getOptions _ r => some r
  | _ => none

end ApiCall

/-! ### What the calls have set -/

/-- The address and the key of a configuration. -/
structure GuiConfig where
  host : Text
  port : Int
  key : Text

/-- The configuration that the last calls loaded, and the test endpoint in front of it. -/
structure Peers where
  config : Option GuiConfig
  test : Option (Text × Int)

namespace Peers

def unset : Peers := ⟨none, none⟩

/-- What a call sets. -/
def next (p : Peers) : ApiCall → Peers
  | .setTestEndpoint (some host) port =>
    { p with test := some (host.take 63, port.bmod (2 ^ 32)) }
  | .setTestEndpoint none _ => { p with test := none }
  | .cleanup => unset
  | .getConfig dir env =>
    match ((configPath dir env).bind env.contents).bind guiSettings with
    | some (host, port, key) => { p with config := some ⟨host, port, key⟩ }
    | none => p
  | _ => p

/-- Where a request goes: to the test endpoint, or else to the address of the configuration. -/
def address (p : Peers) (c : GuiConfig) : Text × Int := p.test.getD (c.host, c.port)

def scheme (p : Peers) : Text := if p.test.isSome then ascii "http" else ascii "https"

end Peers

/-- A request for the folder `id`: the last part of its address names that folder exactly when the
escaped name fits into the buffer that it is put into. -/
def NamesFolder (front : Text) (room : Nat) (id target : Text) : Prop :=
  ∃ name, target = front ++ name ∧
    (Percent.decode name = some id ↔ (Percent.escape id).length ≤ room)

/-- The request that a call is for. -/
def ApiCall.Makes (req : Request) (target : Text) : ApiCall → Prop
  | .rescan (some id) _ =>
    req.verb = ascii "POST" ∧ req.body = [] ∧
      NamesFolder (ascii "/rest/db/scan?folder=") 1016 id target
  | .putFolderConfig (some id) (some body) _ =>
    req.verb = ascii "PUT" ∧ req.body = body ∧
      NamesFolder (ascii "/rest/config/folders/") 234 id target
  | .getOptions _ _ =>
    req.verb = ascii "GET" ∧ req.body = [] ∧ target = ascii "/rest/config/options"
  | _ => False

/-- A request carries the key of the configuration to a loopback address, which is the one of the
configuration unless a test endpoint is set. -/
structure Confined (p : Peers) (call : ApiCall) (req : Request) (c : GuiConfig) : Prop where
  config : p.config = some c
  loopback : isLoopbackHost (p.address c).1 = true ∧ 0 < (p.address c).2
  configured : p.test = none → c.host ≠ ascii "localhost" ∧ c.port ≤ 65535
  key : req.headers.head? = some (ascii "X-API-Key: " ++ c.key) ∧ c.key.all isKeyBlank = false
  url : ∃ target, call.Makes req target ∧
    req.url = p.scheme ++ ascii "://" ++ (p.address c).1 ++ ascii ":" ++ decimal (p.address c).2 ++
      target
  visible : ∀ b ∈ req.url, 0x21 ≤ b ∧ b < 0x7F

/-- What a call that asks for a request comes to. -/
structure Outcome (p : Peers) (call : ApiCall) (rc : Int) (sent : Option Request) : Prop where
  confined : ∀ req ∈ sent, ∃ c, Confined p call req c
  unloaded : ∀ r ∈ call.replies, (rc = 1 ↔ p.config = none)
  done : ∀ r ∈ call.replies, (rc = 0 ↔ sent.isSome ∧ r.status = some 200)

/-! ### What one step comes to -/

section

variable {s : SyncthingApi} {p : Peers} {call : ApiCall} {r : CurlReplies} {c : GuiConfig}

/-- What a configuration that was loaded looks like. -/
structure GuiConfig.Sound (c : GuiConfig) : Prop where
  host : isLoopbackHost c.host = true ∧ c.host ≠ ascii "localhost"
  port : 0 < c.port ∧ c.port ≤ 65535
  key : c.key.length ≤ 127 ∧ c.key.all isKeyBlank = false

/-- The globals hold what the calls have set. -/
structure Agrees (s : SyncthingApi) (p : Peers) : Prop where
  loaded : s.configLoaded = p.config.isSome
  config : ∀ c ∈ p.config, c.Sound ∧ s.host = c.host ∧ s.port = c.port ∧ s.apiKey = c.key
  tested : s.useTestEndpoint = p.test.isSome
  test : ∀ t ∈ p.test, s.testHost = t.1 ∧ s.testPort = t.2 ∧ t.2 < 2 ^ 31

/-- The loopback hosts are those of the list. -/
theorem isLoopbackHost_iff {h : Text} : isLoopbackHost h = true ↔ h ∈ loopbackHosts := by
  simp [isLoopbackHost]

/-- The loopback hosts are short and visible, and `localhost` is replaced by an address of the list.
-/
theorem loopbackHosts_spec : ∀ h ∈ loopbackHosts, h.length ≤ 63 ∧
    (∀ b ∈ h, 0x21 ≤ b ∧ b < 0x7F) ∧
    (if h = ascii "localhost" then ascii "127.0.0.1" else h) ∈ loopbackHosts ∧
    (if h = ascii "localhost" then ascii "127.0.0.1" else h) ≠ ascii "localhost" := by
  decide +kernel

/-- What is extracted fits its buffer. -/
theorem length_xmlExtract {block tag v : Text} {size : Nat}
    (h : xmlExtract block tag size = some v) : v.length ≤ size - 1 := by
  simp only [xmlExtract, Option.bind_eq_bind, Option.bind_eq_some_iff, Option.some.injEq] at h
  obtain ⟨o, -, c, -, rfl⟩ := h
  simp only [List.length_take]
  omega

/-- Only a loopback address is loaded, with a port and a key. -/
theorem sound_guiSettings {bytes host key : Text} {port : Int}
    (h : guiSettings bytes = some (host, port, key)) : GuiConfig.Sound ⟨host, port, key⟩ := by
  simp only [guiSettings, Option.bind_eq_bind, Option.bind_eq_some_iff] at h
  obtain ⟨o, -, e, -, h⟩ := h
  split at h
  · cases h
  simp only [Option.bind_eq_some_iff] at h
  obtain ⟨addr, -, ⟨written, digits⟩, -, h⟩ := h
  split at h
  · cases h
  rename_i hport
  split at h
  · rename_i hloop
    simp only [Option.bind_eq_some_iff] at h
    obtain ⟨found, hfound, h⟩ := h
    split at h
    · cases h
    rename_i hblank
    simp only [Option.some.injEq, Prod.mk.injEq] at h
    obtain ⟨rfl, rfl, rfl⟩ := h
    obtain ⟨-, -, hmem, hne⟩ := loopbackHosts_spec _ (isLoopbackHost_iff.mp hloop)
    have hlen := length_xmlExtract hfound
    rw [List.take_of_length_le (loopbackHosts_spec _ hmem).1, List.take_of_length_le hlen]
    refine ⟨⟨isLoopbackHost_iff.mpr hmem, hne⟩, ?_, hlen, by simpa using hblank⟩
    dsimp only at hport ⊢
    omega
  · cases h

/-- What the library has started does not matter. -/
theorem Agrees.init (h : Agrees s p) (ok : Bool) : Agrees (s.init ok).2 p := by
  unfold SyncthingApi.init
  split
  · exact h
  · split
    · exact ⟨h.loaded, h.config, h.tested, h.test⟩
    · exact h

/-- The client with what its calls have set. -/
def step (sp : SyncthingApi × Peers) (call : ApiCall) : SyncthingApi × Peers :=
  ((call.run sp.1).2.1, sp.2.next call)

/-- A test endpoint is set on both sides. -/
theorem Agrees.set (h : Agrees s p) {host : Text} {port : Int} :
    Agrees (s.setTestEndpoint (some host) port) (p.next (.setTestEndpoint (some host) port)) where
  loaded := h.loaded
  config := h.config
  tested := rfl
  test := by
    rintro t ⟨⟩
    exact ⟨rfl, rfl, Int.bmod_lt (by decide)⟩

/-- A configuration is loaded on both sides. -/
theorem Agrees.getConfig (h : Agrees s p) {dir : Option Text} {env : SyncthingEnv} :
    Agrees (s.getConfig dir env).2 (p.next (.getConfig dir env)) := by
  simp only [SyncthingApi.getConfig, Peers.next]
  cases hread : ((configPath dir env).bind env.contents).bind guiSettings with
  | none => exact h
  | some found =>
    obtain ⟨host, port, key⟩ := found
    obtain ⟨bytes, -, hbytes⟩ := Option.bind_eq_some_iff.mp hread
    refine ⟨rfl, ?_, h.tested, h.test⟩
    rintro c ⟨⟩
    exact ⟨sound_guiSettings hbytes, rfl, rfl, rfl⟩

example : (rescanRequest ⟨true, true, fun id ↦ some (Percent.escape id), none, []⟩
    (ascii "sync files")
    { start with host := ascii "127.0.0.1", port := 8384, apiKey := ascii "k" }).map (·.url) =
      some (ascii "https://127.0.0.1:8384/rest/db/scan?folder=sync%20files") := by decide +kernel

/-- The buffer holds the answer up to its size, and the length tells what did not fit. -/
theorem appendToBuf_foldl {cap : Nat} (hcap : 1 < cap) (chunks : List Text) (body : Text) :
    chunks.foldl (appendToBuf cap) ⟨body.take (cap - 1), body.length⟩ =
      ⟨(body ++ chunks.flatten).take (cap - 1), (body ++ chunks.flatten).length⟩ := by
  induction chunks generalizing body with
  | nil => simp
  | cons chunk chunks ih =>
    have happend : appendToBuf cap ⟨body.take (cap - 1), body.length⟩ chunk =
        ⟨(body ++ chunk).take (cap - 1), (body ++ chunk).length⟩ := by
      simp only [appendToBuf, List.length_append, hcap, true_and, List.take_append]
      split
      · rw [Nat.min_comm, ← List.take_take, List.take_length]
      · rename_i hfull
        have hzero : cap - 1 - body.length = 0 := by omega
        rw [hzero, List.take_zero, List.append_nil]
    rw [List.foldl_cons, happend, ih (body ++ chunk), List.flatten_cons, List.append_assoc]

/-- The buffer has the beginning of the reply, and the length is that of all of it. -/
theorem getOptions_buffer {cap : Nat} {s : SyncthingApi} {r : CurlReplies} {req : Request}
    (h : (s.getOptions cap r).1.2.2 = some req) :
    (s.getOptions cap r).2 = ⟨r.body.flatten.take (cap - 1), r.body.flatten.length⟩ := by
  unfold getOptions at h ⊢
  split
  · rename_i hsmall
    rw [if_pos hsmall] at h
    cases h
  · rename_i hroom
    rw [if_neg hroom] at h
    have hcap : 1 < cap := by
      by_contra hsmall
      have hloaded : s.configLoaded = false := by
        cases hl : s.configLoaded with
        | false => rfl
        | true => exact absurd ⟨hl, by omega⟩ hroom
      simp [perform, hloaded] at h
    dsimp only at h ⊢
    rw [h, Option.isSome_some, if_pos rfl]
    simpa using appendToBuf_foldl hcap r.body []

end

end SyncthingApi

end Nocturne
