import Tumgrd.World

/-! `runner.c` above `exec_with_stdio`: the argument lists and scripts of the
two tools, what is logged about them, and how their results are read. -/
namespace Tumgrd

/-- `sanitize_comment` into a buffer of `size` bytes. -/
def sanitizeComment (src : Str) (size : Nat) : Str :=
  trim ((src.take (size - 1)).map fun c => if c = '\n' || c = '\r' then ' ' else c)

def ipVersionFlag (ipVersion : Str) : Option Str :=
  if streqcase ipVersion "4".toList || streqcase ipVersion "ipv4".toList ||
      streqcase ipVersion "-4".toList then
    some "-4".toList
  else if streqcase ipVersion "6".toList || streqcase ipVersion "ipv6".toList ||
      streqcase ipVersion "-6".toList then
    some "-6".toList
  else none

/-- An argument after which `log_argv` hides the next one. -/
def isSecretName (arg : Str) : Bool := streqcase arg "psk".toList || streqcase arg "xor".toList

/-- The loop of `log_argv`, from offset `off` of its 2048-byte buffer on. -/
def argvText (off : Nat) (sensitiveNext : Bool) : List Str → Str
  | [] => []
  | arg :: rest =>
      if off < 2048 - 32 then
        let piece := ' ' :: if sensitiveNext then "****".toList else arg
        piece ++ argvText (off + piece.length) (isSecretName arg) rest
      else []

def argvLine (tag : Str) (argv : List Str) : Str :=
  let head := "[runner] ".toList ++ tag ++ " exec:".toList
  (head ++ argvText head.length false argv).take 2047

def logArgv (tag : Str) (argv : List Str) : Prog Unit := log .debug (argvLine tag argv)

def logTrimmed (tag script : Str) : Prog Unit := log .info (tag ++ ": ".toList ++ trim script)

def tuctlArgv (n : Node) : List Str :=
  ["tuctl_client".toList] ++ (ipVersionFlag n.ipVersion.text).toList ++
    ["max-retries".toList, "1".toList, "psk".toList, n.psk.text, "server".toList,
      n.serverHost.text, "server-port".toList, decimal n.serverPort, "script".toList, "-".toList]

def tuctlCall (n : Node) (script : Str) : Invocation :=
  ⟨tuctlArgv n, some script, if n.hasMemlimit then some n.memlimit else none⟩

/-- The marker is looked for in both trimmed outputs. -/
def ExecResult.shows (result : ExecResult) (marker : Str) : Bool :=
  marker <:+: trim result.stdout || marker <:+: trim result.stderr

/-- `run_tuctl_script` accepts the result. -/
def ExecResult.acknowledges (result : ExecResult) (marker : Str) : Bool :=
  result.rc = 0 && (marker = [] || result.shows marker)

def runTuctlScript (issue : Issue) (script marker : Str) : Prog Int := do
  let n := issue.node
  logArgv "tuctl_client".toList (tuctlArgv n)
  let result ← exec issue (tuctlCall n script)
  log .info ("[runner] tuctl_client uid=".toList ++ n.uid.text ++ " server=".toList ++
    n.serverHost.text ++ ":".toList ++ decimal n.serverPort ++ " client_port=".toList ++
    decimal n.clientPort ++ " rc=".toList ++ decimal result.rc ++ " stdout=".toList ++
    trim result.stdout ++ " stderr=".toList ++ trim result.stderr)
  if result.rc ≠ 0 then pure (-1)
  else if marker ≠ [] ∧ ¬result.shows marker then do
    log .error ("[runner] success marker missing: marker=".toList ++ marker)
    pure (-1)
  else pure 0

def runKtuctl (issue : Issue) (argv : List Str) : Prog Int := do
  logArgv "ktuctl".toList argv
  let result ← exec issue ⟨argv, none, none⟩
  log .info ("[runner] ktuctl rc=".toList ++ decimal result.rc ++ " stdout=".toList ++
    trim result.stdout ++ " stderr=".toList ++ trim result.stderr)
  pure result.rc

def serverUpdated : Str := "server updated:".toList
def serverDeleted : Str := "server deleted:".toList

def commentSuffix (n : Node) : Str :=
  let comment := sanitizeComment n.clientComment.text 256
  if comment = [] then [] else (Buf.copy (" comment ".toList ++ comment) : Buf 280).text

def xorSuffix (n : Node) : Str :=
  if n.xorKey.text = [] then [] else (Buf.copy (" xor ".toList ++ n.xorKey.text) : Buf 140).text

def serverAddScript (n : Node) (address : Str) : Str :=
  "server-add uid ".toList ++ n.uid.text ++ " port ".toList ++ decimal n.clientPort ++
    " address ".toList ++ address ++ xorSuffix n ++ commentSuffix n ++ "\n".toList

def serverDelScript (n : Node) : Str := "server-del uid ".toList ++ n.uid.text ++ "\n".toList

/-- The attempt with the address the daemon detected itself. -/
def serverAddDetected (n : Node) (currentIp : Str) : Prog Int := do
  let script := serverAddScript n currentIp
  logTrimmed "[runner] server add stdin (detected ip)".toList script
  runTuctlScript ⟨.serverAdd, n, currentIp⟩ script serverUpdated

def serverAdd (n : Node) (cfg : Config) (currentIp : Str) : Prog Int :=
  if currentIp = [] then pure (-1)
  else if cfg.useClientIp then do
    let script := serverAddScript n "@client_ip@".toList
    logTrimmed "[runner] server add stdin (client_ip placeholder)".toList script
    let rc ← runTuctlScript ⟨.serverAdd, n, currentIp⟩ script serverUpdated
    if rc = 0 then pure 0
    else do
      -- a timeout is no sign of an old server: no second deadline is spent on it
      let late ← readTimedOut
      if late then do
        log .error ("[runner] subprocess timed out, skipping detected-ip fallback uid=".toList ++
          n.uid.text)
        pure (-1)
      else do
        log .info ("[runner] @client_ip@ not supported, falling back to detected ip=".toList ++
          currentIp ++ " uid=".toList ++ n.uid.text)
        serverAddDetected n currentIp
  else serverAddDetected n currentIp

def serverDel (n : Node) : Prog Int := do
  let script := serverDelScript n
  logTrimmed "[runner] server del stdin".toList script
  runTuctlScript ⟨.serverDel, n, []⟩ script serverDeleted

def clientAddArgv (n : Node) : List Str :=
  ["ktuctl".toList] ++ (ipVersionFlag n.ipVersion.text).toList ++
    ["client-add".toList, "address".toList, n.serverHost.text, "port".toList,
      decimal n.clientPort, "uid".toList, n.uid.text] ++
    (if n.description.text = [] then [] else ["comment".toList, n.description.text]) ++
    (if n.xorKey.text = [] then [] else ["xor".toList, n.xorKey.text])

def clientDelArgv (n : Node) : List Str :=
  ["ktuctl".toList] ++ (ipVersionFlag n.ipVersion.text).toList ++
    ["client-del".toList, "address".toList, n.serverHost.text, "uid".toList, n.uid.text]

def clientAdd (n : Node) : Prog Int := runKtuctl ⟨.clientAdd, n, []⟩ (clientAddArgv n)

def clientDel (n : Node) : Prog Int := runKtuctl ⟨.clientDel, n, []⟩ (clientDelArgv n)

/-- A failed `client-del` is ignored, one that timed out is not. -/
def resetLocalClient (n : Node) : Prog Int := do
  let _ ← clientDel n
  let late ← readTimedOut
  if late then pure (-1)
  else clientAdd n

end Tumgrd
